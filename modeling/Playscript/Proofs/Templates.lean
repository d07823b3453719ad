import Mathlib.Data.Fintype.EquivFin
import Mathlib.Data.Fintype.Sets
import Playscript.Proofs.Segments

/-! # Templates and what they resolve to

    A template stands for a variable whose value is looked up later, and that value may hold
    templates again.  Resolving a text is looking up all its templates, and those in what is
    found, to the end; there is an end exactly as long as nothing leads back to itself
    (`Resolves.acc`, `resolves_of_acyclic`), and what comes out is one text
    (`Resolves.unique`).

    A text is woven if every brace in it belongs to a template.  Woven texts are cut into the
    same pieces wherever they stand, so a neat text for whose references woven texts are written
    is woven again, and filling its templates is filling those of what is written
    (`Neat.fill_expandReferences`). -/

namespace Playscript

namespace Reference

/-- The template reference to a name. -/
def template (name : String) : Reference :=
  ⟨name, Variables.templateText name⟩

/-- The template at the start of a text. -/
def templateAt : List Char → Option Reference
  | '\x7b' :: '\x7b' :: ' ' :: rest =>
    let name := rest.takeWhile Text.isWordChar
    if !name.isEmpty && (rest.dropWhile Text.isWordChar).take 3 == [' ', '\x7d', '\x7d'] then
      some (template (String.ofList name))
    else none
  | _ => none

theorem toList_template (name : String) : (template name).raw.toList
    = '\x7b' :: '\x7b' :: ' ' :: (name.toList ++ [' ', '\x7d', '\x7d']) := by
  simp [template, Variables.templateText]

/-- A template is found where it stands. -/
theorem templateAt_template {name : String} (h : isReferable name = true) (b : List Char) :
    templateAt ((template name).raw.toList ++ b) = some (template name) := by
  simp only [isReferable, Bool.and_eq_true, List.all_eq_true] at h
  have hstop : Text.isWordChar ' ' = false := by decide +kernel
  have htake : (name.toList ++ ' ' :: '\x7d' :: '\x7d' :: b).takeWhile Text.isWordChar
      = name.toList := by
    rw [takeWhile_append_stop hstop, List.takeWhile_eq_self_iff]
    exact h.2
  have hdrop : (name.toList ++ ' ' :: '\x7d' :: '\x7d' :: b).dropWhile Text.isWordChar
      = ' ' :: '\x7d' :: '\x7d' :: b := by
    rw [List.dropWhile_append_of_pos h.2, List.dropWhile_cons_of_neg (by simp [hstop])]
  have hraw : (template name).raw.toList ++ b
      = '\x7b' :: '\x7b' :: ' ' :: (name.toList ++ ' ' :: '\x7d' :: '\x7d' :: b) := by
    simp [toList_template]
  rw [hraw, templateAt, htake, hdrop]
  simp [h.1]

/-- Nothing is found where no brace stands. -/
theorem templateAt_eq_none {c : Char} (hc : c ≠ '\x7b') (cs : List Char) :
    templateAt (c :: cs) = none := by
  unfold templateAt
  split
  · next heq => exact absurd (List.cons.inj heq).1 hc
  · rfl

end Reference

open Reference (templateAt isReferable)

/-! ## Woven texts -/

/-- Whether a piece is a template, or a character that starts neither a template nor a
    reference. -/
def Piece.isWoven : Piece → Bool
  | .char c => c != '\x7b' && c != '$'
  | .reference r => isReferable r.name && r == .template r.name

/-- A text in which every brace belongs to a template, and no dollar sign stands. -/
def Woven (text : String) : Prop :=
  ∃ ps : List Piece, (∀ p ∈ ps, p.isWoven = true) ∧ text.toList = ps.flatMap Piece.raw

/-- A text with a value written for each template in it. -/
def fill (values : String → String) (text : String) : String :=
  expandWith templateAt (fun r => values r.name) text

theorem toList_fill (values : String → String) (text : String) : (fill values text).toList
    = (pieces templateAt text).flatMap (Piece.expanded fun r => values r.name) :=
  toList_expandWith _ _ _

/-- Woven pieces are found again. -/
theorem piecesAfter_woven {ps : List Piece} (h : ∀ p ∈ ps, p.isWoven = true) :
    piecesAfter templateAt 0 (ps.flatMap Piece.raw) = ps := by
  induction ps with
  | nil => rfl
  | cons p rest ih =>
      have hp := h p List.mem_cons_self
      have hrest := ih fun q hq => h q (List.mem_cons_of_mem _ hq)
      rw [List.flatMap_cons]
      cases p with
      | char c =>
          simp only [Piece.isWoven, Bool.and_eq_true, bne_iff_ne] at hp
          rw [Piece.raw, List.singleton_append, piecesAfter,
            Reference.templateAt_eq_none hp.1]
          simp only [hrest]
      | reference r =>
          simp only [Piece.isWoven, Bool.and_eq_true, beq_iff_eq] at hp
          obtain ⟨hname, hr⟩ := hp
          have hfound := Reference.templateAt_template hname (rest.flatMap Piece.raw)
          rw [← hr] at hfound
          have hne : r.raw.toList ≠ [] := by rw [hr, Reference.toList_template]; simp
          rw [Piece.raw, piecesAfter_found hne hfound, hrest]

namespace Woven

variable {text : String}

/-- The pieces of a woven text are woven, and put together they are the text. -/
theorem pieces_spec (h : Woven text) : (∀ p ∈ pieces templateAt text, p.isWoven = true) ∧
    text.toList = (pieces templateAt text).flatMap Piece.raw := by
  obtain ⟨ps, hps, htext⟩ := h
  have hpieces : pieces templateAt text = ps := by rw [pieces, htext, piecesAfter_woven hps]
  rw [hpieces]
  exact ⟨hps, htext⟩

theorem template {name : String} (h : isReferable name = true) :
    Woven (Variables.templateText name) :=
  ⟨[.reference (.template name)], by simp [Piece.isWoven, h, Reference.template],
    by simp [Piece.raw, Reference.template]⟩

theorem pieces_template {name : String} (h : isReferable name = true) :
    pieces templateAt (Variables.templateText name) = [.reference (.template name)] := by
  have hwoven : ∀ p ∈ [Piece.reference (.template name)], p.isWoven = true := by
    simp [Piece.isWoven, h, Reference.template]
  rw [← piecesAfter_woven hwoven]
  simp [pieces, Piece.raw, Reference.template]

/-- Neither the characters of a woven text nor its templates have a dollar sign. -/
theorem no_dollar (h : Woven text) : '$' ∉ text.toList := by
  obtain ⟨hps, htext⟩ := h.pieces_spec
  rw [htext]
  intro hmem
  obtain ⟨p, hp, hdollar⟩ := List.mem_flatMap.mp hmem
  have hwoven := hps p hp
  cases p with
  | char c =>
      simp only [Piece.isWoven, Bool.and_eq_true, bne_iff_ne] at hwoven
      exact hwoven.2 (List.mem_singleton.mp hdollar).symm
  | reference r =>
      simp only [Piece.isWoven, Bool.and_eq_true, beq_iff_eq] at hwoven
      rw [Piece.raw, hwoven.2, Reference.toList_template] at hdollar
      simp [Reference.no_dollar_of_isReferable hwoven.1] at hdollar

/-- Where no value holds a dollar sign, none is filled in. -/
theorem no_dollar_fill (h : Woven text) {values : String → String}
    (hvalues : ∀ name, '$' ∉ (values name).toList) : '$' ∉ (fill values text).toList := by
  obtain ⟨hps, -⟩ := h.pieces_spec
  rw [toList_fill]
  intro hmem
  obtain ⟨p, hp, hdollar⟩ := List.mem_flatMap.mp hmem
  have hwoven := hps p hp
  cases p with
  | char c =>
      simp only [Piece.isWoven, Bool.and_eq_true, bne_iff_ne] at hwoven
      exact hwoven.2 (List.mem_singleton.mp hdollar).symm
  | reference r => exact hvalues r.name hdollar

end Woven

/-! ## Neat texts with templates written in them -/

/-- The references among segments. -/
def references (segments : List Segment) : List Reference :=
  segments.filterMap fun
    | .char _ => none
    | .braced name => some (.braced name)
    | .bare name => some (.bare name)

theorem braced_mem_references {segments : List Segment} {name : String}
    (h : .braced name ∈ segments) : .braced name ∈ references segments :=
  List.mem_filterMap.mpr ⟨_, h, rfl⟩

theorem bare_mem_references {segments : List Segment} {name : String}
    (h : .bare name ∈ segments) : .bare name ∈ references segments :=
  List.mem_filterMap.mpr ⟨_, h, rfl⟩

/-- Whether a character among segments is no brace. -/
def Segment.isBraceless : Segment → Bool
  | .char c => c != '\x7b'
  | _ => true

/-- The pieces of what is written for a segment. -/
def Segment.writtenPieces (value : Reference → String) : Segment → List Piece
  | .char c => [.char c]
  | .braced name => pieces templateAt (value (.braced name))
  | .bare name => pieces templateAt (value (.bare name))

section Filling

variable {segments : List Segment} {value : Reference → String}

theorem written_eq_raw (hvalue : ∀ r ∈ references segments, Woven (value r)) :
    segments.flatMap (Segment.written value)
      = (segments.flatMap (Segment.writtenPieces value)).flatMap Piece.raw := by
  rw [List.flatMap_assoc]
  refine List.flatMap_congr fun segment hsegment => ?_
  cases segment with
  | char c => rfl
  | braced name => exact (hvalue _ (braced_mem_references hsegment)).pieces_spec.2
  | bare name => exact (hvalue _ (bare_mem_references hsegment)).pieces_spec.2

/-- The pieces of what is written are woven, and its templates come from the values. -/
theorem isWoven_writtenPieces (hneat : Neat segments)
    (hbraces : ∀ segment ∈ segments, segment.isBraceless = true)
    (hvalue : ∀ r ∈ references segments, Woven (value r)) :
    ∀ p ∈ segments.flatMap (Segment.writtenPieces value), p.isWoven = true := by
  intro p hp
  obtain ⟨segment, hsegment, hp⟩ := List.mem_flatMap.mp hp
  cases segment with
  | char c =>
      have hsound := hneat.sound _ hsegment
      have hbrace := hbraces _ hsegment
      rw [List.mem_singleton.mp hp]
      simp only [Segment.isSound, Segment.isBraceless] at hsound hbrace
      simp [Piece.isWoven, hsound, hbrace]
  | braced name => exact (hvalue _ (braced_mem_references hsegment)).pieces_spec.1 p hp
  | bare name => exact (hvalue _ (bare_mem_references hsegment)).pieces_spec.1 p hp

theorem exists_reference_of_mem_writtenPieces {r : Reference}
    (h : .reference r ∈ segments.flatMap (Segment.writtenPieces value)) :
    ∃ r' ∈ references segments, .reference r ∈ pieces templateAt (value r') := by
  obtain ⟨segment, hsegment, hp⟩ := List.mem_flatMap.mp h
  cases segment with
  | char c => simp [Segment.writtenPieces] at hp
  | braced name => exact ⟨.braced name, braced_mem_references hsegment, hp⟩
  | bare name => exact ⟨.bare name, bare_mem_references hsegment, hp⟩

/-- **Filling in what is written is writing what is filled in.**  With woven texts for its
    references, a neat text becomes a woven one, whose templates are those of the values; and
    with these filled in first, it becomes the same text filled in. -/
theorem Neat.fill_expandReferences (hneat : Neat segments)
    (hbraces : ∀ segment ∈ segments, segment.isBraceless = true)
    (hvalue : ∀ r ∈ references segments, Woven (value r)) {values : String → String}
    (hvalues : ∀ name, '$' ∉ (values name).toList) {filled : Reference → String}
    (hfilled : ∀ r ∈ references segments, filled r = fill values (value r)) :
    Woven (expandReferences value (render segments)) ∧
    fill values (expandReferences value (render segments))
      = expandReferences filled (render segments) ∧
    ∀ r, .reference r ∈ pieces templateAt (expandReferences value (render segments)) →
      ∃ r' ∈ references segments, .reference r ∈ pieces templateAt (value r') := by
  have hexpanded : (expandReferences value (render segments)).toList
      = (segments.flatMap (Segment.writtenPieces value)).flatMap Piece.raw := by
    rw [hneat.toList_expandReferences_render
      fun name hname => (hvalue _ (braced_mem_references hname)).no_dollar, written_eq_raw hvalue]
  have hwoven := isWoven_writtenPieces hneat hbraces hvalue
  have hpieces : pieces templateAt (expandReferences value (render segments))
      = segments.flatMap (Segment.writtenPieces value) := by
    rw [pieces, hexpanded, piecesAfter_woven hwoven]
  refine ⟨⟨_, hwoven, hexpanded⟩, ?_, fun r hr => ?_⟩
  · have hdollar : ∀ name, .braced name ∈ segments → '$' ∉ (filled (.braced name)).toList := by
      intro name hname
      have hmem := braced_mem_references hname
      rw [hfilled _ hmem]
      exact (hvalue _ hmem).no_dollar_fill hvalues
    rw [← String.toList_inj, toList_fill, hpieces, hneat.toList_expandReferences_render hdollar,
      List.flatMap_assoc]
    refine List.flatMap_congr fun segment hsegment => ?_
    cases segment with
    | char c => rfl
    | braced name =>
        rw [Segment.written, hfilled _ (braced_mem_references hsegment), toList_fill]
        rfl
    | bare name =>
        rw [Segment.written, hfilled _ (bare_mem_references hsegment), toList_fill]
        rfl
  · rw [hpieces] at hr
    exact exists_reference_of_mem_writtenPieces hr

end Filling

/-! ## Resolving templates -/

section Resolution

variable (entries : String → Option String)

/-- A text with all its templates looked up, and all templates in what is found, to the end.
    A template for which there is no entry stays as it is. -/
inductive Resolves : String → String → Prop where
  | step (text : String) (value : Reference → String)
      (found : ∀ r stored, .reference r ∈ pieces templateAt text → entries r.name = some stored →
        Resolves stored (value r))
      (missing : ∀ r, .reference r ∈ pieces templateAt text → entries r.name = none →
        value r = r.raw) :
      Resolves text (expandWith templateAt value text)

/-- The entry of a variable holds a template for another. -/
def Refers (name other : String) : Prop :=
  ∃ stored, entries name = some stored ∧ .reference (.template other) ∈ pieces templateAt stored

/-- No variable refers to itself, directly or through others. -/
def Acyclic : Prop :=
  ∀ name, ¬ Relation.TransGen (Refers entries) name name

variable {entries}

/-- **A text resolves to one text.** -/
theorem Resolves.unique {text a : String} (ha : Resolves entries text a) :
    ∀ {b : String}, Resolves entries text b → a = b := by
  induction ha with
  | step text value found missing ih =>
      intro b hb
      cases hb with
      | step _ value' found' missing' =>
          refine expandWith_congr fun r hr => ?_
          cases hentry : entries r.name with
          | none => rw [missing r hr hentry, missing' r hr hentry]
          | some stored => exact ih r stored hr hentry (found' r stored hr hentry)

/-- What a template is found as. -/
theorem Reference.eq_template_of_templateAt {cs : List Char} {r : Reference}
    (h : templateAt cs = some r) : r = .template r.name := by
  unfold templateAt at h
  split at h
  · simp only at h
    split at h
    · cases h
      rfl
    · exact nomatch h
  · exact nomatch h

/-- **What resolves leads nowhere without end.** -/
theorem Resolves.acc {text result : String} (h : Resolves entries text result) :
    ∀ r, .reference r ∈ pieces templateAt text → Acc (flip (Refers entries)) r.name := by
  induction h with
  | step text value found missing ih =>
      intro r hr
      refine .intro _ fun other hother => ?_
      obtain ⟨stored, hentry, hmem⟩ := hother
      exact ih r stored hr hentry _ hmem

/-- Where there are finitely many entries and no cycle among them, every variable comes after
    those that its entry refers to. -/
theorem Acyclic.wellFounded (h : Acyclic entries) {names : List String}
    (hnames : ∀ name, (entries name).isSome = true → name ∈ names) :
    WellFounded (flip (Refers entries)) := by
  have hwf : WellFounded (Relation.TransGen fun b a : { name // name ∈ names } =>
      Refers entries a.1 b.1) := by
    have hirrefl : Std.Irrefl (Relation.TransGen fun b a : { name // name ∈ names } =>
        Refers entries a.1 b.1) :=
      ⟨fun a hcycle => h a.1 ((Relation.transGen_swap.mp hcycle).lift Subtype.val fun _ _ h => h)⟩
    exact Finite.wellFounded_of_trans_of_irrefl _
  have hnone : ∀ name, name ∉ names → Acc (flip (Refers entries)) name := by
    intro name hname
    refine .intro _ fun other hother => ?_
    obtain ⟨stored, hentry, -⟩ := hother
    exact absurd (hnames name (by simp [hentry])) hname
  have hsome : ∀ a : { name // name ∈ names }, Acc (flip (Refers entries)) a.1 := by
    intro a
    induction a using hwf.induction with
    | _ a ih =>
        refine .intro _ fun other hother => ?_
        by_cases hmem : other ∈ names
        · exact ih ⟨other, hmem⟩ (.single hother)
        · exact hnone other hmem
  refine ⟨fun name => ?_⟩
  by_cases hmem : name ∈ names
  · exact hsome ⟨name, hmem⟩
  · exact hnone name hmem

/-- A variable that leads nowhere without end does not lead to itself. -/
theorem not_cycle_of_acc {name : String} (h : Acc (flip (Refers entries)) name) :
    ¬ Relation.TransGen (Refers entries) name name := by
  have hacc : Acc (Relation.TransGen (flip (Refers entries))) name := h.transGen
  clear h
  induction hacc with
  | intro name _ ih =>
      intro hcycle
      exact ih name (Relation.transGen_swap.mpr hcycle) hcycle

/-- A text resolves to itself filled in, if what its templates stand for resolves to what is
    filled in. -/
theorem Resolves.of_fill {text : String} {values : String → String}
    (h : ∀ r, .reference r ∈ pieces templateAt text → ∃ stored, entries r.name = some stored ∧
      Resolves entries stored (values r.name)) :
    Resolves entries text (fill values text) := by
  refine .step text (fun r => values r.name) (fun r stored hr hentry => ?_) fun r hr hentry => ?_
  · obtain ⟨stored', hentry', hresolves⟩ := h r hr
    cases hentry.symm.trans hentry'
    exact hresolves
  · obtain ⟨stored, hentry', -⟩ := h r hr
    exact nomatch hentry.symm.trans hentry'

/-- **Without a cycle every entry resolves.**  If each entry becomes the value of its variable
    when the values of the others are filled in, it resolves to that value. -/
theorem resolves_of_acyclic (hacyclic : Acyclic entries) {names : List String}
    (hnames : ∀ name, (entries name).isSome = true → name ∈ names) {values : String → String}
    (hvalues : ∀ name stored, entries name = some stored → fill values stored = values name)
    (hclosed : ∀ name stored r, entries name = some stored →
      .reference r ∈ pieces templateAt stored → (entries r.name).isSome = true) :
    ∀ name stored, entries name = some stored → Resolves entries stored (values name) := by
  intro name
  induction name using (hacyclic.wellFounded hnames).induction with
  | _ name ih =>
      intro stored hentry
      rw [← hvalues name stored hentry]
      refine .of_fill fun r hr => ?_
      obtain ⟨stored', hentry'⟩ := Option.isSome_iff_exists.mp (hclosed name stored r hentry hr)
      obtain ⟨_, hfound⟩ := exists_find_of_mem _ _ hr
      have hrefers : Refers entries name r.name :=
        ⟨stored, hentry, Reference.eq_template_of_templateAt hfound ▸ hr⟩
      exact ⟨stored', hentry', ih r.name hrefers stored' hentry'⟩

end Resolution

end Playscript
