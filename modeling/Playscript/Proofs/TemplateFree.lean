import Mathlib.Data.List.Infix
import Playscript.Proofs.Segments
import Playscript.Proofs.Words

/-! # Texts in which no template opens

    Where values are written for references, a template can come in with a value, and it can
    open between a value and what stands beside it.  A value lets neither happen if it is
    solid: no template opens in it, and neither end of it is a brace or missing.  So texts
    without templates stay without them exactly if all that can be read is solid
    (`Variables.interpret_free_iff`).

    A run keeps that up exactly if each of its writes stores something solid.  An export does
    not if it refers to a variable that has been exported before it: then a template is what it
    stores (`Variables.interpret_template_free_iff`), and whoever reads the variable later gets
    the template.  All writes of a run that are harmless where they are made, and only such
    runs, keep every scope on the way clean (`Session.stays_template_free_iff`). -/

namespace Playscript

open Reference (bracedAt bareAt bracedAt_scan bareAt_scan isReferable isBraceable)
open Shell (Node)

/-! ## Texts -/

/-- No template opens in a text. -/
def TemplateFree (text : String) : Prop :=
  ¬ ['\x7b', '\x7b'] <:+: text.toList

instance (text : String) : Decidable (TemplateFree text) :=
  inferInstanceAs (Decidable (¬ _))

/-- Two characters open no template. -/
def Apart (a b : Char) : Prop :=
  a ≠ '\x7b' ∨ b ≠ '\x7b'

/-- Whether a text has ends, and neither is an opening brace. -/
def hasPlainEnds (text : String) : Bool :=
  text.toList.head?.any (· != '\x7b') && text.toList.getLast?.any (· != '\x7b')

/-- Texts that bring no template along, and open none with what stands beside them. -/
structure Solid (text : String) : Prop where
  free : TemplateFree text
  ends : hasPlainEnds text = true

theorem templateFree_iff_isChain (text : String) :
    TemplateFree text ↔ text.toList.IsChain Apart := by
  rw [List.isChain_iff_forall_rel_of_append_cons_cons]
  constructor
  · intro hfree a b front behind heq
    by_contra hboth
    simp only [Apart, not_or, Decidable.not_not] at hboth
    exact hfree ⟨front, behind, by simp [heq, hboth]⟩
  · rintro hapart ⟨front, behind, heq⟩
    rcases @hapart '\x7b' '\x7b' front behind (by simpa using heq.symm) with h | h
    · exact h rfl
    · exact h rfl

/-- A part of a text without templates has none. -/
theorem TemplateFree.of_infix {text part : String} (h : TemplateFree text)
    (hpart : part.toList <:+: text.toList) : TemplateFree part :=
  fun hopen => h (hopen.trans hpart)

/-- A template is no text without templates. -/
theorem not_templateFree_of_template {text name : String}
    (h : (Variables.templateText name).toList <:+: text.toList) : ¬ TemplateFree text := by
  intro hfree
  refine hfree (List.IsInfix.trans ⟨[], ' ' :: name.toList ++ [' ', '\x7d', '\x7d'], ?_⟩ h)
  simp [Variables.templateText]

theorem hasPlainEnds_iff (text : String) : hasPlainEnds text = true ↔
    (∃ c ∈ text.toList.head?, c ≠ '\x7b') ∧ ∃ c ∈ text.toList.getLast?, c ≠ '\x7b' := by
  simp [hasPlainEnds, Option.any_eq_true]

theorem isChain_of_no_brace {cs : List Char} (h : '\x7b' ∉ cs) : cs.IsChain Apart := by
  rw [List.isChain_iff_forall_rel_of_append_cons_cons]
  rintro a b front behind rfl
  refine .inl fun ha => h ?_
  simp [ha]

/-- Behind a solid text no template opens. -/
theorem Solid.isChain_append {text : String} (h : Solid text) {behind : List Char}
    (hbehind : behind.IsChain Apart) : (text.toList ++ behind).IsChain Apart := by
  obtain ⟨-, c, hc, hne⟩ := (hasPlainEnds_iff _).mp h.ends
  refine ((templateFree_iff_isChain _).mp h.free).append hbehind fun x hx y _ => ?_
  cases Option.mem_unique hc hx
  exact .inl hne

/-- A text is solid exactly if no template opens when it stands between braces. -/
theorem solid_iff_between (text : String) :
    Solid text ↔ ('\x7b' :: text.toList ++ ['\x7b']).IsChain Apart := by
  constructor
  · intro hsolid
    obtain ⟨⟨c, hhead, hc⟩, -⟩ := (hasPlainEnds_iff text).mp hsolid.ends
    rw [List.cons_append, List.isChain_cons]
    refine ⟨fun y hy => .inr ?_, hsolid.isChain_append (.singleton _)⟩
    rw [List.head?_append, Option.mem_def.mp hhead, Option.some_or] at hy
    exact Option.some.inj hy ▸ hc
  · rw [List.isChain_append, List.isChain_cons]
    rintro ⟨⟨hhead, hchain⟩, -, hlast⟩
    refine ⟨(templateFree_iff_isChain text).mpr hchain, (hasPlainEnds_iff text).mpr ?_⟩
    cases hlist : text.toList with
    | nil =>
        -- the two braces would stand side by side
        rcases hlast '\x7b' (by simp [hlist]) '\x7b' rfl with h | h
        · exact absurd rfl h
        · exact absurd rfl h
    | cons c rest =>
        refine ⟨⟨c, rfl, (hhead c (by simp [hlist])).resolve_left (fun h => h rfl)⟩,
          ⟨(c :: rest).getLast (by simp), List.getLast?_eq_some_getLast _, ?_⟩⟩
        refine (hlast _ ?_ '\x7b' rfl).resolve_right (fun h => h rfl)
        rw [hlist, List.getLast?_cons, List.getLast?_eq_some_getLast (by simp)]
        rfl

/-! ## References as they stand -/

theorem no_brace_of_isReferable {name : String} (h : isReferable name = true) :
    '\x7b' ∉ name.toList := by
  intro hmem
  simp only [isReferable, Bool.and_eq_true, List.all_eq_true] at h
  exact Reference.ne_of_isWordChar (h.2 _ hmem) Reference.isWordChar_brace rfl

theorem solid_braced {name : String} (h : isBraceable name = true) :
    Solid (Reference.braced name).raw := by
  have hno := no_brace_of_isReferable (Reference.isReferable_of_isBraceable h)
  have hraw : (Reference.braced name).raw.toList = '$' :: '\x7b' :: (name.toList ++ ['\x7d']) := by
    simp [Reference.braced]
  have hbehind : '\x7b' ∉ name.toList ++ ['\x7d'] := by simp [hno]
  refine ⟨(templateFree_iff_isChain _).mpr ?_, (hasPlainEnds_iff _).mpr ?_⟩
  · rw [hraw, List.isChain_cons_cons, List.isChain_cons]
    refine ⟨.inl (by decide), fun y hy => .inr ?_, isChain_of_no_brace hbehind⟩
    rintro rfl
    exact hbehind (List.mem_of_mem_head? hy)
  · rw [hraw]
    exact ⟨⟨'$', rfl, by decide⟩, ⟨'\x7d', by simp [List.getLast?_cons], by decide⟩⟩

theorem solid_bare {name : String} (h : isReferable name = true) :
    Solid (Reference.bare name).raw := by
  have hraw : (Reference.bare name).raw.toList = '$' :: name.toList := String.toList_ofList
  have hno : '\x7b' ∉ (Reference.bare name).raw.toList := by
    simp [hraw, no_brace_of_isReferable h]
  refine ⟨(templateFree_iff_isChain _).mpr (isChain_of_no_brace hno), (hasPlainEnds_iff _).mpr
    ⟨⟨'$', by simp [hraw], by decide⟩, ?_⟩⟩
  have hne : (Reference.bare name).raw.toList ≠ [] := by simp [hraw]
  refine ⟨_, List.getLast?_eq_some_getLast hne, ?_⟩
  intro heq
  exact hno (heq ▸ List.getLast_mem hne)

/-! ## Passes -/

section Pieces

variable {value : Reference → String} {ps : List Piece}

/-- A brace in front is written for a brace in front. -/
theorem brace_of_head?_expanded (h : ∀ r, .reference r ∈ ps → Solid (value r))
    (hhead : '\x7b' ∈ (ps.flatMap (Piece.expanded value)).head?) :
    '\x7b' ∈ (ps.flatMap Piece.raw).head? := by
  cases ps with
  | nil => exact nomatch hhead
  | cons p rest =>
      cases p with
      | char c => exact hhead
      | reference r =>
          obtain ⟨⟨c, hc, hne⟩, -⟩ := (hasPlainEnds_iff _).mp (h r List.mem_cons_self).ends
          obtain ⟨tail, htail⟩ := List.head?_eq_some_iff.mp hc
          rw [List.flatMap_cons, Piece.expanded, htail, List.cons_append, List.head?_cons] at hhead
          exact absurd (Option.some.inj hhead) hne

/-- **Solid texts for references open no template.** -/
theorem isChain_expanded (h : ∀ r, .reference r ∈ ps → Solid (value r))
    (hraw : (ps.flatMap Piece.raw).IsChain Apart) :
    (ps.flatMap (Piece.expanded value)).IsChain Apart := by
  induction ps with
  | nil => exact .nil
  | cons p rest ih =>
      have hrest : ∀ r, .reference r ∈ rest → Solid (value r) :=
        fun r hr => h r (List.mem_cons_of_mem _ hr)
      rw [List.flatMap_cons] at hraw ⊢
      have hchain := ih hrest hraw.right_of_append
      cases p with
      | char c =>
          refine List.isChain_cons.mpr ⟨fun y hy => ?_, hchain⟩
          by_contra hboth
          simp only [Apart, not_or, Decidable.not_not] at hboth
          obtain ⟨rfl, rfl⟩ := hboth
          -- the two braces would stand in the text already
          rcases (List.isChain_cons.mp hraw).1 _ (brace_of_head?_expanded hrest hy) with hne | hne
          · exact hne rfl
          · exact hne rfl
      | reference r => exact (h r List.mem_cons_self).isChain_append hchain

/-- Bare references take no template away. -/
theorem isChain_of_expanded
    (h : ∀ r, .reference r ∈ ps → isReferable r.name = true ∧ r = .bare r.name)
    (hexpanded : (ps.flatMap (Piece.expanded value)).IsChain Apart) :
    (ps.flatMap Piece.raw).IsChain Apart := by
  induction ps with
  | nil => exact .nil
  | cons p rest ih =>
      have hrest := fun r hr => h r (List.mem_cons_of_mem p hr)
      rw [List.flatMap_cons] at hexpanded ⊢
      have hchain := ih hrest hexpanded.right_of_append
      cases p with
      | char c =>
          refine List.isChain_cons.mpr ⟨fun y hy => ?_, hchain⟩
          cases rest with
          | nil => exact nomatch hy
          | cons q behind =>
              cases q with
              | char d =>
                  exact (List.isChain_cons.mp hexpanded).1 y hy
              | reference r =>
                  have hr := (h r (by simp)).2
                  have hdollar : y = '$' := by
                    rw [List.flatMap_cons, Piece.raw, hr] at hy
                    simpa [Reference.bare, eq_comm] using hy
                  exact .inr (by rw [hdollar]; decide)
      | reference r =>
          obtain ⟨hname, hr⟩ := h r List.mem_cons_self
          rw [Piece.raw, hr]
          exact (solid_bare hname).isChain_append hchain

end Pieces

theorem Scan.expandWith_free {find : List Char → Option Reference} (hscan : Scan find)
    {value : Reference → String} {text : String}
    (hsolid : ∀ r, .reference r ∈ pieces find text → Solid (value r)) (h : TemplateFree text) :
    TemplateFree (expandWith find value text) := by
  rw [templateFree_iff_isChain, toList_expandWith]
  refine isChain_expanded hsolid ?_
  rw [hscan.flatMap_raw_pieces]
  exact (templateFree_iff_isChain text).mp h

theorem free_of_expandWith_bareAt {value : Reference → String} {text : String}
    (h : TemplateFree (expandWith bareAt value text)) : TemplateFree text := by
  rw [templateFree_iff_isChain, toList_expandWith] at h
  rw [templateFree_iff_isChain, ← bareAt_scan.flatMap_raw_pieces text]
  exact isChain_of_expanded (fun r hr => eq_bare_of_mem hr) h

/-- What is written for a reference stands in the expansion. -/
theorem infix_expandWith {find : List Char → Option Reference} (value : Reference → String)
    {text : String} {r : Reference} (h : .reference r ∈ pieces find text) :
    (value r).toList <:+: (expandWith find value text).toList := by
  obtain ⟨front, behind, heq⟩ := List.append_of_mem h
  refine ⟨front.flatMap (Piece.expanded value), behind.flatMap (Piece.expanded value), ?_⟩
  rw [toList_expandWith, heq, List.flatMap_append, List.flatMap_cons, Piece.expanded,
    List.append_assoc]

/-! ## Variables -/

namespace Variables

/-- All that a reference can read is solid. -/
def AllSolid (vs : Variables) : Prop :=
  ∀ name value, isReferable name = true → vs.get? name = some value → Solid value

/-- An expansion as a template meets a reference to an exported variable. -/
def RefersToExport (vs : Variables) (text : String) : Prop :=
  ∃ r, (.reference r ∈ pieces bracedAt text ∨
      .reference r ∈ pieces bareAt (expandWith bracedAt (vs.write .template) text)) ∧
    vs.exported.has r.name = true

variable {vs : Variables}

theorem AllSolid.write (h : vs.AllSolid) {r : Reference} (hname : isReferable r.name = true)
    (hraw : Solid r.raw) : Solid (vs.write .plain r) := by
  cases hget : vs.get? r.name with
  | none => simpa [Variables.write, hget] using hraw
  | some value => simpa [Variables.write, hget] using h r.name value hname hget

/-- **Texts without templates stay so exactly if all that can be read is solid.** -/
theorem interpret_free_iff :
    (∀ text, TemplateFree text → TemplateFree (vs.interpret .plain text)) ↔ vs.AllSolid := by
  constructor
  · intro hkeeps name value hname hget
    -- between two braces a value shows whether it is solid
    have hneat : Neat [.char '\x7b', .bare name, .char '\x7b'] :=
      ⟨by simp [Segment.isSound, hname],
        by simp [Segment.parts, Reference.isWordChar_brace, List.isChain_cons]⟩
    have hfree : TemplateFree (render [.char '\x7b', .bare name, .char '\x7b']) := by
      rw [templateFree_iff_isChain, render, String.toList_ofList]
      exact (solid_iff_between _).mp (solid_bare hname)
    have hread := hkeeps _ hfree
    rw [templateFree_iff_isChain, interpret,
      hneat.toList_expandReferences_render (by simp)] at hread
    rw [solid_iff_between]
    simpa [Segment.written, Reference.bare, Variables.write, hget] using hread
  · intro hsolid text hfree
    refine bareAt_scan.expandWith_free (fun r hr => ?_)
      (bracedAt_scan.expandWith_free (fun r hr => ?_) hfree)
    · obtain ⟨hname, hr⟩ := eq_bare_of_mem hr
      exact hsolid.write hname (hr ▸ solid_bare hname)
    · obtain ⟨hname, hr⟩ := eq_braced_of_mem hr
      exact hsolid.write (Reference.isReferable_of_isBraceable hname) (hr ▸ solid_braced hname)

/-- Where no export is referred to, a template is written like a plain text. -/
theorem interpret_template_eq {text : String} (h : ¬ vs.RefersToExport text) :
    vs.interpret .template text = vs.interpret .plain text := by
  have hwrite : ∀ r, vs.exported.has r.name = false →
      vs.write .template r = vs.write .plain r := by
    intro r hr
    simp [write, hr]
  have hbraced : expandWith bracedAt (vs.write .template) text
      = expandWith bracedAt (vs.write .plain) text :=
    expandWith_congr fun r hr => hwrite r (by
      simpa using fun hexported => h ⟨r, .inl hr, hexported⟩)
  have hbare : expandWith bareAt (vs.write .template)
        (expandWith bracedAt (vs.write .template) text)
      = expandWith bareAt (vs.write .plain)
        (expandWith bracedAt (vs.write .template) text) :=
    expandWith_congr fun r hr => hwrite r (by
      simpa using fun hexported => h ⟨r, .inr hr, hexported⟩)
  rw [interpret, expandReferences, hbare, hbraced]
  rfl

/-- **An export stores a template exactly if it refers to an export.** -/
theorem interpret_template_free_iff (hsolid : vs.AllSolid) {text : String}
    (hfree : TemplateFree text) :
    TemplateFree (vs.interpret .template text) ↔ ¬ vs.RefersToExport text := by
  constructor
  · rintro hinterpret ⟨r, hmem, hexported⟩
    have htemplate : vs.write .template r = templateText r.name := by simp [write, hexported]
    rcases hmem with hbraced | hbare
    · have hfirst := free_of_expandWith_bareAt hinterpret
      have hpart := infix_expandWith (vs.write .template) hbraced
      rw [htemplate] at hpart
      exact not_templateFree_of_template hpart hfirst
    · have hpart := infix_expandWith (vs.write .template) hbare
      rw [htemplate] at hpart
      exact not_templateFree_of_template hpart hinterpret
  · intro hnone
    rw [interpret_template_eq hnone]
    exact interpret_free_iff.mpr hsolid text hfree

/-- After a write all is solid exactly if what is read under its name is. -/
theorem allSolid_apply_iff (h : vs.AllSolid) (w : Write) :
    (w.apply vs).AllSolid ↔ (isReferable w.name = true →
      ∀ value, (w.apply vs).get? w.name = some value → Solid value) := by
  constructor
  · intro hafter hname value hget
    exact hafter _ value hname hget
  · intro hself name value hname hget
    by_cases heq : w.name = name
    · subst heq
      exact hself hname value hget
    · rw [get?_apply_of_ne heq] at hget
      exact h name value hname hget

end Variables

/-! ## Scopes -/

/-- No template is in a variable that was not exported, none is in the mask, and none comes of
    reading a text that has none. -/
structure Scope.Clean (scope : Scope) : Prop where
  plain : ∀ name value, scope.vars.exported.has name = false →
    scope.vars.plain.get? name = some value → TemplateFree value
  mask : ∀ text, scope.umask.text? = some text → TemplateFree text
  reading : ∀ text, TemplateFree text → TemplateFree (scope.vars.interpret .plain text)

/-- Effects that keep a scope clean.  What is stored under a name that can be referred to, and is
    not hidden by an export, has plain ends; and an export refers to no export. -/
def Effect.Harmless (scope : Scope) : Effect → Prop
  | .mask _ => True
  | .write (.assign name text) =>
    isReferable name = true → scope.vars.exported.has name = false →
      hasPlainEnds (scope.vars.interpret .plain text) = true
  | .write (.exportAs name text) =>
    isReferable name = true → ¬ scope.vars.RefersToExport text ∧
      hasPlainEnds (scope.vars.interpret .template text) = true

namespace Scope

theorem clean_empty : Clean {} where
  plain _ _ _ h := nomatch h
  mask text h := by
    rw [← Option.some.inj h]
    decide
  reading := Variables.interpret_free_iff.mpr fun _ _ _ h => nomatch h

variable {scope : Scope} (hclean : scope.Clean)

include hclean

/-- A mask is written out without templates. -/
theorem Clean.apply_mask {text : String} (htext : TemplateFree text) :
    ((Effect.mask text).apply scope).Clean where
  plain := hclean.plain
  mask shown hshown := by
    rw [← Option.some.inj hshown]
    exact hclean.reading text htext
  reading := hclean.reading

/-- An assignment keeps a scope clean exactly if it is harmless. -/
theorem Clean.apply_assign_iff (hover : scope.vars.overriding = []) (name : String)
    {text : String} (htext : TemplateFree text) :
    ((Effect.write (.assign name text)).apply scope).Clean ↔
      (Effect.write (.assign name text)).Harmless scope := by
  have hsolid := Variables.interpret_free_iff.mp hclean.reading
  have hstored := hclean.reading text htext
  have hread : ((Write.assign name text).apply scope.vars).get? name
      = (scope.vars.exported.get? name).or (some (scope.vars.interpret .plain text)) :=
    Variables.get?_apply_self hover (.assign name text)
  have hall := Variables.allSolid_apply_iff hsolid (.assign name text)
  constructor
  · intro hafter hname hexported
    have hnone : scope.vars.exported.get? name = none := by simpa [Store.has] using hexported
    rw [hnone, Option.none_or] at hread
    have hself := hall.mp (Variables.interpret_free_iff.mp hafter.reading) hname
    exact (hself _ hread).ends
  · intro hharmless
    refine ⟨fun other value hexported hplain => ?_, hclean.mask,
      Variables.interpret_free_iff.mpr (hall.mpr fun hname value hget => ?_)⟩
    · have hplain' : ((Write.assign name text).apply scope.vars).plain.get? other = some value :=
        hplain
      rw [Variables.plain_apply] at hplain'
      split at hplain'
      · rw [← Option.some.inj hplain']
        exact hstored
      · exact hclean.plain other value hexported hplain'
    · rw [Write.name] at hget hname
      rw [hread] at hget
      cases hexported : scope.vars.exported.get? name with
      | none =>
          rw [hexported, Option.none_or] at hget
          rw [← Option.some.inj hget]
          exact ⟨hstored, hharmless hname (by simp [Store.has, hexported])⟩
      | some hidden =>
          -- the export hides what was assigned
          rw [hexported, Option.some_or] at hget
          refine hsolid name value hname ?_
          rw [Variables.get?_of_not_overriding (by simp [hover]), hexported, Option.some_or, hget]

/-- An export keeps a scope clean exactly if it is harmless. -/
theorem Clean.apply_export_iff (hover : scope.vars.overriding = []) (name : String)
    {text : String} (htext : TemplateFree text) :
    ((Effect.write (.exportAs name text)).apply scope).Clean ↔
      (Effect.write (.exportAs name text)).Harmless scope := by
  have hsolid := Variables.interpret_free_iff.mp hclean.reading
  have hread : ((Write.exportAs name text).apply scope.vars).get? name
      = some (scope.vars.interpret .template text) := by
    have hself := Variables.get?_apply_self hover (.exportAs name text)
    rw [Variables.exported_apply, if_pos (by simp [Write.exports, Write.name])] at hself
    exact hself
  have hall := Variables.allSolid_apply_iff hsolid (.exportAs name text)
  have hfree := Variables.interpret_template_free_iff hsolid htext
  constructor
  · intro hafter hname
    have hself := hall.mp (Variables.interpret_free_iff.mp hafter.reading) hname _ hread
    exact ⟨hfree.mp hself.free, hself.ends⟩
  · intro hharmless
    refine ⟨fun other value hexported hplain => ?_, hclean.mask,
      Variables.interpret_free_iff.mpr (hall.mpr fun hname value hget => ?_)⟩
    · have hplain' : ((Write.exportAs name text).apply scope.vars).plain.get? other
          = some value := hplain
      have hexported' : ((Write.exportAs name text).apply scope.vars).exported.has other = false :=
        hexported
      rw [Store.has, Variables.exported_apply] at hexported'
      rw [Variables.plain_apply] at hplain'
      by_cases heq : name = other
      · simp [Write.exports, heq] at hexported'
      · rw [if_neg (by simpa [Write.exports] using heq)] at hexported'
        rw [if_neg (by simpa [Write.sets, Write.name] using heq)] at hplain'
        exact hclean.plain other value hexported' hplain'
    · rw [Write.name] at hget hname
      rw [hread] at hget
      rw [← Option.some.inj hget]
      exact ⟨hfree.mpr (hharmless hname).1, (hharmless hname).2⟩

theorem Clean.apply_iff (hover : scope.vars.overriding = []) {e : Effect}
    (htext : TemplateFree e.text) : (e.apply scope).Clean ↔ e.Harmless scope := by
  cases e with
  | mask text => exact iff_of_true (hclean.apply_mask htext) trivial
  | write w =>
      cases w with
      | assign name text => exact hclean.apply_assign_iff hover name htext
      | exportAs name text => exact hclean.apply_export_iff hover name htext

omit hclean in
/-- **Every scope on the way is clean exactly if every effect is harmless where it is done.** -/
theorem clean_throughout_iff (es : List Effect) (htexts : ∀ e ∈ es, TemplateFree e.text) :
    ∀ scope : Scope, scope.Clean → scope.vars.overriding = [] →
      ((∀ done, done <+: es → (scope.applyAll done).Clean) ↔
        ∀ done e, done ++ [e] <+: es → e.Harmless (scope.applyAll done)) := by
  induction es with
  | nil =>
      intro scope hclean _
      simp only [List.prefix_nil]
      refine iff_of_true (fun done hdone => hdone ▸ hclean) fun done e hdone => ?_
      simp at hdone
  | cons first rest ih =>
      intro scope hclean hover
      have hstep := hclean.apply_iff hover (htexts first List.mem_cons_self)
      have hover' : (first.apply scope).vars.overriding = [] := by
        cases first with
        | mask text => exact hover
        | write w => exact (Write.overriding_apply w scope.vars).trans hover
      have hrest := ih (fun e he => htexts e (List.mem_cons_of_mem _ he)) (first.apply scope)
      constructor
      · intro hall done e hdone
        have hfirst : (first.apply scope).Clean := hall [first] (by simp)
        cases done with
        | nil =>
            obtain ⟨rfl, -⟩ := List.cons_prefix_cons.mp hdone
            exact hstep.mp hfirst
        | cons d done =>
            obtain ⟨rfl, hbehind⟩ := List.cons_prefix_cons.mp hdone
            refine (hrest hfirst hover').mp (fun done' hdone' => ?_) done e hbehind
            exact hall (d :: done') (List.cons_prefix_cons.mpr ⟨rfl, hdone'⟩)
      · intro hharmless done hdone
        cases done with
        | nil => exact hclean
        | cons d done =>
            obtain ⟨rfl, hbehind⟩ := List.cons_prefix_cons.mp hdone
            have hfirst : (d.apply scope).Clean := hstep.mpr (hharmless [] d (by simp))
            refine (hrest hfirst hover').mpr (fun done' e hdone' => ?_) done hbehind
            exact hharmless (d :: done') e (List.cons_prefix_cons.mpr ⟨rfl, hdone'⟩)

end Scope

namespace Session

/-- **A run stays free of templates exactly if all its effects are harmless.**  Through trees
    without a template in any word or assignment, the scope is changed by the effects of the
    run alone; and it is clean at every point of the run exactly if every assignment and every
    export on the way is harmless where it is made. -/
theorem stays_template_free_iff (settings : Settings) (registers : Registers) {trees : List Node}
    (h : ∀ tree ∈ trees, tree.Every TemplateFree) :
    ((fresh settings registers).goThrough trees).scope = Scope.applyAll {} (runEffects trees) ∧
    ((∀ done, done <+: runEffects trees → (Scope.applyAll {} done).Clean) ↔
      ∀ done e, done ++ [e] <+: runEffects trees → e.Harmless (Scope.applyAll {} done)) := by
  refine ⟨goThrough_scope trees _, Scope.clean_throughout_iff _ ?_ {} Scope.clean_empty rfl⟩
  exact runEffects_of_texts (fun _ _ hword hpart => hword.of_infix hpart.isInfix) h

/-- `export A=x`, `export B=$A/y` and `C=$B`. -/
def exportChain : List Node :=
  [.command [.word "export" [], .word "A=x" []],
   .command [.word "export" [], .word "B=$A/y" [.parameter "A"]],
   .command [.assignment "C=$B" [.parameter "B"]]]

/-- A variable that is set to an exported one that was set to an exported one holds a template. -/
theorem exportChain_not_clean :
    (∀ tree ∈ exportChain, tree.Every TemplateFree) ∧
      ¬ ∀ done, done <+: runEffects exportChain → (Scope.applyAll {} done).Clean := by
  have hfree : ∀ tree ∈ exportChain, tree.Every TemplateFree := by decide +kernel
  have heffects : runEffects exportChain = [.write (.exportAs "A" "x"),
      .write (.exportAs "B" "$A/y"), .write (.assign "C" "$B")] := by decide +kernel
  refine ⟨hfree, fun hclean => ?_⟩
  have hharmless := (stays_template_free_iff {} {} hfree).2.mp hclean
    [.write (.exportAs "A" "x")] (.write (.exportAs "B" "$A/y"))
    (by rw [heffects]; exact ⟨[.write (.assign "C" "$B")], rfl⟩)
  refine (hharmless (by decide +kernel)).1 ⟨.bare "A", .inr ?_, ?_⟩
  · decide +kernel
  · decide +kernel

end Session

end Playscript
