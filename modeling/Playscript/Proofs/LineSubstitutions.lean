import Playscript.Proofs.Captures
import Playscript.Proofs.LineTasks
import Playscript.Proofs.LineVariables

/-! # Two ways to write variables out

    A command of a line-wise script has its variables replaced one after the other, each wherever a
    dollar sign and its name stand, whatever comes behind them.  References can also be written out
    by whole names, with braces and without, and the command then be read without variables.

    Commands of all kinds mean the same in both ways only if the texts are the same
    (`shapeMeaning_eq_iff`), since behind an exclamation mark no command has a shape.  All texts are
    the same only where there are no variables (`replaceVariables_eq_substitute_iff`).  If values
    hold no dollar signs, and references are set apart, they are the same exactly if no variable is
    used in braces and each used name is written by its own variable, or by one that writes the same
    (`replaceVariables_eq_substitute_within_iff`), and the order of the variables does not matter
    exactly if names that start with others have values that do so, too
    (`replaceVariables_perm_iff`). -/

namespace Playscript.Line

open Reference (bare braced bareAt bracedAt bareAt_scan bracedAt_scan isBraceable isReferable
  raw_bare raw_braced)

/-! ## What commands mean -/

/-- A command means the same with its variables replaced as with them written out before. -/
def Agrees (s : Surroundings) (vs : Store) (command : String) : Prop :=
  meaning { s with vars := vs } command = meaning { s with vars := [] } (substitute vs command)

section Meanings

variable {s : Surroundings} {vs : Store} {command : String}

theorem rules_vars (s : Surroundings) (vs : Store) : rules { s with vars := vs } = rules s := by
  rw [rules, rules]
  rfl

/-- The shape of a command is looked at once its variables are replaced, so they have no further
    part in it. -/
theorem shapeMeaning_vars (s : Surroundings) (vs : Store) (command : String) :
    shapeMeaning { s with vars := vs } command = shapeMeaning s command := by
  rw [shapeMeaning, shapeMeaning, rules_vars]
  rfl

/-- A command means what it means with its variables replaced. -/
theorem meaning_vars (s : Surroundings) (vs : Store) (command : String) :
    meaning { s with vars := vs } command = shapeMeaning s (replaceVariables vs command) :=
  shapeMeaning_vars s vs _

/-- It comes down to what the two rewritten commands mean. -/
theorem agrees_iff : Agrees s vs command ↔
    shapeMeaning s (replaceVariables vs command) = shapeMeaning s (substitute vs command) := by
  rw [Agrees, meaning_vars, meaning_vars]
  rfl

/-- Two ways to rewrite commands that pass over a mark in front make the same of all of them
    exactly if what they make always means the same: behind the mark nothing has a shape. -/
theorem shapeMeaning_eq_iff {f g : String → String} {among : String → Prop}
    (hf : ∀ text, f ("!" ++ text) = "!" ++ f text) (hg : ∀ text, g ("!" ++ text) = "!" ++ g text)
    (hamong : ∀ text, among text → among ("!" ++ text)) :
    (∀ command, among command → shapeMeaning s (f command) = shapeMeaning s (g command)) ↔
      ∀ text, among text → f text = g text := by
  refine ⟨fun h text htext => ?_, fun h command hcommand => by rw [h command hcommand]⟩
  have hsame := h ("!" ++ text) (hamong text htext)
  rw [hf, hg] at hsame
  have hmark : ("!" ++ g text).toList = '!' :: (g text).toList := String.toList_append
  have htexts := eq_of_unshaped (unshaped_of_start (by decide) hmark) hsame
  exact String.append_right_inj "!" |>.mp htexts

end Meanings

/-! ## Texts that are nothing but a reference -/

section Single

variable {find : List Char → Option Reference} {value : Reference → String} {name other : String}

/-- A reference with nothing behind it is written as it is spelled on its own. -/
theorem expandWith_raw {r : Reference} {written : String}
    (h : spell find value (r.raw.toList ++ []) = written.toList ++ spell find value []) :
    expandWith find value r.raw = written := by
  rw [List.append_nil, spell_nil, List.append_nil] at h
  rw [← String.toList_inj, toList_expandWith_eq_spell, h]

/-- The four cases of a scan over a reference: it takes references of its own kind and passes over
    those of the other. -/
theorem expandWith_bareAt_bare (h : isReferable name = true) :
    expandWith bareAt value (bare name).raw = value (bare name) :=
  expandWith_raw (spell_bareAt_bare h Clear.nil.1)

theorem expandWith_bareAt_braced (h : isBraceable name = true) :
    expandWith bareAt value (braced name).raw = (braced name).raw :=
  expandWith_raw (spell_bareAt_braced h [])

theorem expandWith_bracedAt_bare (h : isReferable name = true) :
    expandWith bracedAt value (bare name).raw = (bare name).raw :=
  expandWith_raw (spell_bracedAt_bare h [])

theorem expandWith_bracedAt_braced (h : isBraceable name = true) :
    expandWith bracedAt value (braced name).raw = value (braced name) :=
  expandWith_raw (spell_bracedAt_braced h [])

theorem toList_braced (name : String) :
    (braced name).raw.toList = '$' :: '\x7b' :: (name.toList ++ ['\x7d']) := raw_braced name

/-- A brace ends every name, so nothing in front of it reaches further. -/
theorem clear_brace (rest : List Char) : Clear ('\x7b' :: rest) := by
  refine ⟨fun c hc => ?_, by simp⟩
  cases hc
  exact Reference.isWordChar_brace

/-- There is one dollar sign in a reference in braces, the first character. -/
theorem no_dollar_behind_brace (h : isReferable name = true) :
    '$' ∉ '\x7b' :: (name.toList ++ ['\x7d']) := by
  simp [Reference.no_dollar_of_isReferable h]

/-- References alone are set apart from others, with or without braces. -/
theorem setApart_bare (h : isReferable name = true) : SetApart (bare name).raw.toList := by
  have hapart := SetApart.bare h .nil .done
  rwa [List.append_nil] at hapart

theorem setApart_braced (h : isReferable name = true) : SetApart (braced name).raw.toList := by
  have hbehind := SetApart.done.lead (no_dollar_behind_brace h)
  rw [List.append_nil] at hbehind
  rw [toList_braced]
  exact .char (fun _ => clear_brace _) hbehind

/-- No name starts with a brace, so the two kinds of references are never spelled alike. -/
theorem bare_ne_braced (h : isReferable name = true) : (bare name).raw ≠ (braced other).raw := by
  intro heq
  rw [← String.toList_inj, raw_bare, toList_braced] at heq
  have htail := (List.cons.inj heq).2
  exact not_prefix_of_endsName h (clear_brace _).1 ⟨[], by rw [List.append_nil, htail]⟩

/-- In braces a reference tells its name. -/
theorem braced_inj (h : (braced name).raw = (braced other).raw) : name = other := by
  rw [← String.toList_inj, raw_braced, raw_braced] at h
  simpa [String.toList_inj] using h

end Single

/-! ## Replacing -/

/-- Replacing passes over what holds no dollar sign. -/
theorem replaceVariables_lead (vs : Store) {front : String} (hfront : '$' ∉ front.toList)
    (text : String) : replaceVariables vs (front ++ text) = front ++ replaceVariables vs text := by
  induction vs generalizing text with
  | nil => rfl
  | cons entry vs ih =>
      have hstep : replaceVariable (front ++ text) entry = front ++ replaceVariable text entry := by
        rw [← String.toList_inj, String.toList_append, replaceVariable, replaceVariable,
          Text.replaceAll, Text.replaceAll, String.toList_ofList, String.toList_ofList,
          String.toList_append, String.toList_append]
        exact replaceFrom_lead _ hfront _
      rw [replaceVariables, List.foldl_cons, hstep]
      exact ih _

/-- Replacing passes over references in braces. -/
theorem replaceVariables_braced {vs : Store} (hnames : ∀ entry ∈ vs, isReferable entry.1 = true)
    {name : String} (hname : isReferable name = true) :
    replaceVariables vs (braced name).raw = (braced name).raw := by
  induction vs with
  | nil => rfl
  | cons entry vs ih =>
      rw [List.forall_mem_cons] at hnames
      have hstep : replaceVariable (braced name).raw entry = (braced name).raw := by
        have hnot := not_prefix_of_endsName hnames.1 (clear_brace (name.toList ++ ['\x7d'])).1
        have hbehind := @replaceFrom_lead entry.1.toList entry.2.toList _
          (no_dollar_behind_brace hname) []
        rw [List.append_nil, Text.replaceFrom, List.append_nil] at hbehind
        rw [replaceVariable, Text.replaceAll, ← String.toList_inj, String.toList_ofList,
          String.toList_append, toList_braced]
        exact (replaceFrom_dollar_of_not _ hnot).trans (congrArg _ hbehind)
      rw [replaceVariables, List.foldl_cons, hstep]
      exact ih hnames.2

/-- If the last replacing leaves a name behind a dollar sign that it looks for, then it has put it
    there: its value starts the text. -/
theorem prefix_of_restored {name value text word : List Char} (hstarts : name <+: word)
    (hword : '$' ∉ word) (hvalue : '$' ∈ value)
    (h : Text.replaceFrom ('$' :: name) value 0 text = '$' :: word) : value <+: '$' :: word := by
  have hswapped := Text.swapped_replaceFrom (List.cons_ne_nil '$' name) value text 0
  rw [h, List.drop_zero] at hswapped
  generalize hresult : '$' :: word = result at hswapped ⊢
  cases hswapped with
  | last hnot =>
      rw [← hresult] at hnot
      exact absurd (List.cons_prefix_cons.mpr ⟨rfl, hstarts⟩).isInfix hnot
  | @next gap _ rest _ =>
      cases gap with
      | nil => exact List.prefix_append value rest
      | cons c gap =>
          -- the dollar sign of the value would be a second one
          have hbehind := (List.cons.inj hresult).2
          rw [hbehind] at hword
          exact absurd (by simp [hvalue]) hword

/-! ## Writing out by whole names -/

/-- What is written for a reference by its whole name. -/
def wholeName (vs : Store) (r : Reference) : String :=
  (vs.get? r.name).getD r.raw

section WholeNames

variable {vs : Store} {name : String}

/-- Writing out by whole names is two scans: over the references in braces, and then over the
    others. -/
theorem substitute_eq (vs : Store) (text : String) :
    substitute vs text
      = expandWith bareAt (wholeName vs) (expandWith bracedAt (wholeName vs) text) := rfl

/-- A name that is there has its value written. -/
theorem wholeName_of_get? {r : Reference} {value : String} (h : vs.get? r.name = some value) :
    wholeName vs r = value := by
  rw [wholeName, h]
  rfl

/-- One that is not stays as it was written. -/
theorem wholeName_of_none {r : Reference} (h : vs.get? r.name = none) : wholeName vs r = r.raw := by
  rw [wholeName, h]
  rfl

/-- Both scans pass over what holds no dollar sign. -/
theorem substitute_lead (vs : Store) {front : String} (hfront : '$' ∉ front.toList)
    (text : String) : substitute vs (front ++ text) = front ++ substitute vs text := by
  rw [substitute_eq, substitute_eq, bracedAt_scan.expandWith_lead hfront,
    bareAt_scan.expandWith_lead hfront]

/-- A bare reference is left by the first scan and written out by the second. -/
theorem substitute_bare (vs : Store) (hname : isReferable name = true) :
    substitute vs (bare name).raw = wholeName vs (bare name) := by
  rw [substitute_eq, expandWith_bracedAt_bare hname, expandWith_bareAt_bare hname]

/-- One in braces is written out by the first, and the second goes over its value. -/
theorem substitute_braced {value : String} (hname : isBraceable name = true)
    (hget : vs.get? name = some value) :
    substitute vs (braced name).raw = expandWith bareAt (wholeName vs) value := by
  have hvalue : wholeName vs (braced name) = value := wholeName_of_get? hget
  rw [substitute_eq, expandWith_bracedAt_braced hname, hvalue]

end WholeNames

/-! ## All texts -/

/-- Every name has a longer one that is not there. -/
theorem exists_longer_unknown (vs : Store) {name : String} (hname : isReferable name = true) :
    ∃ word : String, name.toList <+: word.toList ∧ isReferable word = true ∧
      vs.get? word = none := by
  obtain ⟨bound, hbound⟩ := Variables.Store.get?_eq_none_of_long vs
  refine ⟨String.ofList (name.toList ++ List.replicate (bound + 1) 'x'), ?_, ?_, hbound _ ?_⟩
  · rw [String.toList_ofList]
    exact List.prefix_append _ _
  · have hx : Text.isWordChar 'x' = true := by decide +kernel
    simp only [isReferable, Bool.and_eq_true] at hname ⊢
    simp [hname.2, hx]
  · rw [← String.length_toList, String.toList_ofList, List.length_append, List.length_replicate]
    omega

section AllTexts

variable {vs : Store} (h : Defined vs)
  (hall : ∀ text, replaceVariables vs text = substitute vs text)

include h hall

/-- Where all texts are written alike, a value is written as the reference in braces. -/
theorem written_as_braced {name value : String} (hget : vs.get? name = some value) :
    expandWith bareAt (wholeName vs) value = (braced name).raw := by
  have hname := h.braceable_of_get? hget
  rw [← substitute_braced hname hget, ← hall]
  exact replaceVariables_braced h.referable (Reference.isReferable_of_isBraceable hname)

/-- So a value without bare references is a reference in braces to its own name. -/
theorem eq_braced_of_no_reference {name value : String} (hget : vs.get? name = some value)
    (hno : ∀ r, .reference r ∉ pieces bareAt value) : value = (braced name).raw := by
  rw [← written_as_braced h hall hget]
  exact (bareAt_scan.expandWith_eq_self fun r hr => absurd hr (hno r)).symm

/-- Where all texts are written alike, every value has a dollar sign: the reference in braces, which
    it is written as, has one. -/
theorem dollar_of_get? {name value : String} (hget : vs.get? name = some value) :
    '$' ∈ value.toList := by
  by_contra hno
  have hself := eq_braced_of_no_reference h hall hget (bareAt_scan.no_reference hno)
  rw [hself, raw_braced] at hno
  exact hno List.mem_cons_self

/-- No value is a bare reference: what it refers to would be the variable itself. -/
theorem ne_bare {name value other : String} (hget : vs.get? name = some value)
    (hother : isReferable other = true) : value ≠ (bare other).raw := by
  rintro rfl
  have hwritten := written_as_braced h hall hget
  rw [expandWith_bareAt_bare hother] at hwritten
  cases hreferred : vs.get? other with
  | none => exact bare_ne_braced hother ((wholeName_of_none hreferred).symm.trans hwritten)
  | some referred =>
      obtain rfl : referred = (braced name).raw :=
        (wholeName_of_get? hreferred).symm.trans hwritten
      have hback := written_as_braced h hall hreferred
      rw [expandWith_bareAt_braced (h.braceable_of_get? hget)] at hback
      obtain rfl := braced_inj hback
      rw [hget, Option.some.injEq] at hreferred
      exact bare_ne_braced hother hreferred

/-- Nor is it a dollar sign with nothing behind it. -/
theorem toList_ne_dollar {name value : String} (hget : vs.get? name = some value) :
    value.toList ≠ ['$'] := by
  intro hvalue
  have hpieces : pieces bareAt value = [.char '$'] := by
    rw [pieces, hvalue, piecesAfter_char (bareAt_eq_none_of_lone fun _ => .nil)]
    rfl
  have hself := eq_braced_of_no_reference h hall hget fun r => by simp [hpieces]
  rw [hself, raw_braced] at hvalue
  simp at hvalue

/-- But the last variable that is replaced would have such a value: a longer reference, which is
    unknown, is there in the end, so the value has put it there. -/
theorem exists_tail_of_last {init : Store} {name value : String}
    (hvs : vs = init ++ [(name, value)]) :
    ∃ tail, value.toList = '$' :: tail ∧ tail.all Text.isWordChar = true := by
  have hmem : (name, value) ∈ vs := by simp [hvs]
  have hdollar := dollar_of_get? h hall (h.get?_of_mem hmem)
  obtain ⟨word, hstarts, hword, hunknown⟩ := exists_longer_unknown vs (h.referable _ hmem)
  have hrestored : replaceVariables vs (bare word).raw = (bare word).raw := by
    rw [hall, substitute_bare vs hword]
    exact wholeName_of_none hunknown
  rw [hvs, replaceVariables, List.foldl_append, List.foldl_cons, List.foldl_nil, replaceVariable,
    Text.replaceAll, ← String.toList_inj, String.toList_ofList, String.toList_append,
    raw_bare] at hrestored
  have hfront := prefix_of_restored hstarts (Reference.no_dollar_of_isReferable hword) hdollar
    hrestored
  rcases List.prefix_cons_iff.mp hfront with hnil | ⟨tail, hvalue, htail⟩
  · rw [hnil] at hdollar
    cases hdollar
  · simp only [isReferable, Bool.and_eq_true, List.all_eq_true] at hword
    exact ⟨tail, hvalue, List.all_eq_true.mpr fun c hc => hword.2 c (htail.subset hc)⟩

end AllTexts

/-- **All texts are written alike only where there are no variables.**  References in braces are
    passed over, so values have dollar signs, and are no bare references; but the value of the last
    variable is one. -/
theorem replaceVariables_eq_substitute_iff {vs : Store} (h : Defined vs) :
    (∀ text, replaceVariables vs text = substitute vs text) ↔ vs = [] := by
  constructor
  · intro hall
    rcases List.eq_nil_or_concat' vs with hnil | ⟨init, ⟨name, value⟩, hvs⟩
    · exact hnil
    exfalso
    have hget : vs.get? name = some value :=
      h.get?_of_mem (hvs ▸ List.mem_append_right init List.mem_cons_self)
    obtain ⟨tail, hvalue, htail⟩ := exists_tail_of_last h hall hvs
    cases tail with
    | nil => exact toList_ne_dollar h hall hget hvalue
    | cons c tail =>
        have hother : isReferable (String.ofList (c :: tail)) = true := by
          rw [isReferable, String.toList_ofList, htail]
          rfl
        refine ne_bare h hall hget hother ?_
        rw [← String.toList_inj, raw_bare, String.toList_ofList, hvalue]
  · rintro rfl text
    have hself : ∀ r, wholeName [] r = r.raw := fun _ => rfl
    rw [substitute_eq, bracedAt_scan.expandWith_eq_self fun r _ => hself r,
      bareAt_scan.expandWith_eq_self fun r _ => hself r]
    rfl

/-! ## Texts with some references -/

/-- A text refers to something, in braces or without. -/
def RefersTo (text : String) (r : Reference) : Prop :=
  .reference r ∈ pieces bracedAt text ∨ .reference r ∈ pieces bareAt text

/-- A text whose references are set apart and among some. -/
structure ApartWithin (used : Reference → Prop) (text : String) : Prop where
  apart : SetApart text.toList
  within : ∀ r, RefersTo text r → used r

/-- A mark in front, without a dollar sign, adds no reference. -/
theorem ApartWithin.mark {used : Reference → Prop} (text : String) (h : ApartWithin used text) :
    ApartWithin used ("!" ++ text) where
  apart := by
    rw [String.toList_append]
    exact h.apart.lead (by decide)
  within r hr := by
    refine h.within r ?_
    have hmark : '$' ∉ "!".toList := by decide
    simpa [RefersTo, bracedAt_scan.pieces_lead hmark, bareAt_scan.pieces_lead hmark] using hr

/-- A bare reference refers to nothing but itself. -/
theorem eq_of_refersTo_bare {name : String} (h : isReferable name = true) {r : Reference}
    (hr : RefersTo (bare name).raw r) : r = bare name := by
  have hbraced := bracedPieces_bare h []
  have hbare := piecesAfter_found (by simp [raw_bare]) (Reference.bareAt_bare h Clear.nil.1)
  rw [List.append_nil, piecesAfter] at hbraced hbare
  simpa [RefersTo, pieces, hbraced, hbare] using hr

/-- So does one in braces: behind its brace there is no dollar sign for another one. -/
theorem eq_of_refersTo_braced {name : String} (h : isBraceable name = true) {r : Reference}
    (hr : RefersTo (braced name).raw r) : r = braced name := by
  have hbraced := piecesAfter_found (by simp [raw_braced]) (Reference.bracedAt_braced h [])
  rw [List.append_nil, piecesAfter] at hbraced
  have hbare := bareAt_scan.piecesAfter_lead
    (no_dollar_behind_brace (Reference.isReferable_of_isBraceable h)) []
  rw [List.append_nil, piecesAfter, List.append_nil] at hbare
  have hnone : bareAt ('$' :: '\x7b' :: (name.toList ++ ['\x7d'])) = none :=
    bareAt_eq_none_of_lone fun _ => clear_brace _
  rcases hr with hr | hr
  · simpa [pieces, hbraced] using hr
  · rw [pieces, toList_braced, piecesAfter_char hnone, hbare] at hr
    simp at hr

/-- **Texts with some references are written alike** exactly if no variable is used in braces, and
    the first variable that the name of a used reference starts with writes what the whole name
    stands for. -/
theorem replaceVariables_eq_substitute_within_iff {vs : Store} (h : Defined vs)
    (hliteral : Literal vs) (used : Reference → Prop) :
    (∀ text, ApartWithin used text → replaceVariables vs text = substitute vs text) ↔
      ∀ name, (used (braced name) → isBraceable name = true → vs.get? name = none) ∧
        (used (bare name) → isReferable name = true →
          captured vs (bare name) = wholeName vs (bare name)) := by
  constructor
  · intro hall name
    constructor
    · intro hused hname
      have hreferable := Reference.isReferable_of_isBraceable hname
      have hwithin : ApartWithin used (braced name).raw :=
        ⟨setApart_braced hreferable, fun r hr => eq_of_refersTo_braced hname hr ▸ hused⟩
      have hsame := hall _ hwithin
      rw [replaceVariables_braced h.referable hreferable] at hsame
      by_contra hknown
      obtain ⟨value, hget⟩ := Option.ne_none_iff_exists'.mp hknown
      have hno := hliteral.of_get? hget
      have hvalue : expandWith bareAt (wholeName vs) value = value :=
        bareAt_scan.expandWith_eq_self fun r hr => absurd hr (bareAt_scan.no_reference hno r)
      rw [substitute_braced hname hget, hvalue] at hsame
      rw [← hsame, toList_braced] at hno
      exact hno List.mem_cons_self
    · intro hused hname
      have hwithin : ApartWithin used (bare name).raw :=
        ⟨setApart_bare hname, fun r hr => eq_of_refersTo_bare hname hr ▸ hused⟩
      have hsame := hall _ hwithin
      rwa [replaceVariables_eq_expandWith h.referable hliteral hwithin.apart,
        expandWith_bareAt_bare hname, substitute_bare vs hname] at hsame
  · intro hnames text htext
    rw [replaceVariables_eq_expandWith h.referable hliteral htext.apart, substitute_eq,
      bracedAt_scan.expandWith_eq_self]
    · refine expandWith_congr fun r hr => ?_
      obtain ⟨hname, hbare⟩ := eq_bare_of_mem hr
      have hused := htext.within r (.inr hr)
      rw [hbare] at hused ⊢
      exact (hnames r.name).2 hused hname
    · intro r hr
      obtain ⟨hname, hbraced⟩ := eq_braced_of_mem hr
      have hused := htext.within r (.inl hr)
      rw [hbraced] at hused
      exact wholeName_of_none ((hnames r.name).1 hused hname)

/-! ## Other orders -/

/-- A name that starts with another one has a value that starts with the other's value and goes on
    like the name. -/
def Compatible (vs : Store) : Prop :=
  ∀ m ∈ vs, ∀ n ∈ vs, ∀ rest, n.1 = m.1 ++ rest → n.2 = m.2 ++ rest

section Orders

variable {vs vs' : Store} {m n : String × String} {r : Reference}

/-- A variable starts the name of a reference if something can be put behind it to give the name. -/
theorem exists_rest_of_startsWith (h : startsWith r m = true) : ∃ rest, r.name = m.1 ++ rest := by
  obtain ⟨rest, hrest⟩ := startsWith_iff.mp h
  exact ⟨String.ofList rest, by
    rw [← String.toList_inj, String.toList_append, String.toList_ofList, hrest]⟩

theorem startsWith_of_name {rest : String} (hname : r.name = m.1 ++ rest) :
    startsWith r m = true := by
  rw [startsWith_iff, hname, String.toList_append]
  exact List.prefix_append _ _

/-- What is taken is the value, with the rest of the name behind it. -/
theorem taken_of_name {rest : String} (hname : r.name = m.1 ++ rest) : taken r m = m.2 ++ rest := by
  rw [taken, hname, String.toList_append, List.drop_left, String.ofList_toList]

/-- If both variables could take the reference, the value of the longer one is that of the shorter
    one and the characters between. -/
theorem Compatible.taken_eq_of_shorter (h : Compatible vs) (hm : m ∈ vs) (hn : n ∈ vs)
    (hshort : m.1.toList <+: n.1.toList) (hstarts : startsWith r n = true) :
    taken r m = taken r n := by
  obtain ⟨more, hmore⟩ := exists_rest_of_startsWith hstarts
  obtain ⟨rest, hrest⟩ : ∃ rest, n.1 = m.1 ++ rest :=
    exists_rest_of_startsWith (r := bare n.1) (startsWith_iff.mpr hshort)
  have hname : r.name = m.1 ++ (rest ++ more) := by rw [hmore, hrest, String.append_assoc]
  rw [taken_of_name hname, taken_of_name hmore, h m hm n hn rest hrest, String.append_assoc]

/-- Two variables that could both take a reference write the same for it. -/
theorem Compatible.taken_eq (h : Compatible vs) (hm : m ∈ vs) (hn : n ∈ vs)
    (hstartsm : startsWith r m = true) (hstartsn : startsWith r n = true) :
    taken r m = taken r n := by
  rcases List.prefix_or_prefix_of_prefix (startsWith_iff.mp hstartsm)
    (startsWith_iff.mp hstartsn) with hshort | hshort
  · exact h.taken_eq_of_shorter hm hn hshort hstartsn
  · exact (h.taken_eq_of_shorter hn hm hshort hstartsm).symm

/-- Compatible variables in another order: whichever of them comes first to a reference, the same is
    written for it. -/
theorem Compatible.captured_eq (h : Compatible vs) (hperm : vs'.Perm vs) (r : Reference) :
    captured vs' r = captured vs r := by
  rw [captured, captured]
  cases hfind : vs.find? (startsWith r) with
  | none =>
      have hnone : vs'.find? (startsWith r) = none := by
        rw [List.find?_eq_none] at hfind ⊢
        exact fun entry hentry => hfind entry (hperm.mem_iff.mp hentry)
      rw [hnone]
  | some n =>
      cases hfind' : vs'.find? (startsWith r) with
      | none =>
          rw [List.find?_eq_none] at hfind'
          exact absurd (List.find?_some hfind)
            (hfind' n (hperm.mem_iff.mpr (List.mem_of_find?_eq_some hfind)))
      | some m =>
          exact h.taken_eq (hperm.mem_iff.mp (List.mem_of_find?_eq_some hfind'))
            (List.mem_of_find?_eq_some hfind) (List.find?_some hfind') (List.find?_some hfind)

end Orders

/-- **The order of the variables does not matter** exactly if they are compatible. -/
theorem replaceVariables_perm_iff {vs : Store} (h : Defined vs) (hliteral : Literal vs) :
    (∀ vs' : Store, vs'.Perm vs → ∀ text, SetApart text.toList →
      replaceVariables vs' text = replaceVariables vs text) ↔ Compatible vs := by
  have hscan : ∀ vs' : Store, vs'.Perm vs → ∀ text, SetApart text.toList →
      replaceVariables vs' text = expandWith bareAt (captured vs') text := by
    intro vs' hperm text htext
    exact replaceVariables_eq_expandWith
      (fun entry hentry => h.referable entry (hperm.mem_iff.mp hentry))
      (fun entry hentry => hliteral entry (hperm.mem_iff.mp hentry)) htext
  constructor
  · intro hall m hm n hn rest hrest
    have hname := h.referable n hn
    -- whichever variable comes first, it takes the reference
    have hfirst : ∀ entry ∈ vs, ∀ more, n.1 = entry.1 ++ more →
        entry.2 ++ more = captured vs (bare n.1) := by
      intro entry hentry more hmore
      have hperm := (List.perm_cons_erase hentry).symm
      have hsame := hall _ hperm _ (setApart_bare hname)
      rw [hscan _ hperm _ (setApart_bare hname), hscan _ (.refl vs) _ (setApart_bare hname),
        expandWith_bareAt_bare hname, expandWith_bareAt_bare hname] at hsame
      have hstarts : startsWith (bare n.1) entry = true := startsWith_of_name hmore
      rw [← hsame, captured_cons_of_starts hstarts]
      exact (taken_of_name hmore).symm
    have hown := hfirst n hn "" String.append_empty.symm
    rw [String.append_empty] at hown
    rw [hown, hfirst m hm rest hrest]
  · intro hcompatible vs' hperm text htext
    rw [hscan vs' hperm text htext, hscan vs (.refl vs) text htext]
    exact expandWith_congr fun r _ => hcompatible.captured_eq hperm r

/-! ## Commands -/

/-- **Where replacing variables agrees with writing them out by whole names.**  Whatever else a
    command is read under, and for all variables that lines can define: all commands mean the same
    in both ways only if there are no variables.  If no value holds a dollar sign, then for any
    set of references, all commands that have only these, set apart, mean the same if and only if
    no known name is among them in braces, and for each bare one the first variable whose name it
    starts with writes what its whole name stands for.  And commands mean the same for all orders
    of the variables if and only if these are compatible. -/
theorem substitutions_agree_iff {vs : Store} (h : Defined vs) (s : Surroundings) :
    ((∀ command, Agrees s vs command) ↔ vs = []) ∧
    (Literal vs → ∀ used : Reference → Prop,
      ((∀ command, ApartWithin used command → Agrees s vs command) ↔
        ∀ name, (used (braced name) → isBraceable name = true → vs.get? name = none) ∧
          (used (bare name) → isReferable name = true →
            captured vs (bare name) = wholeName vs (bare name)))) ∧
    (Literal vs →
      ((∀ vs' : Store, vs'.Perm vs → ∀ command, SetApart command.toList →
          meaning { s with vars := vs' } command = meaning { s with vars := vs } command) ↔
        Compatible vs)) := by
  have hmark : '$' ∉ "!".toList := by decide
  have hreplace := fun vs' : Store => replaceVariables_lead vs' hmark
  have hsubstitute := substitute_lead vs hmark
  refine ⟨?_, fun hliteral used => ?_, fun hliteral => ?_⟩
  · have hall := @shapeMeaning_eq_iff s _ _ (fun _ => True) (hreplace vs) hsubstitute
      fun _ _ => trivial
    simp only [true_implies] at hall
    rw [← replaceVariables_eq_substitute_iff h, ← hall]
    exact forall_congr' fun _ => agrees_iff
  · rw [← replaceVariables_eq_substitute_within_iff h hliteral used]
    simp only [agrees_iff]
    exact shapeMeaning_eq_iff (hreplace vs) hsubstitute ApartWithin.mark
  · rw [← replaceVariables_perm_iff h hliteral]
    simp only [meaning_vars]
    refine forall_congr' fun vs' => forall_congr' fun _ => ?_
    exact shapeMeaning_eq_iff (hreplace vs') (hreplace vs) fun text htext => by
      rw [String.toList_append]
      exact htext.lead hmark

/-- With `A=x` and `AB=y`, in this order, `$AB` is taken by `A`. -/
theorem shorter_name_takes_reference :
    let vs : Store := (["A=x".toList, "AB=y".toList].foldl (State.takeLine true) {}).vars
    vs = [("A", "x"), ("AB", "y")] ∧
    replaceVariables vs "touch /srv/$AB" = "touch /srv/xB" ∧
    substitute vs "touch /srv/$AB" = "touch /srv/y" ∧
    (∀ command, ApartWithin (· = bare "A") command → Agrees {} vs command) ∧
    ¬ (∀ command, ApartWithin (· = bare "AB") command → Agrees {} vs command) ∧
    ¬ ∀ vs' : Store, vs'.Perm vs → ∀ command, SetApart command.toList →
      meaning { vars := vs' } command = meaning { vars := vs } command := by
  intro vs
  have hvs : vs = [("A", "x"), ("AB", "y")] := by decide +kernel
  have hliteral : Literal vs := by
    rw [hvs, Literal]
    decide
  obtain ⟨-, hwithin, horder⟩ := substitutions_agree_iff (defined_vars true _) {}
  refine ⟨hvs, by rw [hvs]; decide +kernel, by rw [hvs]; decide +kernel,
    (hwithin hliteral _).mpr fun name => ⟨fun hused => ?_, fun hused _ => ?_⟩, ?_, ?_⟩
  · have hraw : (bare "A").raw = (braced name).raw := congrArg Reference.raw hused.symm
    exact absurd hraw (bare_ne_braced (by decide +kernel))
  · have hname : name = "A" := congrArg Reference.name hused
    show captured vs (bare name) = wholeName vs (bare name)
    rw [hvs, hname]
    decide
  · rw [hwithin hliteral]
    intro hall
    have htaken : captured vs (bare "AB") = wholeName vs (bare "AB") :=
      (hall "AB").2 rfl (by decide +kernel)
    rw [hvs] at htaken
    exact absurd htaken (by decide)
  · intro hall
    have hcompatible : Compatible vs := (horder hliteral).mp hall
    rw [hvs] at hcompatible
    exact absurd (hcompatible ("A", "x") (by decide) ("AB", "y") (by decide) "B" (by decide))
      (by decide)

end Playscript.Line
