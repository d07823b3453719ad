import Playscript.Line.Command
import Playscript.Proofs.Replacement
import Playscript.Proofs.SingleScan

/-! # Variables replaced one after the other

    Where the variables of a text are replaced one after the other, each takes all references that
    start with its name.  What it writes for them can stand in front of the rest of a text that
    is still to be looked at, or behind a dollar sign that has been passed over.  If no value holds
    a dollar sign and references are set apart (`SetApart`), neither does harm: each reference is
    written out by the first variable whose name it starts with, whatever the others are, and
    that is what a single scan does (`replaceVariables_eq_expandWith`). -/

namespace Playscript.Line

open Reference (bare bareAt bareAt_scan isReferable raw_bare)

/-! ## References that are set apart -/

/-- What can stand behind a reference that is set apart: no more of its name, and no other
    reference. -/
def Clear (behind : List Char) : Prop :=
  EndsName behind ∧ behind.head? ≠ some '$'

/-- A text in which no dollar sign stands directly behind a reference or another dollar sign. -/
inductive SetApart : List Char → Prop where
  | done : SetApart []
  | char {c : Char} {rest : List Char} (lone : c = '$' → Clear rest) (apart : SetApart rest) :
      SetApart (c :: rest)
  | bare {name : String} {rest : List Char} (referable : isReferable name = true)
      (clear : Clear rest) (apart : SetApart rest) : SetApart ((bare name).raw.toList ++ rest)

theorem Clear.nil : Clear [] := ⟨nofun, nofun⟩

theorem bareAt_eq_none_of_lone {c : Char} {rest : List Char} (h : c = '$' → Clear rest) :
    bareAt (c :: rest) = none :=
  (bareAt_cons_eq_none_iff c rest).mpr fun hc => (h hc).1

/-- Characters in front without a dollar sign leave references set apart. -/
theorem SetApart.lead {front rest : List Char} (hfront : '$' ∉ front) (h : SetApart rest) :
    SetApart (front ++ rest) := by
  induction front with
  | nil => exact h
  | cons c front ih =>
      rw [List.mem_cons, not_or] at hfront
      exact .char (fun hc => absurd hc.symm hfront.1) (ih hfront.2)

/-- What is clear of references stays so when references are written out. -/
theorem Clear.spell {rest : List Char} (h : Clear rest) (value : Reference → String) :
    Clear (spell bareAt value rest) := by
  cases rest with
  | nil => rw [spell_nil]; exact .nil
  | cons c rest =>
      have hc : c ≠ '$' := fun hc => h.2 (by rw [hc]; rfl)
      rw [spell_char (bareAt_scan.find_eq_none hc rest)]
      exact h

/-! ## What is written for a reference -/

/-- Whether a reference starts with the name of a variable. -/
def startsWith (r : Reference) (entry : String × String) : Bool :=
  entry.1.toList.isPrefixOf r.name.toList

/-- What a variable writes for a reference that starts with its name: its value, and then what is
    left of the reference. -/
def taken (r : Reference) (entry : String × String) : String :=
  entry.2 ++ String.ofList (r.name.toList.drop entry.1.toList.length)

/-- What replacing writes for a reference: the first variable whose name it starts with takes it. -/
def captured (vs : Store) (r : Reference) : String :=
  ((vs.find? (startsWith r)).map (taken r)).getD r.raw

theorem startsWith_iff {r : Reference} {entry : String × String} :
    startsWith r entry = true ↔ entry.1.toList <+: r.name.toList :=
  List.isPrefixOf_iff_prefix

section Captured

variable {entry : String × String} {r : Reference}

theorem captured_cons_of_starts (h : startsWith r entry = true) (vs : Store) :
    captured (entry :: vs) r = taken r entry := by
  rw [captured, List.find?_cons_of_pos h]
  rfl

theorem captured_cons_of_not (h : startsWith r entry = false) (vs : Store) :
    captured (entry :: vs) r = captured vs r := by
  rw [captured, List.find?_cons_of_neg (by rw [h]; decide), captured]

theorem captured_nil (r : Reference) : captured [] r = r.raw := rfl

/-- A variable without a dollar sign leaves none of the reference. -/
theorem no_dollar_taken {name : String} (hname : isReferable name = true)
    (hvalue : '$' ∉ entry.2.toList) : '$' ∉ (taken (bare name) entry).toList := by
  rw [taken, String.toList_append, String.toList_ofList, List.mem_append, not_or]
  exact ⟨hvalue, fun hmem =>
    Reference.no_dollar_of_isReferable hname (List.mem_of_mem_drop hmem)⟩

end Captured

/-! ## One variable -/

/-- What ends a name does not let a longer one in. -/
theorem prefix_append_iff {name word behind : List Char}
    (hname : name.all Text.isWordChar = true) (hends : EndsName behind) :
    name <+: word ++ behind ↔ name <+: word := by
  refine ⟨fun h => ?_, fun h => h.trans (List.prefix_append _ _)⟩
  have hword : word <+: word ++ behind := List.prefix_append word behind
  rcases List.prefix_or_prefix_of_prefix h hword with hshort | ⟨more, rfl⟩
  · exact hshort
  · rw [List.prefix_append_right_inj] at h
    cases more with
    | nil => simp
    | cons c more =>
        obtain ⟨rest, rfl⟩ := h
        have hc : Text.isWordChar c = false := hends c rfl
        simp [hc] at hname

/-- No name stands where names end. -/
theorem not_prefix_of_endsName {name : String} (hname : isReferable name = true)
    {behind : List Char} (hends : EndsName behind) : ¬ name.toList <+: behind := by
  obtain ⟨hne, hword⟩ : name.toList ≠ [] ∧ name.toList.all Text.isWordChar = true := by
    simpa [isReferable] using hname
  intro hstarts
  have hnil := (@prefix_append_iff _ [] _ hword hends).mp hstarts
  exact hne (List.prefix_nil.mp hnil)

section Replacing

variable {old : List Char} (new : List Char)

/-- Characters that are skipped have no part in replacing. -/
theorem replaceFrom_drop (old : List Char) (skip : Nat) (cs : List Char) :
    Text.replaceFrom old new skip cs = Text.replaceFrom old new 0 (cs.drop skip) := by
  induction cs generalizing skip with
  | nil => rw [List.drop_nil, Text.replaceFrom, Text.replaceFrom]
  | cons c rest ih =>
      cases skip with
      | zero => rfl
      | succ skip => rw [Text.replaceFrom, List.drop_succ_cons, ih]

/-- Replacing a reference passes over characters without a dollar sign. -/
theorem replaceFrom_lead {front : List Char} (hfront : '$' ∉ front) (rest : List Char) :
    Text.replaceFrom ('$' :: old) new 0 (front ++ rest)
      = front ++ Text.replaceFrom ('$' :: old) new 0 rest := by
  induction front with
  | nil => rfl
  | cons c front ih =>
      rw [List.mem_cons, not_or] at hfront
      rw [List.cons_append, Text.replaceFrom, if_neg (by simp [hfront.1]), ih hfront.2,
        List.cons_append]

/-- Where the name stands behind the dollar sign, it is replaced, and replacing goes on behind
    it. -/
theorem replaceFrom_dollar_of_starts {rest : List Char} (h : old <+: rest) :
    Text.replaceFrom ('$' :: old) new 0 ('$' :: rest)
      = new ++ Text.replaceFrom ('$' :: old) new 0 (rest.drop old.length) := by
  rw [Text.replaceFrom, if_pos (by simpa using h), replaceFrom_drop]
  rfl

theorem replaceFrom_dollar_of_not {rest : List Char} (h : ¬ old <+: rest) :
    Text.replaceFrom ('$' :: old) new 0 ('$' :: rest)
      = '$' :: Text.replaceFrom ('$' :: old) new 0 rest := by
  rw [Text.replaceFrom, if_neg (by simpa using h)]

end Replacing

/-- A variable takes the references that start with its name. -/
theorem replaceFrom_eq_spell {entry : String × String} (hname : isReferable entry.1 = true)
    {cs : List Char} (h : SetApart cs) :
    Text.replaceFrom ('$' :: entry.1.toList) entry.2.toList 0 cs
      = spell bareAt (captured [entry]) cs := by
  have hword : entry.1.toList.all Text.isWordChar = true := by
    simp only [isReferable, Bool.and_eq_true] at hname
    exact hname.2
  induction h with
  | done => rw [Text.replaceFrom, spell_nil]
  | @char c rest lone _ ih =>
      rw [spell_char (bareAt_eq_none_of_lone lone), ← ih]
      by_cases hc : c = '$'
      · subst hc
        exact replaceFrom_dollar_of_not _ (not_prefix_of_endsName hname (lone rfl).1)
      · exact @replaceFrom_lead _ _ [c] (by simpa using Ne.symm hc) rest
  | @bare name rest referable clear _ ih =>
      rw [spell_bareAt_bare referable clear.1, ← ih, raw_bare, List.cons_append]
      cases hstarts : startsWith (bare name) entry with
      | true =>
          have hbegins : entry.1.toList <+: name.toList := startsWith_iff.mp hstarts
          rw [captured_cons_of_starts hstarts,
            replaceFrom_dollar_of_starts _ (hbegins.trans (List.prefix_append _ _)),
            List.drop_append_of_le_length hbegins.length_le, replaceFrom_lead, taken,
            String.toList_append, String.toList_ofList, List.append_assoc]
          · rfl
          · exact fun hmem => Reference.no_dollar_of_isReferable referable
              (List.mem_of_mem_drop hmem)
      | false =>
          have hnot : ¬ entry.1.toList <+: name.toList ++ rest := by
            rw [prefix_append_iff hword clear.1]
            intro hbegins
            have hstart : startsWith (bare name) entry = true := startsWith_iff.mpr hbegins
            rw [hstarts] at hstart
            cases hstart
          rw [captured_cons_of_not hstarts, captured_nil, raw_bare,
            replaceFrom_dollar_of_not _ hnot,
            replaceFrom_lead _ (Reference.no_dollar_of_isReferable referable)]
          rfl

/-! ## One variable after the other -/

/-- What one variable has written stays set apart. -/
theorem SetApart.spell_captured {entry : String × String} (hvalue : '$' ∉ entry.2.toList)
    {cs : List Char} (h : SetApart cs) : SetApart (spell bareAt (captured [entry]) cs) := by
  induction h with
  | done => rw [spell_nil]; exact .done
  | char lone _ ih =>
      rw [spell_char (bareAt_eq_none_of_lone lone)]
      exact .char (fun hc => (lone hc).spell _) ih
  | @bare name rest referable clear _ ih =>
      rw [spell_bareAt_bare referable clear.1]
      cases hstarts : startsWith (Reference.bare name) entry with
      | true =>
          rw [captured_cons_of_starts hstarts]
          exact ih.lead (no_dollar_taken referable hvalue)
      | false =>
          rw [captured_cons_of_not hstarts, captured_nil]
          exact .bare referable (clear.spell _) ih

/-- **A variable leaves to the others the references that it does not take.** -/
theorem spell_captured_cons {entry : String × String} (hvalue : '$' ∉ entry.2.toList) (vs : Store)
    {cs : List Char} (h : SetApart cs) :
    spell bareAt (captured vs) (spell bareAt (captured [entry]) cs)
      = spell bareAt (captured (entry :: vs)) cs := by
  induction h with
  | done => rw [spell_nil, spell_nil, spell_nil]
  | char lone _ ih =>
      rw [spell_char (bareAt_eq_none_of_lone lone),
        spell_char (bareAt_eq_none_of_lone fun hc => (lone hc).spell _),
        spell_char (bareAt_eq_none_of_lone lone), ih]
  | @bare name rest referable clear _ ih =>
      rw [spell_bareAt_bare referable clear.1, spell_bareAt_bare referable clear.1, ← ih]
      cases hstarts : startsWith (bare name) entry with
      | true =>
          rw [captured_cons_of_starts hstarts, captured_cons_of_starts hstarts,
            bareAt_scan.spell_lead (no_dollar_taken referable hvalue)]
      | false =>
          rw [captured_cons_of_not hstarts, captured_cons_of_not hstarts, captured_nil,
            spell_bareAt_bare referable (clear.spell _).1]

/-- No variable holds a dollar sign. -/
def Literal (vs : Store) : Prop :=
  ∀ entry ∈ vs, '$' ∉ entry.2.toList

theorem Literal.of_get? {vs : Store} (h : Literal vs) {name value : String}
    (hget : vs.get? name = some value) : '$' ∉ value.toList := by
  obtain ⟨before, behind, rfl, -⟩ := List.lookup_eq_some_iff.mp hget
  exact h (name, value) (by simp)

/-- **Replacing the variables one after the other is a single scan**, which writes for each
    reference what the first variable whose name it starts with makes of it. -/
theorem replaceVariables_eq_expandWith {vs : Store}
    (hnames : ∀ entry ∈ vs, isReferable entry.1 = true) (hliteral : Literal vs) {text : String}
    (h : SetApart text.toList) :
    replaceVariables vs text = expandWith bareAt (captured vs) text := by
  induction vs generalizing text with
  | nil => exact (bareAt_scan.expandWith_eq_self fun _ _ => rfl).symm
  | cons entry vs ih =>
      rw [List.forall_mem_cons] at hnames
      obtain ⟨hvalue, hrest⟩ := List.forall_mem_cons.mp hliteral
      have hfirst : (replaceVariable text entry).toList
          = spell bareAt (captured [entry]) text.toList := by
        rw [replaceVariable, Text.replaceAll, String.toList_ofList, String.toList_append]
        exact replaceFrom_eq_spell hnames.1 h
      have hapart : SetApart (replaceVariable text entry).toList := by
        rw [hfirst]
        exact h.spell_captured hvalue
      rw [replaceVariables, List.foldl_cons]
      refine (ih hnames.2 hrest hapart).trans ?_
      rw [← String.toList_inj, toList_expandWith_eq_spell, toList_expandWith_eq_spell, hfirst,
        spell_captured_cons hvalue vs h]

end Playscript.Line
