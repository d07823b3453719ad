import Mathlib.Data.List.Induction
import Playscript.Verb

/-! # Options among the words of a command

    Words are parted one after the other, and an option that takes a value waits for the next word.
    What a word becomes hangs on the row and on whether an option waits (`place_cases`), so the
    operands among some words are found with no more than that from the words in front
    (`operands_placeAll`).  An option waits exactly behind its own name (`waiting_sort`).  Hence
    a flag, or an option with its value, can be put in wherever no option waits, and the operands
    stay as they are; and a word that is no option is an operand unless an option that takes a value
    stands directly in front of it, which then has it for its value (`options_transparent`). -/

namespace Playscript

/-! ## Recorded values -/

namespace Sorted

/-- An option that has been set has its value. -/
theorem lookup_setOption_self (options : List (String × OptionValue)) (name : String)
    (value : OptionValue) : (setOption options name value).lookup name = some value := by
  induction options with
  | nil => rw [setOption, List.lookup_cons, beq_self_eq_true]
  | cons entry rest ih =>
      rw [setOption]
      split
      · rw [List.lookup_cons, beq_self_eq_true]
      · next hne => rw [List.lookup_cons, beq_eq_false_iff_ne.mpr (Ne.symm hne), ih]

/-- All others have theirs. -/
theorem lookup_setOption_of_ne (options : List (String × OptionValue)) {name other : String}
    (value : OptionValue) (h : other ≠ name) :
    (setOption options name value).lookup other = options.lookup other := by
  induction options with
  | nil => rw [setOption, List.lookup_cons, beq_eq_false_iff_ne.mpr h]
  | cons entry rest ih =>
      rw [setOption]
      split
      · next heq =>
          rw [List.lookup_cons, List.lookup_cons, heq, beq_eq_false_iff_ne.mpr h]
      · rw [List.lookup_cons, List.lookup_cons, ih]

end Sorted

namespace Row

/-- Whether a word is an option of a command. -/
def knows (row : Row) (word : String) : Bool :=
  row.flags.contains word || row.valueOptions.contains word

/-- The operands among some words, an option waiting in front of them or none. -/
def operandsBehind (row : Row) (waiting : Option String) (words : List String) : List String :=
  (row.placeAll { waiting := waiting } words).operands

/-- Somewhere among the words a value stands directly behind an option. -/
def Gives (row : Row) (words : List String) (option value : String) : Prop :=
  ∃ before behind, words = before ++ option :: value :: behind ∧ row.knows value = false

/-- An option has a value, or another one that it is given among further words. -/
def Records (row : Row) (s : Sorted) (option value : String) (further : List String) : Prop :=
  s.options.lookup option = some (.text value) ∨
    ∃ later, row.Gives further option later ∧ s.options.lookup option = some (.text later)

variable {row : Row}

/-- A word is no option if it is neither a flag nor the name of one that takes a value. -/
theorem knows_eq_false_iff {word : String} :
    row.knows word = false ↔ word ∉ row.flags ∧ word ∉ row.valueOptions := by
  simp [knows]

/-- A further word takes nothing back of what the words in front give. -/
theorem Gives.snoc {words : List String} {option value : String} (h : row.Gives words option value)
    (word : String) : row.Gives (words ++ [word]) option value := by
  obtain ⟨before, behind, rfl, hvalue⟩ := h
  exact ⟨before, behind ++ [word], by simp, hvalue⟩

/-- Nor does it change a record, if it leaves the option alone. -/
theorem Records.snoc {s s' : Sorted} {option value : String} {words : List String}
    (h : row.Records s option value words)
    (hsame : s'.options.lookup option = s.options.lookup option) (word : String) :
    row.Records s' option value (words ++ [word]) := by
  rw [Records, hsame]
  exact h.imp_right fun ⟨later, hgives, hlater⟩ => ⟨later, hgives.snoc word, hlater⟩

/-! ## One word -/

/-- What can become of a word: a flag, an option that waits, the value of one, or an operand. -/
theorem place_cases (row : Row) (s : Sorted) (word : String) :
    (word ∈ row.flags ∧ row.place s word
      = { s with options := Sorted.setOption s.options word .flag, waiting := none }) ∨
    (word ∉ row.flags ∧ word ∈ row.valueOptions ∧
      row.place s word = { s with waiting := some word }) ∨
    (∃ option, row.knows word = false ∧ s.waiting = some option ∧ row.place s word
      = { s with options := Sorted.setOption s.options option (.text word), waiting := none }) ∨
    (row.knows word = false ∧ s.waiting = none ∧
      row.place s word = { s with operands := s.operands ++ [word] }) := by
  by_cases hflag : word ∈ row.flags
  · exact .inl ⟨hflag, by rw [place, if_pos (by simpa using hflag)]⟩
  by_cases hoption : word ∈ row.valueOptions
  · refine .inr (.inl ⟨hflag, hoption, ?_⟩)
    rw [place, if_neg (by simpa using hflag), if_pos (by simpa using hoption)]
  have hunknown := knows_eq_false_iff.mpr ⟨hflag, hoption⟩
  cases hwaiting : s.waiting with
  | some option =>
      refine .inr (.inr (.inl ⟨option, hunknown, rfl, ?_⟩))
      rw [place, if_neg (by simpa using hflag), if_neg (by simpa using hoption), hwaiting]
  | none =>
      refine .inr (.inr (.inr ⟨hunknown, rfl, ?_⟩))
      rw [place, if_neg (by simpa using hflag), if_neg (by simpa using hoption), hwaiting]

/-- What a word becomes hangs on nothing of the words in front but the option that waits. -/
theorem place_frame (row : Row) (s : Sorted) (word : String) :
    (row.place s word).operands
      = s.operands ++ (row.place { waiting := s.waiting } word).operands ∧
    (row.place s word).waiting = (row.place { waiting := s.waiting } word).waiting := by
  unfold place
  split
  · exact ⟨(List.append_nil _).symm, rfl⟩
  split
  · exact ⟨(List.append_nil _).symm, rfl⟩
  cases hwaiting : s.waiting with
  | some option => exact ⟨(List.append_nil _).symm, rfl⟩
  | none => exact ⟨rfl, rfl⟩

/-- Behind a word an option waits if the word is one that takes a value. -/
theorem waiting_place (hdisjoint : ∀ word ∈ row.flags, word ∉ row.valueOptions) (s : Sorted)
    (word : String) :
    (row.place s word).waiting = (some word).filter row.valueOptions.contains := by
  rcases row.place_cases s word with ⟨hflag, hplace⟩ | ⟨-, hoption, hplace⟩ |
    ⟨option, hunknown, -, hplace⟩ | ⟨hunknown, hwaiting, hplace⟩
  · rw [hplace, Option.filter_some, if_neg (by simpa using hdisjoint _ hflag)]
  · rw [hplace, Option.filter_some, if_pos (by simpa using hoption)]
  · rw [hplace, Option.filter_some, if_neg (by simpa using (knows_eq_false_iff.mp hunknown).2)]
  · rw [hplace, Option.filter_some, if_neg (by simpa using (knows_eq_false_iff.mp hunknown).2)]
    exact hwaiting

/-! ## Words one after the other -/

theorem placeAll_cons (s : Sorted) (word : String) (rest : List String) :
    row.placeAll s (word :: rest) = row.placeAll (row.place s word) rest := rfl

/-- Words are placed one after the other, so rows of words can be too. -/
theorem placeAll_append (s : Sorted) (front back : List String) :
    row.placeAll s (front ++ back) = row.placeAll (row.placeAll s front) back :=
  List.foldl_append

/-- Without subcommands, sorting is placing all words. -/
theorem sort_eq_placeAll (hsubs : row.subcommands = []) (words : List String) :
    row.sort words = row.placeAll {} words := by
  have hnone : row.subcommand? words = none := by
    cases words with
    | nil => rfl
    | cons first rest => rw [subcommand?, hsubs]; rfl
  rw [sort, hnone]
  rfl

/-- **The operands are found with the option that waits.** -/
theorem operands_placeAll (words : List String) : ∀ s : Sorted,
    (row.placeAll s words).operands = s.operands ++ row.operandsBehind s.waiting words := by
  induction words with
  | nil => intro s; exact (List.append_nil _).symm
  | cons word rest ih =>
      intro s
      obtain ⟨hoperands, hwaiting⟩ := row.place_frame s word
      have hfirst : row.operandsBehind s.waiting (word :: rest)
          = (row.place { waiting := s.waiting } word).operands
            ++ row.operandsBehind (row.place { waiting := s.waiting } word).waiting rest := ih _
      rw [placeAll_cons, ih, hfirst, hoperands, hwaiting, List.append_assoc]

section Equations

variable {waiting : Option String} {word : String} (rest : List String)

/-- The operands are those of the first word, and those behind it with the option that then
    waits. -/
theorem operandsBehind_cons : row.operandsBehind waiting (word :: rest)
    = (row.place { waiting := waiting } word).operands
      ++ row.operandsBehind (row.place { waiting := waiting } word).waiting rest := by
  rw [operandsBehind, placeAll_cons, operands_placeAll]

/-- A flag is no operand, and ends the waiting of an option in front of it. -/
theorem operandsBehind_flag (h : word ∈ row.flags) :
    row.operandsBehind waiting (word :: rest) = row.operandsBehind none rest := by
  rw [operandsBehind_cons, place, if_pos (by simpa using h)]
  rfl

/-- So does another option, which then waits itself. -/
theorem operandsBehind_option (hflag : word ∉ row.flags) (h : word ∈ row.valueOptions) :
    row.operandsBehind waiting (word :: rest) = row.operandsBehind (some word) rest := by
  rw [operandsBehind_cons, place, if_neg (by simpa using hflag), if_pos (by simpa using h)]
  rfl

/-- The word behind an option that waits is its value. -/
theorem operandsBehind_value {option : String} (h : row.knows word = false) :
    row.operandsBehind (some option) (word :: rest) = row.operandsBehind none rest := by
  obtain ⟨hflag, hoption⟩ := knows_eq_false_iff.mp h
  rw [operandsBehind_cons, place, if_neg (by simpa using hflag), if_neg (by simpa using hoption)]
  rfl

/-- Where no option waits, a word is an operand. -/
theorem operandsBehind_operand (h : row.knows word = false) :
    row.operandsBehind none (word :: rest) = word :: row.operandsBehind none rest := by
  obtain ⟨hflag, hoption⟩ := knows_eq_false_iff.mp h
  rw [operandsBehind_cons, place, if_neg (by simpa using hflag), if_neg (by simpa using hoption)]
  rfl

end Equations

/-- Operands are words that are no options, in the order of the words. -/
theorem operandsBehind_sublist (words : List String) : ∀ waiting : Option String,
    (row.operandsBehind waiting words).Sublist (words.filter fun word => !row.knows word) := by
  induction words with
  | nil => intro waiting; exact List.Sublist.refl _
  | cons word rest ih =>
      intro waiting
      cases hknown : row.knows word with
      | false =>
          rw [List.filter_cons_of_pos (by rw [hknown]; rfl)]
          cases waiting with
          | none => rw [operandsBehind_operand rest hknown]; exact (ih none).cons_cons word
          | some option => rw [operandsBehind_value rest hknown]; exact (ih none).cons word
      | true =>
          rw [List.filter_cons_of_neg (by rw [hknown]; decide)]
          by_cases hflag : word ∈ row.flags
          · rw [operandsBehind_flag rest hflag]
            exact ih none
          · have hoption : word ∈ row.valueOptions := by
              by_contra hoption
              rw [knows_eq_false_iff.mpr ⟨hflag, hoption⟩] at hknown
              cases hknown
            rw [operandsBehind_option rest hflag hoption]
            exact ih (some word)

/-- Whether an option waits hangs on the last word alone. -/
theorem waiting_placeAll_snoc (hdisjoint : ∀ word ∈ row.flags, word ∉ row.valueOptions) (s : Sorted)
    (words : List String) (word : String) : (row.placeAll s (words ++ [word])).waiting
      = (some word).filter row.valueOptions.contains := by
  rw [placeAll_append]
  exact waiting_place hdisjoint _ word

/-- A value that is recorded stays so until the option is given another one. -/
theorem records_placeAll (hdisjoint : ∀ word ∈ row.flags, word ∉ row.valueOptions)
    {option value : String} (hoption : option ∈ row.valueOptions) {s : Sorted}
    (hwaiting : s.waiting = none)
    (hrecorded : s.options.lookup option = some (.text value)) (words : List String) :
    row.Records (row.placeAll s words) option value words := by
  -- the words are taken from the front, so that the option which waits is the last one of them
  induction words using List.reverseRecOn with
  | nil => exact .inl hrecorded
  | append_singleton words word ih =>
      rw [placeAll_append]
      show row.Records (row.place (row.placeAll s words) word) option value _
      rcases row.place_cases (row.placeAll s words) word with ⟨hflag, hplace⟩ | ⟨-, -, hplace⟩ |
        ⟨other, hunknown, hother, hplace⟩ | ⟨-, -, hplace⟩
      · refine ih.snoc ?_ word
        rw [hplace]
        refine Sorted.lookup_setOption_of_ne _ _ ?_
        rintro rfl
        exact hdisjoint _ hflag hoption
      · exact ih.snoc (by rw [hplace]) word
      · by_cases hsame : option = other
        · subst hsame
          refine .inr ⟨word, ?_, by rw [hplace]; exact Sorted.lookup_setOption_self _ _ _⟩
          rcases List.eq_nil_or_concat words with rfl | ⟨front, last, rfl⟩
          · cases hwaiting.symm.trans hother
          · rw [List.concat_eq_append, waiting_placeAll_snoc hdisjoint,
              Option.filter_eq_some_iff] at hother
            refine ⟨front, [], ?_, hunknown⟩
            rw [← Option.some.inj hother.1]
            simp
        · exact ih.snoc (by rw [hplace]; exact Sorted.lookup_setOption_of_ne _ _ hsame) word
      · exact ih.snoc (by rw [hplace]) word

section Sorting

variable (hsubs : row.subcommands = [])

include hsubs

theorem operands_sort_eq (words : List String) :
    (row.sort words).operands = row.operandsBehind none words := by
  rw [sort_eq_placeAll hsubs]
  rfl

/-- The words in front count for those behind by the option that waits between them. -/
theorem operands_sort_append (xs ys : List String) : (row.sort (xs ++ ys)).operands
    = (row.sort xs).operands ++ row.operandsBehind (row.sort xs).waiting ys := by
  rw [sort_eq_placeAll hsubs, sort_eq_placeAll hsubs, placeAll_append, operands_placeAll]

variable (hdisjoint : ∀ word ∈ row.flags, word ∉ row.valueOptions)

include hdisjoint

/-- **An option waits directly behind its name**, and nowhere else. -/
theorem waiting_sort (words : List String) :
    (row.sort words).waiting = words.getLast?.filter row.valueOptions.contains := by
  rw [sort_eq_placeAll hsubs]
  rcases List.eq_nil_or_concat words with rfl | ⟨front, word, rfl⟩
  · rfl
  · rw [List.concat_eq_append, waiting_placeAll_snoc hdisjoint, List.getLast?_concat]

/-- A word behind an option that takes a value is recorded for it. -/
theorem records_sort {option word : String} {xs : List String} (hoption : option ∈ row.valueOptions)
    (hlast : xs.getLast? = some option) (hword : row.knows word = false) (ys : List String) :
    (row.sort (xs ++ [word])).options.lookup option = some (.text word) ∧
      row.Records (row.sort (xs ++ word :: ys)) option word ys := by
  have hwaiting : (row.placeAll {} xs).waiting = some option := by
    rw [← sort_eq_placeAll hsubs, waiting_sort hsubs hdisjoint, hlast, Option.filter_some,
      if_pos (by simpa using hoption)]
  obtain ⟨hflag, hvalue⟩ := knows_eq_false_iff.mp hword
  have hplace : row.place (row.placeAll {} xs) word
      = { row.placeAll {} xs with
          options := Sorted.setOption (row.placeAll {} xs).options option (.text word)
          waiting := none } := by
    rw [place, if_neg (by simpa using hflag), if_neg (by simpa using hvalue), hwaiting]
  have hrecorded : (row.place (row.placeAll {} xs) word).options.lookup option
      = some (.text word) := by
    rw [hplace]
    exact Sorted.lookup_setOption_self _ _ _
  rw [sort_eq_placeAll hsubs, sort_eq_placeAll hsubs, placeAll_append, placeAll_append,
    placeAll_cons]
  exact ⟨hrecorded, records_placeAll hdisjoint hoption (by rw [hplace]) hrecorded ys⟩

end Sorting

/-- **Options are transparent to operands.**  Where no option waits, a flag can be put in, or an
    option with its value, and the operands stay as they are.  The operands are some of the
    words, in their order, and no options.  Of the words that are no options, one that stands
    directly behind an option that takes a value is recorded for it, until the option is given
    another one; any other is an operand, between the operands in front of it and those behind. -/
theorem options_transparent (row : Row) (hdisjoint : ∀ word ∈ row.flags, word ∉ row.valueOptions)
    (hsubs : row.subcommands = []) :
    (∀ xs ys, (row.sort xs).waiting = none →
      (∀ flag ∈ row.flags,
        (row.sort (xs ++ flag :: ys)).operands = (row.sort (xs ++ ys)).operands) ∧
      ∀ option ∈ row.valueOptions, ∀ value, row.knows value = false →
        (row.sort (xs ++ option :: value :: ys)).operands = (row.sort (xs ++ ys)).operands) ∧
    (∀ words, (row.sort words).operands.Sublist words ∧
      ∀ word ∈ (row.sort words).operands, word ∉ row.flags ∧ word ∉ row.valueOptions) ∧
    ∀ xs word ys, row.knows word = false →
      (∀ option ∈ row.valueOptions, xs.getLast? = some option →
        (row.sort (xs ++ [word])).options.lookup option = some (.text word) ∧
        row.Records (row.sort (xs ++ word :: ys)) option word ys) ∧
      ((∀ option ∈ row.valueOptions, xs.getLast? ≠ some option) →
        (row.sort (xs ++ word :: ys)).operands
          = (row.sort xs).operands ++ word :: (row.sort ys).operands) := by
  refine ⟨fun xs ys hwaiting => ⟨fun flag hflag => ?_, fun option hoption value hvalue => ?_⟩,
    fun words => ⟨?_, fun word hword => ?_⟩, fun xs word ys hword =>
      ⟨fun option hoption hlast => ?_, fun hlast => ?_⟩⟩
  · rw [operands_sort_append hsubs, operands_sort_append hsubs, hwaiting,
      operandsBehind_flag ys hflag]
  · have hflag : option ∉ row.flags := fun hflag => hdisjoint _ hflag hoption
    rw [operands_sort_append hsubs, operands_sort_append hsubs, hwaiting,
      operandsBehind_option _ hflag hoption, operandsBehind_value ys hvalue]
  · rw [operands_sort_eq hsubs]
    exact (operandsBehind_sublist words none).trans List.filter_sublist
  · rw [operands_sort_eq hsubs] at hword
    have hmem := (operandsBehind_sublist words none).subset hword
    simpa [knows] using (List.mem_filter.mp hmem).2
  · exact records_sort hsubs hdisjoint hoption hlast hword ys
  · have hwaiting : (row.sort xs).waiting = none := by
      rw [waiting_sort hsubs hdisjoint, Option.filter_eq_none_iff]
      intro option hmem hoption
      exact hlast option (by simpa using hoption) hmem
    rw [operands_sort_append hsubs, hwaiting, operandsBehind_operand ys hword,
      operands_sort_eq hsubs ys]

/-- In `scp -P 22 a -i key -r b` the operands are `a` and `b`, as without the port; the key is
    recorded for `-i`. -/
theorem scp_options_transparent :
    (Verb.scp.row.sort ["-P", "22", "a", "-i", "key", "-r", "b"]).operands
        = (Verb.scp.row.sort ["a", "-i", "key", "-r", "b"]).operands ∧
      (Verb.scp.row.sort ["a", "-i", "key", "-r", "b"]).operands = ["a", "b"] ∧
      (Verb.scp.row.sort ["a", "-i", "key"]).options.lookup "-i" = some (.text "key") := by
  obtain ⟨hinsert, -, hplace⟩ := options_transparent Verb.scp.row (by decide) rfl
  have hport := (hinsert [] ["a", "-i", "key", "-r", "b"] rfl).2 "-P" (by decide) "22" (by decide)
  have hkey := (hplace ["a", "-i"] "key" ["-r", "b"] (by decide)).1 "-i" (by decide) rfl
  exact ⟨hport, by decide, hkey.1⟩

end Row

end Playscript
