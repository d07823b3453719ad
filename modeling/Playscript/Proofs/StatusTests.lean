import Playscript.Proofs.TestWords

/-! # Tests of a status against a number

    In `[ $? -gt 3 ]` and `[ 3 -lt $? ]` the status is taken to be `0`, and the sides are then
    compared as texts, by the order of their characters.  For texts in general this is not the
    order of the numbers that they stand for, but against `0` it is: a numeral other than `0`
    starts with a minus, which comes before all digits, or with a digit that comes behind `0`
    (`numeral_cases`).  So each of the six comparisons says of the texts what it says of the
    integers (`Comparison.holds_zero_left`, `Comparison.holds_zero_right`), and the body of such
    an `if` is put under ` is succeeded` exactly if the status `0` passes the test
    (`status_tests_compare_integers`). -/

namespace Playscript

open Shell (Node)

/-! ## Numerals beside zero -/

/-- The numeral of a positive number does not start with a zero. -/
theorem toDigits_starts {n : Nat} (h : 0 < n) :
    ∃ first rest, Nat.toDigits 10 n = first :: rest ∧ '0' < first := by
  induction n using Nat.strong_induction_on with
  | _ n ih =>
      by_cases hsmall : n < 10
      · refine ⟨n.digitChar, [], Nat.toDigits_of_lt_base hsmall, ?_⟩
        show '0'.toNat < n.digitChar.toNat
        rw [Nat.toNat_digitChar_of_lt_ten hsmall]
        exact Nat.lt_add_of_pos_right h
      · obtain ⟨first, rest, hdigits, hfirst⟩ := ih (n / 10) (by omega) (by omega)
        refine ⟨first, rest ++ [(n % 10).digitChar], ?_, hfirst⟩
        rw [Nat.toDigits_of_base_le (by decide) (by omega), hdigits]
        rfl

/-- A numeral is its digits behind a minus, if the number is negative. -/
theorem toList_numeral (z : Int) :
    (toString z).toList = (if z < 0 then ['-'] else []) ++ Nat.toDigits 10 z.natAbs := by
  rw [Int.toString_eq_repr, Int.repr_eq_if]
  by_cases hneg : z < 0
  · have habs : (-z).toNat = z.natAbs := by omega
    rw [if_neg (by omega), if_pos hneg, String.toList_append, Nat.toList_repr, habs]
    rfl
  · have habs : z.toNat = z.natAbs := by omega
    rw [if_pos (by omega), if_neg hneg, Nat.toList_repr, habs, List.nil_append]

/-- A numeral is `0`, or starts with a digit behind `0`, or starts with a minus. -/
theorem numeral_cases (z : Int) :
    (z = 0 ∧ toString z = "0") ∨
    (0 < z ∧ ∃ first rest, (toString z).toList = first :: rest ∧ '0' < first) ∨
    (z < 0 ∧ ∃ rest, (toString z).toList = '-' :: rest) := by
  have hlist := toList_numeral z
  rcases Int.lt_trichotomy z 0 with hneg | rfl | hpos
  · rw [if_pos hneg] at hlist
    exact .inr (.inr ⟨hneg, _, hlist⟩)
  · exact .inl ⟨rfl, rfl⟩
  · obtain ⟨first, rest, hdigits, hfirst⟩ := toDigits_starts (n := z.natAbs) (by omega)
    rw [if_neg (by omega), hdigits, List.nil_append] at hlist
    exact .inr (.inl ⟨hpos, first, rest, hlist, hfirst⟩)

/-- A numeral ends with a digit. -/
theorem numeral_ends (z : Int) :
    ∃ last, (toString z).toList.getLast? = some last ∧ last.isDigit = true := by
  have hlast := List.getLast?_eq_some_getLast (Nat.toDigits_ne_nil (n := z.natAbs) (b := 10))
  refine ⟨_, ?_, Nat.isDigit_of_mem_toDigits (by decide) (by decide)
    (List.getLast_mem (Nat.toDigits_ne_nil (n := z.natAbs) (b := 10)))⟩
  rw [toList_numeral, List.getLast?_append, hlast]
  rfl

/-- A word that does not end with a digit is no numeral. -/
theorem numeral_ne {word : String} (h : word.toList.getLast?.any Char.isDigit = false)
    (z : Int) : toString z ≠ word := by
  rintro rfl
  obtain ⟨last, hlast, hdigit⟩ := numeral_ends z
  rw [hlast, Option.any_some, hdigit] at h
  cases h

/-- By the first character: that of a positive number comes behind `0`, and a minus before it. -/
theorem zero_lt_numeral_iff (z : Int) : "0" < toString z ↔ 0 < z := by
  rw [String.lt_iff]
  rcases numeral_cases z with ⟨rfl, -⟩ | ⟨hpos, first, rest, hlist, hfirst⟩ | ⟨hneg, rest, hlist⟩
  · decide
  · rw [hlist]
    exact iff_of_true (List.cons_lt_cons_iff.mpr (.inl hfirst)) hpos
  · rw [hlist]
    refine iff_of_false (fun hless => ?_) (by omega)
    rcases List.cons_lt_cons_iff.mp hless with hfirst | ⟨hsame, -⟩
    · exact absurd hfirst (by decide)
    · exact absurd hsame (by decide)

/-- The same from the other side. -/
theorem numeral_lt_zero_iff (z : Int) : toString z < "0" ↔ z < 0 := by
  rw [String.lt_iff]
  rcases numeral_cases z with ⟨rfl, -⟩ | ⟨hpos, first, rest, hlist, hfirst⟩ | ⟨hneg, rest, hlist⟩
  · decide
  · rw [hlist]
    refine iff_of_false (fun hless => ?_) (by omega)
    rcases List.cons_lt_cons_iff.mp hless with hless' | ⟨rfl, -⟩
    · exact absurd (Char.lt_trans hfirst hless') (Char.lt_irrefl _)
    · exact absurd hfirst (Char.lt_irrefl _)
  · rw [hlist]
    exact iff_of_true (List.cons_lt_cons_iff.mpr (.inl (by decide))) hneg

/-- Equality follows from the two orders, as `0` is in neither with itself. -/
theorem numeral_eq_zero_iff (z : Int) : toString z = "0" ↔ z = 0 := by
  constructor
  · intro h
    have hnot := (zero_lt_numeral_iff z).not
    have hnot' := (numeral_lt_zero_iff z).not
    rw [h] at hnot hnot'
    have hleft := hnot.mp (by decide)
    have hright := hnot'.mp (by decide)
    omega
  · rintro rfl
    rfl

namespace Comparison

/-- Texts that stand in the order of two integers compare as these. -/
theorem relates_of_order (c : Comparison) {left right : String} {x y : Int}
    (heq : left = right ↔ x = y) (hless : left < right ↔ x < y)
    (hgreater : right < left ↔ y < x) : c.relates left right = c.relates x y := by
  have hle : left ≤ right ↔ x ≤ y := by rw [← not_lt, hgreater, Int.not_lt]
  have hge : right ≤ left ↔ y ≤ x := by rw [← not_lt, hless, Int.not_lt]
  rw [Bool.eq_iff_iff]
  cases c with
  | equal => simpa [relates] using heq
  | unequal => simpa [relates] using not_congr heq
  | less => simpa [relates] using hless
  | lessOrEqual => simpa [relates] using hle
  | greater => simpa [relates] using hgreater
  | greaterOrEqual => simpa [relates] using hge

/-- Behind `0`, numerals compare as integers. -/
theorem holds_zero_left (c : Comparison) (z : Int) :
    c.holds "0" (toString z) = c.relates 0 z := by
  rw [holds_eq_relates]
  exact c.relates_of_order (eq_comm.trans ((numeral_eq_zero_iff z).trans eq_comm))
    (zero_lt_numeral_iff z) (numeral_lt_zero_iff z)

/-- In front of `0`, numerals compare as integers. -/
theorem holds_zero_right (c : Comparison) (z : Int) :
    c.holds (toString z) "0" = c.relates z 0 := by
  rw [holds_eq_relates]
  exact c.relates_of_order (numeral_eq_zero_iff z) (numeral_lt_zero_iff z) (zero_lt_numeral_iff z)

end Comparison

/-! ## Tests of a status -/

/-- A test `[ $? word number ]`, or with the status behind, `[ number word $? ]`, where the word is
    one of the six that compare integers. -/
structure StatusTest where
  statusFirst : Bool
  comparator : Comparator Int
  number : Int
  comparator_mem : comparator ∈ comparators Int

namespace StatusTest

/-- Two sides in their order, given that of the status and that of the number. -/
def inOrder {α : Type} (test : StatusTest) (status number : α) : α × α :=
  if test.statusFirst then (status, number) else (number, status)

/-- The command that tests. -/
def command (test : StatusTest) : Node :=
  let sides := test.inOrder (.word "$?" [.parameter "?"]) (.word (toString test.number) [])
  .command [.word "[" [], sides.1, .word test.comparator.word [], sides.2, .word "]" []]

/-- The test as it stands in front of `then`, behind a semicolon or a line end. -/
def node (test : StatusTest) (semicolon : Bool) : Node :=
  if semicolon then .list [test.command, .operator ";"] else test.command

/-- Whether the status `0` passes the test, all being integers. -/
def passesZero (test : StatusTest) : Bool :=
  let sides := test.inOrder 0 test.number
  test.comparator.relates sides.1 sides.2

/-- What the test compares. -/
def compared (test : StatusTest) : Compared :=
  let sides := test.inOrder "$?" (toString test.number)
  { left := sides.1, comparison := test.comparator.comparison, right := sides.2 }

/-- A numeral ends with a digit, and no bracket and no word that compares does. -/
theorem numeral_isSide (z : Int) : isSide (toString z) = true := by
  have hends : ∀ word ∈ ["[", "]", "-eq", "-ne", "-lt", "-le", "-gt", "-ge"],
      word.toList.getLast?.any Char.isDigit = false := by decide
  exact decide_eq_true fun hmem => numeral_ne (hends _ hmem) z rfl

/-- So both sides of the test can be sides, in either order. -/
theorem compared_sides (test : StatusTest) :
    isSide test.compared.left = true ∧ isSide test.compared.right = true := by
  obtain ⟨statusFirst, comparator, number, -⟩ := test
  have hstatus : isSide "$?" = true := by decide
  cases statusFirst with
  | true => exact ⟨hstatus, numeral_isSide number⟩
  | false => exact ⟨numeral_isSide number, hstatus⟩

/-- The words of the test are its sides with the comparison between them. -/
theorem testParts?_node (test : StatusTest) (semicolon : Bool) :
    (test.node semicolon).testParts? = some [.word "[", .word test.compared.left,
      .word test.comparator.word, .word test.compared.right, .word "]"] := by
  obtain ⟨statusFirst, comparator, number, -⟩ := test
  cases semicolon with
  | true => cases statusFirst <;> rfl
  | false => cases statusFirst <;> rfl

theorem ofWords?_node (test : StatusTest) : Compared.ofWords? (TestPart.wordsBehindIf true
    [.word "[", .word test.compared.left, .word test.comparator.word, .word test.compared.right,
      .word "]"]) = some test.compared := by
  have hword := (Comparator.comparison_spec test.comparator_mem).1
  rw [TestPart.wordsBehindIf_test test.compared_sides.1 hword test.compared_sides.2]
  exact Compared.ofWords?_three test.compared_sides.1 hword _

/-- The verdict asks for a status, and holds exactly if the status `0` passes the test. -/
theorem verdict_compared (test : StatusTest) :
    test.compared.verdict.ofStatus = true ∧ test.compared.verdict.holds = test.passesZero := by
  have hstatus : toString test.number ≠ "$?" := numeral_ne rfl test.number
  have hside : Condition.statusSide (toString test.number) = toString test.number := if_neg hstatus
  have hrelates := (Comparator.comparison_spec test.comparator_mem).2.2
  rw [passesZero, ← hrelates, Compared.verdict, compared]
  cases hfirst : test.statusFirst with
  | true =>
      simp only [inOrder, hfirst, if_true]
      exact ⟨rfl, test.comparator.comparison.holds_zero_left test.number⟩
  | false =>
      simp only [inOrder, hfirst, Bool.false_eq_true, if_false, hside, hstatus]
      exact ⟨by decide, test.comparator.comparison.holds_zero_right test.number⟩

end StatusTest

namespace Session

open Shell.Node (ifParts closesIf)

/-- The two conditions on a register differ, so each of them tells the verdict. -/
theorem statusText_eq_iff (register : String) (succeeded : Bool) :
    (statusText register succeeded = register ++ " is succeeded" ↔ succeeded = true) ∧
    (statusText register succeeded = register ++ " is failed" ↔ succeeded = false) := by
  have hends : register ++ " is succeeded" ≠ register ++ " is failed" := by
    intro h
    have hlists := congrArg String.toList h
    rw [String.toList_append, String.toList_append] at hlists
    exact absurd (List.append_cancel_left hlists) (by decide)
  cases succeeded with
  | true => exact ⟨iff_of_true rfl rfl, iff_of_false hends (by decide)⟩
  | false => exact ⟨iff_of_false hends.symm (by decide), iff_of_true rfl rfl⟩

/-- **A status is tested against a number as an integer.**  For each of the six comparisons, with
    the status in front or behind, the verdict on the test is how the integers `0` and the number
    compare.  So the `if` ends as its body does, and where it ends well, each task that it adds is
    on the condition that the last register says ` is succeeded` exactly if the status `0` passes
    the test, and ` is failed` exactly if it does not. -/
theorem status_tests_compare_integers (test : StatusTest) (semicolon : Bool) {body : Node}
    {commands : List Node} (hbody : body.simpleCommands? = some commands) {tail : List Node}
    (hclosed : closesIf tail = true) :
    let tree := Node.branch (ifParts (test.node semicolon) body tail)
    (∃ c verdict, Condition.read tree = .ok c ∧ c.verdict = some verdict ∧
      verdict.ofStatus = true ∧ verdict.holds = test.passesZero) ∧
    ∀ s, (visit tree).outcome s = (commands.forM visit).outcome s ∧
      ((visit tree).outcome s = .ok () → ∀ task ∈ newTasks (visit tree) s,
        let register := s.lastRegister.getD "None"
        ∃ condition, task.get? "when" = some (.text condition) ∧
          (condition = register ++ " is succeeded" ↔ test.passesZero = true) ∧
          (condition = register ++ " is failed" ↔ test.passesZero = false)) := by
  intro tree
  have hparts := test.testParts?_node semicolon
  have hcompared := test.ofWords?_node
  obtain ⟨hstatus, hholds⟩ := test.verdict_compared
  constructor
  · obtain ⟨c, hread, -, hverdict⟩ :=
      Condition.read_of_compared hparts hbody hclosed hcompared
    exact ⟨c, _, hread, hverdict, hstatus, hholds⟩
  · intro s
    obtain ⟨hfails, hends⟩ := run_visit_of_compared hparts hbody hclosed hcompared s
    cases hdone : (commands.forM visit).run s with
    | mk outcome t =>
        cases outcome with
        | error failure =>
            have hrun := hfails failure t hdone
            refine ⟨by rw [Step.outcome, Step.outcome, hrun, hdone], fun hok => ?_⟩
            rw [Step.outcome, hrun] at hok
            cases hok
        | ok u =>
            obtain ⟨new, -, hrun⟩ := hends t hdone
            refine ⟨by rw [Step.outcome, Step.outcome, hrun, hdone], fun _ task hmem => ?_⟩
            rw [newTasks_of_run_eq hrun rfl] at hmem
            obtain ⟨bare, -, rfl⟩ := List.mem_map.mp hmem
            have htext : guardText s.lastRegister test.compared.verdict
                = statusText (s.lastRegister.getD "None") test.passesZero := by
              rw [guardText, if_pos hstatus, hholds]
              rfl
            exact ⟨_, bare.when_guard _, htext ▸ statusText_eq_iff _ _⟩

/-- `if [ -12 -ge $? ]; then touch /a; else touch /b; fi`: the texts compare as the integers do,
    and `-12 ≥ 0` does not hold. -/
theorem negative_number_against_status :
    let test : StatusTest :=
      { statusFirst := false, comparator := ⟨"-ge", ">=", fun x y => x ≥ y⟩, number := -12
        comparator_mem := by simp [comparators] }
    let body : Node := .command [.word "touch" [], .word "/a" []]
    let tail : List Node :=
      [.reserved "else", .command [.word "touch" [], .word "/b" []], .reserved "fi"]
    let tree := Node.branch (ifParts (test.node true) body tail)
    let s : Session := { lastRegister := some "mkdir_1" }
    body.simpleCommands? = some [body] ∧ closesIf tail = true ∧ test.passesZero = false ∧
      (visit tree).outcome s = .ok () ∧ newTasks (visit tree) s ≠ [] ∧
      ∀ task ∈ newTasks (visit tree) s,
        task.get? "when" = some (.text "mkdir_1 is failed") := by
  intro test body tail tree s
  obtain ⟨-, hvisit⟩ := status_tests_compare_integers test true
    (show body.simpleCommands? = some [body] from rfl) (show closesIf tail = true from rfl)
  obtain ⟨hends, hguards⟩ := hvisit s
  have hok : (visit tree).outcome s = .ok () := hends.trans rfl
  refine ⟨rfl, rfl, rfl, hok, List.cons_ne_nil _ _, fun task hmem => ?_⟩
  obtain ⟨condition, hwhen, -, hfailed⟩ := hguards hok task hmem
  rw [hwhen, hfailed.mpr rfl]
  rfl

end Session

end Playscript
