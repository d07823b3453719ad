import Mathlib.Data.String.Basic
import Playscript.Proofs.ControlFlow.Reading
import Playscript.Proofs.LegalRegisters
import Playscript.Proofs.StatusGuards

/-! # An `if` is its body under a condition

    The plainest `if` compares two words, and its body is a row of simple commands.  What has
    been read at its `fi` are the two words, the verdict on them and just the commands of the body
    (`PlainTest.read_ifParts`).  The body is then done as if there were no `if`, and a condition
    goes on every task that it has added: commands add tasks behind those that are there, and on
    no condition of their own (`command_addsBare`).  So an `if` leaves the session that its
    body leaves, but for one more key in each of the new tasks (`visit_if_eq_guarded_body`). -/

namespace Playscript

open Shell (Node)

/-! ## Words that compare -/

/-- A word that compares, the sign that stands for it in a condition, and whether it holds of two
    things. -/
structure Comparator (α : Type) where
  word : String
  sign : String
  relates : α → α → Bool

/-- The six words that compare things in an order, with their signs and what they say. -/
def comparators (α : Type) [DecidableEq α] [LT α] [DecidableLT α] [LE α] [DecidableLE α] :
    List (Comparator α) :=
  [⟨"-eq", "==", fun x y => x = y⟩, ⟨"-ne", "!=", fun x y => x ≠ y⟩,
   ⟨"-lt", "<", fun x y => x < y⟩, ⟨"-le", "<=", fun x y => x ≤ y⟩,
   ⟨"-gt", ">", fun x y => x > y⟩, ⟨"-ge", ">=", fun x y => x ≥ y⟩]

/-- Whether a word can be a side of a test: it is neither a bracket nor a word that compares. -/
def isSide (word : String) : Bool :=
  word ∉ ["[", "]", "-eq", "-ne", "-lt", "-le", "-gt", "-ge"]

namespace Comparison

/-- What a comparison says of two things in an order. -/
def relates {α : Type} [DecidableEq α] [LT α] [DecidableLT α] [LE α] [DecidableLE α]
    (c : Comparison) (x y : α) : Bool :=
  match c with
  | .equal => x = y
  | .unequal => x ≠ y
  | .less => x < y
  | .lessOrEqual => x ≤ y
  | .greater => x > y
  | .greaterOrEqual => x ≥ y

/-- Texts are compared by their order. -/
theorem holds_eq_relates (c : Comparison) (left right : String) :
    c.holds left right = c.relates left right := by
  rw [Bool.eq_iff_iff]
  cases c with
  | equal => simp only [holds, relates, beq_iff_eq, decide_eq_true_eq]
  | unequal => simp only [holds, relates, bne_iff_ne, decide_eq_true_eq]
  | less => simp only [holds, relates, decide_eq_true_eq]
  | lessOrEqual =>
      simp only [holds, relates, Bool.not_eq_true', decide_eq_false_iff_not, decide_eq_true_eq,
        not_lt]
  | greater => simp only [holds, relates, decide_eq_true_eq, gt_iff_lt]
  | greaterOrEqual =>
      simp only [holds, relates, Bool.not_eq_true', decide_eq_false_iff_not, decide_eq_true_eq,
        not_lt, ge_iff_le]

/-- The words that stand for comparisons. -/
theorem mem_of_ofWord? {word : String} {c : Comparison} (h : ofWord? word = some c) :
    word ∈ ["-eq", "-ne", "-lt", "-le", "-gt", "-ge"] := by
  unfold ofWord? at h
  split at h
  · decide
  · decide
  · decide
  · decide
  · decide
  · decide
  · cases h

end Comparison

namespace Comparator

variable {α : Type}

/-- The comparison that a word which compares is read as. -/
def comparison (k : Comparator α) : Comparison :=
  (Comparison.ofWord? k.word).getD .equal

/-- Each of the six words is read as a comparison that says what the word says, under the sign of
    the word. -/
theorem comparison_spec [DecidableEq α] [LT α] [DecidableLT α] [LE α] [DecidableLE α]
    {k : Comparator α} (h : k ∈ comparators α) :
    Comparison.ofWord? k.word = some k.comparison ∧ k.comparison.sign = k.sign ∧
      k.comparison.relates = k.relates := by
  simp only [comparators, List.mem_cons, List.not_mem_nil, or_false] at h
  rcases h with rfl | rfl | rfl | rfl | rfl | rfl
  · exact ⟨rfl, rfl, rfl⟩
  · exact ⟨rfl, rfl, rfl⟩
  · exact ⟨rfl, rfl, rfl⟩
  · exact ⟨rfl, rfl, rfl⟩
  · exact ⟨rfl, rfl, rfl⟩
  · exact ⟨rfl, rfl, rfl⟩

end Comparator

/-- No side is a bracket. -/
theorem ne_bracket_of_isSide {word : String} (h : isSide word = true) :
    word ≠ "[" ∧ word ≠ "]" := by
  constructor
  · rintro rfl
    cases h
  · rintro rfl
    cases h

/-- No side stands for a comparison. -/
theorem ofWord?_of_isSide {word : String} (h : isSide word = true) :
    Comparison.ofWord? word = none := by
  rw [Option.eq_none_iff_forall_ne_some]
  intro c hc
  have hmem := Comparison.mem_of_ofWord? hc
  exact of_decide_eq_true h (List.mem_cons_of_mem _ (List.mem_cons_of_mem _ hmem))

/-! ## Tests that compare two words -/

/-- A test `[ left word right ]`, where the word between the sides is one of the six that compare
    and no command stands in the sides. -/
structure PlainTest where
  left : String
  leftParts : List Node
  comparator : Comparator String
  right : String
  rightParts : List Node
  left_side : isSide left = true
  right_side : isSide right = true
  left_plain : leftParts.all Node.isPlainExpansion = true
  right_plain : rightParts.all Node.isPlainExpansion = true
  comparator_mem : comparator ∈ comparators String

namespace PlainTest

/-- The command that tests. -/
def command (test : PlainTest) : Node :=
  .command [.word "[" [], .word test.left test.leftParts, .word test.comparator.word [],
    .word test.right test.rightParts, .word "]" []]

/-- The test as it stands in front of `then`, behind a semicolon or a line end. -/
def node (test : PlainTest) (semicolon : Bool) : Node :=
  if semicolon then .list [test.command, .operator ";"] else test.command

/-- The parts of `if [ left word right ]; then body; fi`. -/
def ifParts (test : PlainTest) (semicolon : Bool) (body : Node) : List Node :=
  [.reserved "if", test.node semicolon, .reserved "then", body, .reserved "fi"]

/-- Whether the test holds of the texts if `0` stands for the status, once. -/
def holdsAtZero (test : PlainTest) : Bool :=
  if test.left = "$?" then test.comparator.relates "0" test.right
  else test.comparator.relates test.left "0"

/-- The condition that a test puts on tasks: on the status of the command that has the last
    register if it asks for a status, and else the comparison as it stands. -/
def condition (test : PlainTest) (lastRegister : Option String) : String :=
  if test.left = "$?" ∨ test.right = "$?" then
    lastRegister.getD "None" ++ (if test.holdsAtZero then " is succeeded" else " is failed")
  else test.left ++ " " ++ test.comparator.sign ++ " " ++ test.right

theorem ofWord?_word (test : PlainTest) :
    Comparison.ofWord? test.comparator.word = some test.comparator.comparison :=
  (Comparator.comparison_spec test.comparator_mem).1

/-- The sides are compared as the word between them says. -/
theorem holds_comparison (test : PlainTest) (left right : String) :
    test.comparator.comparison.holds left right = test.comparator.relates left right := by
  rw [Comparison.holds_eq_relates, (Comparator.comparison_spec test.comparator_mem).2.2]

end PlainTest

/-! ## Reading -/

namespace Condition

/-- Expansions that run no command say nothing about a test. -/
theorem run_expansions (parts : List Node) (h : parts.all Node.isPlainExpansion = true)
    (c : Condition) : (Node.walkAll visit parts).run c = .ok ((), c) := by
  induction parts with
  | nil => rfl
  | cons part rest ih =>
      rw [List.all_cons, Bool.and_eq_true] at h
      have hpart : (part.walk visit).run c = .ok ((), c) := by
        cases part with
        | parameter name => rfl
        | tilde text => rfl
        | _ => simp [Node.isPlainExpansion] at h
      rw [Node.walkAll]
      exact run_bind_ok_iff.mpr ⟨c, hpart, ih h.2⟩

theorem run_word (text : String) (parts : List Node)
    (h : parts.all Node.isPlainExpansion = true) (c : Condition) :
    ((Node.word text parts).walk visit).run c = .ok ((), c.takeWord text) := by
  rw [Node.walk]
  exact run_expansions parts h (c.takeWord text)

/-- What a command does to what has been read: it is put to the body, or walked through. -/
def takeCommand (command : Node) : ReadingCondition Unit := do
  if (← get).keyword = some "then" then
    modify fun c => { c with body := c.body ++ [command] }
  else Node.walkAll visit command.parts

/-- Behind `then`, the commands of a body are put to the others. -/
theorem run_commands {body : Node} {commands : List Node}
    (hbody : body.simpleCommands? = some commands) (c : Condition)
    (hthen : c.keyword = some "then") :
    (body.walk visit).run c = .ok ((), { c with body := c.body ++ commands }) := by
  have hwalk : body.walk visit = commands.forM takeCommand :=
    Node.walk_row (fun parts => by rw [Node.walk]; rfl) (fun _ _ => rfl) (fun _ _ => rfl) body
      commands hbody
  rw [hwalk]
  clear hwalk hbody
  induction commands generalizing c with
  | nil => rw [List.append_nil]; rfl
  | cons command rest ih =>
      refine run_bind_ok_iff.mpr ⟨{ c with body := c.body ++ [command] }, ?_, ?_⟩
      · simp [takeCommand, hthen]
        rfl
      · rw [ih { c with body := c.body ++ [command] } hthen, List.append_assoc,
          List.singleton_append]

end Condition

namespace PlainTest

/-- A side is taken in as it stands, in front of the comparison or behind it. -/
theorem takeWord_side {c : Condition} {word : String} (hif : c.keyword = some "if")
    (hside : isSide word = true) :
    c.takeWord word = if c.comparison.isSome then { c with right := some word }
      else { c with left := some word } := by
  have hbrackets := ne_bracket_of_isSide hside
  simp [Condition.takeWord, hif, hbrackets, ofWord?_of_isSide hside]

/-- What has been read of an `if` in front of `then`. -/
def sides (test : PlainTest) : Condition where
  keyword := some "if"
  left := some test.left
  comparison := some test.comparator.comparison
  right := some test.right

/-- The word between the sides is taken in as the comparison. -/
theorem takeWord_word (test : PlainTest) :
    Condition.takeWord { keyword := some "if", left := some test.left } test.comparator.word
      = { keyword := some "if", left := some test.left,
          comparison := some test.comparator.comparison } := by
  have hword := test.ofWord?_word
  have hbrackets : test.comparator.word ≠ "[" ∧ test.comparator.word ≠ "]" := by
    have hmem := Comparison.mem_of_ofWord? hword
    exact ⟨fun hopen => absurd (hopen ▸ hmem) (by decide),
      fun hclose => absurd (hclose ▸ hmem) (by decide)⟩
  simp [Condition.takeWord, hbrackets, hword]

/-- A walk through the test takes in its sides and the comparison. -/
theorem run_command (test : PlainTest) :
    (test.command.walk Condition.visit).run { keyword := some "if" } = .ok ((), test.sides) := by
  -- one equation for each word, each from what the word before it leaves
  have hleft := Condition.run_word test.left test.leftParts test.left_plain
    { keyword := some "if" }
  rw [takeWord_side rfl test.left_side] at hleft
  have hword := Condition.run_word test.comparator.word [] rfl
    { keyword := some "if", left := some test.left }
  rw [test.takeWord_word] at hword
  have hright := Condition.run_word test.right test.rightParts test.right_plain
    { keyword := some "if", left := some test.left, comparison := some test.comparator.comparison }
  rw [takeWord_side rfl test.right_side] at hright
  rw [command, Node.walk]
  show (Node.walkAll Condition.visit _).run { keyword := some "if" } = _
  refine Condition.run_bind_ok_iff.mpr ⟨_, Condition.run_word "[" [] rfl _, ?_⟩
  refine Condition.run_bind_ok_iff.mpr ⟨_, hleft, ?_⟩
  refine Condition.run_bind_ok_iff.mpr ⟨_, hword, ?_⟩
  refine Condition.run_bind_ok_iff.mpr ⟨_, hright, ?_⟩
  exact Condition.run_bind_ok_iff.mpr ⟨_, Condition.run_word "]" [] rfl _, rfl⟩

theorem run_node (test : PlainTest) (semicolon : Bool) :
    ((test.node semicolon).walk Condition.visit).run { keyword := some "if" }
      = .ok ((), test.sides) := by
  cases semicolon with
  | false => exact test.run_command
  | true => exact Condition.run_bind_ok_iff.mpr ⟨_, test.run_command, rfl⟩

/-- What the verdict on a test is, once it has been settled. -/
def verdict (test : PlainTest) : Verdict where
  holds := test.comparator.comparison.holds (Condition.statusSide test.left)
    (if test.left = "$?" then test.right else Condition.statusSide test.right)
  ofStatus := test.left = "$?" || test.right = "$?"
  shown := Condition.statusSide test.left ++ " " ++ test.comparator.comparison.sign ++ " "
    ++ (if test.left = "$?" then test.right else Condition.statusSide test.right)

/-- The verdict gives the condition of the test. -/
theorem guardText_verdict (test : PlainTest) (lastRegister : Option String) :
    Session.guardText lastRegister test.verdict = test.condition lastRegister := by
  have hsign := (Comparator.comparison_spec test.comparator_mem).2.1
  have hholds := test.holds_comparison
  unfold Session.guardText condition verdict holdsAtZero
  by_cases hleft : test.left = "$?"
  · simp [hleft, hholds, Condition.statusSide]
  · by_cases hright : test.right = "$?"
    · simp [hleft, hright, hholds, Condition.statusSide]
    · simp [hleft, hright, hsign, Condition.statusSide]

/-- At `then` the test is settled with this verdict. -/
theorem settle_sides (test : PlainTest) :
    ∃ c, Condition.settle { test.sides with keyword := some "then" } = .ok c ∧
      c.keyword = some "then" ∧ c.body = [] ∧ c.verdict = some test.verdict :=
  ⟨_, rfl, rfl, rfl, rfl⟩

/-- **Reading an `if` gives the verdict on its test and the commands of its body.** -/
theorem read_ifParts (test : PlainTest) (semicolon : Bool) {body : Node} {commands : List Node}
    (hbody : body.simpleCommands? = some commands) :
    ∃ c, Condition.read (.branch (test.ifParts semicolon body)) = .ok c ∧
      c.body = commands ∧ c.verdict = some test.verdict := by
  obtain ⟨c, hsettle, hthen, hempty, hverdict⟩ := test.settle_sides
  have hhead : Condition.head (test.node semicolon) = .ok c := by
    refine Condition.head_eq_ok_iff.mpr ⟨test.sides, test.run_node semicolon, ?_⟩
    rw [Condition.run_then, hsettle]
    rfl
  have hrest : (Node.walkAll Condition.visit [body, .reserved "fi"]).run c
      = .ok ((), { c with body := c.body ++ commands, keyword := some "fi" }) := by
    refine Condition.run_bind_ok_iff.mpr ⟨_, Condition.run_commands hbody c hthen, ?_⟩
    exact Condition.run_bind_ok_iff.mpr ⟨_, Condition.run_reserved "fi" (by decide) _, rfl⟩
  refine ⟨_, Condition.read_branch_iff.mpr ⟨c, hhead, hrest⟩, ?_, hverdict⟩
  show c.body ++ commands = commands
  rw [hempty, List.nil_append]

end PlainTest

/-! ## Doing -/

/-- A key that is not there is set behind the others. -/
theorem Entries.set_of_get?_eq_none {entries : Entries} {key : Scalar}
    (h : entries.get? key = none) (value : Value) :
    entries.set key value = entries ++ [(key, value)] := by
  induction entries with
  | nil => rfl
  | cons entry rest ih =>
      rw [Entries.get?, Option.map_eq_none_iff, List.find?_eq_none] at h
      have hfirst : entry.1 ≠ key := by simpa using h entry List.mem_cons_self
      have hrest : Entries.get? rest key = none :=
        Option.map_eq_none_iff.mpr
          (List.find?_eq_none.mpr fun other hmem => h other (List.mem_cons_of_mem _ hmem))
      rw [Entries.set, if_neg hfirst, ih hrest, List.cons_append]

namespace Session

/-- The tasks of a session and behind them others, which are on no condition. -/
def AddsBare (s t : Session) : Prop :=
  ∃ new, t.tasks = s.tasks ++ new ∧ ∀ task ∈ new, task.get? "when" = none

theorem AddsBare.of_tasks_eq {s t : Session} (h : t.tasks = s.tasks) : AddsBare s t :=
  ⟨[], by rw [h, List.append_nil], by simp⟩

theorem AddsBare.trans ⦃s t u : Session⦄ (h : AddsBare s t) (h' : AddsBare t u) :
    AddsBare s u := by
  obtain ⟨new, htasks, hnew⟩ := h
  obtain ⟨more, htasks', hmore⟩ := h'
  refine ⟨new ++ more, by rw [htasks', htasks, List.append_assoc], fun task hmem => ?_⟩
  exact (List.mem_append.mp hmem).elim (hnew task) (hmore task)

/-- What a known command adds is on no condition, and if it fails it adds nothing. -/
theorem perform_addsBare (verb : Verb) (inv : Invocation) (s : Session) :
    AddsBare s ((perform verb inv).after s) := by
  cases hperform : (perform verb inv).outcome s with
  | ok u =>
      exact ⟨_, Log.tasks_deed verb inv s, (perform_emits hperform).unconditional⟩
  | error failure =>
      rw [(perform_atomic verb inv).after_of_fails ⟨failure, hperform⟩]
      exact .of_tasks_eq rfl

/-- **What a command adds is on no condition.** -/
theorem command_addsBare (tree : Node) (s : Session) : AddsBare s ((command tree).after s) := by
  refine Step.respects_bind AddsBare.trans (.of_tasks_eq (gather_passing tree s).tasks) ?_
  intro inv t
  cases inv.verb? with
  | none => exact .of_tasks_eq rfl
  | some verb => exact perform_addsBare verb inv t

/-- Going through simple commands one after the other is doing them. -/
theorem forM_visit_eq {body : Node} {commands : List Node}
    (hbody : body.simpleCommands? = some commands) :
    commands.forM visit = commands.forM command := by
  have hvisit : body.walk (visitNode act) = commands.forM visit :=
    Node.walk_row (fun _ => rfl) (fun _ _ => rfl) (fun _ _ => rfl) body commands hbody
  rw [← hvisit, walk_body act hbody]
  rfl

/-- **An `if` is its body under a condition.**  Where the commands of the body can be gone through
    in their order, the `if` can be gone through too, and it leaves the session that they leave
    behind, with nothing changed but the tasks that they have added: each of these was on no
    condition, and now has that of the test as its last key. -/
theorem visit_if_eq_guarded_body (test : PlainTest) (semicolon : Bool) {body : Node}
    {commands : List Node} (hbody : body.simpleCommands? = some commands) {s t : Session}
    (hdone : (commands.forM visit).run s = (.ok (), t)) :
    let condition := test.condition s.lastRegister
    ∃ new, t.tasks = s.tasks ++ new ∧
      (visit (.branch (test.ifParts semicolon body))).run s
        = (.ok (), { t with tasks := s.tasks ++ new.map (·.guard condition) }) ∧
      ∀ task ∈ new, task.get? "when" = none ∧
        (task.guard condition).fields = task.fields ++ [(.text "when", .text condition)] := by
  intro condition
  rw [forM_visit_eq hbody] at hdone
  obtain ⟨new, htasks, hbare⟩ : AddsBare s t := by
    have hall := Step.respects_forM (fun _ => .of_tasks_eq rfl) AddsBare.trans command_addsBare
      commands s
    rwa [Step.after, hdone] at hall
  refine ⟨new, htasks, ?_, fun task hmem =>
    ⟨hbare task hmem, Entries.set_of_get?_eq_none (hbare task hmem) _⟩⟩
  obtain ⟨c, hread, hcommands, hverdict⟩ := test.read_ifParts semicolon hbody
  calc (visit (.branch (test.ifParts semicolon body))).run s
      = (underCondition c).run s := by
        refine Step.run_bind_ok ?_ _
        rw [hread]
        exact Step.run_ofExcept _ s
    _ = (.ok (), { t with tasks := guardFrom s.tasks.length condition t.tasks }) := by
        rw [run_underCondition, hcommands, hdone, hverdict]
        exact congrArg (fun text => (Except.ok (),
          { t with tasks := guardFrom s.tasks.length text t.tasks }))
          (test.guardText_verdict s.lastRegister)
    _ = (.ok (), { t with tasks := s.tasks ++ new.map (·.guard condition) }) := by
        rw [htasks, guardFrom_append]

/-- `if [ $? -ne 0 ]; then touch /b; mkdir /c; fi` behind a command with the register
    `touch_register_0`: the body sets other registers, but the condition is on that one.  With
    `[ a -lt b ]` the condition is `a < b`. -/
theorem two_guarded_commands :
    let status : PlainTest := {
      left := "$?", leftParts := [.parameter "?"],
      comparator := ⟨"-ne", "!=", fun x y => x ≠ y⟩, right := "0", rightParts := [],
      left_side := by decide, right_side := by decide, left_plain := by decide,
      right_plain := by decide, comparator_mem := by simp [comparators] }
    let less : PlainTest := {
      left := "a", leftParts := [], comparator := ⟨"-lt", "<", fun x y => x < y⟩,
      right := "b", rightParts := [], left_side := by decide, right_side := by decide,
      left_plain := by decide, right_plain := by decide,
      comparator_mem := by simp [comparators] }
    let commands : List Node := [.command [.word "touch" [], .word "/b" []],
      .command [.word "mkdir" [], .word "/c" []]]
    let body : Node := .list (commands.flatMap fun command => [command, .operator ";"])
    let s : Session := { fresh {} {} with lastRegister := some "touch_register_0" }
    ∃ t new, body.simpleCommands? = some commands ∧ (commands.forM visit).run s = (.ok (), t) ∧
      t.tasks = s.tasks ++ new ∧ new.length = 2 ∧
      (visit (.branch (status.ifParts true body))).run s = (.ok (), { t with
        tasks := s.tasks ++ new.map (·.guard "touch_register_0 is failed") }) ∧
      (visit (.branch (less.ifParts true body))).run s = (.ok (), { t with
        tasks := s.tasks ++ new.map (·.guard "a < b") }) := by
  intro status less commands body s
  have hdone : (commands.forM visit).run s = (.ok (), (commands.forM visit).after s) :=
    Prod.ext rfl rfl
  have hbody : body.simpleCommands? = some commands := rfl
  have hstatus : status.condition s.lastRegister = "touch_register_0 is failed" := by
    decide +kernel
  have hless : less.condition s.lastRegister = "a < b" := by decide +kernel
  obtain ⟨new, htasks, hrun, -⟩ := visit_if_eq_guarded_body status true hbody hdone
  obtain ⟨new', htasks', hrun', -⟩ := visit_if_eq_guarded_body less true hbody hdone
  obtain rfl : new = new' := List.append_cancel_left (htasks.symm.trans htasks')
  have htwo : ((commands.forM visit).after s).tasks.length = 2 := rfl
  rw [htasks] at htwo
  rw [hstatus] at hrun
  rw [hless] at hrun'
  exact ⟨_, new, hbody, hdone, htasks, htwo, hrun, hrun'⟩

end Session

end Playscript
