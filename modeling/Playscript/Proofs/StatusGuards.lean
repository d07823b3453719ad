import Playscript.Proofs.LastRegister
import Playscript.Proofs.Visits

/-! # Conditions on the status of a command

    `if [ $? -eq 0 ]` asks how the command before it ended, and the tasks of its body get a
    condition that names a register.  The register is the one that the session remembers:
    that of the last task that has one, however many commands have been done since
    (`StatusBranch.remembered`).  So the condition is about the command before the `if` exactly if
    that command added a task with a register.  Behind a command that adds none, a
    condition names the task of an earlier command, and `None` if there is no such
    task (`StatusBranch.guards_right_iff`). -/

namespace Playscript.Session

open Shell (Node)

/-- The condition that a register says of a command that it succeeded, or that it failed. -/
def statusText (register : String) (succeeded : Bool) : String :=
  register ++ (if succeeded then " is succeeded" else " is failed")

/-- A condition on a status names one register only. -/
theorem statusText_inj {a b : String} {x y : Bool} (h : statusText a x = statusText b y) :
    a = b := by
  have hends : ¬ " is failed".toList <:+ " is succeeded".toList := by decide
  have hlists : a.toList ++ (if x then " is succeeded" else " is failed").toList
      = b.toList ++ (if y then " is succeeded" else " is failed").toList := by
    simpa only [statusText, String.toList_append] using congrArg String.toList h
  have hsame : x = y := by
    -- the two ends are no ends of one another, so no text has both
    cases x <;> cases y
    · rfl
    · exact absurd (List.suffix_of_suffix_length_le (List.suffix_append a.toList _)
        (hlists ▸ List.suffix_append b.toList _) (by decide)) hends
    · exact absurd (List.suffix_of_suffix_length_le (List.suffix_append b.toList _)
        (hlists ▸ List.suffix_append a.toList _) (by decide)) hends
    · rfl
  rw [hsame] at hlists
  exact String.toList_inj.mp (List.append_cancel_right hlists)

/-- The register of the task of a visit, if it has one. -/
def Visit.register? (v : Visit) : Option Value :=
  (v.tasks.filterMap Task.register?).getLast?

/-- An `if` on a status at its place in a run through trees: what is done before it ends well,
    and so does its body. -/
structure StatusBranch (settings : Settings) (trees : List Node) where
  before : List Action
  condition : Condition
  behind : List Action
  verdict : Verdict
  actions_eq : (trees.forM plan).actions = before ++ .guarded condition :: behind
  verdict_eq : condition.verdict = some verdict
  ofStatus : verdict.ofStatus = true
  reached : (before.forM act).outcome (start settings) = .ok ()
  passed : (act (.guarded condition)).outcome ((before.forM act).after (start settings)) = .ok ()

namespace StatusBranch

variable {settings : Settings} {trees : List Node}

/-- The session that comes to the `if`. -/
def session (b : StatusBranch settings trees) : Session :=
  (b.before.forM act).after (start settings)

/-- The tasks that the body of the `if` adds. -/
def tasks (b : StatusBranch settings trees) : List Task :=
  newTasks (act (.guarded b.condition)) b.session

/-- The visits before the `if`, in their order. -/
def earlier (b : StatusBranch settings trees) : List Visit :=
  visitsOf b.before (start settings)

/-- The register of the command that is visited immediately before the `if`. -/
def registerBefore (b : StatusBranch settings trees) : Option Value :=
  b.earlier.getLast?.bind Visit.register?

/-- The last register that was given to a task before the `if`. -/
def lastRegister (b : StatusBranch settings trees) : Option Value :=
  ((b.earlier.flatMap Visit.tasks).filterMap Task.register?).getLast?

/-- Whatever register a condition on a status names, it is that of the command before. -/
def Right (b : StatusBranch settings trees) : Prop :=
  ∀ task ∈ b.tasks, ∀ register succeeded,
    task.get? "when" = some (.text (statusText register succeeded)) →
      b.registerBefore = some (.text register)

/-- The session that comes to the `if` remembers the last register of the tasks before. -/
theorem remembered (b : StatusBranch settings trees) :
    b.session.lastRegister.map Value.text = b.lastRegister := by
  have hreaches : Reaches (start settings) b.session :=
    Step.respects_forM (fun _ => .refl) reaches_trans act_reaches b.before _
  have htasks : b.session.tasks = b.earlier.flatMap Visit.tasks :=
    tasks_forM_act b.before (start settings) b.reached
  have hlast := (fresh_remembersLast settings {}).reaches hreaches
  rw [RemembersLast, taskRegisters, htasks] at hlast
  exact hlast

/-- If the command before the `if` has a register, it is the last one. -/
theorem lastRegister_of_registerBefore (b : StatusBranch settings trees) {register : Value}
    (h : b.registerBefore = some register) : b.lastRegister = some register := by
  obtain ⟨v, hv, hregister⟩ := Option.bind_eq_some_iff.mp h
  obtain ⟨others, hothers⟩ := List.getLast?_eq_some_iff.mp hv
  rw [Visit.register?] at hregister
  rw [lastRegister, hothers, List.flatMap_append, List.flatMap_singleton, List.filterMap_append,
    List.getLast?_append, hregister]
  rfl

/-- Every task of the body is on the condition that the register which is remembered gives. -/
theorem when_of_mem (b : StatusBranch settings trees) {task : Task} (h : task ∈ b.tasks) :
    task.get? "when"
      = some (.text (statusText (b.session.lastRegister.getD "None") b.verdict.holds)) := by
  have htasks : b.tasks = (visitEach b.session.lastRegister b.condition.verdict
      b.condition.body b.session).flatMap Visit.tasks := by
    rw [tasks, newTasks, tasks_act _ b.session b.passed, List.drop_left]
    rfl
  rw [htasks, tasks_visitEach_underTest, b.verdict_eq] at h
  obtain ⟨bare, -, rfl⟩ := List.mem_map.mp h
  rw [underTest, Task.when_guard, guardText, if_pos b.ofStatus]
  rfl

/-- **A condition on a status is about the command before only if that command has a register.**
    The condition names the last register that was given to a task at all, or `None`; so where
    the `if` adds tasks, it is right exactly if the command that was visited before it added
    a task with a register. -/
theorem guards_right_iff (b : StatusBranch settings trees) :
    (∃ register : Option String, register.map Value.text = b.lastRegister ∧ ∀ task ∈ b.tasks,
      task.get? "when" = some (.text (statusText (register.getD "None") b.verdict.holds))) ∧
    (b.Right ↔ b.tasks = [] ∨ b.registerBefore.isSome) := by
  refine ⟨⟨b.session.lastRegister, b.remembered, fun task h => b.when_of_mem h⟩, ?_⟩
  constructor
  · intro hright
    cases htasks : b.tasks with
    | nil => exact .inl rfl
    | cons task rest =>
        have hmem : task ∈ b.tasks := htasks ▸ List.mem_cons_self
        refine .inr ?_
        rw [hright task hmem _ _ (b.when_of_mem hmem)]
        rfl
  · rintro (hnone | hsome) task hmem register succeeded hwhen
    · rw [hnone] at hmem
      exact nomatch hmem
    · obtain ⟨found, hfound⟩ := Option.isSome_iff_exists.mp hsome
      have hlast := b.remembered.trans (b.lastRegister_of_registerBefore hfound)
      obtain ⟨name, hname, rfl⟩ := Option.map_eq_some_iff.mp hlast
      rw [b.when_of_mem hmem, hname, Option.some.injEq] at hwhen
      injection hwhen with hwhen
      injection hwhen with hwhen
      rw [hfound, ← statusText_inj hwhen]
      rfl

/-- `touch /a`, an unknown command, and an `if` on how that one ended. -/
def behindUnknown : List Node :=
  [.command [.word "touch" [], .word "/a" []], .command [.word "ls" []],
   .compound [.branch [.reserved "if",
     .list [.command [.word "[" [], .word "$?" [.parameter "?"], .word "-eq" [], .word "0" [],
       .word "]" []], .operator ";"],
     .reserved "then", .command [.word "touch" [], .word "/b" []], .reserved "fi"]] []]

/-- Behind a command that adds no task, a condition on the status names an earlier task. -/
theorem guard_behind_unknown :
    ∃ b : StatusBranch {} behindUnknown, ¬ b.Right ∧ b.registerBefore = none ∧
      b.lastRegister = some (.text "touch_file_1") ∧ b.tasks ≠ [] := by
  let b : StatusBranch {} behindUnknown :=
    { before := (behindUnknown.take 2).map .perform
      condition :=
        { keyword := some "fi", left := some "0", comparison := some .equal, right := some "0"
          verdict := some { holds := true, ofStatus := true, shown := "0 == 0" }
          body := [.command [.word "touch" [], .word "/b" []]] }
      behind := []
      verdict := { holds := true, ofStatus := true, shown := "0 == 0" }
      actions_eq := rfl
      verdict_eq := rfl
      ofStatus := rfl
      reached := rfl
      passed := rfl }
  have hbefore : b.registerBefore = none := rfl
  have htasks : b.tasks ≠ [] := List.cons_ne_nil _ _
  refine ⟨b, fun hright => ?_, hbefore, rfl, htasks⟩
  rcases b.guards_right_iff.2.mp hright with hnone | hsome
  · exact htasks hnone
  · rw [hbefore] at hsome
    exact nomatch hsome

end StatusBranch

end Playscript.Session
