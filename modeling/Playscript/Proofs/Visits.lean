import Mathlib.Data.List.Forall2
import Playscript.Proofs.AppendOnly
import Playscript.Proofs.Entries

/-! # The visits that a tree comes to

    A plan does commands one after the other, some of them under the condition of an `if`.
    A visit is one command that is done, with the tasks that it adds, as they stand in the
    end.  If all goes well, the tasks of a tree are the tasks of its visits, in their order
    (`tasks_visits`): nothing else adds a task, and no task belongs to two visits. -/

namespace Playscript

/-- A task under a condition says so. -/
theorem Task.when_guard (t : Task) (condition : String) :
    (t.guard condition).get? "when" = some (.text condition) :=
  Entries.get?_set_self t.fields _ _

/-! ## Rows that go together -/

section Rows

variable {α β : Type} {R : α → β → Prop} {xs : List α} {ys : List β}

theorem exists_of_forall₂ (h : List.Forall₂ R xs ys) {y : β} (hy : y ∈ ys) : ∃ x ∈ xs, R x y := by
  induction h with
  | nil => exact nomatch hy
  | cons hfirst _ ih =>
      rcases List.mem_cons.mp hy with rfl | hy
      · exact ⟨_, List.mem_cons_self, hfirst⟩
      · obtain ⟨x, hx, hxy⟩ := ih hy
        exact ⟨x, List.mem_cons_of_mem _ hx, hxy⟩

theorem countP_le_of_forall₂ {p : α → Bool} {q : β → Bool} (h : List.Forall₂ R xs ys)
    (hpq : ∀ x, ∀ y ∈ ys, R x y → p x = true → q y = true) : xs.countP p ≤ ys.countP q := by
  induction h with
  | nil => exact Nat.le_refl 0
  | @cons x y xs ys hxy _ ih =>
      have hrest := ih fun x y hy => hpq x y (List.mem_cons_of_mem _ hy)
      have hfirst := hpq x y List.mem_cons_self hxy
      rw [List.countP_cons, List.countP_cons]
      refine Nat.add_le_add hrest ?_
      by_cases hp : p x = true
      · exact Nat.le_of_eq (by rw [if_pos hp, if_pos (hfirst hp)])
      · rw [if_neg hp]
        exact Nat.zero_le _

end Rows

namespace Session

open Shell (Node)

/-! ## The visits of a tree -/

/-- A command that is done, with the tasks that it adds. -/
structure Visit where
  command : Node
  tasks : List Task

/-- The tasks that a step adds. -/
def newTasks (x : Step Unit) (s : Session) : List Task :=
  (x.after s).tasks.drop s.tasks.length

/-- A task under the condition of a test, if there is one. -/
def underTest (register : Option String) (verdict : Option Verdict) (task : Task) : Task :=
  match verdict with
  | some verdict => task.guard (guardText register verdict)
  | none => task

/-- The visits of commands one after the other, under the condition of a test. -/
def visitEach (register : Option String) (verdict : Option Verdict) :
    List Node → Session → List Visit
  | [], _ => []
  | tree :: rest, s =>
    ⟨tree, (newTasks (command tree) s).map (underTest register verdict)⟩
      :: visitEach register verdict rest ((command tree).after s)

/-- The visits of an action. -/
def Action.visits : Action → Session → List Visit
  | .perform tree, s => visitEach none none [tree] s
  | .guarded c, s => visitEach s.lastRegister c.verdict c.body s
  | .assign _, _ => []

/-- The visits of actions one after the other. -/
def visitsOf : List Action → Session → List Visit
  | [], _ => []
  | action :: rest, s => action.visits s ++ visitsOf rest ((act action).after s)

/-- The visits of a tree. -/
def visits (tree : Node) (s : Session) : List Visit :=
  visitsOf (plan tree).actions s

@[simp] theorem map_underTest_none (register : Option String) (tasks : List Task) :
    tasks.map (underTest register none) = tasks :=
  List.map_id tasks

theorem tasks_command (tree : Node) (s : Session) :
    ((command tree).after s).tasks = s.tasks ++ newTasks (command tree) s := by
  obtain ⟨new, hnew⟩ := command_extends tree s
  rw [newTasks, ← hnew, List.drop_left]

/-- The tasks of visits under a condition are those without it, each under the condition. -/
theorem tasks_visitEach_underTest (register : Option String) (verdict : Option Verdict)
    (trees : List Node) :
    ∀ s, (visitEach register verdict trees s).flatMap Visit.tasks
      = ((visitEach none none trees s).flatMap Visit.tasks).map (underTest register verdict) := by
  induction trees with
  | nil => intro s; rfl
  | cons tree rest ih =>
      intro s
      simp only [visitEach, List.flatMap_cons, List.map_append, map_underTest_none, ih]

/-- Commands that all end well add the tasks of their visits. -/
theorem tasks_forM_command (trees : List Node) :
    ∀ s, (trees.forM command).outcome s = .ok () → ((trees.forM command).after s).tasks
      = s.tasks ++ (visitEach none none trees s).flatMap Visit.tasks := by
  induction trees with
  | nil => intro s _; exact (List.append_nil _).symm
  | cons tree rest ih =>
      intro s hok
      obtain ⟨_, -, hrest, hafter⟩ := Step.bind_outcome_ok hok
      have hboth : ((tree :: rest).forM command).after s
          = (rest.forM command).after ((command tree).after s) := hafter
      rw [hboth, ih _ hrest, tasks_command, List.append_assoc, visitEach, List.flatMap_cons,
        map_underTest_none]

/-- An action that ends well adds the tasks of its visits. -/
theorem tasks_act (action : Action) (s : Session) (hok : (act action).outcome s = .ok ()) :
    ((act action).after s).tasks = s.tasks ++ (action.visits s).flatMap Visit.tasks := by
  cases action with
  | perform tree =>
      simpa [act, Action.visits, visitEach] using tasks_command tree s
  | assign text =>
      obtain ⟨new, hlength, hnew⟩ := (assignText_uniform text).adds s
      rw [List.length_eq_zero_iff.mp hlength] at hnew
      exact hnew
  | guarded c =>
      have hrun := run_underCondition c s
      cases h : (c.body.forM command).run s with
      | mk r t =>
          rw [h] at hrun
          cases r with
          | error f =>
              rw [act, Step.outcome, hrun] at hok
              cases hok
          | ok u =>
              have hbody := tasks_forM_command c.body s (congrArg Prod.fst h)
              rw [Step.after, h] at hbody
              rw [act, Step.after, hrun, Action.visits, tasks_visitEach_underTest]
              -- the body is done first, and then its tasks get the condition all at once
              cases hv : c.verdict with
              | none =>
                  rw [map_underTest_none]
                  exact hbody
              | some verdict =>
                  show guardFrom _ _ t.tasks = _
                  rw [hbody, guardFrom_append]
                  rfl

/-- Actions that all end well add the tasks of their visits. -/
theorem tasks_forM_act (actions : List Action) :
    ∀ s, (actions.forM act).outcome s = .ok () → ((actions.forM act).after s).tasks
      = s.tasks ++ (visitsOf actions s).flatMap Visit.tasks := by
  induction actions with
  | nil => intro s _; exact (List.append_nil _).symm
  | cons action rest ih =>
      intro s hok
      obtain ⟨_, haction, hrest, hafter⟩ := Step.bind_outcome_ok hok
      have hboth : ((action :: rest).forM act).after s
          = (rest.forM act).after ((act action).after s) := hafter
      rw [hboth, ih _ hrest, tasks_act action s haction, List.append_assoc, visitsOf,
        List.flatMap_append]

/-- A visit that ends well has a plan to its end, and has carried it out. -/
theorem visit_outcome_ok {tree : Node} {s : Session} (hok : (visit tree).outcome s = .ok ()) :
    (plan tree).outcome = .ok () ∧ ((plan tree).actions.forM act).outcome s = .ok () ∧
      (visit tree).after s = ((plan tree).actions.forM act).after s := by
  rw [visit_eq_carryOut] at hok ⊢
  obtain ⟨_, hactions, hplan, hafter⟩ := Step.bind_outcome_ok hok
  rw [Step.outcome, Step.run_ofExcept] at hplan
  refine ⟨hplan, hactions, ?_⟩
  show (carryOut (plan tree)).after s = _
  rw [carryOut, hafter, Step.after, Step.run_ofExcept]

/-- **The tasks of a tree are the tasks of its visits**, if all goes well. -/
theorem tasks_visits {tree : Node} {s : Session} (hok : (visit tree).outcome s = .ok ()) :
    ((visit tree).after s).tasks = s.tasks ++ (visits tree s).flatMap Visit.tasks := by
  obtain ⟨-, hactions, hafter⟩ := visit_outcome_ok hok
  rw [hafter]
  exact tasks_forM_act _ s hactions

/-- Visits of actions in two rows are those of the first and, from some session, those of the
    second. -/
theorem visitsOf_append (first second : List Action) :
    ∀ s, ∃ t, visitsOf (first ++ second) s = visitsOf first s ++ visitsOf second t := by
  induction first with
  | nil => intro s; exact ⟨s, rfl⟩
  | cons action rest ih =>
      intro s
      obtain ⟨t, ht⟩ := ih ((act action).after s)
      refine ⟨t, ?_⟩
      rw [List.cons_append, visitsOf, visitsOf, ht, List.append_assoc]

/-! ## What is visited, and under which test -/

/-- The commands of an action, each with the verdict on the test that it stands under. -/
def Action.notes : Action → List (Node × Option Verdict)
  | .perform tree => [(tree, none)]
  | .guarded c => c.body.map fun tree => (tree, c.verdict)
  | .assign _ => []

/-- A visit of a command, its tasks under the condition of a test. -/
def VisitOf (note : Node × Option Verdict) (v : Visit) : Prop :=
  v.command = note.1 ∧ ∃ register s,
    v.tasks = (newTasks (command note.1) s).map (underTest register note.2)

theorem visitEach_of (register : Option String) (verdict : Option Verdict) (trees : List Node) :
    ∀ s, List.Forall₂ VisitOf (trees.map fun tree => (tree, verdict))
      (visitEach register verdict trees s) := by
  induction trees with
  | nil => intro s; exact .nil
  | cons tree rest ih =>
      intro s
      exact .cons ⟨rfl, register, s, rfl⟩ (ih _)

theorem Action.visits_of (action : Action) (s : Session) :
    List.Forall₂ VisitOf action.notes (action.visits s) := by
  cases action with
  | perform tree => exact visitEach_of none none [tree] s
  | guarded c => exact visitEach_of s.lastRegister c.verdict c.body s
  | assign text => exact .nil

/-- The visits of actions are visits of what the actions say, one by one. -/
theorem visitsOf_of (actions : List Action) :
    ∀ s, List.Forall₂ VisitOf (actions.flatMap Action.notes) (visitsOf actions s) := by
  induction actions with
  | nil => intro s; exact .nil
  | cons action rest ih =>
      intro s
      exact List.rel_append (action.visits_of s) (ih _)

end Session

end Playscript
