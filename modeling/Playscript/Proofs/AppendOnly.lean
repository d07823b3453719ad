import Playscript.Proofs.Plan

/-! # Tasks are only ever added

    A session never takes a task back, moves it or changes it.  A command adds its task at
    the end.  The body of an `if` is the one place where tasks that are there already are
    written to: the condition goes on all tasks from a place on, and that place is the end
    that the list had before the body (`guardFrom_append`).  So whatever tree is gone through,
    and also if that fails on the way, the tasks before are the first tasks after. -/

namespace Playscript.Session

open Shell (Node)

/-- A condition put on the tasks behind the first ones leaves those alone. -/
theorem guardFrom_append (first new : List Task) (condition : String) :
    guardFrom first.length condition (first ++ new) = first ++ new.map (·.guard condition) := by
  unfold guardFrom
  rw [List.take_left, List.drop_left]

/-- The tasks of a session are the first ones of another. -/
def Extends (s t : Session) : Prop :=
  s.tasks <+: t.tasks

theorem Extends.refl (s : Session) : Extends s s :=
  List.prefix_refl s.tasks

theorem Extends.trans ⦃s t u : Session⦄ (h : Extends s t) (h' : Extends t u) : Extends s u :=
  List.IsPrefix.trans h h'

theorem Uniform.extends {α : Type} {added : Settings → Nat} {x : Step α} (h : Uniform added x)
    (s : Session) : Extends s (x.after s) := by
  obtain ⟨new, -, hnew⟩ := h.adds s
  exact ⟨new, hnew.symm⟩

theorem command_extends (tree : Node) (s : Session) : Extends s ((command tree).after s) := by
  obtain ⟨added, -, h⟩ := command_uniform tree
  exact h.extends s

/-- The body of an `if` adds tasks, and its condition goes on no others. -/
theorem underCondition_extends (c : Condition) (s : Session) :
    Extends s ((underCondition c).after s) := by
  have hbody : Extends s ((c.body.forM command).after s) :=
    Step.respects_forM Extends.refl Extends.trans command_extends c.body s
  rw [Step.after] at hbody ⊢
  rw [run_underCondition]
  cases h : (c.body.forM command).run s with
  | mk r t =>
      rw [h] at hbody
      cases r with
      | error f => exact hbody
      | ok u =>
          cases c.verdict with
          | none => exact hbody
          | some verdict =>
              -- the body came first, so the tasks are those before and some new ones
              obtain ⟨new, hnew⟩ := hbody
              show s.tasks <+: guardFrom s.tasks.length _ t.tasks
              rw [← hnew, guardFrom_append]
              exact List.prefix_append _ _

/-- An action is one command, the commands of a body, or an assignment, which adds nothing. -/
theorem act_extends (action : Action) (s : Session) : Extends s ((act action).after s) := by
  cases action with
  | perform tree => exact command_extends tree s
  | guarded c => exact underCondition_extends c s
  | assign text => exact (assignText_uniform text).extends s

/-- Going through a command node is doing the command. -/
theorem visit_command (parts : List Node) :
    visit (.command parts) = command (.command parts) := rfl

/-- **Tasks are only ever added.**  Going through a tree leaves the tasks before as the first
    ones after, whether it ends well or fails, and one command node adds at most one. -/
theorem visit_appends (s : Session) (tree : Node) :
    s.tasks <+: ((visit tree).after s).tasks ∧
      ∀ parts, ((visit (.command parts)).after s).tasks.length ≤ s.tasks.length + 1 := by
  constructor
  · exact visit_respects Extends.refl Extends.trans act_extends tree s
  · intro parts
    obtain ⟨added, atMostOne, h⟩ := command_uniform (.command parts)
    obtain ⟨new, hlength, hnew⟩ := h.adds s
    have hone := atMostOne s.settings
    rw [visit_command, hnew, List.length_append]
    omega

end Playscript.Session
