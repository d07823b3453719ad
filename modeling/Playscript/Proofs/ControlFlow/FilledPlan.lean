import Mathlib.Tactic.Ring
import Playscript.Proofs.ControlFlow.FilledWalks

/-! # The plan of a filled flow

    In the plan of a filled flow each command stands under a condition at most once, and the
    plan is at most linear in the number of words (`Flow.counted`).  Nothing in it can fail
    (`visit_outcome_of_counted`), and each visit adds one task, with one of the few conditions
    that the first tests give (`Counted.tasks_of_visit`). -/

namespace Playscript

open Shell (Node)
open Session (Action Visit VisitOf visit visitNode visits command act plan newTasks)

/-! ## The plan -/

mutual

/-- A bound for the number of commands that are done for a filled flow whose loops go through
    `n` words. -/
def Flow.cost (n : Nat) : Flow → Nat
  | .command _ => 1
  | .sequence flows => flows.cost n
  | .branch _ body arms => body.commands.length + arms.commands.length
  | .loop _ _ _ body =>
    (body.loops + 1) * ((body.loops + 1) * n * body.commands.length) + body.cost n

def Flows.cost (n : Nat) : Flows → Nat
  | .last flow _ => flow.cost n
  | .next flow _ rest => flow.cost n + rest.cost n

end

/-- A plan to its end that does nothing but `ldconfig`: at most so often under a condition, each
    time under a verdict with one of some right sides, and at most so often in all. -/
structure Counted (sides : List String) (k cost : Nat) (p : Plan Unit) : Prop where
  outcome : p.outcome = .ok ()
  notes : ∀ note ∈ p.actions.flatMap Action.notes, note.1 = .command ldconfigParts ∧
    ∀ verdict, note.2 = some verdict → ∃ side ∈ sides, verdict = verdictOn side
  guarded : (p.actions.flatMap Action.notes).countP (·.2.isSome) ≤ k
  length : (p.actions.flatMap Action.notes).length ≤ cost

namespace Counted

variable {sides : List String}

/-- Commands and costs of two plans add up. -/
theorem bind {k cost k' cost' : Nat} {p q : Plan Unit} (hp : Counted sides k cost p)
    (hq : Counted sides k' cost' q) :
    Counted sides (k + k') (cost + cost') (p >>= fun _ => q) := by
  rw [Plan.bind_ok hp.outcome]
  refine ⟨hq.outcome, ?_, ?_, ?_⟩
  · intro note hnote
    rw [List.flatMap_append] at hnote
    rcases List.mem_append.mp hnote with h | h
    · exact hp.notes note h
    · exact hq.notes note h
  · rw [List.flatMap_append, List.countP_append]
    exact Nat.add_le_add hp.guarded hq.guarded
  · rw [List.flatMap_append, List.length_append]
    exact Nat.add_le_add hp.length hq.length

/-- Commands that are done under no condition. -/
theorem performs {actions : List Action}
    (h : ∀ action ∈ actions, action = .perform (.command ldconfigParts)) :
    Counted sides 0 actions.length ⟨actions, .ok ()⟩ := by
  have hnotes : actions.flatMap Action.notes
      = actions.map fun _ => (.command ldconfigParts, none) := by
    induction actions with
    | nil => rfl
    | cons action rest ih =>
        rw [List.flatMap_cons, List.map_cons,
          ih fun other hother => h other (List.mem_cons_of_mem action hother),
          h action List.mem_cons_self]
        rfl
  refine ⟨rfl, ?_, ?_, ?_⟩
  · intro note hnote
    rw [hnotes] at hnote
    obtain ⟨_, -, rfl⟩ := List.mem_map.mp hnote
    exact ⟨rfl, fun verdict h => (nomatch h)⟩
  · rw [hnotes]
    simp
  · exact Nat.le_of_eq (by rw [hnotes, List.length_map])

/-- A body of so many commands under a verdict. -/
theorem guardeds {c : Condition} {n : Nat} {side : String}
    (hbody : c.body = List.replicate n (.command ldconfigParts)) (hside : side ∈ sides)
    (hverdict : c.verdict = some (verdictOn side)) :
    Counted sides n n ⟨[.guarded c], .ok ()⟩ := by
  have hnotes : [Action.guarded c].flatMap Action.notes
      = List.replicate n (.command ldconfigParts, some (verdictOn side)) := by
    simp [Action.notes, hbody, hverdict]
  refine ⟨rfl, ?_, ?_, ?_⟩
  · intro note hnote
    rw [hnotes] at hnote
    rw [List.eq_of_mem_replicate hnote]
    exact ⟨rfl, fun verdict h => ⟨side, hside, (Option.some.inj h).symm⟩⟩
  · rw [hnotes]
    exact Nat.le_trans List.countP_le_length (Nat.le_of_eq List.length_replicate)
  · exact Nat.le_of_eq (by rw [hnotes, List.length_replicate])

theorem mono {k cost k' cost' : Nat} {p : Plan Unit} (h : Counted sides k cost p)
    (hk : k ≤ k') (hcost : cost ≤ cost') : Counted sides k' cost' p :=
  ⟨h.outcome, h.notes, Nat.le_trans h.guarded hk, Nat.le_trans h.length hcost⟩

end Counted

mutual

/-- **The plan of a filled flow** puts each command under a condition at most once, and is at
    most linear in the number of words. -/
theorem Flow.counted {sides : List String} (hsides : ∀ side ∈ sides, side ≠ "$?")
    (houter : "outer" ∈ sides) (words : List String) : ∀ flow : Flow,
    (flow.Nests → "inner" ∈ sides) →
      Counted sides flow.commands.length (flow.cost words.length)
        (plan (flow.fill words (.comparing "outer")).toNode)
  | .command _, _ =>
      (Counted.performs fun action h => List.mem_singleton.mp h).mono (Nat.zero_le 1)
        (Nat.le_refl 1)
  | .sequence flows, hinner => Flows.counted hsides houter words flows hinner
  | .branch _ body arms, hinner => by
      obtain ⟨c, n, side, hread, hbody, hn, hside, hverdict⟩ :=
        read_filled hsides houter words body arms hinner
      rw [Flow.fill, Flow.toNode, plan_branch, hread, Flow.commands, List.length_append, Flow.cost]
      exact (Counted.guardeds hbody hside hverdict).mono hn hn
  | .loop name _ semicolon body, hinner => by
      obtain ⟨actions, l, hrun, hperforms, hlength⟩ :=
        loops_filled words name semicolon "outer" body
      have hbody := Flow.counted hsides houter words body hinner
      -- a loop is replayed while it is read, and then its body is gone through once more
      have hplan : plan (Node.forTree name words semicolon
          (body.fill words (.comparing "outer")).toNode)
            = ((⟨actions, .ok ()⟩ : Plan Unit) >>= fun _ =>
              plan (body.fill words (.comparing "outer")).toNode) := by
        show (Node.forTree name words semicolon _).walk (visitNode Plan.ask) = _
        rw [Session.walk_forTree_eq, hrun, Plan.bind_ok rfl, Plan.bind_ok rfl]
        rfl
      rw [Flow.fill, Flow.toNode, hplan, Flow.commands, Flow.cost]
      have hboth := (Counted.performs hperforms).bind hbody
      exact hboth.mono (by omega) (Nat.add_le_add_right hlength _)

/-- The commands and the costs of a row of flows add up, by induction on the row. -/
theorem Flows.counted {sides : List String} (hsides : ∀ side ∈ sides, side ≠ "$?")
    (houter : "outer" ∈ sides) (words : List String) : ∀ flows : Flows,
    (flows.Nests → "inner" ∈ sides) →
      Counted sides flows.commands.length (flows.cost words.length)
        (Node.walkAll (visitNode Plan.ask) (flows.fill words (.comparing "outer")).toNodes)
  | .last flow closing, hinner => by
      have hflow := Flow.counted hsides houter words flow hinner
      rw [Flows.commands, Flows.cost]
      cases closing with
      | none => simpa [Flows.fill, Flows.toNodes, Node.walkAll, plan] using hflow
      | some operator =>
          simpa [Flows.fill, Flows.toNodes, Node.walkAll, Node.walk, visitNode, plan] using hflow
  | .next flow operator rest, hinner => by
      have hflow := Flow.counted hsides houter words flow fun h => hinner (.inl h)
      have hrest := Flows.counted hsides houter words rest fun h => hinner (.inr h)
      rw [Flows.commands, List.length_append, Flows.cost]
      simpa [Flows.fill, Flows.toNodes, Node.walkAll, Node.walk, visitNode, plan]
        using hflow.bind hrest

end

/-! ## Enough words -/

mutual

theorem Flow.commands_le_cost (n : Nat) : ∀ flow : Flow, flow.commands.length ≤ flow.cost n
  | .command _ => Nat.le_refl 1
  | .sequence flows => Flows.commands_le_cost n flows
  | .branch _ body arms => by
      rw [Flow.commands, List.length_append, Flow.cost]
  | .loop _ _ _ body => by
      rw [Flow.commands, Flow.cost]
      exact Nat.le_trans (Flow.commands_le_cost n body) (Nat.le_add_left _ _)

theorem Flows.commands_le_cost (n : Nat) : ∀ flows : Flows, flows.commands.length ≤ flows.cost n
  | .last flow _ => Flow.commands_le_cost n flow
  | .next flow _ rest => by
      rw [Flows.commands, List.length_append, Flows.cost]
      exact Nat.add_le_add (Flow.commands_le_cost n flow) (Flows.commands_le_cost n rest)

end

mutual

/-- The cost of a flow is at most linear in the number of words. -/
theorem Flow.cost_le {n : Nat} (hn : 1 ≤ n) : ∀ flow : Flow, flow.cost n ≤ n * flow.cost 1
  | .command _ => by
      rw [Flow.cost, Flow.cost, Nat.mul_one]
      exact hn
  | .sequence flows => Flows.cost_le hn flows
  | .branch _ body arms => by
      rw [Flow.cost, Flow.cost]
      exact Nat.le_mul_of_pos_left _ hn
  | .loop _ _ _ body => by
      have hbody := Flow.cost_le hn body
      have hreplays : (body.loops + 1) * ((body.loops + 1) * n * body.commands.length)
          = n * ((body.loops + 1) * ((body.loops + 1) * 1 * body.commands.length)) := by
        ring
      rw [Flow.cost, Flow.cost, Nat.mul_add, ← hreplays]
      exact Nat.add_le_add_left hbody _

theorem Flows.cost_le {n : Nat} (hn : 1 ≤ n) : ∀ flows : Flows, flows.cost n ≤ n * flows.cost 1
  | .last flow _ => Flow.cost_le hn flow
  | .next flow _ rest => by
      rw [Flows.cost, Flows.cost, Nat.mul_add]
      exact Nat.add_le_add (Flow.cost_le hn flow) (Flows.cost_le hn rest)

end

/-! ## The visits of a filled flow -/

/-- Going through the command `ldconfig` is running it. -/
theorem command_ldconfig : command (.command ldconfigParts) = Session.ldconfigCommand := rfl

/-- It adds one task under no condition. -/
theorem newTasks_ldconfig (s : Session) :
    ∃ task : Task, newTasks (command (.command ldconfigParts)) s = [task] ∧
      task.get? "when" = none := by
  refine ⟨Task.make "Run ldconfig" "ansible.builtin.command" (.text "ldconfig")
    [("register", .text (s.registers.next s.settings.role "ldconfig").1),
     ("changed_when", .text ("'changed' in " ++ (s.registers.next s.settings.role "ldconfig").1
       ++ ".stdout or 'updated' in " ++ (s.registers.next s.settings.role "ldconfig").1
       ++ ".stdout"))], ?_, ?_⟩
  · rw [command_ldconfig]
    simp [newTasks, Step.after, Session.ldconfigCommand]
  · simp [Task.make, Task.get?, Entries.field?, Entries.get?]

theorem command_ldconfig_outcome (s : Session) :
    (command (.command ldconfigParts)).outcome s = .ok () := by
  rw [command_ldconfig]
  rfl

/-- Actions end well if all that they do ends well from everywhere. -/
theorem act_outcome {action : Action}
    (h : ∀ note ∈ action.notes, ∀ s, (command note.1).outcome s = .ok ()) (s : Session) :
    (act action).outcome s = .ok () := by
  cases action with
  | perform tree => exact h (tree, none) (List.mem_singleton_self _) s
  | assign text => exact Session.assignText_outcome text s
  | guarded c =>
      have hbody : ∀ tree ∈ c.body, ∀ s, (command tree).outcome s = .ok () := by
        intro tree htree
        exact h (tree, c.verdict) (List.mem_map.mpr ⟨tree, htree, rfl⟩)
      have hall : (c.body.forM command).run s
          = (.ok (), (c.body.forM command).after s) := by
        rw [Step.run_eq, Step.forM_outcome_ok hbody]
      rw [act, Step.outcome, Session.run_underCondition, hall]

/-- A filled flow ends well. -/
theorem visit_outcome_of_counted {tree : Node} {sides : List String} {k cost : Nat}
    (h : Counted sides k cost (plan tree)) (s : Session) : (visit tree).outcome s = .ok () := by
  have hactions : ∀ action ∈ (plan tree).actions, ∀ s, (act action).outcome s = .ok () := by
    intro action haction
    refine act_outcome fun note hnote s => ?_
    rw [(h.notes note (List.mem_flatMap.mpr ⟨action, haction, hnote⟩)).1]
    exact command_ldconfig_outcome s
  have hrun : ((plan tree).actions.forM act).run s
      = (.ok (), ((plan tree).actions.forM act).after s) := by
    rw [Step.run_eq, Step.forM_outcome_ok hactions]
  rw [Session.visit_eq_carryOut, Session.carryOut, Step.outcome, Step.run_bind_ok hrun,
    Step.run_ofExcept]
  exact h.outcome

/-- What the condition of a task says that a visit under a verdict adds. -/
def shownBy (note : Node × Option Verdict) : Option Value :=
  note.2.map fun verdict => .text verdict.shown

/-- A visit of `ldconfig` adds one task, with the condition that the verdict shows. -/
theorem VisitOf.tasks_ldconfig {sides : List String} {note : Node × Option Verdict} {v : Visit}
    (h : VisitOf note v) (hcommand : note.1 = .command ldconfigParts)
    (hverdict : ∀ verdict, note.2 = some verdict → ∃ side ∈ sides, verdict = verdictOn side) :
    ∃ task, v.tasks = [task] ∧ task.get? "when" = shownBy note := by
  obtain ⟨-, register, s, htasks⟩ := h
  obtain ⟨task, hnew, hwhen⟩ := newTasks_ldconfig s
  rw [hcommand, hnew, List.map_singleton] at htasks
  refine ⟨_, htasks, ?_⟩
  cases hnote : note.2 with
  | none => rw [shownBy, hnote]; exact hwhen
  | some verdict =>
      obtain ⟨side, -, rfl⟩ := hverdict verdict hnote
      rw [shownBy, hnote]
      exact task.when_guard _

/-- Whether a task of a visit stands under a condition. -/
def Session.Visit.isGuarded (v : Visit) : Bool :=
  v.tasks.any fun task => (task.get? "when").isSome

namespace Counted

variable {sides : List String} {k cost : Nat} {tree : Node}

/-- Each visit adds one task, and its condition is one of the few. -/
theorem tasks_of_visit (h : Counted sides k cost (plan tree)) {s : Session} {v : Visit}
    (hv : v ∈ visits tree s) : ∃ task, v.tasks = [task] ∧ ∀ condition,
      task.get? "when" = some condition →
        ∃ side ∈ sides, condition = .text (verdictOn side).shown := by
  obtain ⟨note, hnote, hvisit⟩ := exists_of_forall₂ (Session.visitsOf_of _ s) hv
  obtain ⟨hcommand, hverdict⟩ := h.notes note hnote
  obtain ⟨task, htasks, hwhen⟩ := VisitOf.tasks_ldconfig hvisit hcommand hverdict
  refine ⟨task, htasks, ?_⟩
  intro condition hcondition
  rw [hwhen, shownBy, Option.map_eq_some_iff] at hcondition
  obtain ⟨verdict, hsome, rfl⟩ := hcondition
  obtain ⟨side, hside, rfl⟩ := hverdict verdict hsome
  exact ⟨side, hside, rfl⟩

/-- As many visits stand under a condition as commands do in the plan. -/
theorem guarded_visits (h : Counted sides k cost (plan tree)) (s : Session) :
    (visits tree s).countP Visit.isGuarded ≤ k := by
  refine Nat.le_trans (countP_le_of_forall₂ (Session.visitsOf_of _ s).flip ?_) h.guarded
  intro v note hnote hvisit hguarded
  obtain ⟨hcommand, hverdict⟩ := h.notes note hnote
  obtain ⟨task, htasks, hwhen⟩ := VisitOf.tasks_ldconfig hvisit hcommand hverdict
  simpa [Visit.isGuarded, htasks, hwhen, shownBy] using hguarded

theorem length_visits (h : Counted sides k cost (plan tree)) (s : Session) :
    (visits tree s).length ≤ cost := by
  rw [visits, ← (Session.visitsOf_of _ s).length_eq]
  exact h.length

end Counted

end Playscript
