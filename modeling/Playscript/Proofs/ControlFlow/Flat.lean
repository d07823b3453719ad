import Playscript.Proofs.ControlFlow.Reading

/-! # Flat flows are kept

    An `if` that is read takes in the words behind `if` and the commands behind `then`, as
    long as no other keyword comes between.  In a flat flow none does: the test has no
    keyword in it, and the body is a row of commands.  So what has been read at `fi` is the
    body, under the verdict on its own test (`read_branch`), and a loop does its body at least
    as often as it has words (`Session.walk_forTree`). -/

namespace Playscript

open Shell (Node)
open Session (Action Visit visit visits visitsOf visitNode plan newTasks underTest guardText)

/-! ## Straight flows -/

mutual

/-- The commands of a flow, in their order. -/
def Flow.commands : Flow → List Node
  | .command parts => [.command parts]
  | .sequence flows => flows.commands
  | .branch _ body arms => body.commands ++ arms.commands
  | .loop _ _ _ body => body.commands

def Flows.commands : Flows → List Node
  | .last flow _ => flow.commands
  | .next flow _ rest => flow.commands ++ rest.commands

def Arms.commands : Arms → List Node
  | .fi => []
  | .otherwise body => body.commands
  | .elif _ body rest => body.commands ++ rest.commands

end

mutual

/-- The tree of a straight flow is made of its commands. -/
theorem Flow.simpleCommands?_toNode : ∀ flow : Flow, flow.Straight →
    flow.toNode.simpleCommands? = some flow.commands
  | .command parts, _ => by
      rw [Flow.toNode, Node.simpleCommands?, Flow.commands]
  | .sequence flows, h => by
      rw [Flow.Straight] at h
      rw [Flow.toNode, Node.simpleCommands?, Flow.commands]
      exact Flows.simpleCommandsAll?_toNodes flows h

/-- A row of straight flows is the row of their commands, by induction on it. -/
theorem Flows.simpleCommandsAll?_toNodes : ∀ flows : Flows, flows.Straight →
    Node.simpleCommandsAll? flows.toNodes = some flows.commands
  | .last flow none, h => by
      rw [Flows.Straight] at h
      have hflow := Flow.simpleCommands?_toNode flow h
      simp [Flows.toNodes, Flows.commands, Node.simpleCommandsAll?, hflow]
  | .last flow (some operator), h => by
      rw [Flows.Straight] at h
      have hflow := Flow.simpleCommands?_toNode flow h
      simp [Flows.toNodes, Flows.commands, Node.simpleCommandsAll?, Node.simpleCommands?, hflow]
  | .next flow operator rest, h => by
      rw [Flows.Straight] at h
      have hflow := Flow.simpleCommands?_toNode flow h.1
      have hrest := Flows.simpleCommandsAll?_toNodes rest h.2
      simp [Flows.toNodes, Flows.commands, Node.simpleCommandsAll?, Node.simpleCommands?, hflow,
        hrest]

end

mutual

/-- A straight flow asks for its commands, each in the place of the flow. -/
theorem Flow.demands_straight (guard : Guard) : ∀ flow : Flow, flow.Straight →
    flow.demands guard = flow.commands.map fun command => ⟨command, guard⟩
  | .command parts, _ => by
      rw [Flow.demands, Flow.commands]
      rfl
  | .sequence flows, h => by
      rw [Flow.Straight] at h
      rw [Flow.demands, Flow.commands]
      exact Flows.demands_straight guard flows h

theorem Flows.demands_straight (guard : Guard) : ∀ flows : Flows, flows.Straight →
    flows.demands guard = flows.commands.map fun command => ⟨command, guard⟩
  | .last flow _, h => by
      rw [Flows.Straight] at h
      rw [Flows.demands, Flows.commands]
      exact Flow.demands_straight guard flow h
  | .next flow _ rest, h => by
      rw [Flows.Straight] at h
      rw [Flows.demands, Flows.commands, List.map_append, Flow.demands_straight guard flow h.1,
        Flows.demands_straight guard rest h.2]

end

mutual

/-- Behind `then`, the commands of a straight flow are taken in. -/
theorem Flow.run_straight : ∀ flow : Flow, flow.Straight → ∀ c : Condition,
    c.keyword = some "then" → (flow.toNode.walk Condition.visit).run c
      = .ok ((), { c with body := c.body ++ flow.commands })
  | .command parts, _, c, hthen => by
      simp only [Flow.toNode, Node.walk, Flow.commands]
      simp [Condition.visit, hthen]
      rfl
  | .sequence flows, h, c, hthen => by
      rw [Flow.Straight] at h
      rw [Flow.toNode, Node.walk, Flow.commands]
      exact Flows.run_straight flows h c hthen

/-- Behind `then`, straight flows put their commands to the body, one flow after the other. -/
theorem Flows.run_straight : ∀ flows : Flows, flows.Straight → ∀ c : Condition,
    c.keyword = some "then" → (Node.walkAll Condition.visit flows.toNodes).run c
      = .ok ((), { c with body := c.body ++ flows.commands })
  | .last flow closing, h, c, hthen => by
      rw [Flows.Straight] at h
      have hflow := Flow.run_straight flow h c hthen
      cases closing with
      | none => exact Condition.run_bind_ok_iff.mpr ⟨_, hflow, rfl⟩
      | some operator => exact Condition.run_bind_ok_iff.mpr ⟨_, hflow, rfl⟩
  | .next flow operator rest, h, c, hthen => by
      rw [Flows.Straight] at h
      have hflow := Flow.run_straight flow h.1 c hthen
      have hrest := Flows.run_straight rest h.2 { c with body := c.body ++ flow.commands } hthen
      rw [Flows.toNodes, Node.walkAll, Flows.commands, ← List.append_assoc]
      exact Condition.run_bind_ok_iff.mpr ⟨_, hflow, hrest⟩

end

/-- **A straight body is read under the verdict on its own test.** -/
theorem Flow.read_straight {test : Test} {body : Flow} (hbody : body.Straight) {d : Condition}
    (h : Condition.read (.branch (.reserved "if" :: test.node :: .reserved "then"
      :: body.toNode :: Arms.fi.toNodes)) = .ok d) :
    d.body = body.commands ∧ d.verdict = test.verdict? ∧ d.verdict.isSome := by
  obtain ⟨c, hhead, hrest⟩ := Condition.read_branch_iff.mp h
  obtain ⟨hthen, hempty, hverdict⟩ := Condition.head_ok hhead
  have hfi : (Node.walkAll Condition.visit (body.toNode :: Arms.fi.toNodes)).run c
      = .ok ((), { c with body := c.body ++ body.commands, keyword := some "fi" }) := by
    refine Condition.run_bind_ok_iff.mpr ⟨_, body.run_straight hbody c hthen, ?_⟩
    rw [Arms.toNodes]
    exact Condition.run_bind_ok_iff.mpr ⟨_, Condition.run_reserved "fi" (by decide) _, rfl⟩
  rw [hfi] at hrest
  cases hrest
  refine ⟨?_, (Condition.verdict?_of_head hhead).symm, hverdict⟩
  show c.body ++ body.commands = body.commands
  rw [hempty, List.nil_append]

/-! ## Visits that meet demands -/

/-- Visits that meet demands in their order, and others that meet one of them. -/
structure Meeting (demands : List Demand) (found : List Visit) : Prop where
  visited : ∃ seen, seen.Sublist found ∧ List.Forall₂ Demand.Meets demands seen
  guarded : ∀ v ∈ found, ∃ d ∈ demands, d.Meets v

namespace Meeting

theorem of_forall₂ {demands : List Demand} {found : List Visit}
    (h : List.Forall₂ Demand.Meets demands found) : Meeting demands found :=
  ⟨⟨found, List.Sublist.refl found, h⟩, fun _ hv => exists_of_forall₂ h hv⟩

theorem append {first second : List Demand} {found found' : List Visit}
    (h : Meeting first found) (h' : Meeting second found') :
    Meeting (first ++ second) (found ++ found') := by
  obtain ⟨seen, hsub, hmeets⟩ := h.visited
  obtain ⟨seen', hsub', hmeets'⟩ := h'.visited
  refine ⟨⟨seen ++ seen', hsub.append hsub', List.rel_append hmeets hmeets'⟩, ?_⟩
  intro v hv
  rcases List.mem_append.mp hv with hv | hv
  · obtain ⟨d, hd, hdv⟩ := h.guarded v hv
    exact ⟨d, List.mem_append_left _ hd, hdv⟩
  · obtain ⟨d, hd, hdv⟩ := h'.guarded v hv
    exact ⟨d, List.mem_append_right _ hd, hdv⟩

/-- Further visits do no harm if they meet one of the demands. -/
theorem more {demands : List Demand} {found further : List Visit} (h : Meeting demands found)
    (hfurther : ∀ v ∈ further, ∃ d ∈ demands, d.Meets v) :
    Meeting demands (found ++ further) := by
  obtain ⟨seen, hsub, hmeets⟩ := h.visited
  refine ⟨⟨seen, hsub.trans (List.sublist_append_left found further), hmeets⟩, ?_⟩
  intro v hv
  rcases List.mem_append.mp hv with hv | hv
  · exact h.guarded v hv
  · exact hfurther v hv

end Meeting

/-- Commands that are done meet the demand for them in no arm. -/
theorem visitsOf_perform_meets (commands : List Node) (s : Session) :
    List.Forall₂ Demand.Meets (commands.map fun command => ⟨command, .free⟩)
      (visitsOf (commands.map Action.perform) s) := by
  have hnotes : (commands.map Action.perform).flatMap Action.notes
      = commands.map fun command => (command, none) := by
    induction commands with
    | nil => rfl
    | cons command rest ih => simp [Action.notes, ih]
  have hvisits := Session.visitsOf_of (commands.map Action.perform) s
  rw [hnotes, List.forall₂_map_left_iff] at hvisits
  rw [List.forall₂_map_left_iff]
  exact hvisits.imp fun command v hv => ⟨hv.1, fun _ _ => trivial⟩

/-- A body under a verdict meets the demand for its commands in the arm of the test. -/
theorem visitsOf_guarded_meets {test : Test} {c : Condition} (hverdict : c.verdict = test.verdict?)
    (hsome : c.verdict.isSome) (s : Session) :
    List.Forall₂ Demand.Meets (c.body.map fun command => ⟨command, .test test⟩)
      (visitsOf [.guarded c] s) := by
  obtain ⟨verdict, hv⟩ := Option.isSome_iff_exists.mp hsome
  have hvisits := Session.visitsOf_of [.guarded c] s
  have hnotes : [Action.guarded c].flatMap Action.notes
      = c.body.map fun command => (command, some verdict) := by
    simp [Action.notes, hv]
  rw [hnotes, List.forall₂_map_left_iff] at hvisits
  rw [List.forall₂_map_left_iff]
  refine hvisits.imp fun command v hv' => ⟨hv'.1, fun task htask => ?_⟩
  obtain ⟨-, register, t, htasks⟩ := hv'
  rw [htasks] at htask
  obtain ⟨task', -, rfl⟩ := List.mem_map.mp htask
  exact ⟨register, verdict, hverdict ▸ hv, task'.when_guard _⟩

/-! ## Flat flows -/

/-- The plan of a straight flow is to do its commands. -/
theorem Flow.plan_straight {flow : Flow} (h : flow.Straight) :
    plan flow.toNode = ⟨flow.commands.map Action.perform, .ok ()⟩ := by
  show flow.toNode.walk (visitNode Plan.ask) = _
  rw [Session.walk_body Plan.ask (flow.simpleCommands?_toNode h),
    Plan.forM_of_ok _ fun _ _ => rfl, List.map_eq_flatMap]
  rfl

/-- The plan of an `if` is to do what has been read of it. -/
theorem plan_branch (parts : List Node) :
    plan (.compound [.branch parts] [])
      = (ofExcept (Condition.read (.branch parts)) >>= fun c => Plan.ask (.guarded c)) := by
  simp [plan, Node.walk, Node.walkAll, visitNode]

/-- The plan of a loop with a straight body is to do its commands once for each word, and once
    more. -/
theorem Flow.plan_loop {body : Flow} (h : body.Straight) (name : String) (words : List String)
    (semicolon : Bool) :
    plan (.forTree name words semicolon body.toNode)
      = ⟨(List.replicate (words.length + 1) (body.commands.map Action.perform)).flatten,
          .ok ()⟩ := by
  have hplan := Flow.plan_straight h
  show (Node.forTree name words semicolon body.toNode).walk (visitNode Plan.ask) = _
  rw [Session.walk_forTree Plan.ask (body.simpleCommands?_toNode h)]
  show (List.replicate (words.length + 1) body.toNode).forM plan = _
  rw [Plan.forM_of_ok _ fun tree htree => by rw [List.eq_of_mem_replicate htree, hplan]]
  simp [List.flatMap_def, List.map_replicate, hplan]

/-- Actions that meet demands from every session meet them as often as they are taken. -/
theorem visitsOf_replicate_meets {demands : List Demand} {actions : List Action}
    (h : ∀ s, List.Forall₂ Demand.Meets demands (visitsOf actions s)) (n : Nat) :
    ∀ s, List.Forall₂ Demand.Meets (List.replicate n demands).flatten
      (visitsOf (List.replicate n actions).flatten s) := by
  induction n with
  | zero => intro s; exact .nil
  | succ n ih =>
      intro s
      obtain ⟨t, ht⟩ := Session.visitsOf_append actions (List.replicate n actions).flatten s
      rw [List.replicate_succ, List.replicate_succ, List.flatten_cons, List.flatten_cons, ht]
      exact List.rel_append (h s) (ih t)

/-- A body that is done once for each word and once more meets what a loop asks for. -/
theorem meeting_loop {demands : List Demand} {actions : List Action}
    (h : ∀ s, List.Forall₂ Demand.Meets demands (visitsOf actions s)) (n : Nat) (s : Session) :
    Meeting (List.replicate (max n 1) demands).flatten
      (visitsOf (List.replicate (n + 1) actions).flatten s) := by
  cases n with
  | zero => exact .of_forall₂ (visitsOf_replicate_meets h 1 s)
  | succ n =>
      obtain ⟨t, ht⟩ := Session.visitsOf_append (List.replicate (n + 1) actions).flatten actions s
      have hmax : max (n + 1) 1 = n + 1 := by omega
      rw [List.replicate_succ', List.flatten_append, List.flatten_singleton, ht, hmax]
      -- the pass too many does no harm: it meets over again what the first turn asks for
      refine Meeting.more (.of_forall₂ (visitsOf_replicate_meets h (n + 1) s)) ?_
      intro v hv
      obtain ⟨d, hd, hdv⟩ := exists_of_forall₂ (h t) hv
      rw [List.replicate_succ, List.flatten_cons]
      exact ⟨d, List.mem_append_left _ hd, hdv⟩

mutual

/-- The plan of a flat flow, if it comes to its end, meets what the flow asks for. -/
theorem Flow.meeting_of_flat : ∀ flow : Flow, flow.Flat → (plan flow.toNode).outcome = .ok () →
    ∀ s, Meeting (flow.demands .free) (visitsOf (plan flow.toNode).actions s)
  | .command parts, _, _, s => .of_forall₂ (visitsOf_perform_meets [.command parts] s)
  | .sequence flows, h, hok, s => by
      rw [Flow.Flat] at h
      rw [Flow.demands]
      exact Flows.meeting_of_flat flows h hok s
  | .branch test body arms, h, hok, s => by
      rw [Flow.Flat] at h
      obtain ⟨hbody, rfl⟩ := h
      rw [Flow.toNode, plan_branch] at hok ⊢
      cases hread : Condition.read (.branch (.reserved "if" :: test.node :: .reserved "then"
          :: body.toNode :: Arms.fi.toNodes)) with
      | error f =>
          rw [hread] at hok
          exact nomatch hok
      | ok c =>
          obtain ⟨hcommands, hverdict, hsome⟩ := Flow.read_straight hbody hread
          rw [Flow.demands, Arms.demands, List.append_nil, body.demands_straight _ hbody,
            ← hcommands]
          exact .of_forall₂ (visitsOf_guarded_meets hverdict hsome s)
  | .loop name words semicolon body, h, hok, s => by
      rw [Flow.Flat] at h
      rw [Flow.toNode, Flow.plan_loop h, Flow.demands, body.demands_straight _ h]
      exact meeting_loop (visitsOf_perform_meets body.commands) words.length s

/-- Flat flows one after the other: the demands of the first are met by its own visits, and those of
    the rest in the session that it leaves. -/
theorem Flows.meeting_of_flat : ∀ flows : Flows, flows.Flat →
    (Node.walkAll (visitNode Plan.ask) flows.toNodes).outcome = .ok () → ∀ s,
      Meeting (flows.demands .free)
        (visitsOf (Node.walkAll (visitNode Plan.ask) flows.toNodes).actions s)
  | .last flow closing, h, hok, s => by
      rw [Flows.Flat] at h
      have hplan : Node.walkAll (visitNode Plan.ask) (Flows.last flow closing).toNodes
          = plan flow.toNode := by
        cases closing with
        | none => simp [Flows.toNodes, Node.walkAll, plan]
        | some operator => simp [Flows.toNodes, Node.walkAll, Node.walk, visitNode, plan]
      rw [hplan] at hok ⊢
      exact Flow.meeting_of_flat flow h hok s
  | .next flow operator rest, h, hok, s => by
      rw [Flows.Flat] at h
      have hplan : Node.walkAll (visitNode Plan.ask) (Flows.next flow operator rest).toNodes
          = (plan flow.toNode >>= fun _ => Node.walkAll (visitNode Plan.ask) rest.toNodes) := by
        simp [Flows.toNodes, Node.walkAll, Node.walk, visitNode, plan]
      rw [hplan] at hok ⊢
      obtain ⟨_, hflow, hrest, hactions⟩ := Plan.bind_outcome_ok hok
      obtain ⟨t, ht⟩ := Session.visitsOf_append (plan flow.toNode).actions
        (Node.walkAll (visitNode Plan.ask) rest.toNodes).actions s
      rw [hactions, ht, Flows.demands]
      exact (Flow.meeting_of_flat flow h.1 hflow s).append
        (Flows.meeting_of_flat rest h.2 hrest t)

end

/-- **A flat flow that ends well is kept**, from every session. -/
theorem Flow.kept_of_flat {flow : Flow} (h : flow.Flat) {s : Session}
    (hok : (visit flow.toNode).outcome s = .ok ()) : flow.Kept s := by
  obtain ⟨hplan, -, -⟩ := Session.visit_outcome_ok hok
  have hmeeting := flow.meeting_of_flat h hplan s
  obtain ⟨seen, hsub, hmeets⟩ := hmeeting.visited
  exact ⟨Session.tasks_visits hok, ⟨seen, hsub.subperm, hmeets⟩, hmeeting.guarded⟩

end Playscript
