import Playscript.Proofs.Effects
import Playscript.Proofs.Refusals
import Playscript.Proofs.Visits

/-! # The deeds of a run

    A deed is a known command that a run has done, with the session that it was done in.  The
    deeds of a run are listed in their order (`runDeeds`); a tree that fails has those in front
    of the failure, and the next tree goes on from there.  Between deeds words are gathered,
    variables are set and the user is told, which neither adds a task nor touches the mask; and
    the tasks of an `if` are put on its condition.

    * `Log` — a way from one session to another, by deeds and in passing;
    * `runDeeds_log` — a run goes the way of its deeds;
    * `Log.done_in` — each deed was done in the session that the deeds before it lead to;
    * `Log.tasks` — the tasks of a run are those of its deeds, some of them on a condition. -/

namespace Playscript

open Shell (Node)

/-! ## Tasks on a condition -/

theorem Entries.set_set (entries : Entries) (key : Scalar) (value value' : Value) :
    (entries.set key value).set key value' = entries.set key value' := by
  induction entries with
  | nil => simp [Entries.set]
  | cons entry rest ih =>
      by_cases hk : entry.1 = key
      · simp [Entries.set, hk]
      · simpa [Entries.set, hk] using ih

namespace Task

/-- A second condition takes the place of the first. -/
theorem guard_guard (t : Task) (first second : String) :
    (t.guard first).guard second = t.guard second :=
  congrArg Task.mk (Entries.set_set t.fields _ _ _)

/-- A task as it was added, or on a condition that was put on it since. -/
def StemsFrom (t bare : Task) : Prop :=
  t = bare ∨ ∃ condition, t = bare.guard condition

namespace StemsFrom

theorem refl (t : Task) : StemsFrom t t := .inl rfl

theorem of_guard (t : Task) (condition : String) : StemsFrom (t.guard condition) t :=
  .inr ⟨condition, rfl⟩

theorem trans {t u v : Task} (h : StemsFrom t u) (h' : StemsFrom u v) : StemsFrom t v := by
  rcases h with rfl | ⟨condition, rfl⟩
  · exact h'
  · rcases h' with rfl | ⟨condition', rfl⟩
    · exact of_guard u condition
    · rw [guard_guard]
      exact of_guard v condition

/-- What no condition changes is the same in a task and in what it stems from. -/
theorem eq_of_guard {α : Type} {f : Task → α} (hf : ∀ t condition, f (t.guard condition) = f t)
    {t bare : Task} (h : StemsFrom t bare) : f t = f bare := by
  rcases h with rfl | ⟨condition, rfl⟩
  · rfl
  · exact hf bare condition

theorem map_eq_of_guard {α : Type} {f : Task → α}
    (hf : ∀ t condition, f (t.guard condition) = f t) {ts bares : List Task}
    (h : List.Forall₂ StemsFrom ts bares) : ts.map f = bares.map f := by
  induction h with
  | nil => rfl
  | cons hfirst _ ih => rw [List.map_cons, List.map_cons, hfirst.eq_of_guard hf, ih]

theorem trans_each {ts us vs : List Task} (h : List.Forall₂ StemsFrom ts us)
    (h' : List.Forall₂ StemsFrom us vs) : List.Forall₂ StemsFrom ts vs := by
  induction h generalizing vs with
  | nil => exact h'
  | cons hfirst _ ih =>
      cases h' with
      | cons hfirst' hrest' => exact .cons (hfirst.trans hfirst') (ih hrest')

end StemsFrom

theorem stemsFrom_guardFrom (count : Nat) (condition : String) (tasks : List Task) :
    List.Forall₂ StemsFrom (Session.guardFrom count condition tasks) tasks := by
  have hguarded : List.Forall₂ StemsFrom
      ((tasks.drop count).map (·.guard condition)) (tasks.drop count) := by
    rw [List.forall₂_map_left_iff, List.forall₂_same]
    exact fun t _ => .of_guard t condition
  have hboth : List.Forall₂ StemsFrom (Session.guardFrom count condition tasks)
      (tasks.take count ++ tasks.drop count) :=
    List.rel_append (List.forall₂_same.mpr fun t _ => .refl t) hguarded
  rwa [List.take_append_drop] at hboth

end Task

namespace Session

/-! ## Deeds and the way between them -/

/-- A known command that was done: what it said, and the session that it was done in. -/
structure Deed where
  verb : Verb
  invocation : Invocation
  session : Session

/-- The tasks that a deed added. -/
def Deed.tasks (d : Deed) : List Task :=
  newTasks (perform d.verb d.invocation) d.session

/-- What is done in passing leaves the tasks and the mask alone. -/
structure Passing (s t : Session) : Prop where
  reaches : Reaches s t
  umask : t.umask = s.umask
  tasks : t.tasks = s.tasks

/-- A way from a session to another: deeds in their order, in between what is done in passing,
    and ways whose tasks are put on a condition at their end. -/
inductive Log : Session → List Deed → Session → Prop where
  | start {s : Session} : Log s [] s
  | passing {s t u : Session} {deeds : List Deed} (log : Log s deeds t) (passing : Passing t u) :
      Log s deeds u
  | deed {s t : Session} {deeds : List Deed} (log : Log s deeds t) {verb : Verb}
      {inv : Invocation} (named : inv.verb? = some verb)
      (done : (perform verb inv).outcome t = .ok ()) :
      Log s (deeds ++ [⟨verb, inv, t⟩]) ((perform verb inv).after t)
  | guarded {s t u : Session} {deeds body : List Deed} (log : Log s deeds t)
      (within : Log t body u) (verdict : Verdict) :
      Log s (deeds ++ body)
        { u with tasks := guardFrom t.tasks.length (guardText t.lastRegister verdict) u.tasks }

namespace Log

variable {s t u : Session} {deeds more : List Deed}

theorem append (h : Log s deeds t) (h' : Log t more u) : Log s (deeds ++ more) u := by
  induction h' generalizing s deeds with
  | start =>
      rw [List.append_nil]
      exact h
  | passing _ passing ih => exact (ih h).passing passing
  | deed _ named done ih =>
      rw [← List.append_assoc]
      exact (ih h).deed named done
  | guarded _ within verdict ih _ =>
      rw [← List.append_assoc]
      exact (ih h).guarded within verdict

/-- **A deed was done in the session that the deeds before it lead to**, and ended well there. -/
theorem done_in (h : Log s deeds t) :
    ∀ {before d behind}, deeds = before ++ d :: behind →
      Log s before d.session ∧ d.invocation.verb? = some d.verb ∧
        (perform d.verb d.invocation).outcome d.session = .ok () := by
  induction h with
  | start =>
      intro before d behind hdeeds
      simp at hdeeds
  | passing _ _ ih => exact ih
  | @deed s t deeds log verb inv named done ih =>
      intro before d behind hdeeds
      -- the deed is the last one, or one of those before it
      rcases List.eq_nil_or_concat behind with rfl | ⟨init, last, rfl⟩
      · obtain ⟨rfl, hlast⟩ := List.append_inj' hdeeds rfl
        cases List.singleton_inj.mp hlast
        exact ⟨log, named, done⟩
      · rw [List.concat_eq_append, ← List.cons_append, ← List.append_assoc] at hdeeds
        exact ih (List.append_inj' hdeeds rfl).1
  | guarded log within _ ih ihWithin =>
      intro before d behind hdeeds
      -- the deed stands within the condition, or before it
      rcases List.append_eq_append_iff.mp hdeeds with ⟨front, rfl, hbody⟩ | ⟨front, hfront, hbehind⟩
      · obtain ⟨hlog, hdone⟩ := ihWithin hbody
        exact ⟨log.append hlog, hdone⟩
      · cases front with
        | nil =>
            obtain ⟨hlog, hdone⟩ := @ihWithin [] _ _ hbehind.symm
            rw [List.append_nil] at hfront
            exact ⟨by simpa [hfront] using log.append hlog, hdone⟩
        | cons first front =>
            obtain ⟨rfl, -⟩ := List.cons.inj hbehind
            exact ih hfront

theorem ended_well (h : Log s deeds t) {d : Deed} (hd : d ∈ deeds) :
    (perform d.verb d.invocation).outcome d.session = .ok () := by
  obtain ⟨before, behind, hsplit⟩ := List.append_of_mem hd
  exact (h.done_in hsplit).2.2

theorem reaches (h : Log s deeds t) : Reaches s t := by
  induction h with
  | start => exact .refl
  | passing _ passing ih => exact ih.trans passing.reaches
  | @deed s t deeds log verb inv named done ih =>
      obtain ⟨added, -, huniform⟩ := (perform_atomic verb inv).uniform
      exact ih.trans (huniform.reaches t)
  | guarded _ _ verdict ih ihWithin => exact (ih.trans ihWithin).tail (.guarded _ _ _)

theorem settings_of_mem (h : Log s deeds t) {d : Deed} (hd : d ∈ deeds) :
    d.session.settings = s.settings := by
  obtain ⟨before, behind, hsplit⟩ := List.append_of_mem hd
  exact (h.done_in hsplit).1.reaches.settings_eq

/-- A deed puts its tasks behind those that are there. -/
theorem tasks_deed (verb : Verb) (inv : Invocation) (t : Session) :
    ((perform verb inv).after t).tasks = t.tasks ++ Deed.tasks ⟨verb, inv, t⟩ := by
  obtain ⟨added, -, huniform⟩ := (perform_atomic verb inv).uniform
  obtain ⟨new, -, htasks⟩ := huniform.adds t
  rw [Deed.tasks, newTasks, htasks, List.drop_left]

/-- **The tasks at the end of the way are those of its deeds**, in their order, behind those at
    the start; some of them are on a condition. -/
theorem tasks (h : Log s deeds t) :
    List.Forall₂ Task.StemsFrom t.tasks (s.tasks ++ deeds.flatMap Deed.tasks) := by
  have hsame : ∀ tasks : List Task, List.Forall₂ Task.StemsFrom tasks tasks :=
    fun tasks => List.forall₂_same.mpr fun task _ => .refl task
  induction h with
  | start =>
      rw [List.flatMap_nil, List.append_nil]
      exact hsame _
  | passing _ passing ih =>
      rw [passing.tasks]
      exact ih
  | @deed s t deeds log verb inv named done ih =>
      rw [List.flatMap_append, List.flatMap_singleton, ← List.append_assoc, tasks_deed]
      exact List.rel_append ih (hsame _)
  | guarded _ _ verdict ih ihWithin =>
      rw [List.flatMap_append, ← List.append_assoc]
      exact Task.StemsFrom.trans_each (Task.stemsFrom_guardFrom _ _ _)
        (Task.StemsFrom.trans_each ihWithin (List.rel_append ih (hsame _)))

/-- What no condition changes holds of all tasks exactly if it holds of all that the deeds
    added. -/
theorem forall_tasks_iff (h : Log s deeds t) (hs : s.tasks = []) {P : Task → Prop}
    (hP : ∀ task condition, P (Task.guard task condition) ↔ P task) :
    (∀ task ∈ t.tasks, P task) ↔ ∀ d ∈ deeds, ∀ task ∈ d.tasks, P task := by
  have hsame : t.tasks.map P = (deeds.flatMap Deed.tasks).map P := by
    rw [Task.StemsFrom.map_eq_of_guard (fun task condition => propext (hP task condition)) h.tasks,
      hs, List.nil_append]
  calc (∀ task ∈ t.tasks, P task)
      ↔ ∀ p ∈ t.tasks.map P, p := by rw [List.forall_mem_map]
    _ ↔ ∀ task ∈ deeds.flatMap Deed.tasks, P task := by rw [hsame, List.forall_mem_map]
    _ ↔ ∀ d ∈ deeds, ∀ task ∈ d.tasks, P task := by
      simp only [List.mem_flatMap]
      exact ⟨fun hall d hd task htask => hall task ⟨d, hd, htask⟩,
        fun hall task ⟨d, hd, htask⟩ => hall d hd task htask⟩

end Log

/-! ## The deeds of a run -/

/-- The deed of an invocation, if it names a known command that ends well. -/
def invocationDeeds (inv : Invocation) (s : Session) : List Deed :=
  match inv.verb? with
  | none => []
  | some verb =>
    match (perform verb inv).outcome s with
    | .ok _ => [⟨verb, inv, s⟩]
    | .error _ => []

/-- The deed of a command node, once its words are gathered. -/
def commandDeeds (tree : Node) (s : Session) : List Deed :=
  match (Invocation.gather tree).outcome s with
  | .ok inv => invocationDeeds inv ((Invocation.gather tree).after s)
  | .error _ => []

/-- The deeds of steps one after the other, up to the first that fails. -/
def deedsEach {α : Type} (f : α → Step Unit) (deeds : α → Session → List Deed) :
    List α → Session → List Deed
  | [], _ => []
  | x :: rest, s =>
    deeds x s ++ match (f x).outcome s with
      | .ok _ => deedsEach f deeds rest ((f x).after s)
      | .error _ => []

/-- The deeds of an action. -/
def Action.deeds : Action → Session → List Deed
  | .perform tree, s => commandDeeds tree s
  | .guarded condition, s => deedsEach command commandDeeds condition.body s
  | .assign _, _ => []

/-- The deeds of going through a tree. -/
def treeDeeds (tree : Node) (s : Session) : List Deed :=
  deedsEach act Action.deeds (plan tree).actions s

/-- The deeds of going through trees one after the other, also past those that fail. -/
def runDeeds : List Node → Session → List Deed
  | [], _ => []
  | tree :: rest, s => treeDeeds tree s ++ runDeeds rest ((visit tree).after s)

/-! ## A run goes the way of its deeds -/

theorem assignText_passing (text : String) (s : Session) :
    Passing s ((assignText text).after s) := by
  refine ⟨(assignText_uniform text).reaches s, ?_, ?_⟩
  all_goals
    unfold assignText
    cases splitAssignment text with
    | none => rfl
    | some pair => rfl

/-- Assignments leave the mask alone. -/
theorem umask_applyAll_assigned (actions : List Action) :
    ∀ scope : Scope, (scope.applyAll (assigned actions)).umask = scope.umask := by
  induction actions with
  | nil => intro scope; rfl
  | cons action rest ih =>
      intro scope
      have hsplit : assigned (action :: rest) = assigned [action] ++ assigned rest := by
        rw [assigned, assigned, assigned, ← List.flatMap_append]
        rfl
      rw [hsplit, Scope.applyAll_append, ih]
      cases action with
      | perform tree => rfl
      | guarded condition => rfl
      | assign text =>
          show (scope.applyAll (assignEffects text ++ [])).umask = _
          rw [assignEffects]
          cases splitAssignment text with
          | none => rfl
          | some pair => rfl

/-- Words are gathered in passing. -/
theorem gather_passing (tree : Node) (s : Session) :
    Passing s ((Invocation.gather tree).after s) := by
  have huniform := gather_uniform tree
  obtain ⟨new, hnone, htasks⟩ := huniform.adds s
  have hscope := (gather_does tree).scope s
  refine ⟨huniform.reaches s, ?_, ?_⟩
  · exact (congrArg Scope.umask hscope).trans (umask_applyAll_assigned _ s.scope)
  · rw [htasks, List.eq_nil_of_length_eq_zero hnone, List.append_nil]

/-- What an invocation does is one deed if its command is known and ends well, and else nothing is
    logged. -/
theorem invocationDeeds_log (inv : Invocation) (s : Session) :
    Log s (invocationDeeds inv s) (Step.after (match inv.verb? with
      | some verb => perform verb inv
      | none => pure ()) s) := by
  unfold invocationDeeds
  cases hverb : inv.verb? with
  | none => exact .start
  | some verb =>
      cases hperform : (perform verb inv).outcome s with
      | ok u =>
          have hdeed := Log.start.deed hverb hperform
          simpa [hperform] using hdeed
      | error f =>
          -- a known command that fails leaves no trace
          have hsame := (perform_atomic verb inv).after_of_fails ⟨f, hperform⟩
          simpa [hperform, hsame] using Log.start

/-- A command first assigns, which is no deed, and is then done in the session with the assignments
    made. -/
theorem commandDeeds_log (tree : Node) (s : Session) :
    Log s (commandDeeds tree s) ((command tree).after s) := by
  have hgather : Log s [] ((Invocation.gather tree).after s) :=
    Log.start.passing (gather_passing tree s)
  unfold commandDeeds
  cases hout : (Invocation.gather tree).outcome s with
  | error f =>
      have hrun : (Invocation.gather tree).run s
          = (.error f, (Invocation.gather tree).after s) := by rw [Step.run_eq, hout]
      have hafter : (command tree).after s = (Invocation.gather tree).after s :=
        congrArg Prod.snd (Step.run_bind_error hrun _)
      rw [hafter]
      exact hgather
  | ok inv =>
      have hrun : (Invocation.gather tree).run s
          = (.ok inv, (Invocation.gather tree).after s) := by rw [Step.run_eq, hout]
      have hafter : (command tree).after s = Step.after (match inv.verb? with
          | some verb => perform verb inv
          | none => pure ()) ((Invocation.gather tree).after s) :=
        congrArg Prod.snd (Step.run_bind_ok hrun _)
      rw [hafter]
      exact hgather.append (invocationDeeds_log inv _)

/-- Steps one after the other go the way of their deeds if each of them does. -/
theorem deedsEach_log {α : Type} {f : α → Step Unit} {deeds : α → Session → List Deed}
    (h : ∀ x s, Log s (deeds x s) ((f x).after s)) (xs : List α) :
    ∀ s, Log s (deedsEach f deeds xs s) ((xs.forM f).after s) := by
  induction xs with
  | nil => intro s; exact .start
  | cons x rest ih =>
      intro s
      rw [deedsEach]
      cases hx : (f x).outcome s with
      | error failure =>
          rw [Step.after_forM_of_error hx, List.append_nil]
          exact h x s
      | ok u =>
          have hrun : (f x).run s = (.ok u, (f x).after s) := by rw [Step.run_eq, hx]
          have hafter : ((x :: rest).forM f).after s = (rest.forM f).after ((f x).after s) := by
            show ((f x >>= fun _ => rest.forM f).run s).2 = _
            rw [Step.run_bind_ok hrun]
            rfl
          rw [hafter]
          exact (h x s).append (ih _)

/-- The deeds of an action: of one command, of the commands of a body, or none for an assignment. -/
theorem Action.deeds_log (action : Action) (s : Session) :
    Log s (action.deeds s) ((act action).after s) := by
  cases action with
  | perform tree => exact commandDeeds_log tree s
  | assign text => exact Log.start.passing (assignText_passing text s)
  | guarded condition =>
      have hbody := deedsEach_log commandDeeds_log condition.body s
      rw [Action.deeds, act, Step.after, run_underCondition]
      rw [Step.after] at hbody
      cases hrun : (condition.body.forM command).run s with
      | mk r t =>
          rw [hrun] at hbody
          cases r with
          | error f => exact hbody
          | ok u =>
              cases condition.verdict with
              | none => exact hbody
              | some verdict =>
                  exact Log.start.guarded hbody verdict

/-- The deeds of a tree are those of its actions, one after the other. -/
theorem treeDeeds_log (tree : Node) (s : Session) :
    Log s (treeDeeds tree s) ((visit tree).after s) := by
  have hactions := deedsEach_log Action.deeds_log (plan tree).actions s
  rw [visit_eq_carryOut, carryOut, Step.after, Step.run_bind]
  rw [Step.after] at hactions
  cases hrun : ((plan tree).actions.forM act).run s with
  | mk r t =>
      rw [hrun] at hactions
      cases r with
      | error f => exact hactions
      | ok u =>
          show Log s (treeDeeds tree s) ((ofExcept (plan tree).outcome : Step Unit).run t).2
          rw [Step.run_ofExcept]
          exact hactions

/-- **A run goes the way of its deeds.** -/
theorem runDeeds_log (trees : List Node) :
    ∀ s : Session, Log s (runDeeds trees s) (s.goThrough trees) := by
  induction trees with
  | nil => intro s; exact .start
  | cons tree rest ih =>
      intro s
      exact (treeDeeds_log tree s).append (ih _)

end Session

end Playscript
