import Playscript.Proofs.Commands

/-! # The plan of a tree

    What a walk through a tree asks for depends on the tree alone.  Asked in a monad that
    only writes down, it gives the plan of the tree: the actions in their order, and how the
    walk ended.  Going through a tree is carrying out its plan (`visit_eq_carryOut`), so
    whatever every action does, every visit does, and no proof about visits walks through a
    tree again. -/

namespace Playscript

open Shell (Node)

variable {α β : Type}

/-- Actions in their order, and how the making of the plan ended. -/
structure Plan (α : Type) where
  actions : List Session.Action
  outcome : Except Failure α

namespace Plan

instance : Monad Plan where
  pure a := ⟨[], .ok a⟩
  bind p k :=
    match p.outcome with
    | .ok a => ⟨p.actions ++ (k a).actions, (k a).outcome⟩
    | .error f => ⟨p.actions, .error f⟩

instance : MonadExceptOf Failure Plan where
  throw f := ⟨[], .error f⟩
  tryCatch p handle :=
    match p.outcome with
    | .ok _ => p
    | .error f => ⟨p.actions ++ (handle f).actions, (handle f).outcome⟩

/-- The plan to take one action. -/
def ask (action : Session.Action) : Plan Unit :=
  ⟨[action], .ok ()⟩

/-- What follows a plan that comes to its end is planned behind it. -/
theorem bind_ok {p : Plan α} {a : α} (h : p.outcome = .ok a) (k : α → Plan β) :
    (p >>= k) = ⟨p.actions ++ (k a).actions, (k a).outcome⟩ := by
  show (match p.outcome with
    | .ok a => (⟨p.actions ++ (k a).actions, (k a).outcome⟩ : Plan β)
    | .error f => ⟨p.actions, .error f⟩) = _
  rw [h]

/-- Nothing is planned behind an end that fails. -/
theorem bind_error {p : Plan α} {f : Failure} (h : p.outcome = .error f) (k : α → Plan β) :
    (p >>= k) = ⟨p.actions, .error f⟩ := by
  show (match p.outcome with
    | .ok a => (⟨p.actions ++ (k a).actions, (k a).outcome⟩ : Plan β)
    | .error f => ⟨p.actions, .error f⟩) = _
  rw [h]

/-- If two plans that follow one another come to their end, each of them does. -/
theorem bind_outcome_ok {p : Plan α} {k : α → Plan β} {b : β}
    (h : (p >>= k).outcome = .ok b) : ∃ a, p.outcome = .ok a ∧ (k a).outcome = .ok b ∧
      (p >>= k).actions = p.actions ++ (k a).actions := by
  cases hp : p.outcome with
  | error f =>
      rw [bind_error hp] at h
      exact nomatch h
  | ok a =>
      rw [bind_ok hp] at h
      exact ⟨a, rfl, h, by rw [bind_ok hp]⟩

/-- Plans that all come to their end take their actions one after the other. -/
theorem forM_of_ok {f : β → Plan Unit} (xs : List β) (h : ∀ x ∈ xs, (f x).outcome = .ok ()) :
    xs.forM f = ⟨xs.flatMap fun x => (f x).actions, .ok ()⟩ := by
  induction xs with
  | nil => rfl
  | cons x rest ih =>
      show (f x >>= fun _ => rest.forM f) = _
      rw [bind_ok (h x List.mem_cons_self), ih fun y hy => h y (List.mem_cons_of_mem x hy)]
      rfl

theorem pure_def (a : α) : (pure a : Plan α) = ⟨[], .ok a⟩ := rfl

theorem bind_pure_eq (p : Plan α) : (p >>= fun a => pure a) = p := by
  cases h : p.outcome with
  | ok a => rw [bind_ok h, pure_def, List.append_nil, ← h]
  | error f => rw [bind_error h, ← h]

/-- Where a plan is cut in two does not matter. -/
theorem bind_bind_eq {γ : Type} (p : Plan α) (k : α → Plan β) (k' : β → Plan γ) :
    (p >>= k >>= k') = p >>= fun a => k a >>= k' := by
  cases h : p.outcome with
  | error f => rw [bind_error h, bind_error h, bind_error rfl]
  | ok a =>
      rw [bind_ok h, bind_ok h]
      cases hk : (k a).outcome with
      | error f => rw [bind_error rfl, bind_error hk]
      | ok b => rw [bind_ok rfl, bind_ok hk, List.append_assoc]

instance : LawfulMonad Plan :=
  LawfulMonad.mk' Plan bind_pure_eq (fun _ k => bind_ok rfl k) bind_bind_eq

end Plan

namespace Session

/-- The plan of a tree. -/
def plan (tree : Node) : Plan Unit :=
  tree.walk (visitNode Plan.ask)

/-- Takes the actions of a plan one after the other, and ends as it does. -/
def carryOut (p : Plan α) : Step α := do
  p.actions.forM act
  ofExcept p.outcome

theorem carryOut_pure (a : α) : carryOut (pure a) = pure a := rfl

theorem carryOut_throw (f : Failure) : carryOut (throw f : Plan α) = throw f := rfl

theorem carryOut_ofExcept (r : Except Failure α) : carryOut (ofExcept r) = ofExcept r := by
  cases r with
  | ok a => rfl
  | error f => rfl

theorem carryOut_ask (action : Action) : carryOut (Plan.ask action) = act action := by
  show (do [action].forM act; pure ()) = act action
  simp

/-- Plans that follow one another are carried out one after the other. -/
theorem carryOut_bind (p : Plan α) (k : α → Plan β) :
    carryOut (p >>= k) = carryOut p >>= fun a => carryOut (k a) := by
  cases h : p.outcome with
  | ok a =>
      rw [Plan.bind_ok h]
      simp only [carryOut, h, List.forM_eq_forM, List.forM_append, bind_assoc]
      rfl
  | error f =>
      rw [Plan.bind_error h]
      simp only [carryOut, h, bind_assoc]
      rfl

/-- Plans one after the other are carried out one after the other. -/
theorem carryOut_forM (xs : List β) (f : β → Plan Unit) :
    carryOut (xs.forM f) = xs.forM fun x => carryOut (f x) := by
  induction xs with
  | nil => rfl
  | cons x rest ih =>
      show carryOut (f x >>= fun _ => rest.forM f) = _
      rw [carryOut_bind, ih]
      rfl

/-- The body of a loop that is replayed as a plan is carried out as it is replayed. -/
theorem carryOut_replay (l : Loop) :
    carryOut (Loop.replay (fun _ _ tree => Plan.ask (.perform tree)) l)
      = Loop.replay (fun _ _ tree => act (.perform tree)) l := by
  unfold Loop.replay
  rw [carryOut_forM]
  congr 1
  funext word
  rw [carryOut_forM]
  simp only [carryOut_ask]

/-- A loop that is read as a plan is carried out as it is run. -/
theorem carryOut_loopRun (tree : Node) :
    carryOut (Loop.run (fun _ _ tree => Plan.ask (.perform tree)) tree)
      = Loop.run (fun _ _ tree => act (.perform tree)) tree := by
  -- at `done` the loop is replayed; everywhere else both readings change the loop alone
  have h : Node.Lockstep (m := StateT Loop Plan) (n := StateT Loop Step)
      (fun x y => ∀ l, carryOut (x.run l) = y.run l)
      (Loop.visit fun _ _ tree => Plan.ask (.perform tree))
      (Loop.visit fun _ _ tree => act (.perform tree)) :=
    { nothing := fun l => carryOut_pure ((), l)
      seq := by
        intro x y x' y' hx hy l
        rw [StateT.run_bind, StateT.run_bind, carryOut_bind, hx l]
        congr 1
        funext p
        exact hy p.2
      fail := fun f l => rfl
      node := by
        intro node below below' hb l
        cases node with
        | reserved text =>
            by_cases hd : text = "done"
            · subst hd
              show carryOut (Loop.replay _ { l with keyword := some "done" } >>= fun a =>
                pure (a, { l with keyword := some "done" })) = _
              rw [carryOut_bind, carryOut_replay]
              rfl
            · simp only [Loop.visit, hd, if_false]
              rfl
        | command parts => rfl
        | word text parts => exact hb (l.takeWord text)
        | list | pipeline | compound | branch | forLoop | whileLoop | untilLoop | function
        | assignment | redirect | channel | commandSubstitution | processSubstitution | operator
        | pipe | parameter | tilde | heredoc | unknown | incomplete => exact hb l }
  rw [Loop.run, Loop.run, carryOut_bind, h.walk tree {}]
  rfl

/-- **Going through a tree is carrying out its plan.** -/
theorem visit_eq_carryOut (tree : Node) : visit tree = carryOut (plan tree) := by
  have h : Node.Lockstep (fun x y => carryOut x = y) (visitNode Plan.ask) (visitNode act) :=
    { nothing := carryOut_pure ()
      seq := by
        intro x y x' y' hx hy
        rw [carryOut_bind, hx, hy]
      fail := carryOut_throw
      node := by
        intro node below below' hb
        cases node with
        | command parts => exact carryOut_ask _
        | branch parts =>
            show carryOut (ofExcept _ >>= fun c => Plan.ask (.guarded c)) = _
            rw [carryOut_bind, carryOut_ofExcept]
            simp only [carryOut_ask]
            rfl
        | assignment text parts => exact carryOut_ask _
        | forLoop parts =>
            show carryOut (Loop.run _ _ >>= fun _ => below) = _
            rw [carryOut_bind, carryOut_loopRun, hb]
            rfl
        | list | pipeline | compound | whileLoop | untilLoop | function | word | redirect
        | channel | commandSubstitution | processSubstitution | reserved | operator | pipe
        | parameter | tilde | heredoc | unknown | incomplete => exact hb }
  exact (h.walk tree).symm

/-! ## What every visit respects -/

/-- What every action respects, every visit respects. -/
theorem visit_respects {R : Session → Session → Prop} (refl : ∀ s, R s s)
    (trans : ∀ ⦃s t u⦄, R s t → R t u → R s u)
    (h : ∀ action s, R s ((act action).after s)) (tree : Node) (s : Session) :
    R s ((visit tree).after s) := by
  rw [visit_eq_carryOut]
  refine Step.respects_bind trans (Step.respects_forM refl trans h _ s) fun _ t => ?_
  rw [Step.after, Step.run_ofExcept]
  exact refl t

/-- The body of an `if` is done first; if that went well, its condition goes on all tasks that
    are new. -/
theorem run_underCondition (c : Condition) (s : Session) :
    (underCondition c).run s = match (c.body.forM command).run s with
      | (.error f, t) => (.error f, t)
      | (.ok _, t) => (.ok (), match c.verdict with
        | some verdict =>
          { t with tasks := guardFrom s.tasks.length (guardText s.lastRegister verdict) t.tasks }
        | none => t) := by
  rw [underCondition, Step.run_get_bind, Step.run_bind]
  cases h : (c.body.forM command).run s with
  | mk r t =>
      cases r with
      | error f => rfl
      | ok u =>
          cases c.verdict with
          | some verdict => rfl
          | none => rfl

theorem reaches_trans ⦃s t u : Session⦄ (h : Reaches s t) (h' : Reaches t u) : Reaches s u :=
  h.trans h'

theorem command_reaches (tree : Node) (s : Session) : Reaches s ((command tree).after s) := by
  obtain ⟨added, -, h⟩ := command_uniform tree
  exact h.reaches s

/-- Every action gets on by changes. -/
theorem act_reaches (action : Action) (s : Session) : Reaches s ((act action).after s) := by
  cases action with
  | perform tree => exact command_reaches tree s
  | assign text => exact (assignText_uniform text).reaches s
  | guarded c =>
      have hbody : Reaches s ((c.body.forM command).after s) :=
        Step.respects_forM (fun _ => .refl) reaches_trans command_reaches _ s
      rw [Step.after] at hbody
      rw [act, Step.after, run_underCondition]
      cases h : (c.body.forM command).run s with
      | mk r t =>
          rw [h] at hbody
          cases r with
          | error f => exact hbody
          | ok u =>
              cases c.verdict with
              | some verdict => exact hbody.tail (.guarded t _ _)
              | none => exact hbody

/-- **Every visit gets on by changes**, also one that fails. -/
theorem visit_reaches (tree : Node) (s : Session) : Reaches s ((visit tree).after s) :=
  visit_respects (fun _ => .refl) reaches_trans act_reaches tree s

/-- So does going through one tree after the other. -/
theorem visitAll_reaches (trees : List Node) (s : Session) :
    Reaches s ((trees.forM visit).after s) :=
  Step.respects_forM (fun _ => .refl) reaches_trans visit_reaches trees s

/-- A whole script gets on by changes. -/
theorem runScript_reaches (script : String) (s : Session) :
    Reaches s ((runScript script).after s) := by
  refine Step.respects_bind reaches_trans ?_ visitAll_reaches
  cases Shell.readScript script with
  | ok trees => exact .refl
  | error f => exact .refl

theorem ofScript_reaches (settings : Settings) (script : String) :
    Reaches (start settings) (ofScript settings script).2 :=
  runScript_reaches (settings.preamble ++ script) (start settings)

end Session

end Playscript
