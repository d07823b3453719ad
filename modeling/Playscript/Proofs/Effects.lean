import Playscript.Proofs.LastRegister
import Playscript.Proofs.PlainCommands
import Playscript.Proofs.Writes

/-! # What a run does to its scope

    References are written out against the variables of a session, and modes against its mask:
    its scope.  A run changes the scope by assignments, exports and masks alone.  Which ones
    it makes hangs on the trees and not on the session, since every step of a run ends the same
    way everywhere; so the effects of a run are a list that is read off its trees
    (`runEffects`), and the scope behind the run is the one before with these effects done one
    after the other (`goThrough_scope`). -/

namespace Playscript

open Shell (Node)

/-- What references and modes are written out against. -/
structure Scope where
  vars : Variables := {}
  umask : Value := .text "022"

/-- The scope of a session: its variables and its mask. -/
def Session.scope (s : Session) : Scope :=
  ⟨s.vars, s.umask⟩

/-- One thing that is done to a scope. -/
inductive Effect where
  | write (w : Write)
  | mask (text : String)
deriving DecidableEq, Repr, Inhabited

namespace Effect

/-- The text as it is written in a script. -/
def text : Effect → String
  | .write w => w.text
  | .mask text => text

/-- A variable is written, or a mask is set to its text as it is written out at this time. -/
def apply (scope : Scope) : Effect → Scope
  | .write w => { scope with vars := w.apply scope.vars }
  | .mask text => { scope with umask := .text (scope.vars.interpret .plain text) }

end Effect

/-- A scope with effects done one after the other. -/
def Scope.applyAll (scope : Scope) (es : List Effect) : Scope :=
  es.foldl Effect.apply scope

/-- Effects in two rows, one after the other. -/
theorem Scope.applyAll_append (scope : Scope) (es es' : List Effect) :
    scope.applyAll (es ++ es') = (scope.applyAll es).applyAll es' :=
  List.foldl_append

/-! ## Steps and their effects -/

namespace Step

variable {α β : Type}

/-- A step that ends the same way everywhere and does some effects to the scope. -/
structure Does (x : Step α) (es : List Effect) : Prop where
  alike : ∀ s t, x.outcome s = x.outcome t
  scope : ∀ s, (x.after s).scope = s.scope.applyAll es

namespace Does

theorem pure (a : α) : Does (Pure.pure a) [] where
  alike _ _ := rfl
  scope _ := rfl

theorem throw (f : Failure) : Does (MonadExcept.throw f : Step α) [] where
  alike _ _ := rfl
  scope _ := rfl

theorem modify {g : Session → Session} {es : List Effect}
    (h : ∀ s, (g s).scope = s.scope.applyAll es) : Does (modify g) es where
  alike _ _ := rfl
  scope := h

theorem ofExcept (r : Except Failure α) : Does (MonadExcept.ofExcept r) [] := by
  cases r with
  | ok a => exact .pure a
  | error f => exact .throw f

/-- Nothing follows a step that fails. -/
theorem bind_error {x : Step α} {es : List Effect} (hx : Does x es) {f : Failure}
    (h : x.outcome {} = .error f) (k : α → Step β) : Does (x >>= k) es := by
  have hrun : ∀ s, x.run s = (.error f, x.after s) := by
    intro s
    rw [run_eq, hx.alike s {}, h]
  refine ⟨fun s t => ?_, fun s => ?_⟩
  · rw [outcome, outcome, run_bind_error (hrun s), run_bind_error (hrun t)]
  · rw [after, run_bind_error (hrun s)]
    exact hx.scope s

/-- The effects of two steps follow one another. -/
theorem bind_ok {x : Step α} {es es' : List Effect} (hx : Does x es) {a : α}
    (h : x.outcome {} = .ok a) {k : α → Step β} (hk : Does (k a) es') :
    Does (x >>= k) (es ++ es') := by
  have hrun : ∀ s, x.run s = (.ok a, x.after s) := by
    intro s
    rw [run_eq, hx.alike s {}, h]
  refine ⟨fun s t => ?_, fun s => ?_⟩
  · rw [outcome, outcome, run_bind_ok (hrun s), run_bind_ok (hrun t)]
    exact hk.alike _ _
  · rw [after, run_bind_ok (hrun s), Scope.applyAll_append, ← hx.scope s]
    exact hk.scope _

end Does

/-- The effects of steps one after the other, up to the first that fails. -/
def effectsOf (f : α → Step Unit) (effects : α → List Effect) : List α → List Effect
  | [] => []
  | x :: rest =>
    effects x ++ match (f x).outcome {} with
      | .ok _ => effectsOf f effects rest
      | .error _ => []

/-- By induction on the list, up to the first step that fails. -/
theorem Does.forM {f : α → Step Unit} {effects : α → List Effect}
    (h : ∀ x, Does (f x) (effects x)) (xs : List α) :
    Does (xs.forM f) (effectsOf f effects xs) := by
  induction xs with
  | nil => exact .pure ()
  | cons x rest ih =>
      show Does (f x >>= fun _ => rest.forM f) _
      rw [effectsOf]
      cases hx : (f x).outcome {} with
      | ok u => exact (h x).bind_ok hx ih
      | error failure =>
          rw [List.append_nil]
          exact (h x).bind_error hx _

end Step

namespace Session

variable {α β : Type}

/-! ## Commands that leave the scope alone -/

/-- A step that leaves the scope alone. -/
def Steady (x : Step α) : Prop :=
  ∀ s, (x.after s).scope = s.scope

namespace Steady

theorem pure (a : α) : Steady (Pure.pure a) := fun _ => rfl

/-- Steps that leave the scope alone do so one after the other. -/
theorem bind {x : Step α} {k : α → Step β} (hx : Steady x) (hk : ∀ a, Steady (k a)) :
    Steady (x >>= k) := by
  intro s
  exact Step.respects_bind (R := fun s t => t.scope = s.scope)
    (fun _ _ _ h h' => h'.trans h) (hx s) hk

theorem get : Steady (MonadState.get : Step Session) := fun _ => rfl

theorem lift (r : Except Failure α) : Steady (liftM r : Step α) := by
  cases r with
  | ok a => exact fun _ => rfl
  | error f => exact fun _ => rfl

theorem interpret (mode : Expansion) (text : String) : Steady (interpret mode text) :=
  fun _ => rfl

theorem mode (directory : Bool) : Steady (mode directory) := fun _ => rfl

theorem say (line : String) : Steady (say line) := fun _ => rfl

theorem addTask (task : Task) : Steady (addTask task) := fun _ => rfl

theorem register (name : String) : Steady (register name) := fun _ => rfl

theorem addRegistered (recipe : Recipe) (name : String) : Steady (addRegistered recipe name) :=
  fun _ => rfl

/-- What one operand is written out for. -/
theorem ofOperand (inv : Invocation) (n : Nat) (mode : Expansion) {k : String → Step β}
    (hk : ∀ text, Steady (k text)) :
    Steady (do let word ← inv.operand n; let text ← Session.interpret mode word; k text) :=
  (lift _).bind fun _ => (interpret _ _).bind hk

end Steady

/-- With each of its subcommands, and without, a package manager adds tasks at most. -/
theorem packageCommand_steady (command manager : String) (inv : Invocation) :
    Steady (packageCommand command manager inv) := by
  unfold packageCommand
  split
  · exact .addRegistered _ _
  · exact .addRegistered _ _
  · exact .addRegistered _ _
  · exact .pure ()

/-- All three forms of an `echo` add a task. -/
theorem echoCommand_steady (inv : Invocation) : Steady (echoCommand inv) := by
  refine (Steady.lift _).bind fun text => ?_
  split
  · exact (Steady.interpret _ _).bind fun _ => .addRegistered _ _
  · exact (Steady.interpret _ _).bind fun _ => (Steady.interpret _ _).bind fun _ =>
      (Steady.mode _).bind fun _ => .addRegistered _ _
  · exact (Steady.interpret _ _).bind fun _ => .addTask _

/-- A remote copy adds a task, or says that it does not. -/
theorem remoteCopyCommand_steady (inv : Invocation) : Steady (remoteCopyCommand inv) := by
  refine (Steady.lift _).bind fun source => (Steady.lift _).bind fun target =>
    Steady.get.bind fun s => ?_
  split
  · exact .addRegistered _ _
  · exact .say _

/-- **Only `umask` and `export` change the scope.** -/
theorem perform_steady {verb : Verb} (hmask : verb ≠ .umask) (hexport : verb ≠ .exporting)
    (inv : Invocation) : Steady (perform verb inv) := by
  cases verb with
  | umask => exact absurd rfl hmask
  | exporting => exact absurd rfl hexport
  | mkdir | touch =>
      exact .ofOperand inv 0 _ fun _ => (Steady.mode _).bind fun _ => .addRegistered _ _
  | ln =>
      exact .ofOperand inv 0 _ fun _ => .ofOperand inv 1 _ fun _ => (Steady.mode _).bind fun _ =>
        .addRegistered _ _
  | cp | chmod => exact .ofOperand inv 0 _ fun _ => .ofOperand inv 1 _ fun _ => .addRegistered _ _
  | mv =>
      exact .ofOperand inv 0 _ fun _ => .ofOperand inv 1 _ fun _ =>
        (Steady.register _).bind fun _ => .addTask _
  | scp => exact remoteCopyCommand_steady inv
  | ldconfig => exact (Steady.register _).bind fun _ => .addTask _
  | gunzip => exact .ofOperand inv 0 _ fun _ => .addRegistered _ _
  | chown =>
      exact (Steady.lift _).bind fun _ => (Steady.lift _).bind fun _ => .ofOperand inv 1 _ fun _ =>
        .addRegistered _ _
  | apt => exact packageCommand_steady "apt" "apt" inv
  | aptGet => exact packageCommand_steady "apt-get" "apt" inv
  | yum => exact packageCommand_steady "yum" "yum" inv
  | echo => exact echoCommand_steady inv
  | ssh => exact .pure ()

/-! ## Effects of a command node -/

/-- The effects of an assignment. -/
def assignEffects (text : String) : List Effect :=
  match splitAssignment text with
  | some (name, value) => [.write (.assign name value)]
  | none => []

/-- A text without an equals sign assigns nothing, and else the variable is written. -/
theorem assignText_does (text : String) : (assignText text).Does (assignEffects text) := by
  unfold assignText assignEffects
  cases splitAssignment text with
  | none => exact .pure ()
  | some pair => exact .modify fun _ => rfl

/-- What gathering asks for at a node: the assignments on its way, and an end where a target
    has no text. -/
def assignmentsAt : Node → Plan Unit → Plan Unit
  | .assignment text _, _ => Plan.ask (.assign text)
  | .redirect _ sign target, below =>
    if Invocation.redirectsData sign && target.text?.isNone then throw .missingPart else below
  | .parameter _, _ => pure ()
  | _, below => below

/-- The assignments that gathering a tree makes, and whether it comes to its end. -/
def assignments (tree : Node) : Plan Unit :=
  tree.walk assignmentsAt

/-- The effects of the assignments among some actions. -/
def assigned (actions : List Action) : List Effect :=
  actions.flatMap fun
    | .assign text => assignEffects text
    | _ => []

/-- A gathering makes the assignments of a plan and ends as it does. -/
def Assigns (x : Gathering Unit) (p : Plan Unit) : Prop :=
  ∀ inv, (x.run inv).Does (assigned p.actions) ∧
    ∀ s, ((x.run inv).outcome s).map (fun _ => ()) = p.outcome

namespace Assigns

theorem nothing : Assigns (Pure.pure ()) (Pure.pure ()) :=
  fun inv => ⟨.pure ((), inv), fun _ => rfl⟩

theorem fail (f : Failure) : Assigns (MonadExcept.throw f) (MonadExcept.throw f) := by
  intro inv
  have h : (MonadExcept.throw f : Gathering Unit).run inv = MonadExcept.throw f :=
    Step.ext_run fun _ => rfl
  rw [h]
  exact ⟨.throw f, fun _ => rfl⟩

/-- Taking note in the invocation assigns nothing. -/
theorem modify (g : Invocation → Invocation) : Assigns (modify g) (Pure.pure ()) :=
  fun inv => ⟨.pure ((), g inv), fun _ => rfl⟩

/-- A step that ends well makes its own effects. -/
theorem lift {x : Step Unit} {actions : List Action} (hx : x.Does (assigned actions))
    (hok : ∀ s, x.outcome s = .ok ()) : Assigns (StateT.lift x) ⟨actions, .ok ()⟩ := by
  intro inv
  have hboth : ((StateT.lift x : Gathering Unit).run inv).Does (assigned actions ++ []) :=
    hx.bind_ok (hok {}) (k := fun _ => Pure.pure ((), inv)) (.pure _)
  rw [List.append_nil] at hboth
  refine ⟨hboth, fun s => ?_⟩
  have hrun : x.run s = (.ok (), x.after s) := by rw [Step.run_eq, hok]
  show (((x >>= fun _ => Pure.pure ((), inv)) : Step _).outcome s).map _ = _
  rw [Step.outcome, Step.run_bind_ok hrun]
  rfl

/-- One gathering after the other.  The second one starts with an invocation of which nothing is
    known, so what both assign is said for every one. -/
theorem seq {x y : Gathering Unit} {p q : Plan Unit} (hx : Assigns x p) (hy : Assigns y q) :
    Assigns (x >>= fun _ => y) (p >>= fun _ => q) := by
  intro inv
  rw [StateT.run_bind]
  obtain ⟨hdoes, hend⟩ := hx inv
  cases hout : (x.run inv).outcome {} with
  | error f =>
      have hp : p.outcome = .error f := by rw [← hend {}, hout]; rfl
      rw [Plan.bind_error hp]
      refine ⟨hdoes.bind_error hout _, fun s => ?_⟩
      have hrun : (x.run inv).run s = (.error f, (x.run inv).after s) := by
        rw [Step.run_eq, hdoes.alike s {}, hout]
      rw [Step.outcome, Step.run_bind_error hrun]
      rfl
  | ok pair =>
      have hp : p.outcome = .ok () := by rw [← hend {}, hout]; rfl
      obtain ⟨hdoes', hend'⟩ := hy pair.2
      rw [Plan.bind_ok hp]
      refine ⟨?_, fun s => ?_⟩
      · have hsum : assigned (p.actions ++ q.actions)
            = assigned p.actions ++ assigned q.actions := List.flatMap_append
        rw [hsum]
        exact hdoes.bind_ok hout hdoes'
      · have hrun : (x.run inv).run s = (.ok pair, (x.run inv).after s) := by
          rw [Step.run_eq, hdoes.alike s {}, hout]
        rw [Step.outcome, Step.run_bind_ok hrun]
        exact hend' _

end Assigns

/-- At the end of a command its words are sorted, or it is told that the command is not known;
    neither assigns anything. -/
theorem close_assigns : Assigns Invocation.close (Pure.pure ()) := by
  intro inv
  rw [Invocation.run_close]
  have htell : (tellUnknown inv).Does [] := by
    unfold tellUnknown
    split
    · exact .modify fun _ => rfl
    · exact .pure ()
  have hok := tellUnknown_outcome inv
  refine ⟨htell.bind_ok (hok {}) (.pure _), fun s => ?_⟩
  have hrun : (tellUnknown inv).run s = (.ok (), (tellUnknown inv).after s) := by
    rw [Step.run_eq, hok]
  rw [Step.outcome, Step.run_bind_ok hrun]
  rfl

/-- At every node, gathering makes the assignments that stand there. -/
theorem visit_assigns (node : Node) {below : Gathering Unit} {p : Plan Unit}
    (h : Assigns below p) : Assigns (Invocation.visit node below) (assignmentsAt node p) := by
  cases node with
  | word text parts => exact (Assigns.modify _).seq h
  | command parts =>
      have hboth := h.seq close_assigns
      rw [Plan.bind_pure_eq] at hboth
      exact hboth
  | redirect source sign target =>
      show Assigns (Invocation.takeRedirect sign target >>= fun _ => below) (if _ then _ else _)
      unfold Invocation.takeRedirect
      by_cases hdata : Invocation.redirectsData sign = true
      · cases htext : target.text? with
        | none =>
            have hfail : Assigns (MonadExcept.throw .missingPart >>= fun _ => below)
                (MonadExcept.throw .missingPart) := (Assigns.fail .missingPart).seq h
            simpa [hdata, htext] using hfail
        | some text => simpa [hdata, htext] using (Assigns.modify _).seq h
      · simpa [hdata] using Assigns.nothing.seq h
  | assignment text parts =>
      show Assigns (if (splitAssignment text).isSome then _ else _) (Plan.ask (.assign text))
      have hone : assigned [.assign text] = assignEffects text := List.append_nil _
      split
      · have htext := Assigns.lift (hone ▸ assignText_does text) (assignText_outcome text)
        exact htext.seq (Assigns.modify _)
      · next hnone =>
          have hnothing : assignEffects text = [] := by
            rw [Option.not_isSome_iff_eq_none] at hnone
            rw [assignEffects, hnone]
          intro inv
          refine ⟨?_, fun _ => rfl⟩
          show Step.Does _ (assigned [.assign text])
          rw [hone, hnothing]
          exact .pure _
  | parameter name => exact Assigns.modify _
  | list | pipeline | compound | branch | forLoop | whileLoop | untilLoop | function
  | channel | commandSubstitution | processSubstitution | reserved | operator | pipe | tilde
  | heredoc | unknown | incomplete => exact h

/-- **Gathering the words of a tree makes the assignments of the tree.** -/
theorem gather_does (tree : Node) :
    (Invocation.gather tree).Does (assigned (assignments tree).actions) := by
  have h : Node.Lockstep Assigns Invocation.visit assignmentsAt :=
    { nothing := Assigns.nothing
      seq := Assigns.seq
      fail := Assigns.fail
      node := fun node _ _ h => visit_assigns node h }
  obtain ⟨hdoes, -⟩ := h.walk tree {}
  cases hout : ((tree.walk Invocation.visit).run {}).outcome {} with
  | error f => exact hdoes.bind_error hout _
  | ok pair =>
      have hboth := hdoes.bind_ok hout (k := fun pair => Pure.pure pair.2) (.pure _)
      rw [List.append_nil] at hboth
      exact hboth

/-- The effects of what an invocation says. -/
def invocationEffects (inv : Invocation) : List Effect :=
  match inv.verb?, inv.operand 0 with
  | some .umask, .ok text => [.mask text]
  | some .exporting, .ok word =>
    match splitAssignment word with
    | some (name, text) => [.write (.exportAs name text)]
    | none => []
  | _, _ => []

/-- `umask` sets the mask to its first operand; without one it fails and sets nothing. -/
theorem umaskCommand_does {inv : Invocation} (h : inv.verb? = some .umask) :
    (umaskCommand inv).Does (invocationEffects inv) := by
  rw [invocationEffects, h]
  cases hoperand : inv.operand 0 with
  | error f =>
      have hrun : umaskCommand inv = MonadExcept.throw f :=
        Step.ext_run fun s => by simp [umaskCommand, hoperand]
      rw [hrun]
      exact .throw f
  | ok text =>
      have hrun : umaskCommand inv
          = modify fun s => { s with umask := .text (s.vars.interpret .plain text) } :=
        Step.ext_run fun s => by simp [umaskCommand, hoperand]
      rw [hrun]
      exact .modify fun _ => rfl

/-- `export` writes the variable that its first operand assigns. -/
theorem exportCommand_does {inv : Invocation} (h : inv.verb? = some .exporting) :
    (exportCommand inv).Does (invocationEffects inv) := by
  unfold exportCommand invocationEffects
  rw [h]
  cases inv.operand 0 with
  | error f => exact .throw f
  | ok word =>
      have hlift : (liftM (Except.ok word : Except Failure String) : Step String).Does [] :=
        .pure word
      refine hlift.bind_ok rfl ?_
      cases splitAssignment word with
      | none => exact .pure ()
      | some pair => exact .modify fun _ => rfl

/-- A known command has the effects that its invocation says. -/
theorem perform_does {inv : Invocation} {verb : Verb} (h : inv.verb? = some verb) :
    (perform verb inv).Does (invocationEffects inv) := by
  by_cases hmask : verb = .umask
  · subst hmask
    exact umaskCommand_does h
  · by_cases hexport : verb = .exporting
    · subst hexport
      exact exportCommand_does h
    · obtain ⟨added, -, huniform⟩ := (perform_atomic verb inv).uniform
      have hnone : invocationEffects inv = [] := by
        unfold invocationEffects
        rw [h]
        split
        · next heq _ => exact absurd (Option.some.inj heq) hmask
        · next heq _ => exact absurd (Option.some.inj heq) hexport
        · rfl
      rw [hnone]
      exact ⟨huniform.outcome_eq, perform_steady hmask hexport inv⟩

/-- The effects of a command node: of the assignments in it, and of what it says. -/
def commandEffects (tree : Node) : List Effect :=
  assigned (assignments tree).actions ++ match (Invocation.gather tree).outcome {} with
    | .ok inv => invocationEffects inv
    | .error _ => []

/-- A command first makes its assignments and then does what it says, if it is known. -/
theorem command_does (tree : Node) : (command tree).Does (commandEffects tree) := by
  have hgather := gather_does tree
  unfold commandEffects
  cases hout : (Invocation.gather tree).outcome {} with
  | error f =>
      rw [List.append_nil]
      exact hgather.bind_error hout _
  | ok inv =>
      refine hgather.bind_ok hout ?_
      cases hverb : inv.verb? with
      | some verb => exact perform_does hverb
      | none =>
          show Step.Does (Pure.pure ()) (invocationEffects inv)
          rw [invocationEffects, hverb]
          exact .pure ()

/-! ## Effects of a run -/

/-- The effects of an action. -/
def Action.effects : Action → List Effect
  | .perform tree => commandEffects tree
  | .guarded condition => Step.effectsOf command commandEffects condition.body
  | .assign text => assignEffects text

/-- A condition is put on tasks and leaves the scope alone. -/
theorem underCondition_does (condition : Condition) :
    (underCondition condition).Does (Step.effectsOf command commandEffects condition.body) := by
  have hbody := Step.Does.forM command_does condition.body
  have hrun := run_underCondition condition
  refine ⟨fun s t => ?_, fun s => ?_⟩
  · have halike := hbody.alike s t
    rw [Step.outcome, Step.outcome] at halike ⊢
    rw [hrun, hrun]
    cases hs : (condition.body.forM command).run s with
    | mk r s' =>
        cases ht : (condition.body.forM command).run t with
        | mk r' t' =>
            rw [hs, ht] at halike
            cases halike
            cases r with
            | ok u => rfl
            | error f => rfl
  · have hscope := hbody.scope s
    rw [Step.after] at hscope ⊢
    rw [hrun]
    cases hs : (condition.body.forM command).run s with
    | mk r t =>
        rw [hs] at hscope
        cases r with
        | error f => exact hscope
        | ok u =>
            cases condition.verdict with
            | none => exact hscope
            | some verdict => exact hscope

/-- An action performs a command, does the body of an `if`, or assigns. -/
theorem act_does (action : Action) : (act action).Does action.effects := by
  cases action with
  | perform tree => exact command_does tree
  | guarded condition => exact underCondition_does condition
  | assign text => exact assignText_does text

/-- The effects of going through a tree. -/
def treeEffects (tree : Node) : List Effect :=
  Step.effectsOf act Action.effects (plan tree).actions

/-- A tree is a plan of actions, done one after the other. -/
theorem visit_does (tree : Node) : (visit tree).Does (treeEffects tree) := by
  have hactions := Step.Does.forM act_does (plan tree).actions
  rw [visit_eq_carryOut, carryOut, treeEffects]
  cases hout : ((plan tree).actions.forM act).outcome {} with
  | error f => exact hactions.bind_error hout _
  | ok u =>
      have hboth := hactions.bind_ok hout (k := fun _ => ofExcept (plan tree).outcome)
        (.ofExcept _)
      rw [List.append_nil] at hboth
      exact hboth

/-- The effects of going through trees one after the other, also past those that fail. -/
def runEffects (trees : List Node) : List Effect :=
  trees.flatMap treeEffects

/-- **A run does its effects to the scope and nothing else.** -/
theorem goThrough_scope (trees : List Node) :
    ∀ s : Session, (s.goThrough trees).scope = s.scope.applyAll (runEffects trees) := by
  induction trees with
  | nil => intro s; rfl
  | cons tree rest ih =>
      intro s
      have hrest := ih ((visit tree).after s)
      rw [(visit_does tree).scope s, ← Scope.applyAll_append] at hrest
      exact hrest

end Session

end Playscript
