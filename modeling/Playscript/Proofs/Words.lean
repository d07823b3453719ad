import Playscript.Proofs.ControlFlow.Reading
import Playscript.Proofs.Effects
import Playscript.Proofs.Refusals

/-! # Where the texts of a run come from

    All that a run writes down about variables and masks stands in a word or in an assignment of
    its trees.  The trees are walked in four ways — words are gathered, a condition and a
    loop are read, and the plan is made — and each of these walks hands on only what it has seen
    (`Shell.Node.Carries`).  So what is true of all words of the trees is true of the texts of all
    effects (`runEffects_of_texts`). -/

namespace Playscript

open Shell (Node)

namespace Shell.Node

mutual

/-- The texts of the words and assignments in a tree. -/
def texts : Node → List String
  | .command parts | .list parts | .pipeline parts | .branch parts | .forLoop parts
  | .whileLoop parts | .untilLoop parts | .function parts => textsAll parts
  | .compound body redirects => textsAll body ++ textsAll redirects
  | .word text parts | .assignment text parts => text :: textsAll parts
  | .redirect _ _ target => texts target
  | .commandSubstitution body | .processSubstitution body => texts body
  | .channel _ | .reserved _ | .operator _ | .pipe _ | .parameter _ | .tilde _ | .heredoc _
  | .unknown _ | .incomplete => []

/-- The texts of the words and assignments in trees. -/
def textsAll : List Node → List String
  | [] => []
  | node :: rest => texts node ++ textsAll rest

end

/-- Something is true of every word and every assignment in a tree. -/
def Every (P : String → Prop) (tree : Node) : Prop :=
  ∀ text ∈ tree.texts, P text

instance (P : String → Prop) [DecidablePred P] (tree : Node) : Decidable (tree.Every P) :=
  inferInstanceAs (Decidable (∀ text ∈ tree.texts, P text))

variable {P : String → Prop} {m : Type → Type} [Monad m] [MonadExceptOf Failure m]

/-- A property of computations that a visitor keeps at every node whose words are good. -/
structure Carries (P : String → Prop) (M : m Unit → Prop) (visit : Node → m Unit → m Unit) :
    Prop where
  nothing : M (pure ())
  seq : ∀ {x y : m Unit}, M x → M y → M (x >>= fun _ => y)
  fail : ∀ failure : Failure, M (throw failure)
  node : ∀ (node : Node) {below : m Unit}, node.Every P → M below → M (visit node below)

namespace Carries

variable {M : m Unit → Prop} {visit : Node → m Unit → m Unit}

mutual

/-- What a visitor keeps holds of the walk through every tree whose words are good. -/
theorem walk (h : Carries P M visit) : ∀ tree : Node, tree.Every P → M (tree.walk visit)
  | .command parts, good | .list parts, good | .pipeline parts, good | .branch parts, good
  | .forLoop parts, good | .whileLoop parts, good | .untilLoop parts, good
  | .function parts, good => by
      rw [Node.walk]
      exact h.node _ good (h.walkAll parts good)
  | .word _ parts, good | .assignment _ parts, good => by
      rw [Node.walk]
      exact h.node _ good (h.walkAll parts fun text ht => good text (List.mem_cons_of_mem _ ht))
  | .compound body redirects, good => by
      rw [Node.walk]
      refine h.node _ good (h.seq (h.walkAll body fun text ht => good text ?_)
        (h.walkAll redirects fun text ht => good text ?_))
      · exact List.mem_append_left _ ht
      · exact List.mem_append_right _ ht
  | .redirect _ _ target, good => by
      rw [Node.walk]
      exact h.node _ good (h.walk target good)
  | .channel _, _ => by
      rw [Node.walk]
      exact h.nothing
  | .commandSubstitution body, good | .processSubstitution body, good => by
      rw [Node.walk]
      exact h.node _ good (h.walk body good)
  | .reserved _, good | .operator _, good | .pipe _, good | .parameter _, good
  | .tilde _, good | .heredoc _, good => by
      rw [Node.walk]
      exact h.node _ good h.nothing
  | .unknown _, _ | .incomplete, _ => by
      rw [Node.walk]
      exact h.fail _

theorem walkAll (h : Carries P M visit) :
    ∀ trees : List Node, (∀ text ∈ textsAll trees, P text) → M (Node.walkAll visit trees)
  | [], _ => by
      rw [Node.walkAll]
      exact h.nothing
  | tree :: rest, good => by
      rw [Node.walkAll]
      refine h.seq (h.walk tree fun text ht => good text ?_)
        (h.walkAll rest fun text ht => good text ?_)
      · exact List.mem_append_left _ ht
      · exact List.mem_append_right _ ht

end

end Carries

end Shell.Node

/-! ## Operands -/

namespace Row

/-- A word that is placed becomes an operand or none. -/
theorem operands_place_subset (row : Row) (s : Sorted) (word : String) :
    (row.place s word).operands ⊆ s.operands ++ [word] := by
  unfold place
  split
  · exact List.subset_append_left _ _
  · split
    · exact List.subset_append_left _ _
    · split
      · exact List.subset_append_left _ _
      · exact List.Subset.refl _

/-- By induction on the words: no operand comes from elsewhere. -/
theorem operands_placeAll_subset (row : Row) (words : List String) :
    ∀ s : Sorted, (row.placeAll s words).operands ⊆ s.operands ++ words := by
  induction words with
  | nil => intro s; exact List.subset_append_left _ _
  | cons word rest ih =>
      intro s operand hoperand
      rcases List.mem_append.mp (ih (row.place s word) hoperand) with hplaced | hrest
      · have hword := row.operands_place_subset s word hplaced
        rw [← List.singleton_append, ← List.append_assoc]
        exact List.mem_append_left _ hword
      · exact List.mem_append_right _ (List.mem_cons_of_mem _ hrest)

/-- The operands of a command are among its words. -/
theorem operands_sort_subset (row : Row) (words : List String) :
    (row.sort words).operands ⊆ words := by
  intro operand hoperand
  have hplaced := row.operands_placeAll_subset _ {} hoperand
  rw [List.nil_append] at hplaced
  split at hplaced
  · exact List.mem_of_mem_drop hplaced
  · exact hplaced

end Row

namespace Session

variable {P : String → Prop}

/-! ## The walks -/

/-- An invocation of good words. -/
structure Worded (P : String → Prop) (inv : Invocation) : Prop where
  words : ∀ word ∈ inv.words, P word
  operands : ∀ word ∈ inv.sorted.operands, P word

/-- A gathering that takes in good words only. -/
def GathersGood (P : String → Prop) (x : Gathering Unit) : Prop :=
  ∀ inv, Worded P inv → ∀ s a, (x.run inv).outcome s = .ok a → Worded P a.2

namespace GathersGood

theorem modify {g : Invocation → Invocation} (h : ∀ inv, Worded P inv → Worded P (g inv)) :
    GathersGood P (modify g) := by
  intro inv hinv s a ha
  cases ha
  exact h inv hinv

theorem nothing : GathersGood P (Pure.pure ()) := by
  intro inv hinv s a ha
  cases ha
  exact hinv

theorem fail (f : Failure) : GathersGood P (MonadExcept.throw f) := by
  intro inv hinv s a ha
  exact nomatch ha

theorem seq {x y : Gathering Unit} (hx : GathersGood P x) (hy : GathersGood P y) :
    GathersGood P (x >>= fun _ => y) := by
  intro inv hinv s a ha
  rw [StateT.run_bind] at ha
  obtain ⟨b, hb, hrest, -⟩ := Step.bind_outcome_ok ha
  exact hy b.2 (hx inv hinv s b hb) _ a hrest

/-- What is done to the session takes no word in. -/
theorem lift (x : Step Unit) : GathersGood P (StateT.lift x) := by
  intro inv hinv s a ha
  obtain ⟨b, -, hrest, -⟩ := Step.bind_outcome_ok ha
  cases hrest
  exact hinv

/-- Taking a good word in, for the command or behind it. -/
theorem takeWord {text : String} (h : P text) :
    GathersGood P (MonadState.modifyGet fun inv => ((), inv.takeWord text)) := by
  refine .modify fun inv hinv => ?_
  unfold Invocation.takeWord
  cases inv.command with
  | none => exact ⟨hinv.words, hinv.operands⟩
  | some name =>
      refine ⟨fun word hword => ?_, hinv.operands⟩
      rcases List.mem_append.mp hword with hold | hnew
      · exact hinv.words word hold
      · rw [List.mem_singleton] at hnew
        exact hnew ▸ h

/-- At the end of a command node the operands are picked from the words. -/
theorem close : GathersGood P Invocation.close := by
  intro inv hinv s a ha
  rw [Invocation.run_close] at ha
  obtain ⟨_, -, hrest, -⟩ := Step.bind_outcome_ok ha
  cases hrest
  show Worded P inv.closed
  unfold Invocation.closed
  split
  · split
    · exact ⟨hinv.words, fun word hword => hinv.words word (Row.operands_sort_subset _ _ hword)⟩
    · exact hinv
  · exact hinv

end GathersGood

/-- **Gathering takes in good words only.**  By the kind of node: a word is taken in itself, the end
    of a command picks its operands from the words, and redirections, assignments and parameters
    leave words and operands alone. -/
theorem gather_carries :
    Node.Carries P (GathersGood P) Invocation.visit where
  nothing := .nothing
  seq := .seq
  fail := .fail
  node := by
    intro node below good hbelow
    cases node with
    | word text parts => exact (GathersGood.takeWord (good text List.mem_cons_self)).seq hbelow
    | command parts => exact hbelow.seq .close
    | redirect source sign target =>
        refine GathersGood.seq ?_ hbelow
        unfold Invocation.takeRedirect
        split
        · cases target.text? with
          | some text => exact .modify fun inv hinv => ⟨hinv.words, hinv.operands⟩
          | none => exact .fail _
        · exact .nothing
    | assignment text parts =>
        show GathersGood P (if (splitAssignment text).isSome then _ else _)
        split
        · exact (GathersGood.lift _).seq (.modify fun inv hinv => ⟨hinv.words, hinv.operands⟩)
        · exact .nothing
    | parameter name => exact .modify fun inv hinv => ⟨hinv.words, hinv.operands⟩
    | list | pipeline | compound | branch | forLoop | whileLoop | untilLoop | function
    | channel | commandSubstitution | processSubstitution | reserved | operator | pipe | tilde
    | heredoc | unknown | incomplete => exact hbelow

/-- The operands of a tree are good if its words are. -/
theorem gather_good {tree : Node} (h : tree.Every P) {s : Session} {inv : Invocation}
    (hgather : (Invocation.gather tree).outcome s = .ok inv) : Worded P inv := by
  obtain ⟨a, ha, hrest, -⟩ := Step.bind_outcome_ok hgather
  cases hrest
  have hempty : Worded P {} := ⟨List.forall_mem_nil _, List.forall_mem_nil _⟩
  exact gather_carries.walk tree h {} hempty s a ha

/-- Something is true of every word of an action. -/
def Action.Every (P : String → Prop) : Action → Prop
  | .perform tree => tree.Every P
  | .guarded condition => ∀ tree ∈ condition.body, tree.Every P
  | .assign text => P text

/-- A plan of actions of good words. -/
def PlansGood {α : Type} (P : String → Prop) (p : Plan α) : Prop :=
  ∀ action ∈ p.actions, action.Every P

namespace PlansGood

variable {α β : Type}

theorem nothing (a : α) : PlansGood P (Pure.pure a : Plan α) :=
  fun _ h => nomatch h

theorem fail (f : Failure) : PlansGood P (MonadExcept.throw f : Plan α) :=
  fun _ h => nomatch h

/-- Asking for an action of good words. -/
theorem ask {action : Action} (h : action.Every P) : PlansGood P (Plan.ask action) := by
  intro other hother
  rw [List.mem_singleton.mp hother]
  exact h

/-- A plan goes on with what its first part ends in, so what follows has to be good for that
    alone. -/
theorem bind {p : Plan α} {k : α → Plan β} (hp : PlansGood P p)
    (hk : ∀ a, p.outcome = .ok a → PlansGood P (k a)) : PlansGood P (p >>= k) := by
  cases hout : p.outcome with
  | error f =>
      rw [Plan.bind_error hout]
      exact hp
  | ok a =>
      rw [Plan.bind_ok hout]
      intro action haction
      rcases List.mem_append.mp haction with hfirst | hsecond
      · exact hp action hfirst
      · exact hk a hout action hsecond

/-- By induction on the list. -/
theorem forM {f : β → Plan Unit} (xs : List β) (h : ∀ x ∈ xs, PlansGood P (f x)) :
    PlansGood P (xs.forM f) := by
  induction xs with
  | nil => exact .nothing ()
  | cons x rest ih =>
      exact (h x List.mem_cons_self).bind fun _ _ =>
        ih fun y hy => h y (List.mem_cons_of_mem x hy)

end PlansGood

/-- The assignments that gathering asks for are good: each has the text of an assignment node. -/
theorem assignments_carry : Node.Carries P (PlansGood P) assignmentsAt where
  nothing := .nothing ()
  seq := fun hx hy => hx.bind fun _ _ => hy
  fail := .fail
  node := by
    intro node below good hbelow
    cases node with
    | assignment text parts => exact .ask (good text List.mem_cons_self)
    | redirect source sign target =>
        show PlansGood P (if _ then _ else _)
        split
        · exact .fail _
        · exact hbelow
    | parameter name => exact .nothing ()
    | command | list | pipeline | compound | branch | forLoop | whileLoop | untilLoop | function
    | word | channel | commandSubstitution | processSubstitution | reserved | operator | pipe
    | tilde | heredoc | unknown | incomplete => exact hbelow

/-- A walk that reads an `if` and takes good commands into its body. -/
def ReadsGood (P : String → Prop) (x : ReadingCondition Unit) : Prop :=
  ∀ c d : Condition, (∀ tree ∈ c.body, tree.Every P) → x.run c = .ok ((), d) →
    ∀ tree ∈ d.body, tree.Every P

/-- What the second walk finds in the body has been taken in by the first. -/
theorem ReadsGood.seq {x y : ReadingCondition Unit} (hx : ReadsGood P x) (hy : ReadsGood P y) :
    ReadsGood P (x >>= fun _ => y) := by
  intro c d hc hrun
  obtain ⟨e, hxe, hye⟩ := Condition.run_bind_ok_iff.mp hrun
  exact hy e d (hx c e hc hxe) hye

/-- **Reading an `if` puts commands into its body only as they stand in the tree.**  By the kind of
    node: at `then` the test is settled, which leaves the body alone, and so do words; behind `then`
    a command is put to the body, and elsewhere it is walked through, as all other nodes are. -/
theorem reading_carries : Node.Carries P (ReadsGood P) Condition.visit where
  nothing := by
    intro c d hc hrun
    cases hrun
    exact hc
  seq := .seq
  fail := by
    intro f c d hc hrun
    exact nomatch hrun
  node := by
    intro node below good hbelow c d hc hrun
    cases node with
    | reserved text =>
        by_cases hthen : text = "then"
        · subst hthen
          have hsettled : (Condition.settle { c with keyword := some "then" }).map
              (fun d => ((), d)) = .ok ((), d) := (Condition.run_then c).symm.trans hrun
          cases hok : Condition.settle { c with keyword := some "then" } with
          | error f =>
              rw [hok] at hsettled
              exact nomatch hsettled
          | ok e =>
              rw [hok] at hsettled
              cases hsettled
              rw [(Condition.settle_ok hok).2.1]
              exact hc
        · have hkeyword := (Condition.run_reserved text hthen c).symm.trans hrun
          cases hkeyword
          exact hc
    | word text parts =>
        refine hbelow (c.takeWord text) d ?_ hrun
        rw [(Condition.takeWord_keeps c text).2]
        exact hc
    | command parts =>
        by_cases hthen : c.keyword = some "then"
        · have hbody : (Except.ok ((), { c with body := c.body ++ [.command parts] })
              : Except Failure (Unit × Condition)) = .ok ((), d) := by
            rw [← hrun]
            simp [Condition.visit, hthen]
            rfl
          cases hbody
          intro tree htree
          rcases List.mem_append.mp htree with hold | hnew
          · exact hc tree hold
          · rw [List.mem_singleton.mp hnew]
            exact good
        · refine hbelow c d hc ?_
          simpa [Condition.visit, hthen] using hrun
    | list | pipeline | compound | branch | forLoop | whileLoop | untilLoop | function
    | assignment | redirect | channel | commandSubstitution | processSubstitution | operator
    | pipe | parameter | tilde | heredoc | unknown | incomplete => exact hbelow c d hc hrun

/-- The body of an `if` has good words if the `if` has. -/
theorem read_good {tree : Node} (h : tree.Every P) {condition : Condition}
    (hread : Condition.read tree = .ok condition) : ∀ body ∈ condition.body, body.Every P := by
  cases hrun : (tree.walk Condition.visit).run {} with
  | error f =>
      rw [Condition.read, hrun] at hread
      exact nomatch hread
  | ok a =>
      rw [Condition.read, hrun] at hread
      cases hread
      exact reading_carries.walk tree h {} a.2 (List.forall_mem_nil _) hrun

/-- A walk that reads a loop, takes good commands into its body, and replays only such. -/
def LoopsGood (P : String → Prop) (y : StateT Loop Plan Unit) : Prop :=
  ∀ l : Loop, (∀ tree ∈ l.body, tree.Every P) → PlansGood P (y.run l) ∧
    ∀ a, (y.run l).outcome = .ok a → ∀ tree ∈ a.2.body, tree.Every P

namespace LoopsGood

/-- Taking note in the loop asks for nothing. -/
theorem modify {g : Loop → Loop}
    (h : ∀ l : Loop, (∀ tree ∈ l.body, tree.Every P) → ∀ tree ∈ (g l).body, tree.Every P) :
    LoopsGood P (modify g) := by
  refine fun l hl => ⟨.nothing _, fun a ha => ?_⟩
  cases ha
  exact h l hl

/-- A loop may replay its body in the first walk or in the second. -/
theorem seq {x y : StateT Loop Plan Unit} (hx : LoopsGood P x) (hy : LoopsGood P y) :
    LoopsGood P (x >>= fun _ => y) := by
  intro l hl
  obtain ⟨hplan, hbody⟩ := hx l hl
  rw [StateT.run_bind]
  refine ⟨hplan.bind fun a ha => (hy a.2 (hbody a ha)).1, fun b hb => ?_⟩
  obtain ⟨a, ha, hrest, -⟩ := Plan.bind_outcome_ok hb
  exact (hy a.2 (hbody a ha)).2 b hrest

/-- What is replayed are commands of the body. -/
theorem replay :
    LoopsGood P (do
      StateT.lift (Loop.replay (fun _ _ tree => Plan.ask (.perform tree)) (← get))) := by
  intro l hl
  have hreplay : PlansGood P (Loop.replay (fun _ _ tree => Plan.ask (.perform tree)) l) :=
    .forM _ fun _ _ => .forM _ fun tree htree => .ask (hl tree htree)
  refine ⟨hreplay.bind fun _ _ => .nothing _, fun a ha => ?_⟩
  obtain ⟨_, -, hrest, -⟩ := Plan.bind_outcome_ok ha
  cases hrest
  exact hl

end LoopsGood

/-- **Reading a loop** is like reading an `if`, but at `done` the commands of the body are
    replayed. -/
theorem loop_carries : Node.Carries P (LoopsGood P)
    (Loop.visit fun _ _ tree => Plan.ask (.perform tree)) where
  nothing := by
    refine fun l hl => ⟨.nothing _, fun a ha => ?_⟩
    cases ha
    exact hl
  seq := .seq
  fail := fun f l hl => ⟨.fail f, fun a ha => nomatch ha⟩
  node := by
    intro node below good hbelow
    cases node with
    | reserved text =>
        refine LoopsGood.seq (.modify fun l hl => hl) ?_
        split
        · exact .replay
        · exact .modify fun l hl => hl
    | command parts =>
        refine .modify fun l hl => ?_
        split
        · intro tree htree
          rcases List.mem_append.mp htree with hold | hnew
          · exact hl tree hold
          · rw [List.mem_singleton.mp hnew]
            exact good
        · exact hl
    | word text parts =>
        refine LoopsGood.seq (.modify fun l hl => ?_) hbelow
        unfold Loop.takeWord
        split
        · exact hl
        · split
          · exact hl
          · exact hl
    | list | pipeline | compound | branch | forLoop | whileLoop | untilLoop | function
    | assignment | redirect | channel | commandSubstitution | processSubstitution | operator
    | pipe | parameter | tilde | heredoc | unknown | incomplete => exact hbelow

/-- **What a walk plans has good words**: commands as they stand in the tree, the bodies of `if` and
    `for` as they have been read, and assignments by their texts. -/
theorem plan_carries : Node.Carries P (PlansGood P) (visitNode Plan.ask) where
  nothing := .nothing ()
  seq := fun hx hy => hx.bind fun _ _ => hy
  fail := .fail
  node := by
    intro node below good hbelow
    cases node with
    | command parts => exact .ask good
    | assignment text parts => exact .ask (good text List.mem_cons_self)
    | branch parts =>
        show PlansGood P (ofExcept (Condition.read (.branch parts)) >>= fun c =>
          Plan.ask (.guarded c))
        cases hread : Condition.read (.branch parts) with
        | error f => exact .fail f
        | ok c =>
            refine (PlansGood.nothing c).bind fun _ ha => .ask ?_
            cases ha
            exact read_good good hread
    | forLoop parts =>
        refine PlansGood.bind ?_ fun _ _ => hbelow
        exact (loop_carries.walk _ good {} (List.forall_mem_nil _)).1.bind fun _ _ => .nothing _
    | list | pipeline | compound | whileLoop | untilLoop | function | word | redirect
    | channel | commandSubstitution | processSubstitution | reserved | operator | pipe
    | parameter | tilde | heredoc | unknown | incomplete => exact hbelow

/-! ## The texts of effects -/

/-- An effect of steps one after the other is an effect of one of them. -/
theorem mem_effectsOf {α : Type} {f : α → Step Unit} {effects : α → List Effect} {xs : List α}
    {e : Effect} (h : e ∈ Step.effectsOf f effects xs) : ∃ x ∈ xs, e ∈ effects x := by
  induction xs with
  | nil => cases h
  | cons x rest ih =>
      rw [Step.effectsOf] at h
      rcases List.mem_append.mp h with hfirst | hrest
      · exact ⟨x, List.mem_cons_self, hfirst⟩
      · split at hrest
        · obtain ⟨y, hy, hmem⟩ := ih hrest
          exact ⟨y, List.mem_cons_of_mem x hy, hmem⟩
        · cases hrest

/-- What is assigned stands behind the equality sign. -/
theorem splitAssignment_suffix {text name value : String}
    (h : splitAssignment text = some (name, value)) : value.toList <:+ text.toList := by
  unfold splitAssignment at h
  split at h
  · exact nomatch h
  · next c rest hrest =>
      cases h
      rw [String.toList_ofList]
      exact (List.suffix_cons c rest).trans (hrest ▸ List.dropWhile_suffix _)

section Texts

variable (hsuffix : ∀ word part : String, P word → part.toList <:+ word.toList → P part)

include hsuffix

/-- What is written is an end of the text that assigns it. -/
theorem assignEffects_good {text : String} (h : P text) : ∀ e ∈ assignEffects text, P e.text := by
  intro e he
  unfold assignEffects at he
  split at he
  · next name value hsplit =>
      rw [List.mem_singleton.mp he]
      exact hsuffix text value h (splitAssignment_suffix hsplit)
  · exact nomatch he

/-- What `umask` and `export` write comes from their first operand, which is a good word; other
    commands have no effects. -/
theorem invocationEffects_good {inv : Invocation} (h : Worded P inv) :
    ∀ e ∈ invocationEffects inv, P e.text := by
  have hoperand : ∀ word, inv.operand 0 = .ok word → P word := by
    intro word hword
    rw [Invocation.operand_eq_ok_iff] at hword
    exact h.operands word (List.mem_of_getElem? hword)
  intro e he
  unfold invocationEffects at he
  split at he
  · next text _ hok =>
      rw [List.mem_singleton.mp he]
      exact hoperand text hok
  · next word _ hok =>
      split at he
      · next name text hsplit =>
          rw [List.mem_singleton.mp he]
          exact hsuffix word text (hoperand word hok) (splitAssignment_suffix hsplit)
      · exact nomatch he
  · exact nomatch he

/-- The effects of a command are those of its assignments and of its invocation. -/
theorem commandEffects_good {tree : Node} (h : tree.Every P) :
    ∀ e ∈ commandEffects tree, P e.text := by
  intro e he
  rcases List.mem_append.mp he with hassigned | hsaid
  · obtain ⟨action, haction, hmem⟩ := List.mem_flatMap.mp hassigned
    have hgood := assignments_carry.walk tree h action haction
    cases action with
    | assign text => exact assignEffects_good hsuffix hgood e hmem
    | perform _ | guarded _ => exact nomatch hmem
  · split at hsaid
    · next inv hgather => exact invocationEffects_good hsuffix (gather_good h hgather) e hsaid
    · exact nomatch hsaid

/-- So the effects of an action of good words are good. -/
theorem Action.effects_good {action : Action} (h : action.Every P) :
    ∀ e ∈ action.effects, P e.text := by
  intro e he
  cases action with
  | perform tree => exact commandEffects_good hsuffix h e he
  | assign text => exact assignEffects_good hsuffix h e he
  | guarded condition =>
      obtain ⟨tree, htree, hmem⟩ := mem_effectsOf he
      exact commandEffects_good hsuffix (h tree htree) e hmem

/-- **The texts of all effects of a run are good if all words of its trees are**, and what is
    good stays so if something is cut off in front. -/
theorem runEffects_of_texts {trees : List Node} (h : ∀ tree ∈ trees, tree.Every P) :
    ∀ e ∈ runEffects trees, P e.text := by
  intro e he
  obtain ⟨tree, htree, hmem⟩ := List.mem_flatMap.mp he
  obtain ⟨action, haction, heffect⟩ := mem_effectsOf hmem
  exact Action.effects_good hsuffix (plan_carries.walk tree (h tree htree) action haction) e heffect

end Texts

end Session

end Playscript
