import Playscript.Proofs.Changes
import Playscript.Proofs.Walk

/-! # What a command node does

    The words of a command are gathered before it is done, and an assignment among them
    takes effect at once.  How that goes does not hang on the session either: a command node
    ends the same way from every session, and under the same settings it adds as many tasks,
    none or one (`command_uniform`). -/

namespace Playscript.Session

open Shell (Node)

variable {α β : Type}

theorem Change.settings_eq {s t : Session} (h : Change s t) : t.settings = s.settings := by
  cases h <;> rfl

theorem Reaches.settings_eq {s t : Session} (h : Reaches s t) : t.settings = s.settings := by
  induction h with
  | refl => rfl
  | tail _ change ih => rw [change.settings_eq, ih]

/-- A step that ends the same way from every session, gets on by changes, and adds tasks in a
    number that the settings settle. -/
structure Uniform (added : Settings → Nat) (x : Step α) : Prop where
  outcome_eq : ∀ s t, x.outcome s = x.outcome t
  reaches : ∀ s, Reaches s (x.after s)
  adds : ∀ s, ∃ new, new.length = added s.settings ∧ (x.after s).tasks = s.tasks ++ new

namespace Uniform

theorem pure (a : α) : Uniform (fun _ => 0) (Pure.pure a : Step α) where
  outcome_eq _ _ := rfl
  reaches _ := .refl
  adds _ := ⟨[], rfl, (List.append_nil _).symm⟩

theorem throw (f : Failure) : Uniform (fun _ => 0) (MonadExcept.throw f : Step α) where
  outcome_eq _ _ := rfl
  reaches _ := .refl
  adds _ := ⟨[], rfl, (List.append_nil _).symm⟩

/-- Nothing follows a step that fails. -/
theorem bind_error {a : Settings → Nat} {x : Step α} {s₀ : Session} {f : Failure}
    (hx : Uniform a x) (h : x.outcome s₀ = .error f) (k : α → Step β) :
    Uniform a (x >>= k) := by
  have hf : ∀ s, x.run s = (.error f, x.after s) := by
    intro s
    rw [Step.run_eq, hx.outcome_eq s s₀, h]
  have hafter : ∀ s, (x >>= k).after s = x.after s := by
    intro s
    rw [Step.after, Step.run_bind_error (hf s)]
  refine ⟨fun s t => ?_, fun s => ?_, fun s => ?_⟩
  · rw [Step.outcome, Step.outcome, Step.run_bind_error (hf s), Step.run_bind_error (hf t)]
  · rw [hafter]
    exact hx.reaches s
  · rw [hafter]
    exact hx.adds s

/-- The numbers of tasks of two steps add up. -/
theorem bind_ok {a b : Settings → Nat} {x : Step α} {s₀ : Session} {v : α}
    (hx : Uniform a x) (h : x.outcome s₀ = .ok v) {k : α → Step β} (hk : Uniform b (k v)) :
    Uniform (fun settings => a settings + b settings) (x >>= k) := by
  have hv : ∀ s, x.run s = (.ok v, x.after s) := by
    intro s
    rw [Step.run_eq, hx.outcome_eq s s₀, h]
  have hafter : ∀ s, (x >>= k).after s = (k v).after (x.after s) := by
    intro s
    rw [Step.after, Step.run_bind_ok (hv s)]
    rfl
  refine ⟨fun s t => ?_, fun s => ?_, fun s => ?_⟩
  · rw [Step.outcome, Step.outcome, Step.run_bind_ok (hv s), Step.run_bind_ok (hv t)]
    exact hk.outcome_eq _ _
  · rw [hafter]
    exact (hx.reaches s).trans (hk.reaches _)
  · rw [hafter]
    obtain ⟨first, hfirst, hx'⟩ := hx.adds s
    obtain ⟨second, hsecond, hk'⟩ := hk.adds (x.after s)
    refine ⟨first ++ second, ?_, ?_⟩
    · rw [List.length_append, hfirst, hsecond, (hx.reaches s).settings_eq]
    · rw [hk', hx', List.append_assoc]

/-- Steps that add no tasks, one after another, add none. -/
theorem bind_none {x : Step α} {k : α → Step β} (hx : Uniform (fun _ => 0) x)
    (hk : ∀ v, Uniform (fun _ => 0) (k v)) : Uniform (fun _ => 0) (x >>= k) := by
  cases h : x.outcome {} with
  | error f => exact hx.bind_error h k
  | ok v => exact hx.bind_ok h (hk v)

/-- A change that leaves the tasks alone. -/
theorem modify {g : Session → Session} (change : ∀ s, Change s (g s))
    (same : ∀ s, (g s).tasks = s.tasks) : Uniform (fun _ => 0) (modify g : Step Unit) where
  outcome_eq _ _ := rfl
  reaches s := .single (change s)
  adds s := ⟨[], rfl, (same s).trans (List.append_nil _).symm⟩

end Uniform

/-- A known command ends the same way everywhere and adds at most one task. -/
theorem Atomic.uniform {x : Step Unit} (h : Atomic x) :
    ∃ added : Settings → Nat, (∀ settings, added settings ≤ 1) ∧ Uniform added x := by
  cases h with
  | fails f run =>
      have hx : x = MonadExcept.throw f := Step.ext_run run
      exact ⟨fun _ => 0, fun _ => Nat.zero_le 1, hx ▸ Uniform.throw f⟩
  | nothing run =>
      have hx : x = Pure.pure () := Step.ext_run run
      exact ⟨fun _ => 0, fun _ => Nat.zero_le 1, hx ▸ Uniform.pure ()⟩
  | changes g added run change atMostOne adds =>
      have hx : x = (MonadState.modifyGet fun s => ((), g s) : Step Unit) := Step.ext_run run
      subst hx
      exact ⟨added, atMostOne, ⟨fun _ _ => rfl, fun s => .single (change s), adds⟩⟩

/-! ## Gathering -/

/-- A gathering that adds no tasks, whatever has been gathered before. -/
def Quiet (x : Gathering Unit) : Prop :=
  ∀ inv, Uniform (fun _ => 0) (x.run inv)

namespace Quiet

theorem nothing : Quiet (Pure.pure ()) :=
  fun inv => Uniform.pure ((), inv)

theorem fail (f : Failure) : Quiet (MonadExcept.throw f) := by
  intro inv
  have h : (MonadExcept.throw f : Gathering Unit).run inv = MonadExcept.throw f :=
    Step.ext_run fun _ => rfl
  rw [h]
  exact Uniform.throw f

/-- Two gatherings that add no tasks add none together. -/
theorem seq {x y : Gathering Unit} (hx : Quiet x) (hy : Quiet y) :
    Quiet (x >>= fun _ => y) := by
  intro inv
  rw [StateT.run_bind]
  exact (hx inv).bind_none fun p => hy p.2

/-- Taking note in the invocation is quiet. -/
theorem modify (g : Invocation → Invocation) : Quiet (modify g) :=
  fun inv => Uniform.pure ((), g inv)

/-- A quiet step of the session is a quiet gathering. -/
theorem lift {x : Step Unit} (hx : Uniform (fun _ => 0) x) : Quiet (StateT.lift x) := by
  intro inv
  exact hx.bind_none fun _ => Uniform.pure _

end Quiet

theorem say_uniform (line : String) : Uniform (fun _ => 0) (say line) :=
  .modify (fun s => .told s line) (fun _ => rfl)

theorem assignText_uniform (text : String) : Uniform (fun _ => 0) (assignText text) := by
  unfold assignText
  cases splitAssignment text with
  | none => exact .pure ()
  | some pair => exact .modify (fun s => .assigned s pair.1 pair.2) (fun _ => rfl)

/-- An assignment never fails: a text that assigns nothing is passed over. -/
theorem assignText_outcome (text : String) (s : Session) :
    (assignText text).outcome s = .ok () := by
  unfold assignText
  cases splitAssignment text with
  | none => rfl
  | some pair => rfl

/-- At the end of a command words are sorted or a line is told; no task is added. -/
theorem close_quiet : Quiet Invocation.close := by
  intro inv
  by_cases hc : inv.isCommand = true
  · cases hv : inv.command.bind Verb.ofName? with
    | some verb =>
        have h : Invocation.close.run inv = Pure.pure ((), inv.sortBy verb.row) := by
          simp [Invocation.close, hc, hv]
        rw [h]
        exact Uniform.pure _
    | none =>
        have h : Invocation.close.run inv =
            (StateT.lift (say (" failed to find " ++ inv.command.getD "None"))).run inv := by
          simp [Invocation.close, hc, hv]
        rw [h]
        exact Quiet.lift (say_uniform _) inv
  · have h : Invocation.close.run inv = Pure.pure ((), inv) := by
      simp [Invocation.close, hc]
    rw [h]
    exact Uniform.pure _

/-- A redirection is noted, passed over, or fails for want of a target; no task is added. -/
theorem takeRedirect_quiet (sign : String) (target : Node) :
    Quiet (Invocation.takeRedirect sign target) := by
  unfold Invocation.takeRedirect
  split
  · cases target.text? with
    | some text => exact Quiet.modify _
    | none => exact Quiet.fail _
  · exact Quiet.nothing

/-- At every node, gathering is quiet if what is below the node is. -/
theorem visit_quiet (node : Node) {below : Gathering Unit} (h : Quiet below) :
    Quiet (Invocation.visit node below) := by
  cases node with
  | word text parts => exact (Quiet.modify _).seq h
  | command parts => exact h.seq close_quiet
  | redirect source sign target => exact (takeRedirect_quiet sign target).seq h
  | assignment text parts =>
      show Quiet (if (splitAssignment text).isSome then _ else _)
      split
      · exact (Quiet.lift (assignText_uniform text)).seq (Quiet.modify _)
      · exact Quiet.nothing
  | parameter name => exact Quiet.modify _
  | list | pipeline | compound | branch | forLoop | whileLoop | untilLoop | function
  | channel | commandSubstitution | processSubstitution | reserved | operator | pipe | tilde
  | heredoc | unknown | incomplete => exact h

/-- Gathering the words of a tree goes the same way everywhere and adds no tasks. -/
theorem gather_uniform (tree : Node) : Uniform (fun _ => 0) (Invocation.gather tree) := by
  have h : Node.Lockstep (fun x _ => Quiet x) Invocation.visit Invocation.visit :=
    { nothing := Quiet.nothing
      seq := Quiet.seq
      fail := Quiet.fail
      node := fun node _ _ h => visit_quiet node h }
  exact (h.walk tree {}).bind_none fun p => Uniform.pure p.2

/-- **A command node goes the same way everywhere**, and adds at most one task. -/
theorem command_uniform (tree : Node) :
    ∃ added : Settings → Nat, (∀ settings, added settings ≤ 1) ∧
      Uniform added (command tree) := by
  have hg := gather_uniform tree
  cases h : (Invocation.gather tree).outcome {} with
  | error f => exact ⟨fun _ => 0, fun _ => Nat.zero_le 1, hg.bind_error h _⟩
  | ok inv =>
      cases hverb : inv.verb? with
      | none =>
          refine ⟨fun _ => 0 + 0, fun _ => Nat.zero_le 1, hg.bind_ok h ?_⟩
          rw [hverb]
          exact Uniform.pure ()
      | some verb =>
          obtain ⟨added, atMostOne, hk⟩ := (perform_atomic verb inv).uniform
          refine ⟨fun settings => 0 + added settings, fun settings => ?_, hg.bind_ok h ?_⟩
          · show 0 + added settings ≤ 1
            rw [Nat.zero_add]
            exact atMostOne settings
          · rw [hverb]
            exact hk

end Playscript.Session
