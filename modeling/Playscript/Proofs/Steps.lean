import Playscript.Proofs.Runs
import Playscript.Session.Basic

/-! # How steps of a session compose

    A step ends in an outcome and leaves a session behind, also when it fails.  The laws
    here say both for every way in which steps are put together, so that later proofs take
    a step apart without looking at how it is encoded. -/

namespace Playscript.Step

variable {α β : Type}

/-- How a step ends. -/
def outcome (x : Step α) (s : Session) : Except Failure α :=
  (x.run s).1

/-- The session that a step leaves behind, however it ends. -/
def after (x : Step α) (s : Session) : Session :=
  (x.run s).2

theorem run_eq (x : Step α) (s : Session) : x.run s = (x.outcome s, x.after s) := rfl

/-- Two steps are the same if they end alike and leave the same session from everywhere. -/
theorem ext_run {x y : Step α} (h : ∀ s, x.run s = y.run s) : x = y :=
  funext h

@[simp] theorem run_pure (a : α) (s : Session) : (pure a : Step α).run s = (.ok a, s) := rfl

@[simp] theorem run_throw (f : Failure) (s : Session) :
    (throw f : Step α).run s = (.error f, s) := rfl

theorem run_get (s : Session) : (get : Step Session).run s = (.ok s, s) := rfl

@[simp] theorem run_modify (g : Session → Session) (s : Session) :
    (modify g : Step Unit).run s = (.ok (), g s) := rfl

/-- A result at hand leaves the session as it is. -/
@[simp] theorem run_ofExcept (r : Except Failure α) (s : Session) :
    (ofExcept r : Step α).run s = (r, s) := by
  cases r with
  | ok a => rfl
  | error f => rfl

/-- One step after another: the second goes on from where the first ended well. -/
theorem run_bind (x : Step α) (k : α → Step β) (s : Session) :
    (x >>= k).run s = match x.run s with
      | (.ok a, t) => (k a).run t
      | (.error f, t) => (.error f, t) := by
  cases h : x.run s with
  | mk r t =>
      cases r with
      | ok a => exact Run.bind_of_ok h k
      | error f => exact Run.bind_of_error h k

/-- The two cases of `run_bind`: behind a step that ends well the next one goes on. -/
theorem run_bind_ok {x : Step α} {s t : Session} {a : α} (h : x.run s = (.ok a, t))
    (k : α → Step β) : (x >>= k).run s = (k a).run t :=
  Run.bind_of_ok h k

/-- Behind one that fails nothing is done. -/
theorem run_bind_error {x : Step α} {s t : Session} {f : Failure}
    (h : x.run s = (.error f, t)) (k : α → Step β) :
    (x >>= k).run s = (.error f, t) :=
  Run.bind_of_error h k

/-- If two steps end well one after the other, each of them does. -/
theorem bind_outcome_ok {x : Step α} {k : α → Step β} {s : Session} {b : β}
    (h : (x >>= k).outcome s = .ok b) : ∃ a, x.outcome s = .ok a ∧
      (k a).outcome (x.after s) = .ok b ∧ (x >>= k).after s = (k a).after (x.after s) := by
  cases hx : x.outcome s with
  | error f =>
      have hrun : x.run s = (.error f, x.after s) := by rw [run_eq, hx]
      rw [outcome, run_bind_error hrun] at h
      exact nomatch h
  | ok a =>
      have hrun : x.run s = (.ok a, x.after s) := by rw [run_eq, hx]
      rw [outcome, run_bind_ok hrun] at h
      refine ⟨a, rfl, h, ?_⟩
      show ((x >>= k).run s).2 = _
      rw [run_bind_ok hrun]
      rfl

/-- Steps that all end well from everywhere end well one after the other. -/
theorem forM_outcome_ok {f : α → Step Unit} {xs : List α}
    (h : ∀ x ∈ xs, ∀ s, (f x).outcome s = .ok ()) : ∀ s, (xs.forM f).outcome s = .ok () := by
  induction xs with
  | nil => intro s; rfl
  | cons x rest ih =>
      intro s
      have hx : (f x).run s = (.ok (), (f x).after s) := by
        rw [run_eq, h x List.mem_cons_self]
      show ((f x >>= fun _ => rest.forM f).run s).1 = .ok ()
      rw [run_bind_ok hx]
      exact ih (fun y hy => h y (List.mem_cons_of_mem x hy)) _

/-- Nothing follows a first step that fails. -/
theorem after_forM_of_error {f : α → Step Unit} {x : α} {s : Session} {failure : Failure}
    (h : (f x).outcome s = .error failure) (rest : List α) :
    ((x :: rest).forM f).after s = (f x).after s := by
  have hrun : (f x).run s = (.error failure, (f x).after s) := by
    rw [run_eq, h]
  show ((f x >>= fun _ => rest.forM f).run s).2 = (f x).after s
  rw [run_bind_error hrun]

/-! ## Steps that only look

    Binding one of these puts what it sees in place and leaves the session alone.  They are
    stated as equations between runs, so that a long command is taken apart by rewriting:
    to compare two such commands by unfolding them is out of reach. -/

/-- What follows may look at the session. -/
@[simp] theorem run_get_bind (k : Session → Step β) (s : Session) :
    (get >>= k).run s = (k s).run s :=
  run_bind_ok (run_get s) k

/-- A result at hand is put in, and a failure ends the step. -/
@[simp] theorem run_liftM_bind (r : Except Failure α) (k : α → Step β) (s : Session) :
    ((liftM r : Step α) >>= k).run s = match r with
      | .ok a => (k a).run s
      | .error f => (.error f, s) := by
  cases r with
  | ok a => rfl
  | error f => rfl

/-- Writing a text out always ends well. -/
theorem run_interpret (mode : Expansion) (text : String) (s : Session) :
    (Session.interpret mode text).run s = (.ok (s.vars.interpret mode text), s) := rfl

/-- A text is written out against the variables of the session, and none of them changes. -/
@[simp] theorem run_interpret_bind (mode : Expansion) (text : String) (k : String → Step β)
    (s : Session) :
    (Session.interpret mode text >>= k).run s = (k (s.vars.interpret mode text)).run s :=
  run_bind_ok (run_interpret mode text s) k

theorem run_mode (directory : Bool) (s : Session) :
    (Session.mode directory).run s = (.ok (modeValue s.umask directory), s) := rfl

/-- A mode is that of the mask of the session. -/
@[simp] theorem run_mode_bind (directory : Bool) (k : Value → Step β) (s : Session) :
    (Session.mode directory >>= k).run s = (k (modeValue s.umask directory)).run s :=
  run_bind_ok (run_mode directory s) k

/-! ## What every step of a kind respects -/

section Respect

variable {R : Session → Session → Prop}

/-- What a step and all that may follow it respect, they respect together. -/
theorem respects_bind (trans : ∀ ⦃s t u⦄, R s t → R t u → R s u) {x : Step α}
    {k : α → Step β} {s : Session} (hx : R s (x.after s))
    (hk : ∀ a t, R t ((k a).after t)) : R s ((x >>= k).after s) :=
  Run.respects_bind trans hx hk

/-- What each of some steps respects, they respect one after the other. -/
theorem respects_forM (refl : ∀ s, R s s) (trans : ∀ ⦃s t u⦄, R s t → R t u → R s u)
    {f : α → Step Unit} (hf : ∀ a s, R s ((f a).after s)) :
    ∀ (xs : List α) (s : Session), R s ((xs.forM f).after s) :=
  Run.Respects.forM refl trans hf

end Respect

end Playscript.Step
