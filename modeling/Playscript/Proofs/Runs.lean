import Playscript.Failure

/-! # Work that may fail and keeps what was done

    Sessions, file trees and the world around them are worked on in the same way: a piece of
    work sees a state, may fail, and leaves a state behind in either case.  The laws here hold of
    all of them: how a run of two pieces goes that are done one after the other, and what a piece
    of work respects if all of its parts do. -/

namespace Playscript.Run

variable {σ α β : Type}

/-- What follows work that ends well goes on with its result, in the state that it leaves. -/
theorem bind_of_ok {x : ExceptT Failure (StateM σ) α} {s t : σ} {a : α}
    (h : x.run s = (.ok a, t)) (k : α → ExceptT Failure (StateM σ) β) :
    (x >>= k).run s = (k a).run t := by
  show (StateT.bind x.run (ExceptT.bindCont k)) s = _
  simp only [StateT.bind, h]
  rfl

/-- A failure is passed on, and the state that was reached is kept. -/
theorem bind_of_error {x : ExceptT Failure (StateM σ) α} {s t : σ} {f : Failure}
    (h : x.run s = (.error f, t)) (k : α → ExceptT Failure (StateM σ) β) :
    (x >>= k).run s = (.error f, t) := by
  show (StateT.bind x.run (ExceptT.bindCont k)) s = _
  simp only [StateT.bind, h]
  rfl

/-- Two pieces of work end well one after the other if each of them does. -/
theorem bind_ok_iff {x : ExceptT Failure (StateM σ) α} {k : α → ExceptT Failure (StateM σ) β}
    {s u : σ} {b : β} : (x >>= k).run s = (.ok b, u) ↔
      ∃ a t, x.run s = (.ok a, t) ∧ (k a).run t = (.ok b, u) := by
  constructor
  · intro h
    cases hx : x.run s with
    | mk r t =>
        cases r with
        | error f =>
            rw [bind_of_error hx] at h
            cases h
        | ok a => exact ⟨a, t, rfl, (bind_of_ok hx k).symm.trans h⟩
  · rintro ⟨a, t, hx, hk⟩
    exact (bind_of_ok hx k).trans hk

@[simp] theorem get_bind (k : σ → ExceptT Failure (StateM σ) β) (s : σ) :
    (get >>= k).run s = (k s).run s :=
  bind_of_ok rfl k

@[simp] theorem modify_bind (f : σ → σ) (k : PUnit → ExceptT Failure (StateM σ) β) (s : σ) :
    (modify f >>= k).run s = (k ⟨⟩).run (f s) :=
  bind_of_ok rfl k

/-- A result that is at hand leaves the state as it is. -/
theorem run_liftM (r : Except Failure α) (s : σ) :
    (liftM r : ExceptT Failure (StateM σ) α).run s = (r, s) := by
  cases r with
  | error f => rfl
  | ok a => rfl

/-- A result at hand can be put in. -/
theorem liftM_bind_ok {r : Except Failure α} {a : α} (h : r = .ok a)
    (k : α → ExceptT Failure (StateM σ) β) (s : σ) :
    ((liftM r : ExceptT Failure (StateM σ) α) >>= k).run s = (k a).run s := by
  subst h
  exact bind_of_ok rfl k

/-- And so can a failure. -/
theorem liftM_bind_error {r : Except Failure α} {f : Failure} (h : r = .error f)
    (k : α → ExceptT Failure (StateM σ) β) (s : σ) :
    ((liftM r : ExceptT Failure (StateM σ) α) >>= k).run s = (.error f, s) := by
  subst h
  exact bind_of_error rfl k

/-- Where all ends well, the result at hand was one. -/
theorem liftM_bind_ok_iff {r : Except Failure α} {k : α → ExceptT Failure (StateM σ) β} {s u : σ}
    {b : β} : ((liftM r : ExceptT Failure (StateM σ) α) >>= k).run s = (.ok b, u) ↔
      ∃ a, r = .ok a ∧ (k a).run s = (.ok b, u) := by
  cases hr : r with
  | error f =>
      rw [liftM_bind_error rfl]
      exact iff_of_false (fun h => by cases h) fun ⟨a, ha, _⟩ => by cases ha
  | ok a =>
      rw [liftM_bind_ok rfl]
      constructor
      · intro h
        exact ⟨a, rfl, h⟩
      · rintro ⟨a', ha', h⟩
        cases ha'
        exact h

/-- Work that ends well ends somewhere, and what holds wherever it ends holds there. -/
theorem exists_of_isOk {x : ExceptT Failure (StateM σ) Unit} {s : σ} {P : σ → Prop}
    (h : (x.run s).1.isOk = true) (hP : ∀ t, x.run s = (.ok (), t) → P t) :
    ∃ t, x.run s = (.ok (), t) ∧ P t := by
  cases hx : x.run s with
  | mk r t =>
      rw [hx] at h
      cases r with
      | error f => cases h
      | ok u => exact ⟨t, rfl, hP t hx⟩

/-- Work that ends well is not handled. -/
theorem tryCatch_of_ok {x : ExceptT Failure (StateM σ) α} {s t : σ} {a : α}
    (h : x.run s = (.ok a, t)) (handle : Failure → ExceptT Failure (StateM σ) α) :
    (tryCatch x handle).run s = (.ok a, t) := by
  have hx : x s = (.ok a, t) := h
  show (ExceptT.tryCatch x handle).run s = _
  simp only [ExceptT.tryCatch, ExceptT.run_mk, bind, StateT.bind, hx]
  rfl

/-- A failure is handled in the state that the work has left: nothing is undone. -/
theorem tryCatch_of_error {x : ExceptT Failure (StateM σ) α} {s t : σ} {f : Failure}
    (h : x.run s = (.error f, t)) (handle : Failure → ExceptT Failure (StateM σ) α) :
    (tryCatch x handle).run s = (handle f).run t := by
  have hx : x s = (.error f, t) := h
  show (ExceptT.tryCatch x handle).run s = _
  simp only [ExceptT.tryCatch, ExceptT.run_mk, bind, StateT.bind, hx]
  rfl

/-! ## What work respects -/

/-- Whatever state it starts in, and however it ends, the work leads to a state that is related to
    it. -/
def Respects (R : σ → σ → Prop) (x : ExceptT Failure (StateM σ) α) : Prop :=
  ∀ s, R s (x.run s).2

section Respects

variable {R : σ → σ → Prop} (refl : ∀ s, R s s) (trans : ∀ ⦃s t u⦄, R s t → R t u → R s u)

include trans in
/-- What a piece of work respects from a state on, and all that may follow it from everywhere,
    they respect together. -/
theorem respects_bind {x : ExceptT Failure (StateM σ) α} {k : α → ExceptT Failure (StateM σ) β}
    {s : σ} (hx : R s (x.run s).2) (hk : ∀ a, Respects R (k a)) : R s ((x >>= k).run s).2 := by
  cases h : x.run s with
  | mk r t =>
      rw [h] at hx
      cases r with
      | ok a =>
          rw [bind_of_ok h]
          exact trans hx (hk a t)
      | error f =>
          rw [bind_of_error h]
          exact hx

include trans in
/-- Work that is followed by work, if both respect the relation. -/
theorem Respects.bind {x : ExceptT Failure (StateM σ) α} {k : α → ExceptT Failure (StateM σ) β}
    (hx : Respects R x) (hk : ∀ a, Respects R (k a)) : Respects R (x >>= k) :=
  fun s => respects_bind trans (hx s) hk

include trans in
/-- Whether it ends well or is handled, the states are related step by step. -/
theorem Respects.tryCatch {x : ExceptT Failure (StateM σ) α}
    {handle : Failure → ExceptT Failure (StateM σ) α} (hx : Respects R x)
    (hhandle : ∀ f, Respects R (handle f)) : Respects R (tryCatch x handle) := by
  intro s
  have hfirst := hx s
  cases h : x.run s with
  | mk r t =>
      rw [h] at hfirst
      cases r with
      | ok a =>
          rw [tryCatch_of_ok h]
          exact hfirst
      | error f =>
          rw [tryCatch_of_error h]
          exact trans hfirst (hhandle f t)

include refl trans in
/-- Over a list, by induction on it. -/
theorem Respects.forM {f : α → ExceptT Failure (StateM σ) Unit} (hf : ∀ a, Respects R (f a)) :
    ∀ xs : List α, Respects R (xs.forM f) := by
  intro xs
  induction xs with
  | nil => exact refl
  | cons x rest ih => exact Respects.bind trans (hf x) fun _ => ih

include refl trans in
/-- In work over a list that ends well, each round starts somewhere on the way, and ends well. -/
theorem forM_ok_of_mem {f : α → ExceptT Failure (StateM σ) Unit} (hf : ∀ a, Respects R (f a))
    {a : α} : ∀ {xs : List α} {s u : σ}, (xs.forM f).run s = (.ok (), u) → a ∈ xs →
      ∃ t t', R s t ∧ (f a).run t = (.ok (), t') ∧ R t' u := by
  intro xs
  induction xs with
  | nil => intro s u _ ha; cases ha
  | cons x rest ih =>
      intro s u hrun ha
      obtain ⟨⟨⟩, t, hx, hrest⟩ := bind_ok_iff.mp hrun
      have hst : R s t := by
        have hround := hf x s
        rwa [hx] at hround
      rcases List.mem_cons.mp ha with rfl | ha
      · have htu : R t u := by
          have hrounds := Respects.forM refl trans hf rest t
          rwa [hrest] at hrounds
        exact ⟨s, t, refl s, hx, htu⟩
      · obtain ⟨t₁, t₂, hfirst, hround, hlast⟩ := ih hrest ha
        exact ⟨t₁, t₂, trans hst hfirst, hround, hlast⟩

end Respects

end Playscript.Run
