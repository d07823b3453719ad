import Playscript.Proofs.RegisterNames

/-! # The register that a session remembers

    A session remembers the register that it gave out last.  A register is given out while
    its task is being made, and the task is added afterwards; so it has to be seen that no
    step stops in between, and that nothing else moves what is remembered.  Every change
    leaves the registers of the tasks and the memory alone, or puts one register behind the
    others and remembers it (`Change.register_cases`).  So the register that is remembered is
    that of the last task that has one, whatever trees were gone through, and also past trees
    that failed on the way. -/

namespace Playscript.Session

open Shell (Node)

/-- The last value that a partial function has on a list stands where nothing behind has one. -/
theorem getLast?_filterMap_eq_some_iff {α β : Type} {f : α → Option β} {xs : List α} {b : β} :
    (xs.filterMap f).getLast? = some b ↔ ∃ before a behind,
      xs = before ++ a :: behind ∧ f a = some b ∧ ∀ x ∈ behind, f x = none := by
  rw [List.getLast?_filterMap, List.findSome?_eq_some_iff]
  -- the list is searched from its end, so what is in front there stands behind here
  constructor
  · rintro ⟨front, a, rest, hxs, ha, hfront⟩
    refine ⟨rest.reverse, a, front.reverse, ?_, ha, fun x hx => hfront x (List.mem_reverse.mp hx)⟩
    rw [← List.reverse_reverse xs, hxs]
    simp
  · rintro ⟨before, a, behind, hxs, ha, hbehind⟩
    refine ⟨behind.reverse, a, before.reverse, ?_, ha, fun x hx => hbehind x (List.mem_reverse.mp hx)⟩
    rw [hxs]
    simp

/-- The register that a session remembers is the last one among its tasks. -/
def RemembersLast (s : Session) : Prop :=
  s.lastRegister.map Value.text = s.taskRegisters.getLast?

/-- A change leaves registers alone, or adds one and remembers it. -/
theorem Change.register_cases {s t : Session} (h : Change s t) :
    (t.taskRegisters = s.taskRegisters ∧ t.lastRegister = s.lastRegister) ∨
    ∃ name, t.taskRegisters = s.taskRegisters ++ [.text name] ∧
      t.lastRegister = some name := by
  cases h with
  | told | assigned | exported | masked => exact .inl ⟨rfl, rfl⟩
  | echoed text => exact .inl ⟨taskRegisters_echoed s text, rfl⟩
  | registered base task known registers =>
      exact .inr ⟨_, taskRegisters_withTask s base registers, rfl⟩
  | guarded count condition =>
      exact .inl ⟨taskRegisters_guardFrom count condition s.tasks, rfl⟩

theorem RemembersLast.change {s t : Session} (h : RemembersLast s) (change : Change s t) :
    RemembersLast t := by
  rcases change.register_cases with ⟨htasks, hlast⟩ | ⟨name, htasks, hlast⟩
  · rw [RemembersLast, htasks, hlast]
    exact h
  · rw [RemembersLast, htasks, hlast, List.getLast?_append]
    rfl

/-- Changes one after the other keep the memory right. -/
theorem RemembersLast.reaches {s t : Session} (h : RemembersLast s) (reaches : Reaches s t) :
    RemembersLast t := by
  induction reaches with
  | refl => exact h
  | tail _ change ih => exact ih.change change

/-! ## Trees one after the other -/

/-- A session in which nothing has been done; registers may have been given out before it. -/
def fresh (settings : Settings) (registers : Registers) : Session :=
  { settings := settings, registers := registers }

theorem fresh_remembersLast (settings : Settings) (registers : Registers) :
    RemembersLast (fresh settings registers) := rfl

/-- Goes through trees one after the other, also past those that fail. -/
def goThrough (s : Session) (trees : List Node) : Session :=
  trees.foldl (fun now tree => (visit tree).after now) s

theorem goThrough_reaches (trees : List Node) : ∀ s : Session, Reaches s (s.goThrough trees) := by
  induction trees with
  | nil => intro s; exact .refl
  | cons tree rest ih =>
      intro s
      exact (visit_reaches tree s).trans (ih _)

/-- **The register that is remembered is that of the last task that has one.**  From a session in
    which nothing has been done, and through whatever trees, some of which may fail, there is
    none exactly if no task has a register, and otherwise it is the register of a task behind
    which no task has one. -/
theorem lastRegister_of_last_task (settings : Settings) (registers : Registers)
    (trees : List Node) :
    let s := (fresh settings registers).goThrough trees
    (s.lastRegister = none ↔ ∀ task ∈ s.tasks, task.register? = none) ∧
    ∀ name, s.lastRegister = some name ↔ ∃ before task behind,
      s.tasks = before ++ task :: behind ∧ task.register? = some (.text name) ∧
        ∀ other ∈ behind, other.register? = none := by
  intro s
  have hlast : s.lastRegister.map Value.text = s.taskRegisters.getLast? :=
    (fresh_remembersLast settings registers).reaches (goThrough_reaches trees _)
  constructor
  · rw [← Option.map_eq_none_iff (f := Value.text), hlast, List.getLast?_eq_none_iff,
      taskRegisters, List.filterMap_eq_nil_iff]
  · intro name
    have hname : s.lastRegister = some name
        ↔ s.lastRegister.map Value.text = some (.text name) := by
      cases s.lastRegister <;> simp
    rw [hname, hlast, taskRegisters, getLast?_filterMap_eq_some_iff]

end Playscript.Session
