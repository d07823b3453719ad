import Mathlib.Data.List.Nodup
import Playscript.Proofs.Entries
import Playscript.Proofs.Plan
import Std.Data.String.ToNat

/-! # No register name is given out twice

    A register name is the name asked for, an underscore and a number.  Names may hold
    underscores and end in digits, so it has to be seen that the two parts can be read back:
    a number has no underscore, so the last underscore parts them (`numbered_inj`).  Each name
    is numbered upwards, so no register repeats (`requests_nodup`).

    The tasks of a session carry registers that were given out to it, each once
    (`Registered`), an invariant of every change.

    Roles keep sessions apart: with the role in front, two names of commands could only be
    equal if one of them ended in an underscore and the other, and none does
    (`bases_not_suffix`). -/

namespace Playscript.Registers

/-- A name with a number behind it. -/
def numbered (name : String) (n : Nat) : String :=
  name ++ "_" ++ toString n

/-- A mark parts a list in one way only, if neither part behind it ends in the mark and the
    other. -/
theorem append_mark_inj {α : Type} {mark : α} {a b d e : List α} (hd : ¬ mark :: e <:+ d)
    (he : ¬ mark :: d <:+ e) (h : a ++ mark :: d = b ++ mark :: e) : a = b ∧ d = e := by
  rcases List.append_eq_append_iff.mp h with ⟨c, hb, hc⟩ | ⟨c, ha, hc⟩
  · cases c with
    | nil => simp_all
    | cons x rest => exact absurd ⟨rest, (List.cons.inj hc).2.symm⟩ hd
  · cases c with
    | nil => simp_all
    | cons x rest => exact absurd ⟨rest, (List.cons.inj hc).2.symm⟩ he

/-- No number ends in an underscore and a number. -/
theorem underscore_not_suffix (digits : List Char) (n : Nat) :
    ¬ '_' :: digits <:+ Nat.toDigits 10 n := by
  intro h
  exact Nat.underscore_not_in_toDigits (h.subset List.mem_cons_self)

/-- **A numbered name can be read back**, whatever the name looks like. -/
theorem numbered_inj {a b : String} {n k : Nat} (h : numbered a n = numbered b k) :
    a = b ∧ n = k := by
  have hlists : a.toList ++ '_' :: Nat.toDigits 10 n = b.toList ++ '_' :: Nat.toDigits 10 k := by
    simpa [numbered, String.toList_append, Nat.toList_repr] using congrArg String.toList h
  obtain ⟨hname, hdigits⟩ := append_mark_inj (underscore_not_suffix _ n)
    (underscore_not_suffix _ k) hlists
  refine ⟨String.toList_inj.mp hname, ?_⟩
  simpa using congrArg (fun digits => Nat.ofDigitChars 10 digits 0) hdigits

/-! ## Counting -/

/-- A count is set for its own name and for no other. -/
theorem lookup_setCount (counts : List (String × Nat)) (name other : String) (n : Nat) :
    (setCount counts name n).lookup other
      = if other = name then some n else counts.lookup other := by
  induction counts with
  | nil =>
      by_cases h : other = name
      · simp [setCount, h]
      · have hb : (other == name) = false := by simpa using h
        simp [setCount, List.lookup_cons, hb, h]
  | cons entry rest ih =>
      obtain ⟨key, value⟩ := entry
      by_cases hk : key = name
      · subst hk
        by_cases h : other = key
        · simp [setCount, h]
        · have hb : (other == key) = false := by simpa using h
          simp [setCount, List.lookup_cons, hb, h]
      · simp only [setCount, hk, if_false]
        by_cases h : other = key
        · subst h
          simp [hk]
        · have hb : (other == key) = false := by simpa using h
          simp only [List.lookup_cons, hb]
          exact ih

/-- A request counts for its name and for no other. -/
theorem count_next (r : Registers) (role : Option String) (base name : String) :
    (r.next role base).2.count name
      = if name = qualified role base then r.count (qualified role base) + 1
        else r.count name := by
  show ((setCount r.counts (qualified role base) _).lookup name).getD 0 = _
  rw [lookup_setCount]
  by_cases h : name = qualified role base
  · simp [h]
  · simp [h, count]

theorem next_name (r : Registers) (role : Option String) (base : String) :
    (r.next role base).1 = numbered (qualified role base) (r.count (qualified role base) + 1) :=
  rfl

/-- A name that has been given out as a register. -/
def Gave (r : Registers) (register : String) : Prop :=
  ∃ name n, 0 < n ∧ n ≤ r.count name ∧ register = numbered name n

/-- What is given out next has not been given out. -/
theorem next_fresh (r : Registers) (role : Option String) (base : String) :
    ¬ r.Gave (r.next role base).1 := by
  rintro ⟨name, n, -, hle, heq⟩
  rw [next_name] at heq
  obtain ⟨hname, hn⟩ := numbered_inj heq
  rw [← hname] at hle
  omega

theorem next_gave (r : Registers) (role : Option String) (base : String) :
    (r.next role base).2.Gave (r.next role base).1 := by
  refine ⟨qualified role base, r.count (qualified role base) + 1, Nat.succ_pos _, ?_, rfl⟩
  exact Nat.le_of_eq (by rw [count_next, if_pos rfl])

theorem next_grows (r : Registers) (role : Option String) (base : String) {register : String}
    (h : r.Gave register) : (r.next role base).2.Gave register := by
  obtain ⟨name, n, hpos, hle, heq⟩ := h
  refine ⟨name, n, hpos, ?_, heq⟩
  rw [count_next]
  by_cases hn : name = qualified role base
  · rw [if_pos hn, ← hn]
    omega
  · rw [if_neg hn]
    exact hle

/-- The registers for names that are asked for one after the other. -/
def requests (r : Registers) (role : Option String) : List String → List String
  | [] => []
  | base :: rest => (r.next role base).1 :: requests (r.next role base).2 role rest

theorem requests_fresh (role : Option String) (bases : List String) :
    ∀ (r : Registers), ∀ register ∈ r.requests role bases, ¬ r.Gave register := by
  induction bases with
  | nil => intro r register hmem; exact nomatch hmem
  | cons base rest ih =>
      intro r register hmem
      rcases List.mem_cons.mp hmem with heq | hmem
      · rw [heq]
        exact next_fresh r role base
      · intro hgave
        exact ih _ register hmem (next_grows r role base hgave)

/-- Registers for names that are asked for one after the other are pairwise distinct. -/
theorem requests_nodup (role : Option String) (bases : List String) :
    ∀ (r : Registers), (r.requests role bases).Nodup := by
  induction bases with
  | nil => intro r; exact List.nodup_nil
  | cons base rest ih =>
      intro r
      refine List.nodup_cons.mpr ⟨?_, ih _⟩
      intro hmem
      exact requests_fresh role rest _ _ hmem (next_gave r role base)

end Playscript.Registers

namespace Playscript

/-! ## The registers of tasks -/

/-- A condition leaves the register of a task as it is. -/
theorem Task.register?_guard (t : Task) (condition : String) :
    (t.guard condition).register? = t.register? :=
  Entries.get?_set_of_ne t.fields _ (by decide)

namespace Session

open Registers (qualified)
open Shell (Node)

/-- The registers of the tasks of a session, in their order. -/
def taskRegisters (s : Session) : List Value :=
  s.tasks.filterMap Task.register?

theorem taskRegisters_guardFrom (count : Nat) (condition : String) (tasks : List Task) :
    (guardFrom count condition tasks).filterMap Task.register?
      = tasks.filterMap Task.register? := by
  have hguard : (Task.register? ∘ fun t : Task => t.guard condition) = Task.register? :=
    funext fun t => t.register?_guard condition
  rw [guardFrom, List.filterMap_append, List.filterMap_map, hguard, ← List.filterMap_append,
    List.take_append_drop]

/-- A task under the next register puts that register behind the others. -/
theorem taskRegisters_withTask (s : Session) (base : String) {task : String → Task}
    (registers : ∀ name, (task name).register? = some (.text name)) :
    (s.withTask base task).taskRegisters
      = s.taskRegisters ++ [.text (s.registers.next s.settings.role base).1] := by
  show (s.tasks ++ [task _]).filterMap Task.register? = _
  rw [List.filterMap_append, List.filterMap_cons_some (registers _)]
  rfl

/-- A text that is shown to the user has no register. -/
theorem taskRegisters_echoed (s : Session) (text : String) :
    ({ s with tasks := s.tasks ++ [echoTask text] } : Session).taskRegisters
      = s.taskRegisters := by
  simp [taskRegisters, echoTask, Task.make, Task.register?, Task.get?, Entries.field?,
    Entries.get?]

/-- The tasks of a session have registers that were given out to it, each once, and only for
    names that commands ask for. -/
structure Registered (s : Session) : Prop where
  nodup : s.taskRegisters.Nodup
  given : ∀ value ∈ s.taskRegisters, ∃ name, value = .text name ∧ s.registers.Gave name
  known : ∀ name, 0 < s.registers.count name →
    ∃ base ∈ registerBases, name = qualified s.settings.role base

/-- A change that is not about registers keeps them apart. -/
theorem Registered.congr {s t : Session} (h : Registered s)
    (tasks : t.taskRegisters = s.taskRegisters) (registers : t.registers = s.registers)
    (settings : t.settings = s.settings) : Registered t where
  nodup := tasks ▸ h.nodup
  given value hmem := registers ▸ h.given value (tasks ▸ hmem)
  known name hcount := settings ▸ h.known name (registers ▸ hcount)

theorem start_registered (settings : Settings) : Registered (start settings) where
  nodup := List.nodup_nil
  given _ hmem := nomatch hmem
  known _ h := nomatch h

/-- A task that registers under the next name keeps the registers of a session apart. -/
theorem Registered.withTask {s : Session} (h : Registered s) {base : String}
    {task : String → Task} (known : base ∈ registerBases)
    (registers : ∀ name, (task name).register? = some (.text name)) :
    Registered (s.withTask base task) := by
  have hnew := taskRegisters_withTask s base registers
  refine ⟨?_, ?_, ?_⟩
  · -- an old register was given out before, and the next name never was
    rw [hnew]
    refine List.nodup_append.mpr ⟨h.nodup, List.nodup_singleton _, ?_⟩
    intro value hold last hlast heq
    rw [List.mem_singleton] at hlast
    obtain ⟨name, hname, hgave⟩ := h.given value hold
    rw [heq, hlast] at hname
    injection hname with hname
    injection hname with hname
    rw [← hname] at hgave
    exact s.registers.next_fresh _ _ hgave
  · intro value hmem
    rw [hnew, List.mem_append, List.mem_singleton] at hmem
    rcases hmem with hold | hlast
    · obtain ⟨name, hname, hgave⟩ := h.given value hold
      exact ⟨name, hname, s.registers.next_grows _ _ hgave⟩
    · exact ⟨_, hlast, s.registers.next_gave _ _⟩
  · intro name hcount
    change 0 < (s.registers.next s.settings.role base).2.count name at hcount
    rw [Registers.count_next] at hcount
    by_cases hname : name = qualified s.settings.role base
    · exact ⟨base, known, hname⟩
    · rw [if_neg hname] at hcount
      exact h.known name hcount

/-- Every change keeps the registers of a session apart. -/
theorem Registered.change {s t : Session} (h : Registered s) (change : Change s t) :
    Registered t := by
  cases change with
  | told | assigned | exported | masked => exact h.congr rfl rfl rfl
  | registered base task known registers => exact h.withTask known registers
  | echoed text => exact h.congr (taskRegisters_echoed s text) rfl rfl
  | guarded count condition =>
      exact h.congr (taskRegisters_guardFrom count condition s.tasks) rfl rfl

/-- A session that changes lead to keeps its registers apart. -/
theorem Registered.reaches {s t : Session} (h : Registered s) (reaches : Reaches s t) :
    Registered t := by
  induction reaches with
  | refl => exact h
  | tail _ change ih => exact ih.change change

/-! ## Roles -/

/-- No name that commands ask for ends in an underscore and such a name. -/
theorem bases_not_suffix : ∀ base ∈ registerBases, ∀ other ∈ registerBases,
    ¬ '_' :: base.toList <:+ other.toList := by
  decide +kernel

/-- The role in front of a name that commands ask for can be read back. -/
theorem qualified_role_inj {role role' : Option String} {base base' : String}
    (hb : base ∈ registerBases) (hb' : base' ∈ registerBases)
    (h : qualified role base = qualified role' base') : role = role' := by
  have hlists := congrArg String.toList h
  cases role with
  | none =>
      cases role' with
      | none => rfl
      | some name =>
          have hsuffix : '_' :: base'.toList <:+ base.toList :=
            ⟨name.toList, by simpa [qualified, String.toList_append] using hlists.symm⟩
          exact absurd hsuffix (bases_not_suffix base' hb' base hb)
  | some name =>
      cases role' with
      | none =>
          have hsuffix : '_' :: base.toList <:+ base'.toList :=
            ⟨name.toList, by simpa [qualified, String.toList_append] using hlists⟩
          exact absurd hsuffix (bases_not_suffix base hb base' hb')
      | some name' =>
          have hnames : name.toList ++ '_' :: base.toList = name'.toList ++ '_' :: base'.toList :=
            by simpa [qualified, String.toList_append] using hlists
          have hname := (Registers.append_mark_inj (bases_not_suffix base' hb' base hb)
            (bases_not_suffix base hb base' hb') hnames).1
          rw [String.toList_inj.mp hname]

/-- Sessions of different roles have no register in common. -/
theorem Registered.disjoint {s t : Session} (hs : Registered s) (ht : Registered t)
    (role : s.settings.role ≠ t.settings.role) (name : String) :
    ¬ (s.registers.Gave name ∧ t.registers.Gave name) := by
  rintro ⟨⟨a, n, hn, hle, rfl⟩, ⟨b, k, hk, hle', heq⟩⟩
  obtain ⟨rfl, rfl⟩ := Registers.numbered_inj heq
  obtain ⟨base, hbase, hqualified⟩ := hs.known a (Nat.lt_of_lt_of_le hn hle)
  obtain ⟨base', hbase', hqualified'⟩ := ht.known a (Nat.lt_of_lt_of_le hk hle')
  exact role (qualified_role_inj hbase hbase' (hqualified.symm.trans hqualified'))

/-- **No register is given out twice.**  Whatever names are asked for one after the other, the
    registers are distinct; so are those of the tasks of a script, which were all given out
    to it; and whatever trees two sessions of different roles go through, no register is
    given out to both. -/
theorem registers_distinct :
    (∀ (role : Option String) (names : List String),
      (({} : Registers).requests role names).Nodup) ∧
    (∀ (settings : Settings) (script : String),
      (ofScript settings script).2.taskRegisters.Nodup ∧
      ∀ value ∈ (ofScript settings script).2.taskRegisters,
        ∃ name, value = .text name ∧ (ofScript settings script).2.registers.Gave name) ∧
    (∀ (settings settings' : Settings) (trees trees' : List Node),
      settings.role ≠ settings'.role → ∀ name,
        ¬ (((trees.forM visit).after (start settings)).registers.Gave name ∧
          ((trees'.forM visit).after (start settings')).registers.Gave name)) := by
  refine ⟨fun role names => Registers.requests_nodup role names {}, ?_, ?_⟩
  · intro settings script
    have h := (start_registered settings).reaches (ofScript_reaches settings script)
    exact ⟨h.nodup, h.given⟩
  · intro settings settings' trees trees' role name
    have hs := visitAll_reaches trees (start settings)
    have ht := visitAll_reaches trees' (start settings')
    refine ((start_registered settings).reaches hs).disjoint
      ((start_registered settings').reaches ht) ?_ name
    rw [hs.settings_eq, ht.settings_eq]
    exact role

theorem registers_distinct_web :
    ({ role := some "web" } : Settings).role ≠ ({} : Settings).role ∧
    (([Node.command [.word "ldconfig" []]].forM visit).after
      (start { role := some "web" })).registers.Gave "web_ldconfig_1" ∧
    ¬ (([Node.command [.word "ldconfig" []]].forM visit).after
      (start {})).registers.Gave "web_ldconfig_1" := by
  have hrole : ({ role := some "web" } : Settings).role ≠ ({} : Settings).role := by decide
  have hgave : (([Node.command [.word "ldconfig" []]].forM visit).after
      (start { role := some "web" })).registers.Gave "web_ldconfig_1" :=
    ⟨"web_ldconfig", 1, by decide, by decide +kernel, by decide⟩
  refine ⟨hrole, hgave, fun h => ?_⟩
  exact registers_distinct.2.2 { role := some "web" } {} [.command [.word "ldconfig" []]]
    [.command [.word "ldconfig" []]] hrole "web_ldconfig_1" ⟨hgave, h⟩

end Session

end Playscript
