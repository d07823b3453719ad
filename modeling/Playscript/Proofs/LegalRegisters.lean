import Playscript.Proofs.Segments
import Playscript.Proofs.TaskShapes

/-! # Registers as variables

    A register is read as a variable, so its name should be one that a braced reference can have.
    Names are put together from a role, the name that a command asks under and a number, and all
    of these do no harm but one: the commands of `apt-get` ask under names with a hyphen.  So the
    registers of a run are legal exactly if no `apt-get` of the run has added a task
    (`registers_legal_iff`).  Conditions on a status name registers of tasks that are there
    (`Log.naming`), so they are legal as far as those are. -/

namespace Playscript

open Shell (Node)
open Reference (isBraceable inName)

/-! ## Names with something behind -/

namespace Registers

/-- A legal name can go on with any characters that a name may have. -/
theorem isBraceable_append {name more : String} (h : isBraceable name = true)
    (hmore : more.toList.all inName = true) : isBraceable (name ++ more) = true := by
  rw [isBraceable, Bool.and_eq_true] at h ⊢
  rw [String.toList_append, List.all_append, h.2, hmore]
  refine ⟨?_, rfl⟩
  cases hname : name.toList with
  | nil => simp [hname] at h
  | cons c rest => simpa [hname] using h.1

/-- A hyphen is none of them. -/
theorem not_isBraceable_of_hyphen {name : String} (h : '-' ∈ name.toList) :
    isBraceable name = false := by
  have hall : name.toList.all inName = false :=
    List.all_eq_false.mpr ⟨'-', h, by decide⟩
  rw [isBraceable, hall, Bool.and_false]

/-- Numbering a register keeps its name legal. -/
theorem isBraceable_numbered {name : String} (h : isBraceable name = true) (n : Nat) :
    isBraceable (numbered name n) = true := by
  refine isBraceable_append (isBraceable_append h (by decide)) ?_
  rw [List.all_eq_true]
  intro c hc
  have hdigit : c.isDigit = true := by
    rw [Nat.toString_eq_ofList_toDigits, String.toList_ofList] at hc
    exact Nat.isDigit_of_mem_toDigits (by decide) (by decide) hc
  simp [inName, Char.isAlphanum, hdigit]

/-- So does putting the role in front, if the role has a legal name. -/
theorem isBraceable_qualified {role : Option String} {base : String}
    (hrole : ∀ name, role = some name → isBraceable name = true) (h : isBraceable base = true) :
    isBraceable (qualified role base) = true := by
  cases role with
  | none => exact h
  | some name =>
      refine isBraceable_append (isBraceable_append (hrole name rfl) (by decide)) ?_
      rw [isBraceable, Bool.and_eq_true] at h
      exact h.2

/-- Neither takes a character away. -/
theorem mem_numbered_qualified {role : Option String} {base : String} {c : Char}
    (h : c ∈ base.toList) (n : Nat) : c ∈ (numbered (qualified role base) n).toList := by
  rw [numbered, String.toList_append, String.toList_append, List.mem_append, List.mem_append]
  refine .inl (.inl ?_)
  cases role with
  | none => exact h
  | some name =>
      show c ∈ (name ++ "_" ++ base).toList
      rw [String.toList_append]
      exact List.mem_append_right _ h

end Registers

/-- Only `apt-get` asks for registers under names that are not legal: they have a hyphen. -/
theorem Verb.recipeBases_legal (verb : Verb) : ∀ base ∈ verb.recipeBases,
    if verb = .aptGet then '-' ∈ base.toList else isBraceable base = true := by
  cases verb <;> decide

namespace Session

/-- The next register under a legal name is legal. -/
theorem nextRegister_legal {s : Session} {base : String}
    (hrole : ∀ name, s.settings.role = some name → isBraceable name = true)
    (h : isBraceable base = true) : isBraceable (s.nextRegister base) = true :=
  Registers.isBraceable_numbered (Registers.isBraceable_qualified hrole h) _

/-- Under a name with a hyphen it is not, whatever the role and the number are. -/
theorem nextRegister_not_legal {s : Session} {base : String} (h : '-' ∈ base.toList) :
    isBraceable (s.nextRegister base) = false :=
  Registers.not_isBraceable_of_hyphen (Registers.mem_numbered_qualified h _)

/-! ## The registers of a run -/

/-- The task of a recipe has the register that it was given: no module is called `register`. -/
theorem register?_of_module {recipe : Recipe} {register : String}
    (h : recipe.module ∈ Recipe.modules) :
    (recipe.registered register).register? = some (.text register) :=
  registered_register? recipe (Recipe.module_ne_side h (by decide)) register

/-- What a command adds has a legal register, if any, unless the command is `apt-get`. -/
theorem Emission.register_legal {s : Session} {verb : Verb} {tasks : List Task}
    (h : Emission s verb tasks)
    (hrole : ∀ name, s.settings.role = some name → isBraceable name = true) :
    ∀ task ∈ tasks, ∀ value, task.register? = some value →
      ∃ name, value = .text name ∧ (isBraceable name = true ↔ verb ≠ .aptGet) := by
  cases h with
  | nothing quiet => simp
  | shown text =>
      rw [List.forall_mem_singleton]
      intro value hvalue
      exact nomatch hvalue
  | moved src dest =>
      rw [List.forall_mem_singleton]
      rintro value ⟨⟩
      exact ⟨_, rfl, iff_of_true (nextRegister_legal hrole (by decide)) (by decide)⟩
  | relinked =>
      rw [List.forall_mem_singleton]
      rintro value ⟨⟩
      exact ⟨_, rfl, iff_of_true (nextRegister_legal hrole (by decide)) (by decide)⟩
  | made base recipe known module =>
      rw [List.forall_mem_singleton]
      rw [register?_of_module module]
      rintro value ⟨⟩
      refine ⟨_, rfl, ?_⟩
      have hbase := Verb.recipeBases_legal verb base known
      split at hbase
      · next hverb =>
          exact iff_of_false (Bool.eq_false_iff.mp (nextRegister_not_legal hbase))
            (not_not.mpr hverb)
      · next hverb => exact iff_of_true (nextRegister_legal hrole hbase) hverb

/-- The register of a task, if there is one, is legal exactly if no `apt-get` has added it. -/
theorem Log.register_legal {s t : Session} {deeds : List Deed} (h : Log s deeds t)
    (hrole : ∀ name, s.settings.role = some name → isBraceable name = true) :
    ∀ d ∈ deeds, ∀ bare ∈ d.tasks, ∀ value, bare.register? = some value →
      ∃ name, value = .text name ∧ (isBraceable name = true ↔ d.verb ≠ .aptGet) := by
  intro d hd
  refine (perform_emits (h.ended_well hd)).register_legal ?_
  rw [h.settings_of_mem hd]
  exact hrole

/-- Each task that `apt-get` adds has a register. -/
theorem Emission.register_of_aptGet {s : Session} {tasks : List Task}
    (h : Emission s .aptGet tasks) : ∀ task ∈ tasks, ∃ value, task.register? = some value := by
  cases h with
  | nothing quiet => simp
  | made base recipe known module =>
      rw [List.forall_mem_singleton]
      exact ⟨_, register?_of_module module⟩

/-! ## The registers that conditions name -/

/-- The registers after some deeds are those of the tasks before and of the deeds. -/
theorem Log.taskRegisters {s t : Session} {deeds : List Deed} (h : Log s deeds t) :
    t.taskRegisters = (s.tasks ++ deeds.flatMap Deed.tasks).filterMap Task.register? := by
  have hsame := congrArg (List.filterMap id)
    (Task.StemsFrom.map_eq_of_guard Task.register?_guard h.tasks)
  rw [List.filterMap_map, List.filterMap_map] at hsame
  exact hsame

/-- So registers are only added, behind those that are there. -/
theorem taskRegisters_grow {s t : Session} (h : Reaches s t) :
    s.taskRegisters <+: t.taskRegisters := by
  induction h with
  | refl => exact List.prefix_refl _
  | tail _ change ih =>
      rcases change.register_cases with ⟨hsame, -⟩ | ⟨name, hmore, -⟩
      · rw [hsame]
        exact ih
      · rw [hmore]
        exact ih.trans (List.prefix_append _ _)

/-- The condition of a task, if it has one, is one that a test gives, and the register that it
    may name is one of the given ones. -/
def Naming (registers : List Value) (task : Task) : Prop :=
  ∀ value, task.get? "when" = some value → ∃ register verdict,
    value = .text (guardText register verdict) ∧
      ∀ name, register = some name → .text name ∈ registers

/-- With more registers to name, a condition still names one of them. -/
theorem Naming.mono {registers more : List Value} (h : registers ⊆ more) {task : Task}
    (naming : Naming registers task) : Naming more task := by
  intro value hvalue
  obtain ⟨register, verdict, rfl, hname⟩ := naming value hvalue
  exact ⟨register, verdict, rfl, fun name hsome => h (hname name hsome)⟩

/-- The condition that a test gives names the last register, if it names one. -/
theorem Naming.guard {registers : List Value} {register : Option String} (verdict : Verdict)
    (h : ∀ name, register = some name → .text name ∈ registers) (task : Task) :
    Naming registers (task.guard (guardText register verdict)) := by
  intro value hvalue
  rw [Task.when_guard, Option.some.injEq] at hvalue
  exact ⟨register, verdict, hvalue.symm, h⟩

/-- What a command adds is on no condition. -/
theorem Emission.unconditional {s : Session} {verb : Verb} {tasks : List Task}
    (h : Emission s verb tasks) : ∀ task ∈ tasks, task.get? "when" = none := by
  cases h with
  | nothing quiet => simp
  | shown text => exact List.forall_mem_singleton.mpr rfl
  | moved src dest => exact List.forall_mem_singleton.mpr rfl
  | relinked => exact List.forall_mem_singleton.mpr rfl
  | made base recipe known module =>
      rw [List.forall_mem_singleton]
      have hnot : "when" ∉ ["register"] := by decide
      exact Recipe.get?_task_eq_none module (by decide) hnot

/-- **A condition on a status names the register of a task that is there**, or none. -/
theorem Log.naming {s t : Session} {deeds : List Deed} (h : Log s deeds t)
    (hlast : RemembersLast s) (hs : ∀ task ∈ s.tasks, Naming s.taskRegisters task) :
    ∀ task ∈ t.tasks, Naming t.taskRegisters task := by
  induction h with
  | start => exact hs
  | passing log passing ih =>
      have hgrow := (taskRegisters_grow passing.reaches).subset
      rw [passing.tasks]
      exact fun task htask => (ih hlast hs task htask).mono hgrow
  | @deed s t deeds log verb inv named done ih =>
      have hgrow := (taskRegisters_grow (Log.start.deed named done).reaches).subset
      rw [tasks_deed]
      intro task htask
      rcases List.mem_append.mp htask with hold | hnew
      · exact (ih hlast hs task hold).mono hgrow
      · intro value hvalue
        rw [(perform_emits done).unconditional task hnew] at hvalue
        exact nomatch hvalue
  | @guarded s t u deeds body log within verdict ih ihWithin =>
      have hlastThere : RemembersLast t := hlast.reaches log.reaches
      have hbody := ihWithin hlastThere (ih hlast hs)
      have hgrow := (taskRegisters_grow within.reaches).subset
      have hsame :=
        taskRegisters_guardFrom t.tasks.length (guardText t.lastRegister verdict) u.tasks
      intro task htask
      show Naming (List.filterMap Task.register? (guardFrom _ _ _)) task
      rw [hsame]
      rcases List.mem_append.mp htask with hold | hnew
      · exact hbody task (List.mem_of_mem_take hold)
      · obtain ⟨bare, -, rfl⟩ := List.mem_map.mp hnew
        -- the register that is named was the last one before the body
        refine Naming.guard verdict (fun name hname => hgrow ?_) bare
        rw [RemembersLast, hname] at hlastThere
        exact List.mem_of_getLast? hlastThere.symm

/-- **Only `apt-get` makes registers that are not legal.**  Where there is no role, or one with a
    legal name, and through whatever trees, each task is that of a deed, as it was added or on a
    condition, and its register is legal exactly if the deed is no `apt-get`.  The same goes for
    the registers that conditions on a status name, for they are registers of tasks.  So all
    registers are legal exactly if no `apt-get` has added a task. -/
theorem registers_legal_iff (settings : Settings) (registers : Registers) (trees : List Node)
    (hrole : ∀ name, settings.role = some name → isBraceable name = true) :
    let s := fresh settings registers
    let tasks := (s.goThrough trees).tasks
    List.Forall₂ Task.StemsFrom tasks ((runDeeds trees s).flatMap Deed.tasks) ∧
    (∀ d ∈ runDeeds trees s, ∀ bare ∈ d.tasks, ∀ task : Task, task.StemsFrom bare →
      ∀ value, task.register? = some value →
        ∃ name, value = .text name ∧ (isBraceable name = true ↔ d.verb ≠ .aptGet)) ∧
    (∀ task ∈ tasks, ∀ value, task.get? "when" = some value →
      ∃ register verdict, value = .text (guardText register verdict) ∧
        ∀ name, register = some name → ∃ d ∈ runDeeds trees s, ∃ bare ∈ d.tasks,
          bare.register? = some (.text name) ∧ (isBraceable name = true ↔ d.verb ≠ .aptGet)) ∧
    ((∀ task ∈ tasks, ∀ value, task.register? = some value →
        ∃ name, value = .text name ∧ isBraceable name = true) ↔
      ∀ d ∈ runDeeds trees s, d.verb = .aptGet → d.tasks = []) := by
  intro s tasks
  have hlog : Log s (runDeeds trees s) (s.goThrough trees) := runDeeds_log trees s
  have hguard : ∀ (P : Value → Prop) (task : Task) (condition : String),
      (∀ value, (task.guard condition).register? = some value → P value) ↔
        ∀ value, task.register? = some value → P value := by
    intro P task condition
    rw [Task.register?_guard]
  have hlegal := hlog.register_legal hrole
  refine ⟨hlog.tasks, ?_, ?_, ?_⟩
  · intro d hd bare hbare task hstems
    rw [hstems.eq_of_guard Task.register?_guard]
    exact hlegal d hd bare hbare
  · intro task htask value hvalue
    have hnaming := hlog.naming (fresh_remembersLast settings registers) (by simp [s, fresh])
    obtain ⟨register, verdict, hvalue, hnames⟩ := hnaming task htask value hvalue
    refine ⟨register, verdict, hvalue, fun name hname => ?_⟩
    have hmem := hnames name hname
    rw [hlog.taskRegisters] at hmem
    obtain ⟨bare, hbare, hbareRegister⟩ := List.mem_filterMap.mp hmem
    obtain ⟨d, hd, hbare⟩ := List.mem_flatMap.mp hbare
    obtain ⟨found, hfound, hiff⟩ := hlegal d hd bare hbare _ hbareRegister
    cases hfound
    exact ⟨d, hd, bare, hbare, hbareRegister, hiff⟩
  · rw [hlog.forall_tasks_iff rfl (hguard _)]
    constructor
    · intro hall d hd hverb
      refine List.eq_nil_iff_forall_not_mem.mpr fun task htask => ?_
      have hemits : Emission d.session d.verb d.tasks := perform_emits (hlog.ended_well hd)
      rw [hverb] at hemits
      obtain ⟨value, hvalue⟩ := hemits.register_of_aptGet task htask
      obtain ⟨name, rfl, hiff⟩ := hlegal d hd task htask value hvalue
      obtain ⟨found, hfound, hgood⟩ := hall d hd task htask _ hvalue
      cases hfound
      exact hiff.mp hgood hverb
    · intro hnone d hd task htask value hvalue
      obtain ⟨name, rfl, hiff⟩ := hlegal d hd task htask value hvalue
      refine ⟨name, rfl, hiff.mpr fun hverb => ?_⟩
      rw [hnone d hd hverb] at htask
      exact nomatch htask

/-- Under a role with a legal name, `apt-get update` has a register that is not legal. -/
theorem aptGet_register_not_legal :
    ∃ trees, trees = [Node.command [.word "apt-get" [], .word "update" []]] ∧
      isBraceable "web" = true ∧
      ¬ ∀ task ∈ ((fresh { role := some "web" } {}).goThrough trees).tasks, ∀ value,
        task.register? = some value → ∃ name, value = .text name ∧ isBraceable name = true := by
  have hrole : isBraceable "web" = true := by decide
  refine ⟨_, rfl, hrole, fun hall => ?_⟩
  have hroles : ∀ name, some "web" = some name → isBraceable name = true := by
    rintro name ⟨⟩
    exact hrole
  have hnone := (registers_legal_iff { role := some "web" } {} _ hroles).2.2.2.mp hall
  revert hnone
  decide +kernel

end Session

end Playscript
