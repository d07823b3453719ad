import Playscript.Proofs.Emissions

/-! # The shape of tasks

    A task is well formed if it has a name and one module, and beside them at most the register,
    the conditions and the further arguments of the module, which have a key of their own.  A
    condition that is put on a task later keeps its shape (`wellFormed_guard`), so it is enough to
    look at tasks as they are added.  Of the five shapes in which commands add tasks one is not
    well formed: a move has the arguments `creates` and `removes` beside its module.  So the
    tasks of a run are well formed exactly if it has done no move (`wellFormed_iff_no_move`). -/

namespace Playscript

open Shell (Node)

/-- Setting a key leaves the keys as they are, or adds it as the last. -/
theorem Entries.keys_set (entries : Entries) (key : Scalar) (value : Value) :
    (entries.set key value).map Prod.fst
      = if key ∈ entries.map Prod.fst then entries.map Prod.fst
        else entries.map Prod.fst ++ [key] := by
  induction entries with
  | nil => simp [Entries.set]
  | cons entry rest ih =>
      by_cases hk : entry.1 = key
      · simp [Entries.set, hk]
      · rw [Entries.set, if_neg hk, List.map_cons, List.map_cons, ih]
        by_cases hmem : key ∈ rest.map Prod.fst
        · rw [if_pos hmem, if_pos (List.mem_cons_of_mem _ hmem)]
        · rw [if_neg hmem, if_neg (by simp [Ne.symm hk, hmem]), List.cons_append]

/-- What is not about a key is picked the same before and after it is set. -/
theorem Entries.filter_set (picks : Scalar → Bool) {key : Scalar} (h : picks key = true)
    (entries : Entries) (value : Value) :
    (entries.set key value).filter (fun entry => picks entry.1)
      = Entries.set (entries.filter fun entry => picks entry.1) key value := by
  induction entries with
  | nil => simp [Entries.set, h]
  | cons entry rest ih =>
      by_cases hk : entry.1 = key
      · simp [Entries.set, hk, h]
      · by_cases hp : picks entry.1 = true
        · simpa [Entries.set, hk, hp] using ih
        · simpa [Entries.set, hk, hp] using ih

namespace Task

/-- The modules that tasks use. -/
def modules : List String :=
  ["ansible.builtin.file", "ansible.builtin.copy", "ansible.builtin.command",
   "ansible.builtin.unarchive", "ansible.builtin.apt", "ansible.builtin.yum",
   "ansible.builtin.debug", "ansible.builtin.lineinfile", "shell"]

/-- The keys that may stand beside the name and the module. -/
def sideKeys : List String :=
  ["register", "when", "changed_when", "args"]

def keys (t : Task) : List Scalar :=
  t.fields.map Prod.fst

theorem get?_eq_none {t : Task} {key : String} (h : .text key ∉ t.keys) : t.get? key = none := by
  refine Option.map_eq_none_iff.mpr (List.find?_eq_none.mpr fun entry hentry heq => h ?_)
  rw [← eq_of_beq heq]
  exact List.mem_map_of_mem hentry

/-- A task has each of its keys once, a name, one module, and else side keys at most. -/
structure WellFormed (t : Task) : Prop where
  nodup : t.keys.Nodup
  named : .text "name" ∈ t.keys
  one_module : ∃ module ∈ modules, ∀ other ∈ modules, .text other ∈ t.keys ↔ other = module
  no_others : ∀ key ∈ t.keys,
    key = .text "name" ∨ (∃ module ∈ modules, key = .text module) ∨
      ∃ side ∈ sideKeys, key = .text side

/-! ## Conditions keep the shape -/

theorem keys_guard (t : Task) (condition : String) :
    (t.guard condition).keys
      = if .text "when" ∈ t.keys then t.keys else t.keys ++ [.text "when"] :=
  Entries.keys_set t.fields (.text "when") _

/-- A condition adds one key. -/
theorem mem_keys_guard {t : Task} {condition : String} {key : Scalar} :
    key ∈ (t.guard condition).keys ↔ key ∈ t.keys ∨ key = .text "when" := by
  rw [keys_guard]
  split
  · next hmem =>
      constructor
      · exact .inl
      · rintro (h | rfl)
        · exact h
        · exact hmem
  · simp

theorem mem_keys_guard_of_ne {t : Task} {condition key : String} (h : key ≠ "when") :
    .text key ∈ (t.guard condition).keys ↔ .text key ∈ t.keys := by
  rw [mem_keys_guard, or_iff_left (by simpa using h)]

theorem module_ne_when : ∀ module ∈ modules, module ≠ "when" := by decide

/-- **A condition neither makes nor breaks the shape of a task.** -/
theorem wellFormed_guard (t : Task) (condition : String) :
    (t.guard condition).WellFormed ↔ t.WellFormed := by
  have hmodule : ∀ other ∈ modules,
      (.text other ∈ (t.guard condition).keys ↔ Scalar.text other ∈ t.keys) :=
    fun other hother => mem_keys_guard_of_ne (module_ne_when other hother)
  constructor
  · intro h
    obtain ⟨module, hmem, hone⟩ := h.one_module
    refine ⟨?_, (mem_keys_guard_of_ne (by decide)).mp h.named,
      ⟨module, hmem, fun other hother => (hmodule other hother).symm.trans (hone other hother)⟩,
      fun key hkey => h.no_others key (mem_keys_guard.mpr (.inl hkey))⟩
    have hnodup := h.nodup
    rw [keys_guard] at hnodup
    split at hnodup
    · exact hnodup
    · exact hnodup.of_append_left
  · intro h
    obtain ⟨module, hmem, hone⟩ := h.one_module
    refine ⟨?_, (mem_keys_guard_of_ne (by decide)).mpr h.named,
      ⟨module, hmem, fun other hother => (hmodule other hother).trans (hone other hother)⟩, ?_⟩
    · rw [keys_guard]
      split
      · exact h.nodup
      · next hnot => exact List.nodup_append_comm.mp (List.nodup_cons.mpr ⟨hnot, h.nodup⟩)
    · intro key hkey
      rcases mem_keys_guard.mp hkey with hkey | rfl
      · exact h.no_others key hkey
      · exact .inr (.inr ⟨"when", by decide, rfl⟩)

/-! ## Tasks as they are added -/

theorem keys_make (name module : String) (arguments : Value) (more : List (String × Value)) :
    (make name module arguments more).keys
      = .text "name" :: .text module :: (more.map Prod.fst).map Scalar.text := by
  simp [keys, make]

/-- A task has its name, its module and the keys beside it. -/
theorem mem_keys_make {name module : String} {arguments : Value} {more : List (String × Value)}
    {key : Scalar} : key ∈ (make name module arguments more).keys ↔
      key = .text "name" ∨ key = .text module ∨ ∃ side ∈ more.map Prod.fst, key = .text side := by
  rw [keys_make, List.mem_cons, List.mem_cons, List.mem_map]
  simp only [eq_comm]

/-- A task with one of the modules and side keys is well formed. -/
theorem wellFormed_make {name module : String} {arguments : Value}
    {more : List (String × Value)} (hmodule : module ∈ modules)
    (hside : more.map Prod.fst ⊆ sideKeys) (hnodup : (more.map Prod.fst).Nodup) :
    (make name module arguments more).WellFormed := by
  have hname : "name" ∉ modules ∧ "name" ∉ sideKeys := by decide
  have hapart : ∀ key ∈ modules, key ∉ sideKeys := by decide
  refine ⟨?_, mem_keys_make.mpr (.inl rfl), ⟨module, hmodule, fun other hother => ?_⟩, ?_⟩
  · rw [keys_make, ← List.map_cons, ← List.map_cons]
    refine List.Nodup.map (fun _ _ => Scalar.text.inj) ?_
    refine List.nodup_cons.mpr ⟨?_, List.nodup_cons.mpr ⟨?_, hnodup⟩⟩
    · intro hmem
      rcases List.mem_cons.mp hmem with heq | hmem
      · exact hname.1 (heq ▸ hmodule)
      · exact hname.2 (hside hmem)
    · exact fun hmem => hapart module hmodule (hside hmem)
  · rw [mem_keys_make]
    constructor
    · rintro (h | h | ⟨side, hmem, h⟩)
      · exact absurd (Scalar.text.inj h ▸ hother) hname.1
      · exact Scalar.text.inj h
      · exact absurd (Scalar.text.inj h ▸ hside hmem) (hapart other hother)
    · rintro rfl
      exact .inr (.inl rfl)
  · intro key hkey
    rcases mem_keys_make.mp hkey with h | h | ⟨side, hmem, h⟩
    · exact .inl h
    · exact .inr (.inl ⟨module, hmodule, h⟩)
    · exact .inr (.inr ⟨side, hside hmem, h⟩)

/-- A task without some of its keys. -/
def without (t : Task) (dropped : List String) : Task :=
  ⟨t.fields.filter fun entry => !(dropped.map Scalar.text).contains entry.1⟩

/-- A condition can be put on a task before some keys are dropped or afterwards. -/
theorem without_guard {dropped : List String} (h : "when" ∉ dropped) (t : Task)
    (condition : String) :
    (t.guard condition).without dropped = (t.without dropped).guard condition := by
  have hkept : (!(dropped.map Scalar.text).contains (.text "when")) = true := by simpa using h
  exact congrArg Task.mk
    (Entries.filter_set (fun key => !(dropped.map Scalar.text).contains key) hkept t.fields _)

/-- A task that has none of some keys is the same without them. -/
theorem without_eq_self {t : Task} {dropped : List String}
    (h : ∀ key ∈ dropped, Scalar.text key ∉ t.keys) : t.without dropped = t := by
  refine congrArg Task.mk (List.filter_eq_self.mpr fun entry hentry => ?_)
  have hnot : ∀ key ∈ dropped, Scalar.text key ≠ entry.1 := by
    intro key hkey heq
    exact h key hkey (heq ▸ List.mem_map_of_mem hentry)
  simpa using hnot

end Task

namespace Recipe

variable {recipe : Recipe} (h : recipe.module ∈ modules) {key : String}
  (hkey : key ∈ Task.sideKeys)

include h hkey

/-- The module of a recipe is none of the keys that may stand beside it. -/
theorem module_ne_side : recipe.module ≠ key := by
  have hapart : ∀ key ∈ Task.sideKeys, key ∉ modules := by decide
  exact fun heq => hapart key hkey (heq ▸ h)

/-- The task of a recipe has only those side keys that it is given. -/
theorem get?_task_eq_none {more : List (String × Value)} (hmore : key ∉ more.map Prod.fst) :
    (recipe.task more).get? key = none := by
  have hname : ∀ key ∈ Task.sideKeys, key ≠ "name" := by decide
  refine Task.get?_eq_none fun hmem => ?_
  rcases Task.mem_keys_make.mp hmem with heq | heq | ⟨side, hside, heq⟩
  · exact hname key hkey (Scalar.text.inj heq)
  · exact module_ne_side h hkey (Scalar.text.inj heq).symm
  · exact hmore (Scalar.text.inj heq ▸ hside)

end Recipe

namespace Session

/-- The arguments of a move that stand beside its module. -/
def moveArguments : List String :=
  ["creates", "removes"]

/-- What a command adds is well formed, unless it is a move; and so is what a move adds, but for
    two arguments that stand beside the module. -/
theorem Emission.wellFormed {s : Session} {verb : Verb} {tasks : List Task}
    (h : Emission s verb tasks) : ∀ task ∈ tasks,
      (task.WellFormed ↔ verb ≠ .mv) ∧ (task.without moveArguments).WellFormed := by
  -- a task of the right shape has none of the two arguments to lose
  have hright : ∀ {task : Task}, task.WellFormed → verb ≠ .mv →
      (task.WellFormed ↔ verb ≠ .mv) ∧ (task.without moveArguments).WellFormed := by
    intro task hshape hverb
    refine ⟨iff_of_true hshape hverb, ?_⟩
    rw [Task.without_eq_self]
    · exact hshape
    · intro key hkey hmem
      have hother : key ≠ "name" ∧ key ∉ Task.modules ∧ key ∉ Task.sideKeys := by
        have hall : ∀ key ∈ moveArguments,
            key ≠ "name" ∧ key ∉ Task.modules ∧ key ∉ Task.sideKeys := by decide
        exact hall key hkey
      rcases hshape.no_others _ hmem with h | ⟨module, hmodule, h⟩ | ⟨side, hside, h⟩
      · exact hother.1 (Scalar.text.inj h)
      · exact hother.2.1 (Scalar.text.inj h ▸ hmodule)
      · exact hother.2.2 (Scalar.text.inj h ▸ hside)
  have hregister : ["register"] ⊆ Task.sideKeys := by decide
  cases h with
  | nothing quiet => simp
  | shown text =>
      rw [List.forall_mem_singleton]
      exact hright (Task.wellFormed_make (by decide) (List.nil_subset _) .nil) (by decide)
  | relinked =>
      rw [List.forall_mem_singleton]
      have hside : ["register", "changed_when"] ⊆ Task.sideKeys := by decide
      exact hright (Task.wellFormed_make (by decide) hside (by simp)) (by decide)
  | made base recipe known module =>
      rw [List.forall_mem_singleton]
      have hmodules : ∀ module ∈ Recipe.modules, module ∈ Task.modules := by decide
      refine hright (Task.wellFormed_make (hmodules _ module) hregister (by simp)) ?_
      rintro rfl
      exact nomatch known
  | moved src dest =>
      rw [List.forall_mem_singleton]
      refine ⟨iff_of_false (fun hshape => ?_) (by simp), ?_⟩
      · have hmem : Scalar.text "creates" ∈ (moveTask src dest (s.nextRegister "mv")).keys :=
          Task.mem_keys_make.mpr (.inr (.inr ⟨"creates", by simp, rfl⟩))
        rcases hshape.no_others _ hmem with h | ⟨module, hmodule, h⟩ | ⟨side, hside, h⟩
        · exact absurd (Scalar.text.inj h) (by decide)
        · exact absurd (Scalar.text.inj h ▸ hmodule) (by decide)
        · exact absurd (Scalar.text.inj h ▸ hside) (by decide)
      · show (Task.make _ "shell" _ [("register", _)]).WellFormed
        exact Task.wellFormed_make (by decide) hregister (by simp)

theorem Deed.wellFormed {d : Deed}
    (hdone : (perform d.verb d.invocation).outcome d.session = .ok ()) : ∀ task ∈ d.tasks,
      (task.WellFormed ↔ d.verb ≠ .mv) ∧ (task.without moveArguments).WellFormed :=
  (perform_emits hdone).wellFormed

/-- A move that is done adds a task. -/
theorem Deed.tasks_ne_nil_of_mv {d : Deed}
    (hdone : (perform d.verb d.invocation).outcome d.session = .ok ()) (hmv : d.verb = .mv) :
    d.tasks ≠ [] := by
  have hemits : Emission d.session d.verb d.tasks := perform_emits hdone
  rw [hmv] at hemits
  generalize d.tasks = tasks at hemits
  cases hemits with
  | nothing quiet => exact nomatch quiet
  | moved src dest => exact List.cons_ne_nil _ _
  | made base recipe known module => exact List.cons_ne_nil _ _

/-- **Only moves break the shape of tasks.**  From a session in which nothing has been done, and
    through whatever trees, some of which may fail, each task is that of a deed, as it was added
    or on a condition.  It is well formed exactly if the deed is no move, and always without the
    two arguments that a move has beside its module.  So all tasks are well formed exactly if the
    run has done no move. -/
theorem wellFormed_iff_no_move (settings : Settings) (registers : Registers)
    (trees : List Node) :
    let s := fresh settings registers
    let tasks := (s.goThrough trees).tasks
    List.Forall₂ Task.StemsFrom tasks ((runDeeds trees s).flatMap Deed.tasks) ∧
    (∀ d ∈ runDeeds trees s, ∀ bare ∈ d.tasks, ∀ task : Task, task.StemsFrom bare →
      (task.WellFormed ↔ d.verb ≠ .mv)) ∧
    (∀ task ∈ tasks, (task.without moveArguments).WellFormed) ∧
    ((∀ task ∈ tasks, task.WellFormed) ↔ ∀ d ∈ runDeeds trees s, d.verb ≠ .mv) := by
  intro s tasks
  have hlog : Log s (runDeeds trees s) (s.goThrough trees) := runDeeds_log trees s
  refine ⟨hlog.tasks, ?_, ?_, ?_⟩
  · intro d hd bare hbare task hstems
    rw [hstems.eq_of_guard fun task condition => propext (task.wellFormed_guard condition)]
    exact (Deed.wellFormed (hlog.ended_well hd) bare hbare).1
  · have hguard : ∀ (task : Task) condition,
        ((task.guard condition).without moveArguments).WellFormed
          ↔ (task.without moveArguments).WellFormed := by
      intro task condition
      rw [Task.without_guard (by decide), Task.wellFormed_guard]
    rw [hlog.forall_tasks_iff rfl hguard]
    exact fun d hd task htask => (Deed.wellFormed (hlog.ended_well hd) task htask).2
  · rw [hlog.forall_tasks_iff rfl Task.wellFormed_guard]
    constructor
    · intro hall d hd hmv
      obtain ⟨task, htask⟩ :=
        List.exists_mem_of_ne_nil _ (Deed.tasks_ne_nil_of_mv (hlog.ended_well hd) hmv)
      exact (Deed.wellFormed (hlog.ended_well hd) task htask).1.mp (hall d hd task htask) hmv
    · intro hall d hd task htask
      exact (Deed.wellFormed (hlog.ended_well hd) task htask).1.mpr (hall d hd)

/-- Of a file that is touched and moved the second task is not well formed. -/
theorem move_not_wellFormed :
    ∃ trees, trees = [Node.command [.word "touch" [], .word "/a" []],
        .command [.word "mv" [], .word "/a" [], .word "/b" []]] ∧
      (¬ ∀ task ∈ ((fresh {} {}).goThrough trees).tasks, task.WellFormed) ∧
      ∃ d ∈ runDeeds trees (fresh {} {}), ∃ task ∈ d.tasks, task.WellFormed := by
  refine ⟨_, rfl, fun hall => ?_, ?_⟩
  · have hno := (wellFormed_iff_no_move {} {} _).2.2.2.mp hall
    revert hno
    decide +kernel
  · have htouch : ∃ d ∈ runDeeds [Node.command [.word "touch" [], .word "/a" []],
        .command [.word "mv" [], .word "/a" [], .word "/b" []]] (fresh {} {}),
        d.verb ≠ .mv ∧ d.tasks.length ≠ 0 := by decide +kernel
    obtain ⟨d, hd, hverb, hlength⟩ := htouch
    obtain ⟨task, htask⟩ := List.exists_mem_of_length_pos (Nat.pos_of_ne_zero hlength)
    have hshape := (wellFormed_iff_no_move {} {} _).2.1 d hd task htask task (.refl task)
    exact ⟨d, hd, task, htask, hshape.mpr hverb⟩

end Session

end Playscript
