import Playscript.Proofs.LineMeanings
import Playscript.Proofs.TaskShapes

/-! # The tasks that lines give

    A command of a known shape gives a task of its own, which is on no condition.  A command of no
    known shape is run by a shell, under a register that no other task has, or only told about, with
    a module that no other task has.  Both show the whole command.  So the tasks of a rule are
    told from all others (`isNative_of_rule`), and what is said of a command without a shape is
    said of no other command (`eq_of_unshaped`). -/

namespace Playscript

theorem Task.get?_guard_of_ne (t : Task) (condition : String) {key : String} (h : key ≠ "when") :
    (t.guard condition).get? key = t.get? key :=
  Entries.get?_set_of_ne t.fields _ fun heq => h (Scalar.text.inj heq)

namespace Line

open State (registerOf)
open Text (Matcher)

/-! ## Tasks of rules -/

/-- Whether a task has a shell run a command that has no known shape. -/
def fromShell (t : Task) : Bool :=
  registerOf t == some "shell_command_result"

/-- The keys by which the tasks of commands without a shape are known, and those on a condition. -/
def telltaleKeys : List String :=
  ["when", "ansible.builtin.debug", "register"]

/-- A task that is on no condition, and neither has a shell run a command nor tells of one. -/
structure IsNative (t : Task) : Prop where
  unguarded : .text "when" ∉ t.keys
  not_skipped : .text "ansible.builtin.debug" ∉ t.keys
  not_shell : fromShell t = false

/-- A recipe makes a native task, if its module is none of the telltale keys: it has no other key of
    its own but its name. -/
theorem IsNative.of_recipe {r : Recipe}
    (h : r.module ∉ telltaleKeys) : IsNative (r.task []) := by
  have hkeys : (r.task []).keys = [.text "name", .text r.module] := rfl
  simp only [telltaleKeys, List.mem_cons, List.not_mem_nil, or_false, not_or] at h
  have hnot : ∀ key : String, key ≠ "name" → r.module ≠ key → .text key ∉ (r.task []).keys := by
    intro key hname hmodule
    rw [hkeys, List.mem_pair, not_or]
    exact ⟨fun heq => hname (Scalar.text.inj heq), fun heq => hmodule (Scalar.text.inj heq).symm⟩
  refine ⟨hnot _ (by decide) h.1, hnot _ (by decide) h.2.1, ?_⟩
  rw [fromShell, registerOf, Task.register?,
    Task.get?_eq_none (hnot "register" (by decide) h.2.2)]
  rfl

/-- A rule whose tasks are native. -/
def GivesNative (rule : List Char → Option Meaning) : Prop :=
  ∀ cs t, rule cs = some (.task t) → IsNative t

/-- A shape gives native tasks if all that it makes of what it finds is native. -/
theorem GivesNative.of_map {α : Type} {shape : List Char → Option α} {f : α → Meaning}
    (h : ∀ a t, f a = .task t → IsNative t) : GivesNative fun cs => (shape cs).map f := by
  intro cs t hrule
  obtain ⟨a, -, ha⟩ := Option.map_eq_some_iff.mp hrule
  exact h a t ha

/-- In particular if it makes them by a recipe. -/
theorem GivesNative.of_recipe {α : Type} {shape : List Char → Option α} {r : α → Recipe}
    (h : ∀ a, (r a).module ∉ telltaleKeys) :
    GivesNative fun cs => (shape cs).map fun a => .task ((r a).task []) := by
  refine .of_map fun a t ht => ?_
  cases ht
  exact .of_recipe (h a)

/-- A text that goes into a file makes a native task: its register is not that of a shell. -/
theorem isNative_writtenTask (s : Surroundings) (text file : String) :
    IsNative (writtenTask s text file) := by
  have hkeys : (writtenTask s text file).keys
      = [.text "name", .text "ansible.builtin.copy", .text "register"] := rfl
  exact ⟨by rw [hkeys]; decide, by rw [hkeys]; decide, rfl⟩

theorem isNative_grepTask (pattern file : String) : IsNative (grepTask pattern file) := by
  have hkeys : (grepTask pattern file).keys = [.text "name", .text "shell", .text "register"] := rfl
  exact ⟨by rw [hkeys]; decide, by rw [hkeys]; decide, rfl⟩

/-- **Every task of a rule is native.** -/
theorem isNative_of_rule (s : Surroundings) : ∀ rule ∈ rules s, GivesNative rule := by
  simp only [rules, List.forall_mem_cons, List.not_mem_nil, false_implies, implies_true, and_true]
  have hfile : "ansible.builtin.file" ∉ telltaleKeys := by decide
  have hcopy : "ansible.builtin.copy" ∉ telltaleKeys := by decide
  have hshell : "ansible.builtin.shell" ∉ telltaleKeys := by decide
  have harchive : "ansible.builtin.unarchive" ∉ telltaleKeys := by decide
  have hapt : "ansible.builtin." ++ "apt" ∉ telltaleKeys := by decide
  have hyum : "ansible.builtin." ++ "yum" ∉ telltaleKeys := by decide
  refine ⟨.of_map ?_, .of_map ?_, .of_recipe fun _ => hfile, .of_recipe fun _ => hfile,
    .of_recipe fun _ => hfile, .of_recipe fun _ => hcopy, .of_recipe fun _ => hshell,
    .of_recipe fun _ => harchive, .of_recipe fun _ => hfile, .of_recipe fun _ => hapt,
    .of_recipe fun _ => hapt, .of_recipe fun _ => hapt, .of_recipe fun _ => hyum,
    .of_recipe fun _ => hyum, .of_map ?_, .of_map ?_⟩
  · rintro ⟨name, value⟩ t ht
    cases ht
  · rintro mask t ht
    cases ht
  · rintro ⟨text, file⟩ t ht
    cases ht
    exact isNative_writtenTask s text file
  · rintro ⟨pattern, file⟩ t ht
    cases ht
    exact isNative_grepTask pattern file

/-! ## Commands without a shape -/

/-- No rule is content with a command. -/
def Unshaped (s : Surroundings) (command : String) : Prop :=
  (rules s).findSome? (· command.toList) = none

/-- The task of a command without a shape. -/
def fallbackTask (s : Surroundings) (command : String) : Task :=
  if s.allowShell then shellTask s command else skippedTask command

variable {s : Surroundings} {command : String}

/-- A command that no shape fits goes to the task of last resort. -/
theorem shapeMeaning_of_unshaped (h : Unshaped s command) :
    shapeMeaning s command = .task (fallbackTask s command) := by
  rw [Unshaped] at h
  rw [shapeMeaning, h]
  rfl

/-- So a task that a shape gives is native. -/
theorem isNative_of_shaped (h : ¬ Unshaped s command) {t : Task}
    (ht : shapeMeaning s command = .task t) : IsNative t := by
  obtain ⟨found, hfound⟩ := Option.ne_none_iff_exists'.mp h
  obtain ⟨rule, hrule, hgives⟩ := List.exists_of_findSome?_eq_some hfound
  rw [shapeMeaning, hfound] at ht
  cases ht
  exact isNative_of_rule s rule hrule _ t hgives

/-- A command that starts like no name has no shape. -/
theorem unshaped_of_start {c : Char} (hc : Reference.startsName c = false) {rest : List Char}
    (hcommand : command.toList = c :: rest) : Unshaped s command := by
  have hassign : Shape.assignment.run (c :: rest) = none := by
    simp [Matcher.run, Shape.assignment, Matcher.exactly, hc]
  have hheads : ∀ head ∈ heads, ¬ head.toList <+: c :: rest := by
    intro head hhead hstart
    have hletter : head.toList.head?.any Reference.startsName = true :=
      (by decide : ∀ head ∈ heads, head.toList.head?.any Reference.startsName = true) head hhead
    cases hlist : head.toList with
    | nil => simp [hlist] at hletter
    | cons d more =>
        rw [hlist, List.cons_prefix_cons] at hstart
        rw [hlist, hstart.1] at hletter
        simp [hc] at hletter
  rw [Unshaped, hcommand, List.findSome?_eq_none_iff]
  intro rule hrule
  obtain ⟨assigned, hrules⟩ : ∃ assigned,
      rules s = (fun cs => (Shape.assignment.run cs).map assigned) :: (rules s).tail := ⟨_, rfl⟩
  rw [hrules] at hrule
  rcases List.mem_cons.mp hrule with rfl | hrule
  · show (Shape.assignment.run (c :: rest)).map assigned = none
    rw [hassign]
    rfl
  · obtain ⟨head, hhead, hstarts⟩ := exists_of_forall₂ (rules_startWith s) hrule
    exact hstarts _ (hheads head hhead)

/-! ## What is said of a command -/

theorem fromShell_guard (t : Task) (condition : String) :
    fromShell (t.guard condition) = fromShell t := by
  rw [fromShell, registerOf, Task.register?, Task.get?_guard_of_ne t condition (by decide)]
  rfl

/-- A shell is told the whole command. -/
theorem get?_shellTask (s : Surroundings) (command : String) :
    (shellTask s command).get? "ansible.builtin.shell" = some (.text command) := by
  unfold shellTask
  split
  · split
    · rfl
    · rw [Task.get?_guard_of_ne _ _ (by decide)]
      rfl
  · rfl

/-- Of a command that is skipped the whole is told. -/
theorem get?_skippedTask (command : String) :
    (skippedTask command).get? "ansible.builtin.debug"
      = some (record [("msg", .text ("Command skipped: " ++ command))]) := rfl

/-- A task for the shell is known by its register, whatever the command is. -/
theorem fromShell_shellTask (s : Surroundings) (command : String) :
    fromShell (shellTask s command) = true := by
  unfold shellTask
  split
  · split
    · rfl
    · rw [fromShell_guard]
      rfl
  · rfl

/-- A shell runs a command on the condition of its block. -/
theorem when_shellTask (hcondition : ∀ text ∈ s.condition, text ≠ "") (command : String) :
    (shellTask s command).get? "when" = s.condition.map .text := by
  unfold shellTask
  split
  · next text heq =>
      rw [if_neg (by simpa using hcondition text heq), Task.when_guard, heq]
      rfl
  · next heq =>
      rw [heq]
      rfl

/-- **What is said of a command without a shape is said of no other command.** -/
theorem eq_of_unshaped (h : Unshaped s command) {other : String}
    (hsame : shapeMeaning s other = shapeMeaning s command) : other = command := by
  rw [shapeMeaning_of_unshaped h] at hsame
  by_cases hother : Unshaped s other
  · rw [shapeMeaning_of_unshaped hother] at hsame
    have htasks := Meaning.task.inj hsame
    unfold fallbackTask at htasks
    split at htasks
    · have hshown := congrArg (Task.get? · "ansible.builtin.shell") htasks
      simpa only [get?_shellTask, Option.some.injEq, Value.scalar.injEq, Scalar.text.injEq]
        using hshown
    · have hshown := congrArg (Task.get? · "ansible.builtin.debug") htasks
      simp only [get?_skippedTask, record, List.map_cons, List.map_nil, Option.some.injEq,
        Value.map.injEq, List.cons.injEq, Prod.mk.injEq, Value.scalar.injEq, Scalar.text.injEq,
        and_true, true_and, ← String.toList_inj, String.toList_append] at hshown
      exact String.toList_inj.mp (List.append_cancel_left hshown)
  · -- the task shows what no task of a rule does
    have hnative := isNative_of_shaped hother hsame
    unfold fallbackTask at hnative
    split at hnative
    · have hshell := hnative.not_shell
      rw [fromShell_shellTask] at hshell
      cases hshell
    · exact absurd (List.mem_cons_of_mem _ List.mem_cons_self) hnative.not_skipped

/-- The task of a command is on the condition of its block if a shell runs it, and else on none. -/
theorem when_of_shapeMeaning (hcondition : ∀ text ∈ s.condition, text ≠ "") {t : Task}
    (ht : shapeMeaning s command = .task t) :
    t.get? "when" = if fromShell t then s.condition.map .text else none := by
  by_cases hshape : Unshaped s command
  · rw [shapeMeaning_of_unshaped hshape] at ht
    cases Meaning.task.inj ht
    unfold fallbackTask
    split
    · rw [fromShell_shellTask, if_pos rfl, when_shellTask hcondition]
    · rfl
  · have hnative := isNative_of_shaped hshape ht
    rw [hnative.not_shell, if_neg Bool.false_ne_true, Task.get?_eq_none hnative.unguarded]

end Line

end Playscript
