import Playscript.Proofs.ActionRoutes
import Playscript.Proofs.KeptOperands

/-! # Operands of commands that are run

    A script may have the shell make directories or remove files: a command with options and
    operands in any order, in one text.  Each operand should come to a task, and no option should
    (`FileTool.Covers`).  What does is the first word behind the command, whatever it is, and no
    other.  So the operands are covered exactly if there is one only, and it stands in front of all
    options (`operands_covered_iff`). -/

namespace Playscript.Perl

/-- The commands that make directories and remove files. -/
inductive FileTool where
  | mkdir
  | rm
deriving DecidableEq, Repr

namespace FileTool

def name : FileTool → String
  | .mkdir => "mkdir"
  | .rm => "rm"

/-- The state that a command brings its operands to. -/
def state : FileTool → String
  | .mkdir => "directory"
  | .rm => "absent"

/-- The words of a command that are no options. -/
def operands (words : List String) : List String :=
  words.filter fun word => !isOption word

/-- What the task for an operand has for the module for files. -/
def argumentsFor (tool : FileTool) (operand : String) : Option Value :=
  some (record [("path", .text operand), ("state", .text tool.state)])

/-- Tasks cover the operands of a command: there is one for each of them, in their order, and none
    for an option. -/
structure Covers (tool : FileTool) (words : List String) (tasks : List Task) : Prop where
  one_each : tasks.map (·.get? "ansible.builtin.file") = (operands words).map tool.argumentsFor
  no_option : ∀ task ∈ tasks, ∀ path, task.path? = some path → isOption path = false

theorem argumentsFor_injective (tool : FileTool) : Function.Injective tool.argumentsFor := by
  intro operand other h
  simpa [argumentsFor, record] using h

/-- The first word behind a command is what its task is about. -/
theorem ranTask_cons (tool : FileTool) (first : String) (rest : List String) :
    (Operation.ranTask tool.name (first :: rest)).get? "ansible.builtin.file"
        = tool.argumentsFor first ∧
      (Operation.ranTask tool.name (first :: rest)).path? = some first := by
  cases tool with
  | mkdir => exact ⟨rfl, rfl⟩
  | rm => exact ⟨rfl, rfl⟩

/-- The first of some words is their only operand if it stands in front of options only. -/
theorem operands_eq_first_iff {first : String} {rest : List String} :
    operands (first :: rest) = [first] ↔
      isOption first = false ∧ ∀ word ∈ rest, isOption word = true := by
  by_cases hfirst : isOption first = true
  · refine iff_of_false (fun h => ?_) (fun h => Bool.noConfusion (hfirst.symm.trans h.1))
    have hmem : first ∈ operands (first :: rest) := h ▸ List.mem_singleton_self first
    simp [operands, hfirst] at hmem
  · rw [operands, List.filter_cons_of_pos (by simpa using hfirst)]
    simp [hfirst]

/-- One task, for the first word, covers the operands if that word is all of them. -/
theorem covers_singleton_iff {tool : FileTool} {first : String} {rest : List String} {task : Task}
    (harguments : task.get? "ansible.builtin.file" = tool.argumentsFor first)
    (hpath : task.path? = some first) :
    tool.Covers (first :: rest) [task] ↔ operands (first :: rest) = [first] := by
  constructor
  · intro h
    have hone := h.one_each
    rw [List.map_singleton, harguments, ← List.map_singleton] at hone
    exact ((argumentsFor_injective tool).list_map hone).symm
  · intro h
    refine ⟨by rw [List.map_singleton, harguments, h, List.map_singleton], ?_⟩
    intro other hother path hpath'
    rw [List.mem_singleton.mp hother, hpath] at hpath'
    rw [← Option.some.inj hpath']
    exact (operands_eq_first_iff.mp h).1

end FileTool

/-- **Whether the operands of a command are covered.**  A command that makes directories or removes
    files comes to one task, for the first word behind it.  So its operands are covered exactly if
    one of them is the first word and all words behind it are options, wherever in a log the command
    stands. -/
theorem operands_covered_iff (tool : FileTool) {text : String} {words : List String}
    (hwords : Text.words text = tool.name :: words) (hoperands : FileTool.operands words ≠ [])
    {call : LoggedCall} (hcall : call.Runs text) {item : Value} (hitem : call.Told item)
    {before behind : List Value} {earlier later : List Task}
    (hbefore : tasksOfItems before = .ok earlier) (hbehind : tasksOfItems behind = .ok later) :
    ∃ task, tasksOfLog (.list (before ++ item :: behind)) = .ok (earlier ++ ([task] ++ later)) ∧
      task.path? = words.head? ∧
      (tool.Covers words [task] ↔ ∃ operand options, words = operand :: options ∧
        isOption operand = false ∧ ∀ word ∈ options, isOption word = true) := by
  cases words with
  | nil => exact absurd rfl hoperands
  | cons first rest =>
      obtain ⟨harguments, hpath⟩ := tool.ranTask_cons first rest
      refine ⟨_, tasksOfLog_told hitem (.ran hcall hwords) hbefore hbehind, hpath, ?_⟩
      rw [FileTool.covers_singleton_iff harguments hpath, FileTool.operands_eq_first_iff]
      constructor
      · intro h
        exact ⟨first, rest, rfl, h⟩
      · rintro ⟨operand, options, heq, h⟩
        obtain ⟨rfl, rfl⟩ := List.cons.inj heq
        exact h

/-- `mkdir -p /srv/new` makes a directory `-p`, while `rm /srv/old -f` removes what it should. -/
theorem option_in_front_not_covered :
    (∃ item task, (LoggedCall.system ["mkdir -p /srv/new"]).Told item ∧
      tasksOfLog (.list [item]) = .ok [task] ∧ task.path? = some "-p" ∧
      ¬ FileTool.mkdir.Covers ["-p", "/srv/new"] [task]) ∧
    ∃ item task, (LoggedCall.exec ["rm /srv/old -f"]).Told item ∧
      tasksOfLog (.list [item]) = .ok [task] ∧ FileTool.rm.Covers ["/srv/old", "-f"] [task] := by
  have hempty : tasksOfItems [] = .ok [] := rfl
  have hmkdir := LoggedCall.told_record (.system ["mkdir -p /srv/new"])
  have hrm := LoggedCall.told_record (.exec ["rm /srv/old -f"])
  obtain ⟨made, hmade, hpath, hcovers⟩ := @operands_covered_iff .mkdir _ ["-p", "/srv/new"]
    (by decide) (by decide) _ .system _ hmkdir _ _ _ _ hempty hempty
  obtain ⟨removed, hremoved, -, hcovers'⟩ := @operands_covered_iff .rm _ ["/srv/old", "-f"]
    (by decide) (by decide) _ .exec _ hrm _ _ _ _ hempty hempty
  refine ⟨⟨_, made, hmkdir, hmade, hpath, fun h => ?_⟩,
    ⟨_, removed, hrm, hremoved, hcovers'.mpr ?_⟩⟩
  · obtain ⟨operand, options, hwords, hoperand, -⟩ := hcovers.mp h
    rw [← (List.cons.inj hwords).1] at hoperand
    exact absurd hoperand (by decide)
  · exact ⟨"/srv/old", ["-f"], rfl, by decide, by decide⟩

end Playscript.Perl
