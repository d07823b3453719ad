import Playscript.Proofs.ActionRoutes

/-! # Files that are opened

    A file is opened in a mode: a sign that tells whether it is read, written or both, and behind it
    the layers that its text goes through.  A file that is only read stays as it is, and any other
    is there afterwards, so a task has to see to it.

    Whether one does hangs on three characters and not on the sign: on a plus, which the signs for
    reading and writing have, and on two letters, which no sign has but a layer may.  So a mode
    comes to what it should exactly if its sign has a plus, or if it happens that one of the three
    stands in the layers of a file that is written and none in those of a file that is read
    (`opened_file_right_iff`). -/

namespace Playscript.Perl

/-- The sign at the front of a mode. -/
inductive OpenSign where
  | read
  | write
  | append
  /-- Reading and writing what is there. -/
  | update
  /-- Reading and writing from the start. -/
  | rewrite
  /-- Reading, and writing behind what is there. -/
  | extend
deriving DecidableEq, Repr

namespace OpenSign

/-- The sign as it is written. -/
def text : OpenSign → String
  | .read => "<"
  | .write => ">"
  | .append => ">>"
  | .update => "+<"
  | .rewrite => "+>"
  | .extend => "+>>"

/-- Whether a file is opened for both reading and writing. -/
def isBoth : OpenSign → Bool
  | .read | .write | .append => false
  | .update | .rewrite | .extend => true

/-- Tasks are what a file that is opened should come to: none if it is only read, and otherwise one
    that sees to it that the file is there. -/
def Right (sign : OpenSign) (file : String) (tasks : List Task) : Prop :=
  if sign = .read then tasks = []
  else ∃ task, tasks = [task] ∧ task.get? "ansible.builtin.file"
    = some (record [("path", .text file), ("state", .text "touch")])

end OpenSign

/-- One of the characters for which modes are searched stands in a text. -/
def HoldsSearched (text : String) : Prop :=
  ∃ c ∈ text.toList, c = 'w' ∨ c = 'a' ∨ c = '+'

namespace Operation

theorem writes_iff (mode : String) : writes mode = true ↔ HoldsSearched mode := by
  simp only [writes, HoldsSearched, List.any_eq_true, Bool.or_eq_true, beq_iff_eq, or_assoc]

/-- A mode is taken for one that writes because of its sign or because of its layers. -/
theorem writes_sign_append (sign : OpenSign) (layers : String) :
    writes (sign.text ++ layers) = true ↔ sign.isBoth = true ∨ HoldsSearched layers := by
  have hsign : writes sign.text = sign.isBoth := by cases sign <;> rfl
  rw [← writes_iff, ← hsign, ← Bool.or_eq_true, writes, writes, writes, String.toList_append,
    List.any_append]

end Operation

/-- The tasks are right exactly if a mode is taken for one that writes when its sign does. -/
theorem OpenSign.right_tasks_iff (sign : OpenSign) (file mode : String) :
    sign.Right file (Operation.opened (.text file) mode).tasks ↔
      (Operation.writes mode = true ↔ sign ≠ .read) := by
  have htasks : (Operation.opened (.text file) mode).tasks = if Operation.writes mode then
      [Operation.fileTask ("Ensure file " ++ file ++ " exists") (.text file) "touch" []]
      else [] := rfl
  rw [OpenSign.Right, htasks]
  by_cases hsign : sign = .read
  · rw [if_pos hsign]
    cases Operation.writes mode with
    | false => simp [hsign]
    | true => simp [hsign]
  · rw [if_neg hsign]
    cases Operation.writes mode with
    | false => simp [hsign]
    | true => exact iff_of_true ⟨_, rfl, rfl⟩ (iff_of_true rfl hsign)

/-- **Whether a file that is opened comes to what it should.**  Its tasks are right exactly if its
    sign has a plus, or if its layers hold one of the searched characters when it is written, and
    none when it is read; whatever the layers are, and wherever in a log the call stands. -/
theorem opened_file_right_iff (sign : OpenSign) (layers file : String) {item : Value}
    (hitem : (LoggedCall.opened (some file) (some (sign.text ++ layers))).Told item)
    {before behind : List Value} {earlier later : List Task}
    (hbefore : tasksOfItems before = .ok earlier) (hbehind : tasksOfItems behind = .ok later) :
    ∃ tasks, tasksOfLog (.list (before ++ item :: behind)) = .ok (earlier ++ (tasks ++ later)) ∧
      (sign.Right file tasks ↔
        sign.isBoth = true ∨ (HoldsSearched layers ↔ sign ≠ .read)) := by
  refine ⟨_, tasksOfLog_told hitem (.opened file _) hbefore hbehind, ?_⟩
  rw [sign.right_tasks_iff, Operation.writes_sign_append]
  cases hboth : sign.isBoth with
  | false => simp only [Bool.false_eq_true, false_or]
  | true =>
      have hread : sign ≠ .read := by
        rintro rfl
        cases hboth
      exact iff_of_true (iff_of_true (.inl rfl) hread) (.inl rfl)

/-- A file that is opened with `>` comes to no task, and one that is opened with `<:raw` to one. -/
theorem plain_write_and_raw_read_wrong :
    (∃ item tasks,
      (LoggedCall.opened (some "/srv/x") (some (OpenSign.write.text ++ ""))).Told item ∧
      tasksOfLog (.list [item]) = .ok tasks ∧ ¬ OpenSign.write.Right "/srv/x" tasks) ∧
    ∃ item tasks,
      (LoggedCall.opened (some "/srv/x") (some (OpenSign.read.text ++ ":raw"))).Told item ∧
      tasksOfLog (.list [item]) = .ok tasks ∧ ¬ OpenSign.read.Right "/srv/x" tasks := by
  have hempty : tasksOfItems [] = .ok [] := rfl
  have hwrite := LoggedCall.told_record (.opened (some "/srv/x") (some (OpenSign.write.text ++ "")))
  have hread :=
    LoggedCall.told_record (.opened (some "/srv/x") (some (OpenSign.read.text ++ ":raw")))
  obtain ⟨written, hwritten, hright⟩ :=
    opened_file_right_iff .write "" "/srv/x" hwrite hempty hempty
  obtain ⟨read, hraw, hright'⟩ := opened_file_right_iff .read ":raw" "/srv/x" hread hempty hempty
  rw [List.append_nil] at hwritten hraw
  refine ⟨⟨_, written, hwrite, hwritten, fun h => ?_⟩, ⟨_, read, hread, hraw, fun h => ?_⟩⟩
  · obtain ⟨c, hc, -⟩ := ((hright.mp h).resolve_left (by decide)).mpr (by decide)
    cases hc
  · exact ((hright'.mp h).resolve_left (by decide)).mp ⟨'w', by decide, .inl rfl⟩ rfl

end Playscript.Perl
