import Playscript.Proofs.LineTasks
import Playscript.Proofs.StatusGuards

/-! # Blocks on the status of a command

    In a script that is read line by line, the commands between `if [[ $? -eq N ]]; then` and the
    next `fi` are a block.  Its tasks ought to be on the condition that the register remembered at the
    `if` succeeded, or failed.  A reading goes along the lines with the block that it is in
    (`Reading`), which the reader itself does not know: it keeps a condition, which it gives up
    with the first task that is not run by a shell (`Reading.Faithful`).  So a task of a block is
    on a condition exactly if all tasks before it in the block are run by a shell, and blocks
    guard all their tasks exactly if no task stands behind one of another kind, and a status
    of zero is written as `0` (`blocks_guard_all_iff`). -/

namespace Playscript.Line

open Session (statusText)

/-! ## Blocks -/

/-- A block on a status, as far as it has been read. -/
structure Block where
  /-- The register that was remembered at the `if`. -/
  register : Option String
  /-- The status that is asked for, in its digits. -/
  code : String
  tasks : List Task := []

namespace Block

/-- Whether the status that is asked for is zero. -/
def asksForZero (b : Block) : Bool :=
  b.code.toList.all fun c => Text.digitValue? c == some 0

/-- The condition that the tasks of a block ought to be on. -/
def condition (b : Block) : String :=
  statusText (b.register.getD "None") b.asksForZero

/-- The condition that is written for a block. -/
def written (b : Block) : String :=
  statusText (b.register.getD "None") (b.code == "0")

/-- The condition for the next task of a block, if there is one yet. -/
def next? (b : Block) : Option String :=
  if b.tasks.all fromShell then some b.written else none

end Block

namespace State

/-- The command that a line completes: none if it is empty, a remark, or goes on. -/
def command? (st : State) (line : List Char) : Option (List Char) :=
  let line := Text.trim line
  if line.isEmpty || line.head? == some '#' || line.getLast? == some '\\' then none
  else some (st.pending ++ line)

end State

/-- A reading, with the block that it is in. -/
structure Reading where
  state : State := {}
  block : Option Block := none

namespace Reading

/-- The tasks that a line adds. -/
def newTasks (r : Reading) (allowShell : Bool) (line : List Char) : List Task :=
  (r.state.takeLine allowShell line).tasks.drop r.state.tasks.length

/-- The block behind a command that added some tasks. -/
def blockBehind (r : Reading) (added : List Task) (command : List Char) : Option Block :=
  match statusTest.run command with
  | some code => some { register := r.state.lastRegister, code := code }
  | none =>
    if command = ['f', 'i'] then none
    else r.block.map fun b => { b with tasks := b.tasks ++ added }

/-- Takes a line in. -/
def take (allowShell : Bool) (r : Reading) (line : List Char) : Reading where
  state := r.state.takeLine allowShell line
  block := (r.state.command? line).elim r.block (r.blockBehind (r.newTasks allowShell line))

end Reading

/-- A task, with the block that its command stands in. -/
structure Placed where
  task : Task
  block : Option Block

/-- The tasks of lines that are read on. -/
def placedFrom (allowShell : Bool) (r : Reading) : List (List Char) → List Placed
  | [] => []
  | line :: rest =>
    (r.newTasks allowShell line).map (⟨·, r.block⟩)
      ++ placedFrom allowShell (r.take allowShell line) rest

/-- The tasks of a script, each with the block that its command stands in. -/
def placed (allowShell : Bool) (lines : List (List Char)) : List Placed :=
  placedFrom allowShell {} lines

/-- A task in a block is on the condition of the block, and any other is on none. -/
def Placed.Guarded (p : Placed) : Prop :=
  p.task.get? "when" = p.block.map fun b => .text b.condition

/-! ## One line -/

namespace State

variable {st : State}

/-- A line completes a command, which is taken in, or it changes nothing but what goes on. -/
theorem takeLine_cases (st : State) (allowShell : Bool) (line : List Char) :
    (∃ command, st.command? line = some command ∧
      st.takeLine allowShell line = st.takeCommand allowShell command) ∨
    (st.command? line = none ∧
      ∃ pending, st.takeLine allowShell line = { st with pending := pending }) := by
  unfold command? takeLine
  by_cases hskip : (Text.trim line).isEmpty || (Text.trim line).head? == some '#'
  · exact .inr ⟨by simp [hskip], st.pending, if_pos hskip⟩
  · by_cases hgoes : (Text.trim line).getLast? == some '\\'
    · exact .inr ⟨by simp [hgoes], _, by rw [if_neg hskip, if_pos hgoes]⟩
    · refine .inl ⟨_, ?_, by rw [if_neg hskip, if_neg hgoes]⟩
      rw [if_neg]
      simpa [hgoes] using hskip

/-- A task is added on the condition, which is then given up unless a shell runs the task. -/
theorem addTask_guarded {t : Task}
    (ht : t.get? "when" = if fromShell t then st.condition.map .text else none) :
    ∃ added, (st.addTask t).tasks = st.tasks ++ [added] ∧
      added.get? "when" = st.condition.map .text ∧
      (st.addTask t).condition = if fromShell added then st.condition else none := by
  unfold addTask
  cases hcondition : st.condition with
  | none =>
      rw [hcondition, Option.map_none, ite_self] at ht
      exact ⟨t, by simp [ht], ht, by simp [ht]⟩
  | some condition =>
      rw [hcondition] at ht
      cases hshell : fromShell t with
      | true =>
          rw [hshell, if_pos rfl] at ht
          exact ⟨t, by simp [ht], ht, by simp [ht, hshell]⟩
      | false =>
          rw [hshell, if_neg Bool.false_ne_true] at ht
          refine ⟨t.guard condition, by simp [ht], t.when_guard condition, ?_⟩
          simp [ht, fromShell_guard, hshell]

/-- What a command adds is on the condition, which lasts as long as a shell runs all of it. -/
theorem apply_guarded (hcondition : ∀ text ∈ st.condition, text ≠ "") (allowShell : Bool)
    (command : String) :
    ∃ added, (st.apply (meaning (st.surroundings allowShell) command)).tasks = st.tasks ++ added ∧
      (∀ t ∈ added, t.get? "when" = st.condition.map .text) ∧
      (st.apply (meaning (st.surroundings allowShell) command)).condition
        = if added.all fromShell then st.condition else none := by
  cases hmeaning : meaning (st.surroundings allowShell) command with
  | setVariable name value => exact ⟨[], by simp [apply]⟩
  | setUmask mask => exact ⟨[], by simp [apply]⟩
  | task t =>
      have ht : t.get? "when" = if fromShell t then st.condition.map .text else none :=
        when_of_shapeMeaning hcondition hmeaning
      obtain ⟨added, htasks, hwhen, hrest⟩ := addTask_guarded ht
      refine ⟨[added], htasks, by simpa using hwhen, ?_⟩
      rw [List.all_cons, List.all_nil, Bool.and_true]
      exact hrest

end State

theorem Block.next?_append (b : Block) (added : List Task) :
    Block.next? { b with tasks := b.tasks ++ added }
      = if added.all fromShell then b.next? else none := by
  rw [next?, next?, List.all_append]
  cases b.tasks.all fromShell <;> cases added.all fromShell <;> rfl

namespace Reading

variable {r : Reading}

/-- The condition that the reader keeps is the one for the next task of the block. -/
def Faithful (r : Reading) : Prop :=
  r.state.condition = r.block.bind Block.next?

theorem Faithful.condition_ne (h : r.Faithful) : ∀ text ∈ r.state.condition, text ≠ "" := by
  intro text htext hempty
  rw [h] at htext
  obtain ⟨b, -, hnext⟩ := Option.bind_eq_some_iff.mp htext
  rw [Block.next?, Option.ite_none_right_eq_some] at hnext
  have hwritten := Option.some.inj hnext.2
  rw [hempty, Block.written, statusText, ← String.toList_inj, String.toList_append] at hwritten
  have hend := (List.append_eq_nil_iff.mp hwritten).2
  cases hcode : b.code == "0" <;> rw [hcode] at hend <;> exact absurd hend (by decide)

/-- What a command does to the tasks, to the condition and to the block. -/
theorem Faithful.takeCommand (h : r.Faithful) (allowShell : Bool) (command : List Char) :
    ∃ added, (r.state.takeCommand allowShell command).tasks = r.state.tasks ++ added ∧
      (∀ t ∈ added, t.get? "when" = r.state.condition.map .text) ∧
      (r.state.takeCommand allowShell command).condition
        = (r.blockBehind added command).bind Block.next? := by
  unfold State.takeCommand blockBehind
  cases hstatus : statusTest.run command with
  | some code =>
      refine ⟨[], (List.append_nil _).symm, by simp, ?_⟩
      by_cases hzero : code = "0"
      · simp [State.openBlock, Block.next?, Block.written, statusText, hzero]
      · simp [State.openBlock, Block.next?, Block.written, statusText, hzero]
  | none =>
      by_cases hfi : command = ['f', 'i']
      · exact ⟨[], by simp [hfi], by simp, by simp [hfi]⟩
      · obtain ⟨added, htasks, hwhen, hcondition⟩ :=
          State.apply_guarded h.condition_ne allowShell (String.ofList (Text.trim command))
        refine ⟨added, by simpa [hfi] using htasks, hwhen, ?_⟩
        simp only [hfi, if_false]
        rw [hcondition, h]
        cases r.block with
        | none => exact ite_self _
        | some b => exact (b.next?_append added).symm

/-- **What one line does.**  The tasks that it adds are on the condition for the next task of the
    block, and the condition that is kept is then again the one for the next task. -/
theorem Faithful.step (h : r.Faithful) (allowShell : Bool) (line : List Char) :
    (r.take allowShell line).Faithful ∧
      (r.take allowShell line).state.tasks = r.state.tasks ++ r.newTasks allowShell line ∧
      ∀ t ∈ r.newTasks allowShell line,
        t.get? "when" = (r.block.bind Block.next?).map .text := by
  have hnew : ∀ {added}, (r.state.takeLine allowShell line).tasks = r.state.tasks ++ added →
      r.newTasks allowShell line = added := by
    intro added htasks
    rw [newTasks, htasks, List.drop_left]
  rcases r.state.takeLine_cases allowShell line with ⟨command, hcommand, htake⟩ |
    ⟨hnone, pending, htake⟩
  · obtain ⟨added, htasks, hwhen, hcondition⟩ := h.takeCommand allowShell command
    rw [← htake] at htasks hcondition
    obtain rfl := hnew htasks
    refine ⟨?_, htasks, h ▸ hwhen⟩
    rw [Faithful, take, hcommand]
    exact hcondition
  · have htasks : (r.state.takeLine allowShell line).tasks = r.state.tasks ++ [] := by
      rw [htake, List.append_nil]
    rw [hnew htasks]
    refine ⟨?_, htasks, by simp⟩
    rw [Faithful, take, hnone, htake]
    exact h

end Reading

/-! ## All lines -/

/-- The tasks that are placed, one line after the other, are those of the reading: what is recorded
    beside them adds and drops none. -/
theorem map_task_placedFrom {r : Reading} (h : r.Faithful) (allowShell : Bool)
    (lines : List (List Char)) :
    r.state.tasks ++ (placedFrom allowShell r lines).map Placed.task
      = (lines.foldl (State.takeLine allowShell) r.state).tasks := by
  induction lines generalizing r with
  | nil => exact List.append_nil _
  | cons line rest ih =>
      obtain ⟨hfaithful, htasks, -⟩ := h.step allowShell line
      have hrest := ih hfaithful
      rw [htasks, List.append_assoc] at hrest
      have hfirst : ((r.newTasks allowShell line).map (Placed.mk · r.block)).map Placed.task
          = r.newTasks allowShell line := by
        rw [List.map_map]
        exact List.map_id _
      rw [placedFrom, List.map_append, hfirst]
      exact hrest

/-- **Every task is on the condition that its place in its block gives it.** -/
theorem when_of_mem_placedFrom {r : Reading} (h : r.Faithful) (allowShell : Bool)
    (lines : List (List Char)) : ∀ p ∈ placedFrom allowShell r lines,
      p.task.get? "when" = (p.block.bind Block.next?).map .text := by
  induction lines generalizing r with
  | nil => intro p hp; cases hp
  | cons line rest ih =>
      intro p hp
      obtain ⟨hfaithful, -, hwhen⟩ := h.step allowShell line
      rcases List.mem_append.mp hp with hp | hp
      · obtain ⟨t, ht, rfl⟩ := List.mem_map.mp hp
        exact hwhen t ht
      · exact ih hfaithful p hp

theorem statusText_right_inj (register : String) {x y : Bool}
    (h : statusText register x = statusText register y) : x = y := by
  rw [statusText, statusText, ← String.toList_inj, String.toList_append,
    String.toList_append] at h
  have hends := List.append_cancel_left h
  cases x <;> cases y
  · rfl
  · exact absurd hends (by decide)
  · exact absurd hends (by decide)
  · rfl

/-- The condition of a block is written right unless zero is written otherwise than as `0`. -/
theorem Block.written_eq_condition_iff (b : Block) :
    b.written = b.condition ↔ (b.asksForZero = true → b.code = "0") := by
  have hzero : b.code = "0" → b.asksForZero = true := by
    intro hcode
    rw [asksForZero, hcode]
    rfl
  constructor
  · intro h hasks
    have hsame := statusText_right_inj _ h
    rw [hasks] at hsame
    exact eq_of_beq hsame
  · intro h
    have hsame : (b.code == "0") = b.asksForZero := by
      rw [Bool.eq_iff_iff, beq_iff_eq]
      exact ⟨hzero, h⟩
    rw [written, condition, hsame]

/-- The next task of a block is guarded right if all tasks before it are run by a shell. -/
theorem Block.next?_right_iff (b : Block) :
    b.next?.map Value.text = some (.text b.condition) ↔
      b.tasks.all fromShell = true ∧ (b.asksForZero = true → b.code = "0") := by
  rw [← b.written_eq_condition_iff, next?]
  cases b.tasks.all fromShell with
  | true => simp
  | false => simp

theorem map_task_placed {allowShell : Bool} {lines : List (List Char)} {tasks : List Task}
    (hread : readLines allowShell lines = .ok tasks) :
    (placed allowShell lines).map Placed.task = tasks := by
  have hall := map_task_placedFrom (r := {}) rfl allowShell lines
  unfold readLines at hread
  split at hread
  · split at hread
    · cases hread
    · exact hall.trans (Except.ok.inj hread)
  · cases hread
    rfl

/-- **Blocks on a status guard the first tasks only.**  The tasks of a script that is read are
    placed each in its block, or in none.  A task in no block is on no condition.  A task in a
    block is on the condition that is written for the block if all tasks before it in the block
    are run by a shell, and on none if one of them is not.  So all tasks are guarded as they
    ought to be if and only if in each block all tasks before another one are run by a shell,
    and zero is written as `0`. -/
theorem blocks_guard_all_iff {allowShell : Bool} {lines : List (List Char)} {tasks : List Task}
    (hread : readLines allowShell lines = .ok tasks) :
    (placed allowShell lines).map Placed.task = tasks ∧
    (∀ p ∈ placed allowShell lines,
      (p.block = none → p.task.get? "when" = none) ∧
      ∀ b, p.block = some b → p.task.get? "when"
        = if b.tasks.all fromShell then some (.text b.written) else none) ∧
    ((∀ p ∈ placed allowShell lines, p.Guarded) ↔
      ∀ p ∈ placed allowShell lines, ∀ b, p.block = some b →
        b.tasks.all fromShell = true ∧ (b.asksForZero = true → b.code = "0")) := by
  have hwhen := when_of_mem_placedFrom (r := {}) rfl allowShell lines
  refine ⟨map_task_placed hread, fun p hp => ⟨fun hblock => ?_, fun b hblock => ?_⟩, ?_⟩
  · rw [hwhen p hp, hblock]
    rfl
  · rw [hwhen p hp, hblock, Option.bind_some, Block.next?, apply_ite (Option.map _)]
    rfl
  · refine forall₂_congr fun p hp => ?_
    rw [Placed.Guarded, hwhen p hp]
    cases p.block with
    | none => simp
    | some b =>
        simp only [Option.some.injEq, forall_eq']
        exact b.next?_right_iff

theorem readLines_cons {allowShell : Bool} {first : List Char} (h : isForeign first = false)
    (rest : List (List Char)) : readLines allowShell (first :: rest)
      = .ok ((first :: rest).foldl (State.takeLine allowShell) {}).tasks := by
  rw [readLines, h]
  rfl

/-- `grep`, and two directories in a block on how it ended. -/
def twoDirectories : List (List Char) :=
  ["grep a /f".toList, "if [[ $? -eq 0 ]]; then".toList, "mkdir /x".toList, "mkdir /y".toList,
   "fi".toList]

/-- The first directory is on the condition of its block, and the second on none. -/
theorem second_directory_unguarded : ∃ tasks, readLines true twoDirectories = .ok tasks ∧
    tasks.map (fun t => (t.get? "when").bind Value.text?)
      = [none, some "grep_result is succeeded", none] ∧
    ¬ ∀ p ∈ placed true twoDirectories, p.Guarded := by
  have hread : readLines true twoDirectories
      = .ok (twoDirectories.foldl (State.takeLine true) {}).tasks := readLines_cons (by decide) _
  obtain ⟨-, -, hiff⟩ := blocks_guard_all_iff hread
  refine ⟨_, hread, by decide +kernel, fun hall => ?_⟩
  have hshell : ((placed true twoDirectories).all fun p => p.block.all fun b =>
      b.tasks.all fromShell) = true := by
    refine List.all_eq_true.mpr fun p hp => (Option.all_eq_true _ _).mpr fun b hb => ?_
    exact (hiff.mp hall p hp b hb).1
  exact absurd hshell (by decide +kernel)

end Playscript.Line
