import Playscript.Proofs.DocumentLengths
import Playscript.Proofs.FileTrees

/-! # Sections in a single file

    A file of tasks and a playbook are one file for all sections.  The first is written anew for
    every section that has tasks, so the last of them stays (`run_writeTasks`); the second takes
    the tasks of the first section (`run_writePlaybook`).  In both, tasks are missing as soon as
    another section has some, and the text of the file shows it (`holds_all_iff`).  The path of the
    file is relative to the tree. -/

namespace Playscript

/-- The tasks of a section, one by one. -/
def Section.taskItems (s : Section) : List Value :=
  match s.tasks with
  | .list items => items
  | _ => []

/-- Whether a section has tasks. -/
def Section.hasTasks (s : Section) : Bool :=
  s.tasks.isTruthy

namespace Job

/-- The sections that have tasks. -/
def filled (job : Job) : List Section :=
  job.sections.filter Section.hasTasks

/-- The tasks of all sections. -/
def allTasks (job : Job) : List Value :=
  job.sections.flatMap Section.taskItems

end Job

/-! ## A file that is written -/

namespace FileTree

/-- A file can be written to a path. -/
def Writable (tree : FileTree) (path : String) : Prop :=
  ∃ place, tree.follow path = .ok place ∧ tree.get? place ≠ some .directory ∧
    Path.endsInSlash path = false

/-- A file holds a value in a format. -/
def HoldsDocument (tree : FileTree) (path : String) (format : Format) (v : Value) : Prop :=
  tree.read path = .ok (format.serialize v).toUTF8

/-- A file with some of the tasks holds all of them only if they are all: its text would be
    longer. -/
theorem HoldsDocument.holds_all_iff {tree : FileTree} {path : String} {format : Format}
    (document : List Value → Value) {kept all : List Value}
    (hholds : tree.HoldsDocument path format (document kept)) (hkept : kept.Sublist all)
    (hgrows : ∀ items, kept.Sublist items → kept ≠ items →
      (format.serialize (document kept)).length < (format.serialize (document items)).length) :
    (∃ items, tree.HoldsDocument path format (document items) ∧ all.Sublist items) ↔
      kept = all := by
  constructor
  · rintro ⟨items, hitems, hall⟩
    have htext : format.serialize (document kept) = format.serialize (document items) :=
      String.toByteArray_inj.mp (Except.ok.inj (hholds.symm.trans hitems))
    by_cases hsame : kept = items
    · subst hsame
      exact hkept.antisymm hall
    · have hlt := hgrows items (hkept.trans hall) hsame
      rw [htext] at hlt
      exact absurd hlt (Nat.lt_irrefl _)
  · rintro rfl
    exact ⟨kept, hholds, List.Sublist.refl kept⟩

end FileTree

/-- A file that can be written is written, can be written again, and is read back. -/
theorem Work.run_writeText {path : String} {w : World} (h : w.tree.Writable path) (text : String) :
    ∃ w', (writeText path text).run w = (.ok (), w') ∧ w'.tree.Writable path ∧
      w'.tree.read path = .ok text.toUTF8 := by
  obtain ⟨place, hfollow, hplace, hslash⟩ := h
  have hne : place ≠ [] := by
    rintro rfl
    exact hplace rfl
  have hthere := (FileTree.sameDirectories_set text.toUTF8 hplace).follow hfollow
  have hfile := w.tree.get?_set_self hne (.file text.toUTF8)
  refine ⟨{ w with tree := w.tree.set place (.file text.toUTF8) }, ?_, ⟨place, hthere, ?_, hslash⟩,
    FileTree.read_of_follow hthere hslash hfile⟩
  · rw [writeText, run_files, Filing.run_write _ hfollow hplace hslash]
  · rw [hfile]
    intro h
    cases h

namespace Generator

/-! ## What is written to it -/

/-- Writes the tasks of a section, if it has some, to the file for all of them. -/
def writeTask (job : Job) (format : Format) (s : Section) : Work Unit := do
  let tasks ← job.tasksOf s
  if tasks.isTruthy then Work.writeText (← job.outputFile) (format.serialize tasks)

theorem generate_roleTasks (job : Job) (format : Format) :
    generate .roleTasks job format = job.sections.forM (writeTask job format) := rfl

theorem generate_playbook (job : Job) (format : Format) :
    generate .playbook job format = writePlaybook job format := rfl

section Run

variable {job : Job} {output : String} (hopened : job.opened = true)
  (hfile : job.outputFile = .ok output) (format : Format)

include hopened hfile

theorem run_writeTask (s : Section) {w : World} (hwritable : w.tree.Writable output) :
    ∃ w', (writeTask job format s).run w = (.ok (), w') ∧ w'.tree.Writable output ∧
      if s.hasTasks then w'.tree.HoldsDocument output format s.tasks else w' = w := by
  have htasks : job.tasksOf s = .ok s.tasks := by rw [Job.tasksOf, if_pos hopened]
  rw [writeTask, Run.liftM_bind_ok htasks, Section.hasTasks]
  cases htruthy : s.tasks.isTruthy with
  | false => exact ⟨w, rfl, hwritable, rfl⟩
  | true =>
      obtain ⟨w', hrun, hwritable', hread⟩ :=
        Work.run_writeText hwritable (format.serialize s.tasks)
      refine ⟨w', ?_, hwritable', hread⟩
      simp only [if_true]
      rw [Run.liftM_bind_ok hfile, hrun]

/-- The last section that has tasks stays in the file. -/
theorem run_writeTasks (sections : List Section) : ∀ {w : World}, w.tree.Writable output →
    ∃ w', (sections.forM (writeTask job format)).run w = (.ok (), w') ∧
      ((sections.filter Section.hasTasks) = [] → w' = w) ∧
      ∀ last, (sections.filter Section.hasTasks).getLast? = some last →
        w'.tree.HoldsDocument output format last.tasks := by
  induction sections with
  | nil => exact fun {w} _ => ⟨w, rfl, fun _ => rfl, fun _ h => by cases h⟩
  | cons s rest ih =>
      intro w hwritable
      obtain ⟨w₁, hfirst, hwritable₁, hheld⟩ := run_writeTask hopened hfile format s hwritable
      obtain ⟨w₂, hrest, hnone, hlast⟩ := ih hwritable₁
      refine ⟨w₂, (Run.bind_of_ok hfirst _).trans hrest, ?_⟩
      cases htruthy : s.hasTasks with
      | false =>
          rw [htruthy] at hheld
          obtain rfl : w₁ = w := hheld
          rw [List.filter_cons_of_neg (by rw [htruthy]; decide)]
          exact ⟨hnone, hlast⟩
      | true =>
          rw [htruthy, if_pos rfl] at hheld
          rw [List.filter_cons_of_pos htruthy]
          refine ⟨fun h => absurd h (List.cons_ne_nil _ _), fun last h => ?_⟩
          -- what this section wrote stays only if no later one writes
          by_cases hmore : (rest.filter Section.hasTasks) = []
          · rw [hmore] at h
            obtain rfl : s = last := Option.some.inj h
            rw [hnone hmore]
            exact hheld
          · rw [List.getLast?_cons_of_ne_nil hmore] at h
            exact hlast last h

/-- A playbook holds the tasks of the first section. -/
theorem run_writePlaybook (hlists : ∀ s ∈ job.sections, s.tasks = .list s.taskItems) {w : World}
    (hwritable : w.tree.Writable output) :
    ∃ w', (writePlaybook job format).run w = (.ok (), w') ∧
      w'.tree.HoldsDocument output format
        (playbookValue (.list ((job.sections.take 1).flatMap Section.taskItems))) := by
  have htasks : playbookTasks job
      = .ok (.list ((job.sections.take 1).flatMap Section.taskItems)) := by
    rw [playbookTasks]
    cases hsections : job.sections with
    | nil => rfl
    | cons first rest =>
        have hfirst := hlists first (hsections ▸ List.mem_cons_self)
        simp [Job.tasksOf, hopened, hfirst]
  obtain ⟨w', hrun, -, hread⟩ := Work.run_writeText hwritable (format.serialize (playbookValue
    (.list ((job.sections.take 1).flatMap Section.taskItems))))
  refine ⟨w', ?_, hread⟩
  rw [writePlaybook, Run.liftM_bind_ok htasks, Run.liftM_bind_ok hfile, hrun]

end Run

/-! ## When it is all -/

theorem taskItems_eq_nil_iff {s : Section} (h : s.tasks = .list s.taskItems) :
    s.taskItems = [] ↔ s.hasTasks = false := by
  rw [Section.hasTasks, h, Value.isTruthy, Bool.not_eq_false', List.isEmpty_iff]

theorem flatMap_taskItems_eq_nil_iff {sections : List Section}
    (hlists : ∀ s ∈ sections, s.tasks = .list s.taskItems) :
    sections.flatMap Section.taskItems = [] ↔ ∀ s ∈ sections, s.hasTasks = false := by
  rw [List.flatMap_eq_nil_iff]
  exact forall₂_congr fun s hs => taskItems_eq_nil_iff (hlists s hs)

section Complete

variable {job : Job} (hlists : ∀ s ∈ job.sections, s.tasks = .list s.taskItems)

include hlists

theorem allTasks_eq_flatMap_filled : job.allTasks = job.filled.flatMap Section.taskItems := by
  rw [Job.allTasks, Job.filled]
  generalize job.sections = sections at hlists ⊢
  induction sections with
  | nil => rfl
  | cons s rest ih =>
      have hs := hlists s List.mem_cons_self
      have hrest := ih fun other hother => hlists other (List.mem_cons_of_mem _ hother)
      cases htasks : s.hasTasks with
      | true => rw [List.filter_cons_of_pos htasks, List.flatMap_cons, List.flatMap_cons, hrest]
      | false =>
          rw [List.filter_cons_of_neg (by rw [htasks]; decide), List.flatMap_cons, hrest,
            (taskItems_eq_nil_iff hs).mpr htasks, List.nil_append]

/-- The tasks of the last section that has some are all tasks if it is the only one. -/
theorem last_taskItems_eq_iff {last : Section} (hlast : job.filled.getLast? = some last) :
    last.taskItems ≠ [] ∧ last.taskItems.Sublist job.allTasks ∧
      (last.taskItems = job.allTasks ↔ job.filled = [last]) := by
  obtain ⟨front, hfront⟩ := List.getLast?_eq_some_iff.mp hlast
  have hmem : ∀ s ∈ front ++ [last], s ∈ job.sections ∧ s.hasTasks = true := by
    rw [← hfront]
    exact fun s hs => List.mem_filter.mp hs
  obtain ⟨hin, hhas⟩ := hmem last (List.mem_append_right _ List.mem_cons_self)
  rw [allTasks_eq_flatMap_filled hlists, hfront, List.flatMap_append, List.flatMap_singleton,
    List.self_eq_append_left, List.append_left_eq_self]
  refine ⟨?_, List.sublist_append_right _ _, ?_⟩
  · intro hnil
    rw [(taskItems_eq_nil_iff (hlists last hin)).mp hnil] at hhas
    cases hhas
  · rw [List.flatMap_eq_nil_iff]
    constructor
    · intro hnone
      refine List.eq_nil_iff_forall_not_mem.mpr fun s hs => ?_
      obtain ⟨hsin, hshas⟩ := hmem s (List.mem_append_left _ hs)
      rw [(taskItems_eq_nil_iff (hlists s hsin)).mp (hnone s hs)] at hshas
      cases hshas
    · rintro rfl s hs
      cases hs

/-- The tasks of the first section are all tasks if no later one has any. -/
theorem first_taskItems_eq_iff :
    ((job.sections.take 1).flatMap Section.taskItems).Sublist job.allTasks ∧
      ((job.sections.take 1).flatMap Section.taskItems = job.allTasks ↔
        ∀ s ∈ job.sections.tail, s.hasTasks = false) := by
  have hall : job.allTasks = (job.sections.take 1).flatMap Section.taskItems
      ++ job.sections.tail.flatMap Section.taskItems := by
    rw [← List.flatMap_append, ← List.drop_one, List.take_append_drop]
    rfl
  rw [hall, List.self_eq_append_right]
  refine ⟨List.sublist_append_left _ _, ?_⟩
  exact flatMap_taskItems_eq_nil_iff fun s hs => hlists s (List.mem_of_mem_tail hs)

end Complete

/-- **When a single file holds all tasks.**  A file of tasks holds those of the last section that
    has some, and those of all sections only if no other has any; without tasks nothing is written.
    A playbook holds those of the first section, and those of all only if no later one has any. -/
theorem single_file_complete_iff {job : Job} {output : String} (hopened : job.opened = true)
    (hlists : ∀ s ∈ job.sections, s.tasks = .list s.taskItems)
    (hfile : job.outputFile = .ok output) (format : Format) {w : World}
    (hwritable : w.tree.Writable output) :
    (∃ w', (generate .roleTasks job format).run w = (.ok (), w') ∧
      (job.filled = [] → w' = w) ∧
      (∀ last, job.filled.getLast? = some last →
        w'.tree.HoldsDocument output format last.tasks ∧
        ((∃ items, w'.tree.HoldsDocument output format (.list items) ∧
            job.allTasks.Sublist items) ↔ job.filled = [last]))) ∧
    ∃ w', (generate .playbook job format).run w = (.ok (), w') ∧
      w'.tree.HoldsDocument output format
        (playbookValue (.list ((job.sections.take 1).flatMap Section.taskItems))) ∧
      ((∃ items, w'.tree.HoldsDocument output format (playbookValue (.list items)) ∧
          job.allTasks.Sublist items) ↔ ∀ s ∈ job.sections.tail, s.hasTasks = false) := by
  rw [generate_roleTasks, generate_playbook]
  constructor
  · obtain ⟨w', hrun, hnone, hlast⟩ := run_writeTasks hopened hfile format job.sections hwritable
    refine ⟨w', hrun, hnone, fun last hfilled => ⟨hlast last hfilled, ?_⟩⟩
    obtain ⟨hne, hsub, hiff⟩ := last_taskItems_eq_iff hlists hfilled
    have hin : last ∈ job.sections :=
      (List.mem_filter.mp (List.mem_of_getLast? hfilled)).1
    have hheld := hlast last hfilled
    rw [hlists last hin] at hheld
    rw [← hiff]
    exact hheld.holds_all_iff .list hsub fun items h hother => grows_serialize format h hother hne
  · obtain ⟨w', hrun, hheld⟩ := run_writePlaybook hopened hfile format hlists hwritable
    obtain ⟨hsub, hiff⟩ := first_taskItems_eq_iff hlists
    refine ⟨w', hrun, hheld, ?_⟩
    rw [← hiff]
    exact hheld.holds_all_iff (fun items => playbookValue (.list items)) hsub
      fun items h hother => length_playbook_lt format h hother

/-- Of two sections with a task each, the file of tasks has lost the first and the playbook the
    second. -/
theorem two_sections_incomplete : ∃ job : Job,
    job.sections.map Section.taskItems = [[.text "x"], [.text "y"]] ∧
    (∃ w', (generate .roleTasks job .yaml).run {} = (.ok (), w') ∧
      w'.tree.HoldsDocument "out.yml" .yaml (.list [.text "y"]) ∧
      ¬ ∃ items, w'.tree.HoldsDocument "out.yml" .yaml (.list items) ∧
        [Value.text "x", Value.text "y"].Sublist items) ∧
    ∃ w', (generate .playbook job .yaml).run {} = (.ok (), w') ∧
      w'.tree.HoldsDocument "out.yml" .yaml (playbookValue (.list [.text "x"])) ∧
      ¬ ∃ items, w'.tree.HoldsDocument "out.yml" .yaml (playbookValue (.list items)) ∧
        [Value.text "x", Value.text "y"].Sublist items := by
  let job : Job :=
    { sections := [{ name := .text "a", tasks := .list [.text "x"] },
        { name := .text "b", tasks := .list [.text "y"] }]
      opened := true, outputFile := .ok "out.yml", outputDirectory := .error .missingPart }
  have hlists : ∀ s ∈ job.sections, s.tasks = .list s.taskItems := by
    intro s hs
    rcases List.mem_cons.mp hs with rfl | hs
    · rfl
    · rw [List.mem_singleton.mp hs]
      rfl
  have hwritable : ({} : World).tree.Writable "out.yml" := by
    refine ⟨["out.yml"], by decide +kernel, ?_, by decide +kernel⟩
    intro h
    cases h
  obtain ⟨⟨w₁, hrun₁, -, htasks⟩, w₂, hrun₂, hheld₂, hiff₂⟩ :=
    single_file_complete_iff rfl hlists rfl .yaml hwritable
  obtain ⟨hheld₁, hiff₁⟩ := htasks _ rfl
  refine ⟨job, rfl, ⟨w₁, hrun₁, hheld₁, fun hall => ?_⟩, w₂, hrun₂, hheld₂, fun hall => ?_⟩
  · exact absurd (congrArg List.length (hiff₁.mp hall)) (by decide)
  · exact absurd (hiff₂.mp hall _ List.mem_cons_self) (by decide)

end Generator

end Playscript
