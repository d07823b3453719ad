import Playscript.Proofs.FileTrees
import Playscript.ScriptReader

/-! # What an earlier log does to a run

    The run of a script leaves a log at a place that all scripts share, and reading the script
    comes down to reading whatever log is there afterwards (`run_readPerl`).  Two worlds that
    differ in the log of an earlier run alone therefore give the same section if the run leaves a
    log of its own, and if it leaves none the section is that of the earlier log.  The place of the
    log, like all paths, is relative to the tree (`logPath`). -/

namespace Playscript.ScriptReader

open FileTree

/-- Two worlds are the same for the next run but for the log that an earlier one has left. -/
structure SameButLog (w w' : World) : Prop where
  outcomes : w'.outcomes = w.outcomes
  later : w'.later = w.later
  elsewhere : ∀ place, place ≠ [logPath] → w'.tree.get? place = w.tree.get? place
  noDirectory : w'.tree.get? [logPath] ≠ some .directory

/-- A script whose run ends well: it can be instrumented beside itself, and the interpreter is
    found, takes the environment, and ends with a code of zero.  The script is not the log, and no
    directory stands in the place of the log. -/
structure EndsWell (r : ScriptReader) (w : World) (outcome : Outcome) : Prop where
  language : r.language = .perl
  written : (r.writeInstrumented.run w).1 = .ok ()
  passable : isPassable r.settings.environment = true
  next : w.outcomes.head?.getD w.later = some outcome
  code : outcome.code = "0"
  notLog : ∀ path, namedFile r.file = some path → w.tree.follow path ≠ .ok [logPath]
  noDirectory : w.tree.get? [logPath] ≠ some .directory

/-- The operations of a log, if there is one. -/
def operationsOf (content : Option ByteArray) : Except Failure Value := do
  let bytes ← content.elim (.error (.missingLog logPath)) .ok
  let text ← (Text.ofBytes bytes).mapError fun _ => .badEncoding
  (Json.read? text).elim (.error .badLog) .ok

/-- The section of a log, if there is one. -/
def sectionOfLog (content : Option ByteArray) : Except Failure Section := do
  let tasks ← Perl.tasksOfLog (← operationsOf content)
  return Section.ofTasks "hmmmmm2" tasks []

/-! ## Writing the instrumented script -/

theorem isName_instrumented : Path.IsName "instrumented.pl" := by decide

/-- The instrumented script stands under its name in some directory. -/
theorem exists_join_instrumentedPath (r : ScriptReader) :
    ∃ outer, r.instrumentedPath = Path.join outer "instrumented.pl" := by
  have hbare : "instrumented.pl" = Path.join "" "instrumented.pl" :=
    (Path.join_empty isName_instrumented.not_absolute).symm
  rw [instrumentedPath]
  split
  · rw [Path.sibling]
    split
    · exact ⟨"", hbare⟩
    · exact ⟨_, rfl⟩
  · exact ⟨"", hbare⟩

/-- Reading the text of a script leaves the world as it is. -/
theorem scriptText_keeps (r : ScriptReader) : Run.Respects (fun w w' => w' = w) r.scriptText := by
  intro w
  rw [scriptText]
  split
  · rw [Work.run_readText]
  · split <;> rfl

/-- The instrumented script is written if the script can be read, to a place that is no
    directory. -/
theorem run_writeInstrumented {r : ScriptReader} {w : World} {text : String} {place : List String}
    (htext : (r.scriptText.run w).1 = .ok text)
    (hfollow : w.tree.follow r.instrumentedPath = .ok place)
    (hplace : w.tree.get? place ≠ some .directory) :
    ∃ content, r.writeInstrumented.run w
      = (.ok (), { w with tree := w.tree.set place (.file content) }) := by
  obtain ⟨outer, houter⟩ := r.exists_join_instrumentedPath
  have hslash : Path.endsInSlash r.instrumentedPath = false := by
    rw [houter]
    exact isName_instrumented.not_endsInSlash outer
  refine ⟨(Perl.instrumented r.custom text).toUTF8, ?_⟩
  rw [writeInstrumented, Run.bind_of_ok (Prod.ext htext (r.scriptText_keeps w)), Work.writeText,
    Work.run_files, Filing.run_write _ hfollow hplace hslash]

/-- Where the instrumented script could be written, there is a script, and the place it was written
    to is no directory and not that of the log. -/
theorem exists_of_written {r : ScriptReader} {w : World}
    (h : (r.writeInstrumented.run w).1 = .ok ()) :
    ∃ text place, (r.scriptText.run w).1 = .ok text ∧
      w.tree.follow r.instrumentedPath = .ok place ∧ w.tree.get? place ≠ some .directory ∧
      place ≠ [logPath] := by
  obtain ⟨text, w₁, htext, hwrite⟩ := Run.bind_ok_iff.mp (Prod.ext h rfl)
  have hsame : w₁ = w := by
    have hkeeps := r.scriptText_keeps w
    rwa [htext] at hkeeps
  subst hsame
  obtain ⟨tree, hwrite, -⟩ := Work.files_ok_iff.mp hwrite
  obtain ⟨place, hfollow, hplace, -, -⟩ := (Filing.write_ok_iff _).mp hwrite
  refine ⟨text, place, congrArg Prod.fst htext, hfollow, hplace, ?_⟩
  obtain ⟨outer, houter⟩ := r.exists_join_instrumentedPath
  rw [houter] at hfollow
  obtain ⟨q, -, -, rfl⟩ := (follow_join_ok_iff isName_instrumented).mp hfollow
  intro heq
  have hlast := congrArg List.getLast? heq
  rw [List.getLast?_concat] at hlast
  exact absurd hlast (by decide)

/-! ## Running and reading -/

theorem isName_logPath : Path.IsName logPath := by decide

theorem follow_logPath (tree : FileTree) : tree.follow logPath = .ok [logPath] := by
  rw [follow_ok_iff, Leads, isName_logPath.not_absolute, isName_logPath.names_eq]
  exact ⟨isName_logPath.ne_empty, rfl, rfl⟩

theorem not_endsInSlash_logPath : Path.endsInSlash logPath = false := by
  rw [← Path.join_empty isName_logPath.not_absolute]
  exact isName_logPath.not_endsInSlash ""

/-- The content of the log, where no directory stands in its place. -/
theorem get?_logPath {tree : FileTree} (h : tree.get? [logPath] ≠ some .directory) :
    tree.get? [logPath] = (tree.contentAt [logPath]).map .file := by
  rw [contentAt]
  cases hlog : tree.get? [logPath] with
  | none => rfl
  | some entry =>
      cases entry with
      | directory => exact absurd hlog h
      | file content => rfl

theorem run_nextOutcome (w : World) : ∃ w', nextOutcome.run w =
    (.ok (w.outcomes.head?.getD w.later), w') ∧ w'.tree = w.tree := by
  rw [nextOutcome, Run.get_bind]
  cases w.outcomes with
  | nil => exact ⟨w, rfl, rfl⟩
  | cons outcome rest => exact ⟨{ w with outcomes := rest }, rfl, rfl⟩

/-- A run that ends well leaves its log in the place of an earlier one; if it leaves none, the
    earlier one stays. -/
theorem run_runInstrumented {r : ScriptReader} {w : World} {outcome : Outcome}
    (hpassable : isPassable r.settings.environment = true)
    (hnext : w.outcomes.head?.getD w.later = some outcome) (hcode : outcome.code = "0")
    (hlog : w.tree.get? [logPath] ≠ some .directory) :
    ∃ w', r.runInstrumented.run w = (.ok (Text.splitLines outcome.output), w') ∧
      w'.tree.get? [logPath] = (outcome.log.or (w.tree.contentAt [logPath])).map .file := by
  rw [runInstrumented, Run.modify_bind]
  simp only [hpassable, Bool.not_true, Bool.false_eq_true, if_false]
  obtain ⟨w₁, hrun, htree⟩ := run_nextOutcome { w with calls := _ }
  rw [Run.bind_of_ok hrun, hnext]
  have hzero : ¬ (outcome.code != "0") = true := by simp [hcode]
  have hlog₁ : w₁.tree.get? [logPath] ≠ some .directory := by rwa [htree]
  cases hown : outcome.log with
  | none =>
      refine ⟨w₁, ?_, ?_⟩
      · simp only [hown, hzero]
        rfl
      · rw [Option.none_or, ← get?_logPath hlog, htree]
  | some log =>
      have hwrite := Filing.run_write log (follow_logPath w₁.tree) hlog₁ not_endsInSlash_logPath
      refine ⟨{ w₁ with tree := w₁.tree.set [logPath] (.file log) }, ?_, ?_⟩
      · simp only [hown]
        rw [Run.bind_of_ok (Work.files_ok_iff.mpr ⟨_, hwrite, rfl⟩), if_neg hzero]
        rfl
      · exact get?_set_self _ (List.cons_ne_nil _ _) _

/-- Loading the log gives the operations of what stands in its place. -/
theorem run_loadLog {w : World} {content : Option ByteArray}
    (h : w.tree.get? [logPath] = content.map .file) :
    loadLog.run w = (operationsOf content, w) := by
  have hask : (Work.ask (·.exists? logPath)).run w = (.ok (w.tree.exists? logPath), w) := rfl
  rw [loadLog, Run.bind_of_ok hask]
  cases content with
  | none =>
      have hmissing : w.tree.exists? logPath = false := by
        simp [exists?, find, follow_logPath, h, bind, Except.bind, throw, throwThe,
          MonadExceptOf.throw]
      rw [hmissing]
      rfl
  | some bytes =>
      have hthere := exists_of_follow (follow_logPath w.tree) not_endsInSlash_logPath h
      have hread := read_of_follow (follow_logPath w.tree) not_endsInSlash_logPath h
      have htext := Work.run_readText logPath w
      rw [hread] at htext
      simp only [hthere, Bool.not_true, Bool.false_eq_true, if_false]
      cases hbytes : Text.ofBytes bytes with
      | error fault =>
          have hfailed : (Work.readText logPath).run w = (.error .badEncoding, w) := by
            rw [htext]
            simp [hbytes, Except.mapError, bind, Except.bind]
          rw [Run.bind_of_error hfailed]
          simp [operationsOf, hbytes, Except.mapError, bind, Except.bind]
      | ok text =>
          have hgot : (Work.readText logPath).run w = (.ok text, w) := by
            rw [htext]
            simp [hbytes, Except.mapError, bind, Except.bind]
          rw [Run.bind_of_ok hgot]
          simp only [operationsOf, hbytes, Except.mapError, bind, Except.bind, Option.elim_some]
          cases Json.read? text <;> rfl

/-- **Reading a script comes down to the log that is there after its run**: its own one, or else
    the one that was there before. -/
theorem EndsWell.run_readPerl {r : ScriptReader} {w : World} {outcome : Outcome}
    (h : EndsWell r w outcome) : (r.readPerl.run w).1
      = sectionOfLog (outcome.log.or (w.tree.contentAt [logPath])) := by
  obtain ⟨text, place, htext, hfollow, hplace, hne⟩ := exists_of_written h.written
  obtain ⟨content, hwrite⟩ := run_writeInstrumented htext hfollow hplace
  -- the instrumented script has a name of its own, so writing it leaves the log alone
  have hlog := w.tree.get?_set_of_ne (.file content) hne.symm
  have hlog' : (w.tree.set place (.file content)).get? [logPath] ≠ some .directory := by
    rw [hlog]
    exact h.noDirectory
  obtain ⟨w₂, hrun, hafter⟩ := run_runInstrumented
    (w := { w with tree := w.tree.set place (.file content) }) h.passable h.next h.code hlog'
  have hload := run_loadLog hafter
  rw [contentAt_congr hlog] at hload
  rw [ScriptReader.readPerl, Run.bind_of_ok hwrite, Run.bind_of_ok hrun, sectionOfLog]
  cases hoperations : operationsOf (outcome.log.or (w.tree.contentAt [logPath])) with
  | error f =>
      rw [hoperations] at hload
      rw [Run.bind_of_error hload]
      rfl
  | ok log =>
      rw [hoperations] at hload
      rw [Run.bind_of_ok hload]
      cases htasks : Perl.tasksOfLog log with
      | error f =>
          rw [Run.liftM_bind_error rfl]
          simp only [bind, Except.bind, htasks]
      | ok tasks =>
          rw [Run.liftM_bind_ok rfl]
          simp only [bind, Except.bind, htasks]
          rfl

/-! ## Two runs -/

theorem SameButLog.sameDirectories {w w' : World} (h : SameButLog w w')
    (hlog : w.tree.get? [logPath] ≠ some .directory) : SameDirectories w.tree w'.tree := by
  intro place
  by_cases hplace : place = [logPath]
  · rw [hplace]
    exact iff_of_false h.noDirectory hlog
  · rw [h.elsewhere place hplace]

/-- A script that is not the log is the same in both worlds. -/
theorem SameButLog.scriptText {w w' : World} (h : SameButLog w w')
    (hlog : w.tree.get? [logPath] ≠ some .directory) {r : ScriptReader} {text : String}
    (hnotLog : ∀ path, namedFile r.file = some path → w.tree.follow path ≠ .ok [logPath])
    (htext : (r.scriptText.run w).1 = .ok text) : (r.scriptText.run w').1 = .ok text := by
  rw [ScriptReader.scriptText] at htext ⊢
  cases hfile : namedFile r.file with
  | none =>
      rw [hfile] at htext
      cases hgiven : r.text with
      | none =>
          rw [hgiven] at htext
          exact htext
      | some given =>
          rw [hgiven] at htext
          exact htext
  | some path =>
      rw [hfile] at htext
      simp only [Work.run_readText] at htext ⊢
      cases hread : w.tree.read path with
      | error f =>
          rw [hread] at htext
          cases htext
      | ok bytes =>
          -- the way to the script leads through directories alone, and the log is none
          obtain ⟨place, hfollow⟩ := follow_of_read hread
          have hplace : place ≠ [logPath] := by
            rintro rfl
            exact hnotLog path hfile hfollow
          have hfollow' := (h.sameDirectories hlog).follow hfollow
          rw [read_congr hfollow hfollow' (h.elsewhere place hplace)]
          exact htext

/-- What a run that ends well needs is there in every world that differs in the log alone. -/
theorem EndsWell.transport {r : ScriptReader} {w w' : World} {outcome : Outcome}
    (h : EndsWell r w outcome) (hsame : SameButLog w w') : EndsWell r w' outcome where
  language := h.language
  written := by
    have hdirectories := hsame.sameDirectories h.noDirectory
    obtain ⟨text, place, htext, hfollow, hplace, -⟩ := exists_of_written h.written
    obtain ⟨content, hwrite⟩ := run_writeInstrumented
      (hsame.scriptText h.noDirectory h.notLog htext) (hdirectories.follow hfollow)
      fun hdirectory => hplace ((hdirectories place).mp hdirectory)
    rw [hwrite]
  passable := h.passable
  next := by rw [hsame.outcomes, hsame.later, h.next]
  code := h.code
  notLog path hfile hfollow :=
    h.notLog path hfile ((hsame.sameDirectories h.noDirectory).symm.follow hfollow)
  noDirectory := hsame.noDirectory

theorem EndsWell.run_read {r : ScriptReader} {w : World} {outcome : Outcome}
    (h : EndsWell r w outcome) : (r.read.run w).1
      = sectionOfLog (outcome.log.or (w.tree.contentAt [logPath])) := by
  rw [ScriptReader.read, h.language]
  exact h.run_readPerl

/-- Any log can be put in the place of the log. -/
theorem sameButLog_set (w : World) (content : ByteArray) :
    SameButLog w { w with tree := w.tree.set [logPath] (.file content) } where
  outcomes := rfl
  later := rfl
  elsewhere place hplace := w.tree.get?_set_of_ne _ hplace
  noDirectory := by
    rw [w.tree.get?_set_self (List.cons_ne_nil _ _)]
    intro h
    cases h

theorem EndsWell.run_read_set {r : ScriptReader} {w : World} {outcome : Outcome}
    (h : EndsWell r w outcome) (hnone : outcome.log = none) (content : ByteArray) :
    (r.read.run { w with tree := w.tree.set [logPath] (.file content) }).1
      = sectionOfLog (some content) := by
  have hcontent : (w.tree.set [logPath] (.file content)).contentAt [logPath] = some content := by
    rw [contentAt, w.tree.get?_set_self (List.cons_ne_nil _ _)]
  rw [(h.transport (sameButLog_set w content)).run_read, hnone, Option.none_or, hcontent]

/-- **The log of an earlier run is read as this run's own**, unless this run leaves one: what a
    script gives does not depend on the log that was there before if and only if its run leaves a
    log, and if it leaves none the section is that of the log that was there. -/
theorem earlier_log_immaterial_iff {r : ScriptReader} {w : World} {outcome : Outcome}
    (h : EndsWell r w outcome) :
    ((∀ w', SameButLog w w' → (r.read.run w').1 = (r.read.run w).1) ↔ outcome.log.isSome = true) ∧
      (r.read.run w).1 = sectionOfLog (outcome.log.or (w.tree.contentAt [logPath])) := by
  refine ⟨⟨?_, ?_⟩, h.run_read⟩
  · intro hsame
    cases hown : outcome.log with
    | some log => rfl
    | none =>
        -- a log of no operations gives a section, and an empty file gives none
        have hempty := hsame _ (sameButLog_set w "[]".toUTF8)
        have hbad := hsame _ (sameButLog_set w "".toUTF8)
        rw [h.run_read_set hown] at hempty hbad
        have hequal := congrArg Except.isOk (hempty.trans hbad.symm)
        exact absurd hequal (by decide +kernel)
  · intro hown w' hsame
    obtain ⟨log, hlog⟩ := Option.isSome_iff_exists.mp hown
    rw [(h.transport hsame).run_read, h.run_read, hlog, Option.some_or, Option.some_or]

/-- A script that prints something, and does nothing that would be logged. -/
def printing : ScriptReader where
  language := .perl
  file := some "b.pl"
  text := none
  settings := {}

/-- The world that a run has left which has removed a directory. -/
def afterRemoval : World where
  tree := ⟨[(["b.pl"], .file "print 1;".toUTF8),
    ([logPath], .file "[\x7b\"type\": \"rmdir\", \"dir\": \"/srv/old\"\x7d]".toUTF8)]⟩
  outcomes := [some {}]

/-- The directory is removed again, by a script that has nothing to do with it. -/
theorem earlier_removal_done_again : EndsWell printing afterRemoval {} ∧
    (¬ ∀ w', SameButLog afterRemoval w' →
      (printing.read.run w').1 = (printing.read.run afterRemoval).1) ∧
    (printing.read.run afterRemoval).1.toOption.map (·.tasks.display)
      = some ("[\x7b'name': 'Remove directory /srv/old', " ++
          "'ansible.builtin.file': \x7b'path': '/srv/old', 'state': 'absent'\x7d\x7d]") := by
  have hends : EndsWell printing afterRemoval {} := by
    refine ⟨rfl, by decide +kernel, by decide, rfl, rfl, ?_, ?_⟩
    · intro path hpath
      cases hpath
      decide +kernel
    · intro hdirectory
      cases hdirectory
  obtain ⟨hiff, hread⟩ := earlier_log_immaterial_iff hends
  refine ⟨hends, fun hsame => ?_, ?_⟩
  · exact absurd (hiff.mp hsame) (by decide)
  · rw [hread]
    decide +kernel

end Playscript.ScriptReader
