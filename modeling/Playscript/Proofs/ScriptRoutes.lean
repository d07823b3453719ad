import Playscript.Proofs.EarlierLogs
import Playscript.Proofs.Utf8RoundTrip

/-! # Scripts from files and scripts from texts

    A script may be given as a file or as a text.  Both routes look at the first line and take it
    for the same language (`run_choose_file`, `run_choose_text`), but the reader that is chosen for
    a text is not given the text, so it has nothing to read.  The two routes therefore end alike
    only where both fail in the same way.  A reader that is given the text reads what the reader of
    the file reads: a Bash script in the same world, a Perl script up to the run of the interpreter,
    which sees nothing of the script but its instrumented form (`Alike`).  The paths of scripts and
    of the log are relative to the tree. -/

namespace Playscript.ScriptReader

open FileTree

/-- Chooses the reader for a script and reads it. -/
def route (file text : Option String) (config : Value) : Work Section := do
  let reader ← choose file text config
  reader.read

/-! ## The choice of a reader -/

/-- What a reader is for has no say in whether it can be made. -/
theorem make_eq (language : Language) (file text : Option String) (config : Value) :
    make language file text config
      = (make language none none config).map fun r => { r with file := file, text := text } := by
  unfold make
  cases Settings.ofValue config with
  | error failure => rfl
  | ok settings =>
      cases language with
      | bash => rfl
      | perl =>
          cases config with
          | map entries =>
              simp only [bind, Except.bind]
              cases (Entries.field? entries "perl_custom").getD (.text "") with
              | scalar datum => cases datum with | _ => rfl
              | _ => rfl
          | _ => rfl

/-- A reader is for what it was made for, with settings that are those of the configuration. -/
theorem of_make {language : Language} {file text : Option String} {config : Value}
    {r : ScriptReader} (h : make language file text config = .ok r) :
    r.language = language ∧ r.file = file ∧ r.text = text ∧
      Settings.ofValue config = .ok r.settings := by
  unfold make at h
  cases hsettings : Settings.ofValue config with
  | error failure =>
      rw [hsettings] at h
      cases h
  | ok settings =>
      rw [hsettings] at h
      simp only [bind, Except.bind] at h
      split at h
      · split at h
        · cases h
          exact ⟨rfl, rfl, rfl, rfl⟩
        · cases h
      · cases h
        exact ⟨rfl, rfl, rfl, rfl⟩

/-- A text that has been written without carriage returns is read as it was. -/
theorem run_readText_of_text {w : World} {path text : String}
    (hread : w.tree.read path = .ok text.toUTF8) (hreturn : '\r' ∉ text.toList) :
    (Work.readText path).run w = (.ok text, w) := by
  rw [Work.run_readText, hread]
  show ((Text.ofBytes text.toUTF8).mapError _, w) = _
  rw [Text.ofBytes_toUTF8 hreturn]
  rfl

section Choice

variable {w : World} {path text : String} (hpath : path ≠ "")
  (hending : ∀ ending ∈ [".pl", ".sh", ".bash"], hasEnding ending path = false)
  (hread : w.tree.read path = .ok text.toUTF8) (hreturn : '\r' ∉ text.toList)

include hpath in
theorem namedFile_some : namedFile (some path) = some path := by
  simp [namedFile, Option.filter, hpath]

include hending hread hreturn in
/-- A file whose name says nothing is in the language of its first line. -/
theorem run_languageOfFile :
    (languageOfFile path).run w = (.ok (languageOfLine (firstLine text.toList)), w) := by
  have hline : firstLineOf text.toUTF8.toList = .ok (firstLine text.toList) := by
    rw [firstLineOf, Text.decode_toUTF8]
    simp only [Text.unifyNewlines_of_no_return hreturn]
  have hperl := hending ".pl" (by decide)
  have hshell := hending ".sh" (by decide)
  have hbash := hending ".bash" (by decide)
  simp only [languageOfFile, hperl, hshell, hbash, Bool.or_self, Bool.false_eq_true, if_false]
  rw [Run.get_bind, hread]
  simp only [hline]
  rfl

include hpath hending hread hreturn in
theorem run_choose_file (config : Value) : (choose (some path) none config).run w
    = (make (languageOfLine (firstLine text.toList)) (some path) none config, w) := by
  rw [choose, namedFile_some hpath]
  exact (Run.bind_of_ok (run_languageOfFile hending hread hreturn) _).trans (Run.run_liftM _ w)

theorem run_choose_text (w : World) (text : String) (config : Value) :
    (choose none (some text) config).run w
      = (make (languageOfLine (firstLine text.toList)) none none config, w) :=
  (Run.bind_of_ok rfl _).trans (Run.run_liftM _ w)

end Choice

/-! ## Reading -/

/-- A reader that has neither a file nor a text reads nothing. -/
theorem run_read_nothing {r : ScriptReader} (hfile : r.file = none) (htext : r.text = none)
    (w : World) : r.read.run w = (.error .wrongShape, w) := by
  have hnone : r.scriptText.run w = (.error .wrongShape, w) := by
    rw [scriptText, hfile, htext]
    rfl
  unfold read
  cases r.language with
  | bash =>
      show r.readBash.run w = _
      rw [readBash, Run.bind_of_error hnone]
  | perl =>
      have hwrite : r.writeInstrumented.run w = (.error .wrongShape, w) := by
        rw [writeInstrumented, Run.bind_of_error hnone]
      show r.readPerl.run w = _
      rw [readPerl, Run.bind_of_error hwrite]

/-- Bash scripts with the same text are read alike. -/
theorem run_readBash_congr {r r' : ScriptReader} (hsettings : r'.settings = r.settings) {w : World}
    {text : String} (htext : r.scriptText.run w = (.ok text, w))
    (htext' : r'.scriptText.run w = (.ok text, w)) : r'.readBash.run w = r.readBash.run w := by
  rw [readBash, readBash, Run.bind_of_ok htext, Run.bind_of_ok htext', hsettings]

/-! ### What the interpreter sees -/

/-- Two worlds that the run of an interpreter does not tell apart: what will come of it is the
    same, and so is what stands in the place of the log. -/
structure SameRun (w w' : World) : Prop where
  outcomes : w'.outcomes = w.outcomes
  later : w'.later = w.later
  log : w'.tree.get? [logPath] = w.tree.get? [logPath]

theorem SameRun.find_log {w w' : World} (h : SameRun w w') :
    w'.tree.find logPath = w.tree.find logPath := by
  simp only [find, follow_logPath, h.log, bind, Except.bind]

theorem SameRun.exists_log {w w' : World} (h : SameRun w w') :
    w'.tree.exists? logPath = w.tree.exists? logPath := by
  rw [exists?, exists?, h.find_log]

theorem SameRun.read_log {w w' : World} (h : SameRun w w') :
    w'.tree.read logPath = w.tree.read logPath :=
  read_congr (follow_logPath _) (follow_logPath _) h.log

/-- Two pieces of work that end alike in such worlds, and leave such worlds. -/
def Alike {α : Type} (x y : Work α) : Prop :=
  ∀ w w', SameRun w w' → (y.run w').1 = (x.run w).1 ∧ SameRun (x.run w).2 (y.run w').2

namespace Alike

variable {α β : Type}

theorem pure (a : α) : Alike (Pure.pure a : Work α) (Pure.pure a) :=
  fun _ _ h => ⟨rfl, h⟩

theorem throw (f : Failure) : Alike (MonadExcept.throw f : Work α) (MonadExcept.throw f) :=
  fun _ _ h => ⟨rfl, h⟩

theorem modify {f g : World → World} (h : ∀ w w', SameRun w w' → SameRun (f w) (g w')) :
    Alike (modify f : Work PUnit) (modify g) :=
  fun w w' hw => ⟨rfl, h w w' hw⟩

/-- Work that goes alike, one after the other: it fails alike at the same place, or goes on alike
    with the same result. -/
theorem bind {x y : Work α} {k l : α → Work β} (hx : Alike x y) (hk : ∀ a, Alike (k a) (l a)) :
    Alike (x >>= k) (y >>= l) := by
  intro w w' h
  obtain ⟨hresult, hworld⟩ := hx w w' h
  cases hrun : x.run w with
  | mk result v =>
      cases hrun' : y.run w' with
      | mk result' v' =>
          rw [hrun, hrun'] at hresult hworld
          cases hresult
          cases result with
          | error f =>
              rw [Run.bind_of_error hrun, Run.bind_of_error hrun']
              exact ⟨rfl, hworld⟩
          | ok a =>
              rw [Run.bind_of_ok hrun, Run.bind_of_ok hrun']
              exact hk a v v' hworld

theorem lift (r : Except Failure α) : Alike (liftM r) (liftM r) := by
  intro w w' h
  rw [Run.run_liftM, Run.run_liftM]
  exact ⟨rfl, h⟩

/-- The next run of the interpreter is the same in worlds that go alike, and is used up in both. -/
theorem nextOutcome : Alike nextOutcome nextOutcome := by
  intro w w' h
  rw [ScriptReader.nextOutcome, Run.get_bind, Run.get_bind, h.outcomes]
  cases w.outcomes with
  | nil => exact ⟨congrArg Except.ok h.later, h⟩
  | cons outcome rest => exact ⟨rfl, rfl, h.later, h.log⟩

/-- The log is written in both worlds or in none. -/
theorem writeLog (log : ByteArray) : Alike (Work.files (Filing.write logPath log))
    (Work.files (Filing.write logPath log)) := by
  intro w w' h
  rw [Work.run_files, Work.run_files]
  by_cases hplace : w.tree.get? [logPath] = some .directory
  · rw [Filing.run_write_directory log (follow_logPath _) hplace,
      Filing.run_write_directory log (follow_logPath _) (h.log.trans hplace)]
    exact ⟨rfl, h⟩
  · have hplace' : w'.tree.get? [logPath] ≠ some .directory := by rwa [h.log]
    rw [Filing.run_write log (follow_logPath _) hplace not_endsInSlash_logPath,
      Filing.run_write log (follow_logPath _) hplace' not_endsInSlash_logPath]
    refine ⟨rfl, h.outcomes, h.later, ?_⟩
    rw [get?_set_self _ (List.cons_ne_nil _ _), get?_set_self _ (List.cons_ne_nil _ _)]

/-- The log stands at one place, so both routes load the same. -/
theorem loadLog : Alike loadLog loadLog := by
  refine bind (fun w w' h => ⟨congrArg Except.ok h.exists_log, h⟩) fun there => ?_
  cases there with
  | false => exact fun _ _ h => ⟨rfl, h⟩
  | true =>
      refine bind (fun w w' h => ?_) fun text => ?_
      · rw [Work.run_readText, Work.run_readText, h.read_log]
        exact ⟨rfl, h⟩
      · cases Json.read? text with
        | none => exact throw _
        | some log => exact pure log

/-- Two instrumented scripts run alike in the same environment. -/
theorem runInstrumented {r r' : ScriptReader} (hsettings : r'.settings = r.settings) :
    Alike r.runInstrumented r'.runInstrumented := by
  unfold ScriptReader.runInstrumented
  rw [hsettings]
  refine bind (modify fun w w' h => ⟨h.outcomes, h.later, h.log⟩) fun _ => ?_
  cases isPassable r.settings.environment with
  | false => exact fun _ _ h => ⟨rfl, h⟩
  | true =>
      refine bind nextOutcome fun outcome => ?_
      cases outcome with
      | none => exact throw _
      | some outcome =>
          dsimp only
          cases outcome.code != "0" with
          | true =>
              have hreport : ∀ message, Alike (Work.report .error message)
                  (Work.report .error message) :=
                fun _ => modify fun _ _ h => ⟨h.outcomes, h.later, h.log⟩
              cases outcome.log with
              | none => exact bind (hreport _) fun _ _ _ h => ⟨rfl, h⟩
              | some log =>
                  exact bind (writeLog log) fun _ => bind (hreport _) fun _ _ _ h => ⟨rfl, h⟩
          | false =>
              cases outcome.log with
              | none => exact pure _
              | some log => exact bind (writeLog log) fun _ => pure _

end Alike

/-- Writing the instrumented script is nothing that its run sees in the world. -/
theorem sameRun_of_written {r : ScriptReader} {w : World}
    (h : (r.writeInstrumented.run w).1 = .ok ()) :
    ∃ w', r.writeInstrumented.run w = (.ok (), w') ∧ SameRun w w' := by
  obtain ⟨text, place, htext, hfollow, hplace, hne⟩ := exists_of_written h
  obtain ⟨content, hrun⟩ := run_writeInstrumented htext hfollow hplace
  exact ⟨_, hrun, rfl, rfl, w.tree.get?_set_of_ne (.file content) hne.symm⟩

/-- Perl scripts that can be instrumented are read alike: all that is read is the log. -/
theorem readPerl_congr {r r' : ScriptReader} (hsettings : r'.settings = r.settings) {w : World}
    (h : (r.writeInstrumented.run w).1 = .ok ()) (h' : (r'.writeInstrumented.run w).1 = .ok ()) :
    (r'.readPerl.run w).1 = (r.readPerl.run w).1 := by
  obtain ⟨w₁, hrun, hsame⟩ := sameRun_of_written h
  obtain ⟨w₁', hrun', hsame'⟩ := sameRun_of_written h'
  have hrest : SameRun w₁ w₁' := ⟨hsame'.outcomes.trans hsame.outcomes.symm,
    hsame'.later.trans hsame.later.symm, hsame'.log.trans hsame.log.symm⟩
  rw [readPerl, readPerl, Run.bind_of_ok hrun, Run.bind_of_ok hrun']
  have hread := Alike.bind (.runInstrumented hsettings) fun _ : List String =>
    Alike.bind .loadLog fun log => Alike.bind (.lift (Perl.tasksOfLog log)) fun tasks =>
      Alike.pure (Section.ofTasks "hmmmmm2" tasks [])
  exact (hread w₁ w₁' hrest).1

/-! ## The two routes -/

/-- A reader that is given a text reads like one that opens a file with that text. -/
theorem read_given_eq_read_opened {w : World} {path text : String} {language : Language}
    {config : Value} {given opened : ScriptReader} (hpath : path ≠ "")
    (hread : w.tree.read path = .ok text.toUTF8) (hreturn : '\r' ∉ text.toList)
    (hgiven : make language none (some text) config = .ok given)
    (hopened : make language (some path) none config = .ok opened) :
    (language = .bash → given.read.run w = opened.read.run w) ∧
    (language = .perl → (given.writeInstrumented.run w).1 = .ok () →
      (opened.writeInstrumented.run w).1 = .ok () →
      (given.read.run w).1 = (opened.read.run w).1) := by
  obtain ⟨hlanguage, hgivenFile, hgivenText, hsettings⟩ := of_make hgiven
  obtain ⟨hlanguage', hopenedFile, -, hsettings'⟩ := of_make hopened
  have hsame : given.settings = opened.settings :=
    Except.ok.inj (hsettings.symm.trans hsettings')
  have hreads : given.scriptText.run w = (.ok text, w) := by
    rw [scriptText, hgivenFile, hgivenText]
    rfl
  have hreads' : opened.scriptText.run w = (.ok text, w) := by
    rw [scriptText, hopenedFile, namedFile_some hpath]
    exact run_readText_of_text hread hreturn
  rw [read, read, hlanguage, hlanguage']
  constructor
  · intro hbash
    rw [hbash]
    exact run_readBash_congr hsame hreads' hreads
  · intro hperl hwritten hwritten'
    rw [hperl]
    exact readPerl_congr hsame hwritten' hwritten

/-- **A script that is given as a text is not read as it would be from a file**, unless both fail
    in the same way.  For a readable file whose name says nothing about the language, and whose
    text has no carriage returns: both routes choose a reader of the same language, or fail to make
    one.  The reader for the text has no text, so the results are the same exactly if there is no
    reader at all, or if the reader of the file fails just as one without a script.  A reader that
    is given the text reads a Bash script like the reader of the file, to the same world, and a
    Perl script with the same result, as far as both can write it out instrumented. -/
theorem text_route_eq_file_route_iff {w : World} {path text : String} (config : Value)
    (hpath : path ≠ "")
    (hending : ∀ ending ∈ [".pl", ".sh", ".bash"], hasEnding ending path = false)
    (hread : w.tree.read path = .ok text.toUTF8) (hreturn : '\r' ∉ text.toList) :
    let language := languageOfLine (firstLine text.toList)
    let byFile := (route (some path) none config).run w
    let byText := (route none (some text) config).run w
    (choose (some path) none config).run w = (make language (some path) none config, w) ∧
    (choose none (some text) config).run w = (make language none none config, w) ∧
    (byText.1 = byFile.1 ↔
      (make language none none config).isOk = false ∨ byFile.1 = .error .wrongShape) ∧
    ∀ given opened, make language none (some text) config = .ok given →
      make language (some path) none config = .ok opened →
      (language = .bash → given.read.run w = byFile) ∧
      (language = .perl → (given.writeInstrumented.run w).1 = .ok () →
        (opened.writeInstrumented.run w).1 = .ok () → (given.read.run w).1 = byFile.1) := by
  intro language byFile byText
  have hfile := run_choose_file hpath hending hread hreturn config
  have htext := run_choose_text w text config
  have hbyFile : ∀ opened, make language (some path) none config = .ok opened →
      byFile = opened.read.run w := fun opened hopened =>
    Run.bind_of_ok (hfile.trans (by rw [hopened])) _
  refine ⟨hfile, htext, ?_, fun given opened hgiven hopened => ?_⟩
  · have hmade := make_eq language (some path) none config
    cases hmake : make language none none config with
    | error failure =>
        rw [hmake] at hmade
        have hfailed : byFile = (.error failure, w) :=
          Run.bind_of_error (hfile.trans (by rw [hmade]; rfl)) _
        have hfailed' : byText = (.error failure, w) :=
          Run.bind_of_error (htext.trans (by rw [hmake])) _
        rw [hfailed, hfailed']
        simp [Except.isOk, Except.toBool]
    | ok empty =>
        obtain ⟨-, hnofile, hnotext, -⟩ := of_make hmake
        have hempty : byText = (.error .wrongShape, w) :=
          (Run.bind_of_ok (htext.trans (by rw [hmake])) _).trans
            (run_read_nothing hnofile hnotext w)
        rw [hempty]
        simp [Except.isOk, Except.toBool, eq_comm]
  · rw [hbyFile opened hopened]
    exact read_given_eq_read_opened hpath hread hreturn hgiven hopened

/-- The file `run` with the text `touch /a` gives a section, and the text alone gives none. -/
theorem touch_from_text_lost :
    let w : World := { tree := ⟨[(["run"], .file "touch /a".toUTF8)]⟩ }
    let byFile := (route (some "run") none (.map [])).run w
    let byText := (route none (some "touch /a") (.map [])).run w
    w.tree.read "run" = .ok "touch /a".toUTF8 ∧ byFile.1.isOk = true ∧ byText.1 ≠ byFile.1 := by
  intro w byFile byText
  have hread : w.tree.read "run" = .ok "touch /a".toUTF8 := rfl
  have hending : ∀ ending ∈ [".pl", ".sh", ".bash"], hasEnding ending "run" = false := by decide
  obtain ⟨-, -, hiff, -⟩ := text_route_eq_file_route_iff (.map []) (by decide) hending hread
    (by decide)
  have hok : byFile.1.isOk = true := by decide +kernel
  refine ⟨hread, hok, fun hsame => ?_⟩
  rcases hiff.mp hsame with hunmade | hfailed
  · exact absurd hunmade (by decide +kernel)
  · rw [show byFile.1 = .error .wrongShape from hfailed] at hok
    cases hok

end Playscript.ScriptReader
