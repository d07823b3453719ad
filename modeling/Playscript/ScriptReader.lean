import Playscript.Json.Reader
import Playscript.Perl.Instrumentation
import Playscript.Perl.Operation
import Playscript.Session.Visit
import Playscript.Text.Replace
import Playscript.World

/-! # Reading scripts from files

    A script is a file or a text, in one of two languages.  A Bash script is read
    itself; a Perl script is run behind its instrumentation and the log that the run
    leaves is read.  Which language a file is in shows in its name or in its first
    line. -/

namespace Playscript

/-- The languages of scripts. -/
inductive Language where
  | bash
  | perl
deriving DecidableEq, Repr, Inhabited

/-- A script to be read. -/
structure ScriptReader where
  language : Language
  file : Option String
  text : Option String
  settings : Settings
  /-- The user's part of the instrumentation. -/
  custom : String := ""
deriving Repr, Inhabited

namespace ScriptReader

/-- What reading a script in no language at all says. -/
def noLanguage : Failure :=
  .unsupported "Subclasses should implement this method to parse the script."

/-- The file that a path names; an empty path names none. -/
def namedFile (file : Option String) : Option String :=
  file.filter (!·.isEmpty)

/-- A reader under a configuration. -/
def make (language : Language) (file text : Option String) (config : Value) :
    Except Failure ScriptReader := do
  let settings ← Settings.ofValue config
  let reader : ScriptReader :=
    { language := language, file := file, text := text, settings := settings }
  match language, config with
  | .perl, .map entries =>
    match (Entries.field? entries "perl_custom").getD (.text "") with
    | .scalar (.text custom) => return { reader with custom := custom }
    | _ => throw .wrongShape
  | _, _ => return reader

/-- The text of the script. -/
def scriptText (r : ScriptReader) : Work String :=
  match namedFile r.file with
  | some path => Work.readText path
  | none =>
    match r.text with
    | some text => pure text
    | none => throw .wrongShape

/-! ## Bash -/

/-- Reads a Bash script. -/
def readBash (r : ScriptReader) : Work Section := do
  let (went, session) := Session.ofScript r.settings (← r.scriptText)
  Work.tell session.output
  let _ ← went
  return session.toSection "hmm"

/-! ## Perl -/

/-- Where the operation log is written.  The instrumentation names it as `/tmp/ops_log.json`; as
    trees hold no paths from the root, the directory of temporary files is relocated to the
    directory of the tree, and the name alone is left. -/
def logPath : String :=
  "ops_log.json"

/-- The file that the instrumented script is written to: beside the script. -/
def instrumentedPath (r : ScriptReader) : String :=
  match namedFile r.file with
  | some path => Path.sibling path "instrumented.pl"
  | none => "instrumented.pl"

/-- Writes the instrumented script. -/
def writeInstrumented (r : ScriptReader) : Work Unit := do
  let script ← r.scriptText
  Work.writeText r.instrumentedPath (Perl.instrumented r.custom script)

/-- How the next run of the interpreter ends. -/
def nextOutcome : Work (Option Outcome) := do
  let w ← get
  match w.outcomes with
  | outcome :: rest =>
    set { w with outcomes := rest }
    return outcome
  | [] => return w.later

/-- Whether every value of an environment is a text. -/
def isPassable (environment : Entries) : Bool :=
  environment.all fun entry => entry.2.text?.isSome

/-- Runs the instrumented script: the lines that it writes. -/
def runInstrumented (r : ScriptReader) : Work (List String) := do
  let environment := r.settings.environment
  modify fun w => { w with calls := w.calls ++
    [{ script := r.instrumentedPath, environment := environment
       scriptExists := w.tree.exists? r.instrumentedPath }] }
  if !isPassable environment then throw .wrongShape
  match ← nextOutcome with
  | none => throw .noSuchFile
  | some outcome =>
    match outcome.log with
    | some log => Work.files (Filing.write logPath log)
    | none => pure ()
    if outcome.code != "0" then
      let failure : Failure := .runFailed outcome.code outcome.complaint
      Work.report .error (failure.message?.getD "")
      throw failure
    return Text.splitLines outcome.output

/-- Loads the operation log. -/
def loadLog : Work Value := do
  if !(← Work.ask (·.exists? logPath)) then throw (.missingLog logPath)
  match Json.read? (← Work.readText logPath) with
  | some log => return log
  | none => throw .badLog

/-- Reads a Perl script. -/
def readPerl (r : ScriptReader) : Work Section := do
  r.writeInstrumented
  let _ ← r.runInstrumented
  let tasks ← Perl.tasksOfLog (← loadLog)
  return Section.ofTasks "hmmmmm2" tasks []

/-- Reads a script. -/
def read (r : ScriptReader) : Work Section :=
  match r.language with
  | .bash => r.readBash
  | .perl => r.readPerl

/-! ## The language of a script -/

/-- What a system says about a file that cannot be opened. -/
def openComplaint (path : String) : Failure → String
  | .isDirectory => "[Errno 21] Is a directory: " ++ Text.quoted path
  | .notDirectory => "[Errno 20] Not a directory: " ++ Text.quoted path
  | _ => "[Errno 2] No such file or directory: " ++ Text.quoted path

/-- The first line of a text. -/
def firstLine (cs : List Char) : List Char :=
  cs.takeWhile (· != '\n')

/-- The bytes in front of those that cannot be read. -/
def readableFront (bytes : List UInt8) (fault : Text.Utf8Fault) : List Char :=
  match Text.decode (bytes.take fault.place) with
  | .ok cs => Text.unifyNewlines cs
  | .error _ => []

/-- The first line of a file.  A character that is cut off at the end does not matter behind the
    first line; in the first line it is counted from its own start. -/
def firstLineOf (bytes : List UInt8) : Except Text.Utf8Fault (List Char) :=
  match Text.decode bytes with
  | .ok cs => .ok (firstLine (Text.unifyNewlines cs))
  | .error fault =>
    if fault.reason = .truncated then
      let front := readableFront bytes fault
      if front.contains '\n' then .ok (firstLine front) else .error { fault with place := 0 }
    else .error fault

/-- The language that the first line of a script asks for; Bash if it asks for none. -/
def languageOfLine (line : List Char) : Language :=
  if ['#', '!'].isPrefixOf line && Text.occursIn "perl".toList line then .perl else .bash

/-- Whether a path ends in some text. -/
def hasEnding (ending path : String) : Bool :=
  ending.toList.isSuffixOf path.toList

/-- The language of a file, by its name or by its first line; a file that cannot be read is
    taken for Bash, with a warning. -/
def languageOfFile (path : String) : Work Language := do
  if hasEnding ".pl" path then return .perl
  else if hasEnding ".sh" path || hasEnding ".bash" path then return .bash
  else
    let warn (complaint : String) : Work Language := do
      Work.report .warning
        ("Could not read file for shebang detection: " ++ path ++ ": " ++ complaint)
      return .bash
    match (← get).tree.read path with
    | .error failure => warn (openComplaint path failure)
    | .ok bytes =>
      match firstLineOf bytes.toList with
      | .error fault => warn fault.message
      | .ok line => return languageOfLine line

/-- The reader for a file, or for a text if there is no file; a text only shows the language. -/
def choose (file text : Option String) (config : Value) : Work ScriptReader := do
  let language ← match namedFile file with
    | some path => languageOfFile path
    | none =>
      match text with
      | some text => pure (languageOfLine (firstLine text.toList))
      | none => throw .missingPart
  make language file none config

end ScriptReader

end Playscript
