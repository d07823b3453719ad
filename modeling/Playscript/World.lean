import Playscript.FileTree
import Playscript.Settings
import Playscript.Text.Utf8

/-! # The world around a script

    What reading and writing scripts needs from outside: a file tree, a place to tell
    the user something, a log, and an interpreter for instrumented scripts.  How each
    run of the interpreter ends is given beforehand; each run is remembered. -/

namespace Playscript

/-- How grave a log entry is. -/
inductive Severity where
  | warning
  | error
deriving DecidableEq, Repr, Inhabited

/-- How a run of the interpreter ends. -/
structure Outcome where
  /-- The code it ends with, as it is shown. -/
  code : String := "0"
  output : String := ""
  complaint : String := ""
  /-- What it leaves as the operation log. -/
  log : Option ByteArray := none
deriving Inhabited

/-- A run of the interpreter: the script, its environment, and whether the script was there. -/
structure InterpreterCall where
  script : String
  environment : Entries
  scriptExists : Bool
deriving Inhabited

/-- The world around a script. -/
structure World where
  tree : FileTree := {}
  /-- What has been told to the user. -/
  output : String := ""
  log : List (Severity × String) := []
  /-- How the next runs of the interpreter end; a run without outcome finds no interpreter. -/
  outcomes : List (Option Outcome) := []
  /-- How the runs behind those end. -/
  later : Option Outcome := some {}
  calls : List InterpreterCall := []
deriving Inhabited

/-- Work in the world: it may fail, and keeps what was done before. -/
abbrev Work := ExceptT Failure (StateM World)

namespace Work

/-- Work on the file tree of the world. -/
def files {α : Type} (filing : Filing α) : Work α := do
  let w ← get
  let (result, tree) := filing.run w.tree
  set { w with tree := tree }
  result

/-- Asks the file tree. -/
def ask {α : Type} (question : FileTree → α) : Work α :=
  return question (← get).tree

/-- Writes a text file. -/
def writeText (path text : String) : Work Unit :=
  files (Filing.write path text.toUTF8)

/-- Reads a text file. -/
def readText (path : String) : Work String := do
  match Text.ofBytes (← (← get).tree.read path) with
  | .ok text => return text
  | .error _ => throw .badEncoding

/-- Writes to the log. -/
def report (severity : Severity) (message : String) : Work Unit :=
  modify fun w => { w with log := w.log ++ [(severity, message)] }

/-- Tells the user something. -/
def tell (text : String) : Work Unit :=
  modify fun w => { w with output := w.output ++ text }

end Work

end Playscript
