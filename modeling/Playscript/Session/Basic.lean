import Playscript.Failure
import Playscript.FileMode
import Playscript.Registers
import Playscript.Settings
import Playscript.Task
import Playscript.Variables

/-! # Sessions

    A session turns the trees of a script into tasks.  It knows the settings, the
    variables and the mask in effect, the registers it has given out, and the tasks so
    far.  A step of a session may fail; what it did before stays done. -/

namespace Playscript

/-- A session: what a script has done so far. -/
structure Session where
  settings : Settings := {}
  registers : Registers := {}
  umask : Value := .text "022"
  vars : Variables := {}
  /-- The register of the last task that has one. -/
  lastRegister : Option String := none
  tasks : List Task := []
  /-- What has been told to the user. -/
  output : String := ""
deriving Repr, Inhabited

/-- A step of a session: it may fail, and keeps what was done before. -/
abbrev Step := ExceptT Failure (StateM Session)

namespace Session

/-- Tells the user a line. -/
def say (line : String) : Step Unit :=
  modify fun s => { s with output := s.output ++ line ++ "\n" }

/-- Adds a task. -/
def addTask (task : Task) : Step Unit :=
  modify fun s => { s with tasks := s.tasks ++ [task] }

/-- A new register for a name. -/
def register (name : String) : Step String := do
  let s ← get
  let (full, registers) := s.registers.next s.settings.role name
  set { s with registers := registers, lastRegister := some full }
  return full

/-- A text with its references written out. -/
def interpret (mode : Expansion) (text : String) : Step String :=
  return (← get).vars.interpret mode text

/-- Sets a variable. -/
def assign (name text : String) : Step Unit :=
  modify fun s => { s with vars := s.vars.assign name text }

/-- Exports a variable. -/
def exportAs (name text : String) : Step Unit :=
  modify fun s => { s with vars := s.vars.exportAs name text }

/-- The mode of a new directory or file. -/
def mode (directory : Bool) : Step Value :=
  return modeValue (← get).umask directory

/-- The name and the text of an assignment. -/
def splitAssignment (text : String) : Option (String × String) :=
  match text.toList.dropWhile (· != '=') with
  | [] => none
  | _ :: value =>
    some (String.ofList (text.toList.takeWhile (· != '=')), String.ofList value)

/-- Does what an assignment says. -/
def assignText (text : String) : Step Unit :=
  match splitAssignment text with
  | some (name, value) => assign name value
  | none => pure ()

/-- The section of a session. -/
def toSection (s : Session) (name : String) : Section :=
  Section.ofTasks name s.tasks s.vars.history

end Session

end Playscript
