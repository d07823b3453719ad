import Playscript.Json.Printer
import Playscript.Task
import Playscript.Value.Display
import Playscript.World
import Playscript.Yaml.Printer

/-! # Generators

    A generator writes the tasks of some sections: as a role with a directory
    structure of its own, as a file of tasks, or as a playbook.  Sections give out
    their tasks only when they are opened. -/

namespace Playscript

/-- The format of what is written. -/
inductive Format where
  | yaml
  | json
deriving DecidableEq, Repr, Inhabited

namespace Format

/-- The format that a setting asks for. -/
def ofValue (v : Value) : Format :=
  match v.text? with
  | some "json" => .json
  | _ => .yaml

/-- A value in a format. -/
def serialize : Format → Value → String
  | .json, v => Json.render v
  | .yaml, v => Yaml.render .tasks v

end Format

/-- What a generator works on. -/
structure Job where
  sections : List Section
  /-- Whether the sections give out their tasks. -/
  opened : Bool
  /-- The file for a single document. -/
  outputFile : Except Failure String
  /-- The directory of a role. -/
  outputDirectory : Except Failure String

namespace Job

/-- The tasks of a section. -/
def tasksOf (job : Job) (s : Section) : Except Failure Value :=
  if job.opened then .ok s.tasks else .error .missingPart

end Job

/-- The exported variables of a section, one by one. -/
def Section.exportItems (s : Section) : Except Failure (List Value) :=
  match s.exports.items? with
  | some items => .ok items
  | none => .error .wrongShape

/-- The kinds of output. -/
inductive Generator where
  | role
  | roleTasks
  | playbook
deriving DecidableEq, Repr, Inhabited

namespace Generator

/-- The generator that a setting asks for. -/
def ofValue (v : Value) : Except Failure Generator :=
  match v.text? with
  | some "role" => .ok .role
  | some "role_tasks" => .ok .roleTasks
  | some "playbook" => .ok .playbook
  | _ => .error (.unknownGenerator v.display)

/-! ## Roles -/

/-- The directories of a role. -/
def roleDirectories : List String :=
  ["tasks", "handlers", "files", "templates", "vars", "defaults", "meta"]

/-- The directories that hold a main file. -/
def mainDirectories : List String :=
  ["tasks", "handlers", "vars", "defaults", "meta"]

/-- What a main file holds before anything is written to it. -/
def stub : String :=
  "# This is a stub file for Ansible role\n"

/-- Writes a main file that is not there yet. -/
def writeStub (directory name : String) : Work Unit := do
  let path := Path.join (Path.join directory name) "main.yml"
  if !(← Work.ask (·.exists? path)) then Work.writeText path stub

/-- Makes the structure of a role; files that are there stay as they are. -/
def makeStructure (directory : String) : Work Unit := do
  roleDirectories.forM fun name => Work.files (Filing.makeDirectories (Path.join directory name))
  mainDirectories.forM (writeStub directory)

/-- The file that the tasks of a section go to. -/
def taskFile (s : Section) : String :=
  s.name.display ++ ".yml"

/-- The entry of a main file that takes in the tasks of a section. -/
def includeEntry (s : Section) : Value :=
  singleEntry "include_tasks" (.text (taskFile s))

/-- A file of a role's tasks. -/
def taskPath (directory file : String) : String :=
  Path.join (Path.join directory "tasks") file

/-- Writes the sections that have tasks, each to its file: the entries that take them in, and
    their variables. -/
def writeSections (job : Job) (format : Format) (directory : String) :
    List Section → Work (List Value × List Value)
  | [] => return ([], [])
  | s :: rest => do
    let tasks ← job.tasksOf s
    if tasks.isTruthy then
      let exports ← s.exportItems
      Work.writeText (taskPath directory (taskFile s)) (format.serialize tasks)
      let (entries, more) ← writeSections job format directory rest
      return (includeEntry s :: entries, exports ++ more)
    else writeSections job format directory rest

/-- Writes a role. -/
def writeRole (job : Job) (format : Format) : Work Unit := do
  let directory ← job.outputDirectory
  makeStructure directory
  Work.files (Filing.makeDirectories (Path.join directory "tasks"))
  let (entries, exports) ← writeSections job format directory job.sections
  Work.writeText (taskPath directory "main.yml") (format.serialize (.list entries))
  if !exports.isEmpty then
    Work.writeText (Path.join (Path.join directory "vars") "vars.yml")
      (Yaml.render .exports (.list exports))

/-! ## Single files -/

/-- Writes the tasks of each section that has some to the same file. -/
def writeTasks (job : Job) (format : Format) : Work Unit :=
  job.sections.forM fun s => do
    let tasks ← job.tasksOf s
    if tasks.isTruthy then Work.writeText (← job.outputFile) (format.serialize tasks)

/-- The tasks of a playbook: those of the first section. -/
def playbookTasks (job : Job) : Except Failure Value :=
  match job.sections with
  | first :: _ => job.tasksOf first
  | [] => .ok (.list [])

/-- A playbook with one play. -/
def playbookValue (tasks : Value) : Value :=
  .list [record [("name", .text "Execute translated shell commands"), ("hosts", .text "all"),
    ("become", .bool true), ("tasks", tasks)]]

/-- Writes a playbook. -/
def writePlaybook (job : Job) (format : Format) : Work Unit := do
  let tasks ← playbookTasks job
  Work.writeText (← job.outputFile) (format.serialize (playbookValue tasks))

/-- Writes what the generator stands for. -/
def generate (generator : Generator) (job : Job) (format : Format) : Work Unit :=
  match generator with
  | .role => writeRole job format
  | .roleTasks => writeTasks job format
  | .playbook => writePlaybook job format

end Generator

end Playscript
