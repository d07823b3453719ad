import Playscript.Failure
import Playscript.Value.Basic

/-! # Tasks

    A task is a mapping: a name, a module with its arguments, and what else belongs to
    it, in this order.  A section is what one script gives: its name, its tasks, and
    the variables it exports. -/

namespace Playscript

/-- A task: its keys with their values. -/
structure Task where
  fields : Entries
deriving Repr, Inhabited

namespace Task

/-- A task from its name, its module with the module's arguments, and further keys. -/
def make (name : String) (module : String) (arguments : Value)
    (more : List (String × Value)) : Task :=
  ⟨(.text "name", .text name) :: (.text module, arguments)
    :: more.map fun entry => (.text entry.1, entry.2)⟩

/-- The value of a key. -/
def get? (t : Task) (key : String) : Option Value :=
  t.fields.field? key

/-- Gives a key a value. -/
def set (t : Task) (key : String) (value : Value) : Task :=
  ⟨t.fields.set (.text key) value⟩

/-- The name under which the task registers its result. -/
def register? (t : Task) : Option Value :=
  t.get? "register"

/-- The task on a condition. -/
def guard (t : Task) (condition : String) : Task :=
  t.set "when" (.text condition)

/-- The task as a value. -/
def toValue (t : Task) : Value :=
  .map t.fields

end Task

/-- The mapping with one entry. -/
def singleEntry (key : String) (value : Value) : Value :=
  .map [(.text key, value)]

/-- A mapping from pairs of a text and a value. -/
def record (entries : List (String × Value)) : Value :=
  .map (entries.map fun entry => (.text entry.1, entry.2))

/-- What one script gives.  The parts are values, since a section may be filled from data. -/
structure Section where
  name : Value
  tasks : Value := .list []
  exports : Value := .list []
deriving Repr, Inhabited

namespace Section

/-- A section of tasks and exported variables. -/
def ofTasks (name : String) (tasks : List Task) (exports : List (String × String)) : Section where
  name := .text name
  tasks := .list (tasks.map Task.toValue)
  exports := .list (exports.map fun entry => singleEntry entry.1 (.text entry.2))

/-- Adds a task to a section whose tasks are a list. -/
def addTask (s : Section) (task : Value) : Except Failure Section :=
  match s.tasks with
  | .list items => .ok { s with tasks := .list (items ++ [task]) }
  | _ => .error .missingPart

/-- Adds a variable to a section whose variables are a list; the key is a single datum. -/
def addVariable (s : Section) (key value : Value) : Except Failure Section :=
  match s.exports, key with
  | .list items, .scalar key => .ok { s with exports := .list (items ++ [.map [(key, value)]]) }
  | .list _, _ => .error .wrongShape
  | _, _ => .error .missingPart

/-- Whether a section has no tasks; its tasks have to be something that can be counted. -/
def isEmpty (s : Section) : Except Failure Bool :=
  match s.tasks.size? with
  | some n => .ok (n == 0)
  | none => .error .wrongShape

end Section

end Playscript
