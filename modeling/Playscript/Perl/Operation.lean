import Playscript.Failure
import Playscript.Task
import Playscript.Text.Blank
import Playscript.Text.Octal
import Playscript.Value.Display

/-! # Logged operations

    An instrumented Perl script logs what it would have done.  `Operation.ofValue` reads
    one entry of such a log, `Operation.tasks` are the tasks that do the same; entries
    that ask for nothing give none. -/

namespace Playscript.Perl

/-- Something that a Perl script would have done. -/
inductive Operation where
  /-- A file opened in a mode. -/
  | opened (file : Value) (mode : String)
  /-- A directory made, with the text of its mode. -/
  | madeDirectory (path : Value) (mode : Option String)
  | removedDirectory (path : Value)
  | deleted (files : List Value)
  | renamed (source destination : Value)
  /-- A command run, by its words. -/
  | ran (command : String) (arguments : List String)
  | copied (source destination : Value)
  | madePaths (paths : List Value)
  | removedTrees (paths : List Value)
  /-- A method called of which nothing is known. -/
  | called (package method arguments : Value)
  /-- A task that the script itself describes. -/
  | custom (task : Entries)
  | nothing
deriving Repr, Inhabited

namespace Operation

/-! ## Reading a log entry -/

/-- What a loop goes through. -/
def itemsOf (v : Value) : Except Failure (List Value) :=
  match v.items? with
  | some items => .ok items
  | none => .error .wrongShape

/-- A key, and what stands for it if it is not there. -/
def fieldOr (entry : Entries) (key : String) (default : Value) : Value :=
  (entry.field? key).getD default

/-- The mode of a file: the items of the logged mode, one text. -/
def openMode (v : Value) : Except Failure String := do
  return String.join ((← itemsOf v).map Value.display)

/-- A number as an octal literal. -/
def octalLiteral (n : Int) : String :=
  (if n < 0 then "-0o" else "0o") ++ Text.octalText 1 n.natAbs

/-- The text of a directory's mode, which has to be a number; none if it is zero or not there. -/
def directoryMode (v : Value) : Except Failure (Option String) :=
  if v.isTruthy then
    match v with
    | .scalar (.int n) => .ok (some (octalLiteral n))
    | .scalar (.bool _) => .ok (some (octalLiteral 1))
    | _ => .error .wrongShape
  else .ok none

/-- The first of the arguments of a command. -/
def firstArgument : Value → Except Failure Value
  | .list (first :: _) => .ok first
  | .scalar (.text s) =>
    match s.toList with
    | c :: _ => .ok (.text c.toString)
    | [] => .error .missingOperand
  | .list [] => .error .missingOperand
  | .map _ => .error .missingKey
  | .scalar _ => .error .wrongShape

/-- A command from its logged arguments: the words of the first of them. -/
def commandOf (arguments : Value) : Except Failure Operation :=
  if arguments.isTruthy then do
    match ← firstArgument arguments with
    | .scalar (.text s) =>
      match Text.words s with
      | command :: rest => return .ran command rest
      | [] => throw .missingOperand
    | _ => throw .missingPart
  else .ok .nothing

/-- The two ends of a copy. -/
def copyOf (arguments : Value) : Except Failure Operation :=
  match arguments with
  | .map _ => .error .wrongShape
  | arguments => do
    match (← itemsOf arguments).take 2 with
    | [source, destination] =>
      return if source.isTruthy && destination.isTruthy then .copied source destination
        else .nothing
    | few => throw (.tooFewPieces few.length)

/-- A call of a method in a package. -/
def callOf (entry : Entries) : Except Failure Operation :=
  let package := entry.field "module"
  let method := entry.field "method"
  match package.text?, method.text? with
  | some "File::Copy", some "copy" => copyOf (fieldOr entry "args" (.list [.null, .null]))
  | some "File::Path", some "make_path" =>
    (itemsOf (fieldOr entry "args" (.list []))).map .madePaths
  | some "File::Path", some "remove_tree" =>
    (itemsOf (fieldOr entry "args" (.list []))).map .removedTrees
  | _, _ => .ok (.called package method (fieldOr entry "args" (.list [])))

/-- A task that the script describes: its name, its module, and what is laid over both. -/
def customOf (entry : Entries) : Except Failure Operation :=
  match entry.field "data" with
  | .map fields =>
    let data : Entries := fields
    let module := data.field "task"
    let name := fieldOr data "name" (.text ("Custom task " ++ module.display))
    match module, fieldOr data "params" (.map []) with
    | .scalar key, .map params =>
      let task := Entries.set [(.text "name", name)] key (fieldOr data "task_params" (.map []))
      .ok (.custom (task.merge params))
    | _, _ => .error .wrongShape
  | _ => .error .missingPart

/-- The operation of a log entry; a type that is not known asks for nothing. -/
def ofEntries (entry : Entries) : Except Failure Operation :=
  match (entry.field "type").text? with
  | some "file_open" => do
    return .opened (entry.field "file") (← openMode (fieldOr entry "mode" (.list [])))
  | some "mkdir" => do
    return .madeDirectory (entry.field "dir") (← directoryMode (entry.field "mode"))
  | some "rmdir" => .ok (.removedDirectory (entry.field "dir"))
  | some "file_delete" => (itemsOf (fieldOr entry "files" (.list []))).map .deleted
  | some "file_rename" => .ok (.renamed (entry.field "from") (entry.field "to"))
  | some "system_call" => commandOf (entry.field "args")
  | some "exec_call" => commandOf (entry.field "args")
  | some "external_call" => callOf entry
  | some "custom" => customOf entry
  | _ => .ok .nothing

/-- The operation of an item of a log. -/
def ofValue : Value → Except Failure Operation
  | .map entry => ofEntries entry
  | _ => .error .missingPart

/-! ## Tasks -/

/-- A task of the module for files. -/
def fileTask (name : String) (path : Value) (state : String)
    (more : List (String × Value)) : Task :=
  Task.make name "ansible.builtin.file" (record ([("path", path), ("state", .text state)] ++ more)) []

/-- A directory. -/
def directoryTask (path : Value) (mode : Option String) : Task :=
  fileTask ("Create directory " ++ path.display) path "directory"
    (mode.map fun mode => ("mode", Value.text mode)).toList

/-- A directory that is not there any more. -/
def removalTask (path : Value) : Task :=
  fileTask ("Remove directory " ++ path.display) path "absent" []

/-- A file that is not there any more. -/
def deletionTask (path : Value) : Task :=
  fileTask ("Delete file " ++ path.display) path "absent" []

/-- A file under another name. -/
def renameTask (source destination : Value) : Task :=
  Task.make ("Rename " ++ source.display ++ " to " ++ destination.display)
    "ansible.builtin.command" (.text ("mv " ++ source.display ++ " " ++ destination.display))
    [("args", record [("creates", destination), ("removes", source)])]

/-- A command that is run. -/
def commandTask (command : String) (arguments : List String) : Task :=
  let text := " ".intercalate (command :: arguments)
  Task.make ("Run command: " ++ text) "ansible.builtin.command" (.text text) []

/-- A copy of a file. -/
def copyTask (source destination : Value) : Task :=
  Task.make ("Copy " ++ source.display ++ " to " ++ destination.display) "ansible.builtin.copy"
    (record [("src", source), ("dest", destination), ("mode", .text "preserve")]) []

/-- A note about a method of which nothing is known. -/
def callTask (package method arguments : Value) : Task :=
  Task.make ("Call Perl method " ++ method.display ++ " in " ++ package.display) "debug"
    (record [("msg", .text (package.display ++ "::" ++ method.display ++ " called with args "
      ++ arguments.display))]) []

/-- Whether a file is opened to be written. -/
def writes (mode : String) : Bool :=
  mode.toList.any fun c => c == 'w' || c == 'a' || c == '+'

/-- The task of a command, by its name and its words. -/
def ranTask : String → List String → Task
  | "mkdir", path :: _ => directoryTask (.text path) none
  | "rm", path :: _ => deletionTask (.text path)
  | "mv", source :: destination :: _ => renameTask (.text source) (.text destination)
  | command, arguments => commandTask command arguments

/-- The tasks that do what an operation would have done. -/
def tasks : Operation → List Task
  | .opened file mode =>
    if writes mode then
      [fileTask ("Ensure file " ++ file.display ++ " exists") file "touch" []]
    else []
  | .madeDirectory path mode => [directoryTask path mode]
  | .removedDirectory path => [removalTask path]
  | .deleted files => files.map deletionTask
  | .renamed source destination => [renameTask source destination]
  | .ran command arguments => [ranTask command arguments]
  | .copied source destination => [copyTask source destination]
  | .madePaths paths => paths.map (directoryTask · none)
  | .removedTrees paths => paths.map removalTask
  | .called package method arguments => [callTask package method arguments]
  | .custom task => [⟨task⟩]
  | .nothing => []

end Operation

/-- The tasks of the items of a log. -/
def tasksOfItems : List Value → Except Failure (List Task)
  | [] => .ok []
  | item :: rest => do
    let operation ← Operation.ofValue item
    return operation.tasks ++ (← tasksOfItems rest)

/-- The tasks of a log. -/
def tasksOfLog (log : Value) : Except Failure (List Task) := do
  tasksOfItems (← Operation.itemsOf log)

end Playscript.Perl
