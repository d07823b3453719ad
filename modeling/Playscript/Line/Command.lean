import Playscript.FileMode
import Playscript.Recipe
import Playscript.Reference
import Playscript.Text.Matcher
import Playscript.Text.Replace
import Playscript.Variables

/-! # One command of a line-wise script

    A script can also be read line by line, each line being one command that is known
    by its shape.  `meaning` tries the shapes in a fixed order; what has none of them
    is run by a shell, or only told about. -/

namespace Playscript.Line

open Text (Matcher)

/-- What a line means. -/
inductive Meaning where
  | setVariable (name value : String)
  | setUmask (mask : String)
  | task (t : Task)
deriving Repr, Inhabited

/-- What a line is read under. -/
structure Surroundings where
  /-- Whether commands of no known shape are run by a shell. -/
  allowShell : Bool := true
  umask : Option String := none
  vars : Store := []
  /-- The condition of the block that the line stands in. -/
  condition : Option String := none
deriving Repr, Inhabited

/-- Whether a configuration lets a shell run commands of no known shape; it does unless it says
    otherwise. -/
def allowsShell (config : Value) : Except Failure Bool :=
  if config.isTruthy then
    match config with
    | .map entries => .ok ((Entries.field? entries "allow_shell_fallback").getD (.bool true)).isTruthy
    | _ => .error .missingPart
  else .ok true

namespace Surroundings

/-- The mask in effect. -/
def mask (s : Surroundings) : String :=
  match s.umask with
  | some mask => if mask.isEmpty then "022" else mask
  | none => "022"

/-- The mode of a new directory or file. -/
def mode (s : Surroundings) (directory : Bool) : Value :=
  modeValue (.text s.mask) directory

end Surroundings

/-! ## References -/

/-- A text with its references written out, unknown names left as they are. -/
def substitute (vars : Store) (text : String) : String :=
  expandReferences (fun r => (vars.get? r.name).getD r.raw) text

/-- Puts a value for every `$name`, whatever comes behind the name. -/
def replaceVariable (text : String) (entry : String × String) : String :=
  Text.replaceAll ("$" ++ entry.1) entry.2 text

/-- Replaces the variables of a text one after the other. -/
def replaceVariables (vars : Store) (text : String) : String :=
  vars.foldl replaceVariable text

/-! ## Shapes -/

namespace Shape

open Text.Matcher

/-- `NAME=VALUE` -/
def assignment : Matcher (String × String) (String × String) := do
  let first ← exactly Reference.startsName 1
  let more ← longest Reference.inName 0
  lit "="
  return (String.ofList (first ++ more), ← restOfLine)

/-- `umask MASK`, with three or four digits. -/
def umask : Matcher String String := do
  lit "umask"
  blanks
  return String.ofList (← orElse (exactly Text.isDecimal 4) (exactly Text.isDecimal 3))

/-- `mkdir [-p] PATH` -/
def mkdir : Matcher String String := do
  lit "mkdir"
  blanks
  let _ ← optional (do lit "-p"; blanks)
  word

/-- `NAME PATH` -/
def onPath (name : String) : Matcher String String := do
  lit name
  blanks
  word

/-- `ln [-s] SOURCE DESTINATION` -/
def link : Matcher (Bool × String × String) (Bool × String × String) := do
  lit "ln"
  let symbolic ← optional (do blanks; lit "-s")
  blanks
  let src ← word
  blanks
  return (symbolic.isSome, src, ← word)

/-- `cp [-OPTIONS] SOURCE DESTINATION` -/
def copy : Matcher (String × String) (String × String) := do
  lit "cp"
  blanks
  let _ ← optional (do
    lit "-"
    let _ ← longest Char.isAlpha 1
    blanks)
  let src ← word
  blanks
  return (src, ← word)

/-- `ldconfig` -/
def ldconfig : Matcher Unit Unit :=
  lit "ldconfig"

/-- `chmod MODE PATH`, the mode in digits. -/
def chmod : Matcher (String × String) (String × String) := do
  lit "chmod"
  blanks
  let mode ← digits
  blanks
  return (mode, ← word)

/-- `apt` or `apt-get` with a subcommand. -/
def apt {ρ : Type} (subcommand : String) : Matcher ρ Unit := do
  lit "apt"
  let _ ← optional (lit "-get")
  blanks
  lit subcommand

/-- `yum` with a subcommand. -/
def yum {ρ : Type} (subcommand : String) : Matcher ρ Unit := do
  lit "yum"
  blanks
  lit subcommand

/-- The packages behind `install [-y]`. -/
def packages (manager : Matcher (List String) Unit) : Matcher (List String) (List String) := do
  manager
  blanks
  let _ ← optional (do lit "-y"; blanks)
  return Text.words (← restOfLine)

/-- `echo TEXT > FILE` -/
def echo : Matcher (String × String) (String × String) := do
  lit "echo"
  blanks
  let text ← orElse (quotedText '\x22' 0) (orElse (quotedText '\x27' 0)
    (do return String.ofList (← longest (· != '>') 1)))
  anyBlanks
  lit ">"
  anyBlanks
  return (text, ← word)

/-- `grep PATTERN FILE` -/
def grep : Matcher (String × String) (String × String) := do
  lit "grep"
  blanks
  let pattern ← orElse (quotedText '\x22' 1) (orElse (quotedText '\x27' 1) word)
  blanks
  return (pattern, ← word)

end Shape

/-! ## Meanings -/

/-- Whether a character quotes. -/
def isQuoteMark (c : Char) : Bool :=
  c == '\x22' || c == '\x27'

/-- A text without the quotes around it, however many. -/
def stripQuotes (text : String) : String :=
  String.ofList ((text.toList.dropWhile isQuoteMark).reverse.dropWhile isQuoteMark).reverse

/-- `echo` into a file. -/
def writtenTask (s : Surroundings) (text file : String) : Task :=
  Task.make ("Write text to " ++ file) "ansible.builtin.copy"
    (record [("dest", .text file), ("content", .text (stripQuotes text)),
      ("mode", s.mode false)])
    [("register", .text "echo_result")]

/-- `grep` by a shell. -/
def grepTask (pattern file : String) : Task :=
  Task.make ("grep for " ++ pattern ++ " in " ++ file) "shell"
    (.text ("grep " ++ pattern ++ " " ++ file)) [("register", .text "grep_result")]

/-- A command run by a shell. -/
def shellTask (s : Surroundings) (command : String) : Task :=
  let task := Task.make ("Run shell command: " ++ command) "ansible.builtin.shell" (.text command)
    [("register", .text "shell_command_result")]
  match s.condition with
  | some condition => if condition.isEmpty then task else task.guard condition
  | none => task

/-- A command that is only told about. -/
def skippedTask (command : String) : Task :=
  Task.make ("Unsupported command (shell fallback disabled): " ++ command) "ansible.builtin.debug"
    (record [("msg", .text ("Command skipped: " ++ command))]) []

/-- The packages of `yum` brought up to date. -/
def yumUpdated : Recipe where
  name := "Update YUM package cache"
  module := "ansible.builtin.yum"
  arguments := record [("name", .text "*"), ("state", .text "latest")]

/-- The names of packages as a value. -/
def packageList (packages : List String) : Value :=
  .list (packages.map Value.text)

/-- The shapes with what they mean, in the order in which they are tried. -/
def rules (s : Surroundings) : List (List Char → Option Meaning) :=
  let plain (r : Recipe) : Meaning := .task (r.task [])
  [fun cs => (Shape.assignment.run cs).map fun (name, value) => .setVariable name value,
   fun cs => (Shape.umask.run cs).map .setUmask,
   fun cs => (Shape.mkdir.run cs).map fun path => plain (.directory path (s.mode true)),
   fun cs => ((Shape.onPath "touch").run cs).map fun path => plain (.touched path (s.mode false)),
   fun cs => (Shape.link.run cs).map fun (symbolic, src, dest) =>
     plain (.link symbolic src dest []),
   fun cs => (Shape.copy.run cs).map fun (src, dest) => plain (.copied "Copy" src dest),
   fun cs => (Shape.ldconfig.run cs).map fun _ =>
     plain ⟨"Run ldconfig", "ansible.builtin.shell", .text "ldconfig"⟩,
   fun cs => ((Shape.onPath "gunzip").run cs).map fun path => plain (.unpacked path),
   fun cs => (Shape.chmod.run cs).map fun (mode, path) => plain (.permitted path mode false),
   fun cs => ((Shape.apt "update").run cs).map fun _ => plain (.cacheUpdated "apt"),
   fun cs => ((Shape.apt "upgrade").run cs).map fun _ => plain (.allUpgraded "apt"),
   fun cs => ((Shape.packages (Shape.apt "install")).run cs).map fun packages =>
     plain (.installed "apt" (" ".intercalate packages) (packageList packages) true),
   fun cs => ((Shape.yum "update").run cs).map fun _ => plain yumUpdated,
   fun cs => ((Shape.packages (Shape.yum "install")).run cs).map fun packages =>
     plain (.installed "yum" (" ".intercalate packages) (packageList packages) false),
   fun cs => (Shape.echo.run cs).map fun (text, file) => .task (writtenTask s text file),
   fun cs => (Shape.grep.run cs).map fun (pattern, file) => .task (grepTask pattern file)]

/-- What a command means when its variables have been replaced. -/
def shapeMeaning (s : Surroundings) (command : String) : Meaning :=
  match (rules s).findSome? (· command.toList) with
  | some meaning => meaning
  | none => .task (if s.allowShell then shellTask s command else skippedTask command)

/-- What a command means. -/
def meaning (s : Surroundings) (command : String) : Meaning :=
  shapeMeaning s (replaceVariables s.vars command)

end Playscript.Line
