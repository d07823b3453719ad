import Playscript.Line.Command
import Playscript.Settings
import Playscript.Text.Lines
import Playscript.Text.Utf8

/-! # Line-wise scripts

    The lines of a script are commands; a line that ends in a backslash goes on in the
    next one.  A line `if [[ $? -eq N ]]; then` opens a block whose commands hang on
    the last register, and `fi` closes it.  A script for another shell is left alone,
    with a warning. -/

namespace Playscript.Line

open Text (Matcher)

/-- A reading in the middle of a script. -/
structure State where
  /-- The command so far, from lines that go on. -/
  pending : List Char := []
  umask : String := "022"
  vars : Store := []
  lastRegister : Option String := none
  condition : Option String := none
  tasks : List Task := []
deriving Repr, Inhabited

/-- `if [[ $? -eq N ]]; then`, giving `N` in its digits. -/
def statusTest : Matcher String String := do
  Matcher.lit "if"
  Matcher.blanks
  Matcher.lit "[["
  Matcher.blanks
  Matcher.lit "$?"
  Matcher.blanks
  Matcher.lit "-eq"
  Matcher.blanks
  let code ← Matcher.digits
  Matcher.anyBlanks
  Matcher.lit "]];"
  Matcher.anyBlanks
  Matcher.lit "then"
  return code

namespace State

/-- Opens a block on the status of the last register. -/
def openBlock (st : State) (code : String) : State :=
  { st with
    pending := []
    condition := some (st.lastRegister.getD "None"
      ++ (if code = "0" then " is succeeded" else " is failed")) }

/-- The register that a task has. -/
def registerOf (task : Task) : Option String :=
  task.register?.bind Value.text?

/-- Adds a task; a condition that it does not have yet is put on it, and holds for it alone. -/
def addTask (st : State) (task : Task) : State :=
  let st := { st with lastRegister := (registerOf task).or st.lastRegister }
  if (task.get? "when").isSome then { st with tasks := st.tasks ++ [task] }
  else
    match st.condition with
    | some condition =>
      { st with tasks := st.tasks ++ [task.guard condition], condition := none }
    | none => { st with tasks := st.tasks ++ [task] }

/-- Does what a command means. -/
def apply (st : State) : Meaning → State
  | .setUmask mask => { st with umask := mask }
  | .setVariable name value => { st with vars := st.vars.set name value }
  | .task task => st.addTask task

/-- What a command is read under. -/
def surroundings (st : State) (allowShell : Bool) : Surroundings where
  allowShell := allowShell
  umask := some st.umask
  vars := st.vars
  condition := st.condition

/-- Takes a whole command in. -/
def takeCommand (allowShell : Bool) (st : State) (command : List Char) : State :=
  match statusTest.run command with
  | some code => st.openBlock code
  | none =>
    if command = ['f', 'i'] then { st with pending := [], condition := none }
    else
      let text := String.ofList (Text.trim command)
      { st.apply (meaning (st.surroundings allowShell) text) with pending := [] }

/-- Takes a line in. -/
def takeLine (allowShell : Bool) (st : State) (line : List Char) : State :=
  let line := Text.trim line
  if line.isEmpty || line.head? == some '#' then st
  else if line.getLast? == some '\\' then
    { st with pending := st.pending ++ line.dropLast ++ [' '] }
  else takeCommand allowShell st (st.pending ++ line)

end State

/-- Whether the first line of a script asks for a shell of another kind. -/
def isForeign (first : List Char) : Bool :=
  ['#', '!'].isPrefixOf first
    && !(Text.occursIn "bash".toList first || Text.occursIn "sh".toList first)

/-- The tasks of a script's lines, or the warning with which they are left alone. -/
def readLines (allowShell : Bool) (lines : List (List Char)) : Except String (List Task) :=
  match lines with
  | first :: _ =>
    if isForeign first then
      .error ("Skipped: Unsupported shell: " ++ String.ofList (Text.trim first))
    else .ok (lines.foldl (State.takeLine allowShell) {}).tasks
  | [] => .ok []

/-- The tasks of a script that is given as a text. -/
def readText (allowShell : Bool) (script : String) : Except String (List Task) :=
  readLines allowShell (Text.splitLinesFrom [] script.toList)

/-- The tasks of a script that is the text of a file. -/
def readFileText (allowShell : Bool) (script : String) : Except String (List Task) :=
  readLines allowShell (Text.splitAtNewlines script.toList)

/-- Reads a script that is given as a text, under a configuration, which has to be one. -/
def read (config : Value) (script : String) : Except Failure (Except String (List Task)) := do
  let _ ← Settings.ofValue config
  return readText (← allowsShell config) script

/-- Reads a script that is the content of a file, under a configuration, which has to be one. -/
def readContent (config : Value) (content : ByteArray) :
    Except Failure (Except String (List Task)) := do
  let _ ← Settings.ofValue config
  match Text.ofBytes content with
  | .ok script => return readFileText (← allowsShell config) script
  | .error _ => throw .badEncoding

end Playscript.Line
