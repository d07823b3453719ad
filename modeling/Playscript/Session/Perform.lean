import Playscript.Recipe
import Playscript.RemotePath
import Playscript.Session.Invocation
import Playscript.Text.Lines

/-! # What commands do

    Each known command changes the session or adds a task.  Operands are looked up
    before anything is changed, so a command that lacks one leaves all as it was. -/

namespace Playscript.Session

/-- Adds the task of a recipe, registered under a name. -/
def addRegistered (recipe : Recipe) (name : String) : Step Unit := do
  addTask (recipe.registered (← register name))

/-- `umask MASK` -/
def umaskCommand (inv : Invocation) : Step Unit := do
  let mask ← interpret .plain (← inv.operand 0)
  modify fun s => { s with umask := .text mask }

/-- `export NAME=TEXT`.  An export without an equals sign does nothing; that a debugger is entered
    there is left out. -/
def exportCommand (inv : Invocation) : Step Unit := do
  match splitAssignment (← inv.operand 0) with
  | some (name, text) => exportAs name text
  | none => pure ()

/-- `mkdir PATH` -/
def mkdirCommand (inv : Invocation) : Step Unit := do
  let path ← interpret .plain (← inv.operand 0)
  addRegistered (.directory path (← mode true)) "mkdir"

/-- `touch PATH` -/
def touchCommand (inv : Invocation) : Step Unit := do
  let path ← interpret .template (← inv.operand 0)
  addRegistered (.touched path (← mode false)) "touch_file"

/-- `ln [-s] SOURCE DESTINATION` -/
def linkCommand (inv : Invocation) : Step Unit := do
  let src ← interpret .plain (← inv.operand 0)
  let dest ← interpret .plain (← inv.operand 1)
  addRegistered (.link (inv.hasOption "-s") src dest [("mode", ← mode false)]) "ln"

/-- `cp SOURCE DESTINATION` -/
def copyCommand (inv : Invocation) : Step Unit := do
  let src ← interpret .plain (← inv.operand 0)
  let dest ← interpret .plain (← inv.operand 1)
  addRegistered (.copied "Copy" src dest) "copy_file"

/-- `scp SOURCE DESTINATION` -/
def remoteCopyCommand (inv : Invocation) : Step Unit := do
  let src := RemotePath.ofText (← inv.operand 0)
  let dest := RemotePath.ofText (← inv.operand 1)
  if (← get).settings.allowsCopy src.host.isSome dest.host.isSome then
    addRegistered (.copied "Scp" src.path dest.path) "scp"
  else say "scp skipping command scp"

/-- `mv SOURCE DESTINATION` -/
def moveCommand (inv : Invocation) : Step Unit := do
  let src ← interpret .plain (← inv.operand 0)
  let dest ← interpret .plain (← inv.operand 1)
  let command := "mv " ++ src ++ " " ++ dest
  let name ← register "mv"
  addTask (Task.make ("Run shell command: " ++ command) "shell" (.text command)
    [("creates", .text dest), ("removes", .text src), ("register", .text name)])

/-- `ldconfig` -/
def ldconfigCommand : Step Unit := do
  let name ← register "ldconfig"
  addTask (Task.make "Run ldconfig" "ansible.builtin.command" (.text "ldconfig")
    [("register", .text name),
     ("changed_when",
      .text ("'changed' in " ++ name ++ ".stdout or 'updated' in " ++ name ++ ".stdout"))])

/-- `gunzip PATH` -/
def gunzipCommand (inv : Invocation) : Step Unit := do
  let path ← interpret .plain (← inv.operand 0)
  addRegistered (.unpacked path) "extract_gz"

/-- An owner and a group with one colon between them. -/
def ownerAndGroup (text : String) : Except Failure (String × String) :=
  match Text.splitOnChar ':' text.toList with
  | [owner, group] => .ok (String.ofList owner, String.ofList group)
  | [_] => .error (.tooFewPieces 1)
  | _ => .error .tooManyPieces

/-- The name of a register for work that may be on a whole tree. -/
def treeRegister (name : String) (recursive : Bool) : String :=
  name ++ (if recursive then "_recursive" else "")

/-- `chown [-R] OWNER:GROUP PATH` -/
def ownerCommand (inv : Invocation) : Step Unit := do
  let (owner, group) ← ownerAndGroup (← inv.operand 0)
  let path ← interpret .plain (← inv.operand 1)
  let recursive := inv.hasOption "-R"
  addRegistered (.owned path owner group recursive) (treeRegister "chown" recursive)

/-- `chmod [-R] MODE PATH` -/
def permissionCommand (inv : Invocation) : Step Unit := do
  let mode ← interpret .plain (← inv.operand 0)
  let path ← interpret .plain (← inv.operand 1)
  let recursive := inv.hasOption "-R"
  addRegistered (.permitted path mode recursive) (treeRegister "file_permissions" recursive)

/-- `apt`, `apt-get` and `yum` with a subcommand. -/
def packageCommand (command manager : String) (inv : Invocation) : Step Unit :=
  match inv.subcommand with
  | some "update" => addRegistered (.cacheUpdated manager) (command ++ "_update")
  | some "upgrade" => addRegistered (.allUpgraded manager) (command ++ "_upgrade")
  | some "install" =>
    let packages := " ".intercalate inv.sorted.operands
    addRegistered (.installed manager packages (.text packages) true) (command ++ "_install")
  | _ => pure ()

/-- `echo TEXT`, to the user, into a file or behind what a file holds. -/
def echoCommand (inv : Invocation) : Step Unit := do
  let text ← inv.operand 0
  match inv.redirection with
  | some (">", target) =>
    let file ← interpret .plain target
    addRegistered
      { name := "Write text to " ++ file, module := "ansible.builtin.copy"
        arguments := record [("dest", .text file), ("content", .text text)] }
      "echo_redirect"
  | some (">>", target) =>
    let file ← interpret .plain target
    let name ← interpret .plain ("Append text to " ++ file)
    addRegistered
      { name := name, module := "ansible.builtin.lineinfile"
        arguments := record [("path", .text file), ("line", .text text), ("create", .bool true),
          ("insertafter", .text "EOF"), ("mode", ← mode false)] }
      "echo_redirect_append"
  | _ =>
    let text ← interpret .plain text
    addTask (Task.make ("Echo text: " ++ text) "ansible.builtin.debug"
      (record [("msg", .text text)]) [])

/-- Does what a known command says. -/
def perform (verb : Verb) (inv : Invocation) : Step Unit :=
  match verb with
  | .umask => umaskCommand inv
  | .exporting => exportCommand inv
  | .mkdir => mkdirCommand inv
  | .touch => touchCommand inv
  | .ln => linkCommand inv
  | .cp => copyCommand inv
  | .scp => remoteCopyCommand inv
  | .mv => moveCommand inv
  | .ldconfig => ldconfigCommand
  | .gunzip => gunzipCommand inv
  | .chown => ownerCommand inv
  | .chmod => permissionCommand inv
  | .apt => packageCommand "apt" "apt" inv
  | .aptGet => packageCommand "apt-get" "apt" inv
  | .yum => packageCommand "yum" "yum" inv
  | .echo => echoCommand inv
  | .ssh => pure ()

/-- Gathers a command and does what it says. -/
def command (tree : Shell.Node) : Step Unit := do
  let inv ← Invocation.gather tree
  match inv.verb? with
  | some verb => perform verb inv
  | none => pure ()

end Playscript.Session
