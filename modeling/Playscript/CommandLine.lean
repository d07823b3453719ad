import Playscript.Arguments
import Playscript.Configuration
import Playscript.Conversion

/-! # Command lines

    The command line for conversions lays the arguments over the configuration and
    converts a script, a role, or all roles of a directory.  There is another one for
    a single Perl script. -/

namespace Playscript.CommandLine

/-- The value of an argument; one that is none is an empty list. -/
def argumentValue : Option String → Value
  | some text => .text text
  | none => .list []

/-- The normal path that an operand names. -/
def operandPath (a : Arguments) (i : Nat) : Except Failure String :=
  match a.operands[i]? with
  | some (some path) => .ok (Path.normalize path)
  | _ => .error .wrongShape

/-- The configuration under some arguments. -/
def configure (a : Arguments) : Work Entries := do
  let config ← Configuration.load
  let input ← operandPath a 0
  let output ← operandPath a 1
  let formats := (if a.json then ["json"] else []) ++ (if a.yaml then ["yaml"] else [])
  let asked : List (String × Value) :=
    formats.map (fun format => ("output_format", .text format))
      ++ (if a.strict then [("allow_shell_fallback", .bool false)] else [])
      ++ [("input", .text input), ("output", .text output),
        ("generator", argumentValue a.generator)]
      ++ (match a.roleName with
        | some name => if name = "" then [] else [("role_name", .text name)]
        | none => [])
      ++ [("pull", .bool a.pull), ("push", .bool a.push)]
  return config.merge (asked.map fun (key, value) => (.text key, value))

/-- A role to be converted: where it is, where its tasks go, and its name. -/
structure RolePlan where
  directory : String
  output : String
  name : String
deriving DecidableEq, Repr, Inhabited

/-- The roles that an input directory stands for: itself, or, if it is called `roles`, the
    directories in it.  The new roles go below a directory of that name. -/
def rolePlans (tree : FileTree) (input output : String) : List RolePlan :=
  let name := Path.baseName input
  let inRoles := Path.baseName output == "roles"
  if name == "roles" then
    let root := if inRoles then Path.directoryName output else Path.join output "roles"
    ((tree.list input).filter fun role => tree.isDirectory (Path.join input role)).map fun role =>
      { directory := Path.join input role, output := Path.join root role, name := role }
  else
    let root := if inRoles then output else Path.join output "roles"
    [{ directory := input, output := Path.join root name, name := name }]

/-- Converts a role under its own name. -/
def convertRole (config : Entries) (opened : Bool) (plan : RolePlan) : Converting Unit := do
  let config := config.set (.text "role_name") (.text plan.name)
  let conversion ← Converting.work (RoleConversion.make plan.directory plan.output (.map config))
  conversion.run opened

/-- Converts the roles of an input directory. -/
def convertRoles (config : Entries) (input output : String) (opened : Bool) :
    Converting Unit := do
  let tree := (← get).world.tree
  if !tree.isDirectory input then throw (.inputNotDirectory input)
  (rolePlans tree input output).forM (convertRole config opened)

/-- Converts a script. -/
def convertScript (config : Entries) (input : String) (opened : Bool) : Converting Unit := do
  if !(← get).world.tree.isFile input then throw (.inputNotFile input)
  let conversion ← Converting.work (ScriptConversion.make (.map config))
  conversion.run opened

/-- The command line for conversions. -/
def run (arguments : List String) (opened : Bool) : Converting Unit := do
  let a ← Arguments.read arguments
  let config ← Converting.work (configure a)
  let input ← operandPath a 0
  match a.kind with
  | some "slack" => convertRoles config input (← operandPath a 1) opened
  | some "script" => convertScript config input opened
  | other => throw (.unknownInput (argumentValue other).display)

/-- The command line for a single Perl script.  It asks for a script to be named and sets up a
    reader without a configuration, which is refused. -/
def runPerl (arguments : List String) : Work Unit := do
  match arguments with
  | [] =>
    Work.report .error "Usage: process_perl.py <perl_script> [args...]"
    throw (.exit 1)
  | script :: _ =>
    let reader ← ScriptReader.make .perl (some script) none .null
    let _ ← reader.read

end Playscript.CommandLine
