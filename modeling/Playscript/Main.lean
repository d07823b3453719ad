import Playscript.CommandLine

/-! # The program

    Takes what the operands name into a file tree, runs the command line on it, and
    carries out what has changed.

    Files are read by name and directories are not listed.  So a script is converted in
    full; of a single role only the scripts are seen, not its trees of files; and of a
    directory of roles nothing is seen. -/

namespace Playscript.Program

/-- What a path leads to, if there is something. -/
def probe (path : String) : IO (Option FileEntry) :=
  tryCatch
    (do return some (.file (← IO.FS.readBinFile path)))
    (fun
      | .noFileOrDirectory .. => return none
      | _ => return some .directory)

/-- The places on the way along some names, the last one included. -/
def placesAlong (place : List String) : List (List String) :=
  (List.range place.length).map fun n => place.take (n + 1)

/-- Adds what stands along a path to a file tree. -/
def addPath (tree : FileTree) (path : String) : IO FileTree :=
  (placesAlong (Path.names path)).foldlM
    (fun tree place => do
      match ← probe ("/".intercalate place) with
      | some entry => return FileTree.set tree place entry
      | none => return tree)
    tree

/-- The paths that a command line may look at: the configuration, the operands, and the scripts of
    a role. -/
def pathsFor (arguments : List String) : List String :=
  match Arguments.read arguments with
  | .ok a =>
    let operands := a.operands.filterMap id
    let scripts := operands.flatMap fun path =>
      RoleConversion.scriptNames.map fun name => Path.join (Path.join path "scripts") name
    Configuration.fileName :: operands ++ scripts
  | .error _ => []

/-- Carries out what has changed in a file tree. -/
def writeChanges (before after : FileTree) : IO Unit :=
  after.entries.forM fun (place, entry) => do
    let path := "/".intercalate place
    if before.get? place != some entry then
      match entry with
      | .directory => IO.FS.createDirAll path
      | .file content => IO.FS.writeBinFile path content

/-- The word for how grave a log entry is. -/
def severityText : Severity → String
  | .warning => "WARNING"
  | .error => "ERROR"

/-- The exit code of a failure. -/
def exitCode : Failure → UInt32
  | .exit code => code.toUInt32
  | _ => 1

/-- What is said about a failure in the end. -/
def farewell : Failure → Option String
  | .exit _ => none
  | failure => some (failure.message?.getD (reprStr failure))

end Playscript.Program

open Playscript in
/-- Runs the command line in the current directory.  Instrumented scripts find no interpreter. -/
def main (arguments : List String) : IO UInt32 := do
  let tree ← (Program.pathsFor arguments).foldlM Program.addPath {}
  let start : Workshop := { world := { tree := tree, later := none } }
  let (went, shop) := (CommandLine.run arguments false).run start
  Program.writeChanges tree shop.world.tree
  IO.print shop.world.output
  shop.world.log.forM fun (severity, message) =>
    IO.eprintln (Program.severityText severity ++ ": " ++ message)
  match went with
  | .ok _ => return 0
  | .error failure =>
    (Program.farewell failure).forM IO.eprintln
    return Program.exitCode failure
