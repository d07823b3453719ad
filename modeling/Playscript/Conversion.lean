import Playscript.Generator
import Playscript.ScriptReader
import Playscript.Wildcard

/-! # Conversions

    A conversion reads scripts into sections and has a generator write them.  The one
    for a script reads one file.  The one for a role reads a directory: the trees of
    files in it are copied into the new role, with tasks that bring them to their
    places, and its scripts are read. -/

namespace Playscript

/-- The world and the sections so far. -/
structure Workshop where
  world : World := {}
  sections : List Section := []
deriving Inhabited

/-- A step of a conversion: it may fail, and keeps what was done before. -/
abbrev Converting := ExceptT Failure (StateM Workshop)

namespace Converting

/-- Work in the world. -/
def work {α : Type} (w : Work α) : Converting α := do
  let shop ← get
  let (result, world) := w.run shop.world
  set { shop with world := world }
  result

/-- Adds a section. -/
def addSection (s : Section) : Converting Unit :=
  modify fun shop => { shop with sections := shop.sections ++ [s] }

end Converting

/-- The value of a key that has to be there. -/
def Entries.need (entries : Entries) (key : String) : Except Failure Value :=
  match entries.field? key with
  | some v => .ok v
  | none => .error .missingKey

/-- A value that has to be a path. -/
def Value.path (v : Value) : Except Failure String :=
  match v.text? with
  | some path => .ok path
  | none => .error .wrongShape

/-- The entries of a value that has to be a configuration. -/
def Value.configuration : Value → Except Failure Entries
  | .map entries => .ok entries
  | _ => .error .wrongShape

/-- What a conversion that is neither for a script nor for a role says. -/
def noConversion : Failure :=
  .unsupported "Subclasses should implement this method to return tasks."

/-- Has the generator of a configuration write the sections. -/
def generateSections (config : Entries) (opened : Bool)
    (outputFile outputDirectory : Except Failure String) : Converting Unit := do
  let generator ← Generator.ofValue (← config.need "generator")
  let format := Format.ofValue ((config.field? "output_format").getD (.text "yaml"))
  let job : Job :=
    { sections := (← get).sections, opened := opened
      outputFile := outputFile, outputDirectory := outputDirectory }
  Converting.work (generator.generate job format)

/-! ## Scripts -/

/-- The conversion of one script. -/
structure ScriptConversion where
  input : String
  output : Value
  config : Entries
deriving Inhabited

namespace ScriptConversion

/-- The conversion that a configuration asks for. -/
def make (config : Value) : Work ScriptConversion := do
  let config ← config.configuration
  let input ← (← config.need "input").path
  if !(← Work.ask (·.exists? input)) then
    Work.report .error ("Script File not found: " ++ input)
    throw (.exit 1)
  return { input := input, output := ← config.need "output", config := config }

/-- Reads the script and has its tasks written. -/
def run (c : ScriptConversion) (opened : Bool) : Converting Unit := do
  modify fun shop => { shop with sections := [] }
  let reader ← Converting.work (ScriptReader.choose (some c.input) none (.map c.config))
  let s ← Converting.work reader.read
  Converting.addSection { s with name := .text "bash_script" }
  generateSections c.config opened c.output.path (.error noConversion)

end ScriptConversion

/-! ## Roles -/

/-- A task that copies a file or a directory and keeps its modes, on a condition if there is one. -/
def copyTask (src dest : Value) (condition : Value) : Task :=
  let task := Task.make ("Copy " ++ src.display ++ " to " ++ dest.display) "ansible.builtin.copy"
    (record [("src", src), ("dest", dest), ("mode", .text "preserve")]) []
  if condition.isTruthy then task.set "when" condition else task

/-- The conversion of a role. -/
structure RoleConversion where
  directory : String
  /-- Where the tasks of the new role go. -/
  outputDirectory : String
  name : String
  /-- Where the files of the new role go. -/
  filesRoot : String
  config : Entries
deriving Inhabited

namespace RoleConversion

/-- The conversion of a role directory under a configuration. -/
def make (directory outputDirectory : String) (config : Value) : Work RoleConversion := do
  let config ← config.configuration
  let name := (config.field? "role_name").getD (.text (Path.baseName directory))
  if !(← Work.ask (·.isDirectory directory)) then
    Work.report .error ("Role Directory not found: " ++ directory)
    throw (.exit 1)
  let output ← (← config.need "output").path
  let name ← name.path
  return {
    directory := directory, outputDirectory := outputDirectory, name := name
    filesRoot := Path.join (Path.join output "roles") name, config := config }

/-- The name of the section for a directory of files: `files` itself, or the name of the role in
    the place of that word. -/
def filesName (role directoryName : String) : String :=
  if directoryName = "files" then directoryName
  else Text.replaceAll "files" role directoryName

/-- Where the files of a directory go in the new role. -/
def filesTarget (c : RoleConversion) (directoryName : String) : String :=
  let files := Path.join c.filesRoot "files"
  if directoryName = "files" then files
  else Path.join files (filesName c.name directoryName)

/-- The condition under which the files of a directory are copied. -/
def filesCondition (role directoryName : String) : Value :=
  if directoryName = "files" then .null
  else .text ("sub_role is '" ++ filesName role directoryName ++ "'")

/-- Adds a task to the last section. -/
def addToLast (task : Task) : List Section → Except Failure (List Section)
  | [] => .ok []
  | [s] => do return [← s.addTask task.toValue]
  | s :: rest => do return s :: (← addToLast task rest)

/-- Copies one entry of a directory of files, if it is a directory, with a task for it. -/
def convertEntry (c : RoleConversion) (files entry : String) : Converting Unit := do
  if ← Converting.work (Work.ask (·.isDirectory entry)) then
    let directoryName := Path.baseName files
    let way := Path.relative entry files
    let depth := (← get).world.tree.entries.length + 1
    Converting.work (Work.files
      (Filing.copyTree depth entry (Path.join (c.filesTarget directoryName) way)))
    let task := copyTask (.text (Path.join (filesName c.name directoryName) way))
      (.text (Path.join "/" way)) (filesCondition c.name directoryName)
    let sections ← addToLast task (← get).sections
    modify fun shop => { shop with sections := sections }

/-- Copies a directory of files, with a section of its own. -/
def convertFiles (c : RoleConversion) (files : String) : Converting Unit := do
  Converting.addSection { name := .text (filesName c.name (Path.baseName files)) }
  let entries ← Converting.work (Work.ask (Wildcard.expand · (files ++ "/*")))
  entries.forM (c.convertEntry files)

/-- Copies all directories of files. -/
def convertAllFiles (c : RoleConversion) : Converting Unit := do
  let all ← Converting.work (Work.ask (Wildcard.expand · (c.directory ++ "/files*")))
  all.forM c.convertFiles

/-- Reads a script of the role, if it is there. -/
def convertScript (c : RoleConversion) (name : String) : Converting Unit := do
  let path := Path.join (Path.join c.directory "scripts") name
  if ← Converting.work (Work.ask (·.isFile path)) then
    let reader ← Converting.work (ScriptReader.choose (some path) none (.map c.config))
    let s ← Converting.work reader.read
    Converting.addSection { s with name := .text name }

/-- The scripts of a role, in the order in which they are read. -/
def scriptNames : List String :=
  ["fixfiles", "preinstall", "postinstall"]

/-- Copies the files of the role, reads its scripts and has its tasks written. -/
def run (c : RoleConversion) (opened : Bool) : Converting Unit := do
  modify fun shop => { shop with sections := [] }
  c.convertAllFiles
  scriptNames.forM c.convertScript
  generateSections c.config opened (.error .missingPart) (.ok c.outputDirectory)

end RoleConversion

end Playscript
