import Playscript.Session.Basic
import Playscript.Shell.Tree
import Playscript.Verb

/-! # Invocations

    The words of a simple command, gathered on a walk through its tree: the first word
    is the command, the others are its words, wherever in the tree they stand.  At the
    end of each command node on the walk the words so far are parted by the row of
    the command. -/

namespace Playscript

open Shell (Node)

/-- What a simple command says. -/
structure Invocation where
  command : Option String := none
  subcommand : Option String := none
  /-- The words behind the command. -/
  words : List String := []
  sorted : Sorted := {}
  /-- The last redirection: its sign and where it goes. -/
  redirection : Option (String × String) := none
  /-- Whether no assignment stands in the command. -/
  isCommand : Bool := true
  /-- The parameters in the last word. -/
  parameters : List String := []
deriving DecidableEq, Repr, Inhabited

/-- A walk that gathers an invocation on behalf of a session. -/
abbrev Gathering := StateT Invocation Step

namespace Invocation

/-- Takes a word in. -/
def takeWord (inv : Invocation) (text : String) : Invocation :=
  match inv.command with
  | none => { inv with command := some text, parameters := [] }
  | some _ => { inv with words := inv.words ++ [text], parameters := [] }

/-- Parts the words by the row of the command. -/
def sortBy (inv : Invocation) (row : Row) : Invocation :=
  { inv with
    subcommand := (row.subcommand? inv.words).or inv.subcommand
    sorted := row.sort inv.words }

/-- Closes a command node: known commands have their words parted, of others the user is told. -/
def close : Gathering Unit := do
  let inv ← get
  if inv.isCommand then
    match inv.command.bind Verb.ofName? with
    | some verb => set (inv.sortBy verb.row)
    | none => Session.say (" failed to find " ++ inv.command.getD "None")

/-- The signs whose target is remembered. -/
def redirectsData (sign : String) : Bool :=
  sign == ">" || sign == ">>" || sign == "<"

/-- Remembers where a redirection goes. -/
def takeRedirect (sign : String) (target : Node) : Gathering Unit :=
  if redirectsData sign then
    match target.text? with
    | some text => modify fun inv => { inv with redirection := some (sign, text) }
    | none => throw .missingPart
  else pure ()

/-- What the walk does at each node. -/
def visit : Node → Gathering Unit → Gathering Unit
  | .word text _, below => do
    modify fun inv => inv.takeWord text
    below
  | .command _, below => do
    below
    close
  | .redirect _ sign target, below => do
    takeRedirect sign target
    below
  | .assignment text _, _ =>
    if (Session.splitAssignment text).isSome then do
      Session.assignText text
      modify fun inv => { inv with isCommand := false }
    else pure ()
  | .parameter name, _ =>
    modify fun inv => { inv with parameters := inv.parameters ++ [name] }
  | _, below => below

/-- The invocation that a tree makes. -/
def gather (tree : Node) : Step Invocation := do
  let (_, inv) ← (tree.walk visit).run {}
  return inv

/-- The known command that is invoked. -/
def verb? (inv : Invocation) : Option Verb :=
  inv.command.bind Verb.ofName?

/-- An operand by its number. -/
def operand (inv : Invocation) (n : Nat) : Except Failure String :=
  match inv.sorted.operands[n]? with
  | some word => .ok word
  | none => .error .missingOperand

/-- Whether an option was given. -/
def hasOption (inv : Invocation) (name : String) : Bool :=
  inv.sorted.hasOption name

end Invocation

end Playscript
