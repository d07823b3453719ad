import Playscript.Failure
import Playscript.Text.Digit

/-! # The arguments of the command line

    Two operands, the input and the output, and switches anywhere among them.  A switch
    can be cut short as long as only one switch starts that way, and its value can
    stand behind an equals sign.  Behind a lone `--` everything is an operand. -/

namespace Playscript

/-- The switches. -/
inductive Switch where
  | help
  | json
  | yaml
  | pull
  | push
  | strict
  | kind
  | generator
  | roleName
  | debug
deriving DecidableEq, Repr, Inhabited

namespace Switch

/-- The names of the switches. -/
def names : List (String × Switch) :=
  [("-h", .help), ("--help", .help), ("--json", .json), ("--yaml", .yaml), ("--pull", .pull),
   ("--push", .push), ("--strict", .strict), ("--type", .kind), ("--generator", .generator),
   ("--role_name", .roleName), ("--debug", .debug)]

/-- Whether a switch has a value. -/
def hasValue : Switch → Bool
  | .kind => true
  | .generator => true
  | .roleName => true
  | _ => false

/-- Whether a switch can have some value. -/
def admits (s : Switch) (value : String) : Bool :=
  match s with
  | .kind => ["script", "slack"].contains value
  | .generator => ["role", "role_tasks", "playbook"].contains value
  | _ => true

end Switch

/-- What one argument is. -/
inductive Argument where
  | operand (text : String)
  /-- The mark behind which everything is an operand. -/
  | separator
  /-- A switch, with the text that is joined to it. -/
  | switch (which : Switch) (joined : Option String)
  /-- Something that looks like a switch and is none. -/
  | unknown
deriving DecidableEq, Repr, Inhabited

namespace Argument

/-- The exit code for arguments that cannot be used. -/
def badUsage : Failure := .exit 2

/-- Cuts a text at its first equals sign. -/
def cutAtEquals (cs : List Char) : List Char × Option (List Char) :=
  match cs.dropWhile (· != '=') with
  | _ :: value => (cs.takeWhile (· != '='), some value)
  | [] => (cs, none)

/-- Whether the text behind a dash makes it a negative number. -/
def isNumber (cs : List Char) : Bool :=
  let cs := if cs.getLast? == some '\n' then cs.dropLast else cs
  let fraction := cs.dropWhile Text.isDecimal
  (!cs.isEmpty && fraction.isEmpty) ||
    match fraction with
    | '.' :: digits => !digits.isEmpty && digits.all Text.isDecimal
    | _ => false

/-- The switches that a text with one or two dashes could mean. -/
def candidates (cs : List Char) : List (Switch × Option String) :=
  match cs with
  | '-' :: '-' :: _ =>
    let (name, value) := cutAtEquals cs
    Switch.names.filterMap fun (known, which) =>
      if name.isPrefixOf known.toList then some (which, value.map String.ofList) else none
  | '-' :: 'h' :: joined => [(.help, some (String.ofList joined))]
  | _ => []

/-- What an argument in front of the separator is. -/
def ofText (text : String) : Except Failure Argument :=
  let cs := text.toList
  let exact := fun name => Switch.names.lookup (String.ofList name)
  let (name, value) := cutAtEquals cs
  match cs with
  | '-' :: rest =>
    match exact cs, rest, exact name, value with
    | some which, _, _, _ => .ok (.switch which none)
    | none, [], _, _ => .ok (.operand text)
    | none, _, some which, some value => .ok (.switch which (some (String.ofList value)))
    | _, _, _, _ =>
      match candidates cs with
      | [(which, joined)] => .ok (.switch which joined)
      | _ :: _ :: _ => .error badUsage
      | [] => .ok (if isNumber rest || cs.contains ' ' then .operand text else .unknown)
  | _ => .ok (.operand text)

/-- What the arguments are. -/
def ofTexts : List String → Except Failure (List Argument)
  | [] => .ok []
  | text :: rest =>
    if text = "--" then .ok (.separator :: rest.map .operand)
    else do return (← ofText text) :: (← ofTexts rest)

end Argument

/-- What the command line asks for.  A value that was given as a lone `--` is none. -/
structure Arguments where
  json : Bool := false
  yaml : Bool := false
  pull : Bool := false
  push : Bool := false
  strict : Bool := false
  kind : Option String := some "script"
  generator : Option String := some "role"
  roleName : Option String := none
  /-- The operands so far. -/
  operands : List (Option String) := []
  /-- Whether there is more than can be used. -/
  surplus : Bool := false
deriving DecidableEq, Repr, Inhabited

namespace Arguments

open Argument (badUsage)

/-- A value; a lone `--` is none. -/
def valueOf (text : String) : Option String :=
  if text = "--" then none else some text

/-- Adds an operand; there is room for two. -/
def addOperand (a : Arguments) (operand : Option String) : Arguments :=
  if a.operands.length < 2 then { a with operands := a.operands ++ [operand] }
  else { a with surplus := true }

/-- Turns on a switch that has no value; the one for help ends the program. -/
def turnOn (a : Arguments) : Switch → Except Failure Arguments
  | .help => .error (.exit 0)
  | .json => .ok { a with json := true }
  | .yaml => .ok { a with yaml := true }
  | .pull => .ok { a with pull := true }
  | .push => .ok { a with push := true }
  | .strict => .ok { a with strict := true }
  | _ => .ok a

/-- Gives a switch its value. -/
def give (a : Arguments) (s : Switch) (text : String) : Except Failure Arguments :=
  let value := valueOf text
  if !value.all s.admits then .error badUsage
  else
    match s with
    | .kind => .ok { a with kind := value }
    | .generator => .ok { a with generator := value }
    | .roleName => .ok { a with roleName := value }
    | _ => .ok a

/-- A switch with a text joined to it: its value, or the same short switch again and again. -/
def giveJoined (a : Arguments) (s : Switch) (text : String) : Except Failure Arguments :=
  if s.hasValue then a.give s text
  else if s = .help ∧ text ≠ "" ∧ text.toList.all (· == 'h') then a.turnOn s
  else .error badUsage

/-- Takes the arguments in turn. -/
def take (a : Arguments) : List Argument → Except Failure Arguments
  | [] => .ok a
  | .unknown :: rest => take { a with surplus := true } rest
  | .switch s (some text) :: rest => do take (← a.giveJoined s text) rest
  | .switch s none :: rest =>
    if s.hasValue then
      match rest with
      | .operand text :: more => do take (← a.give s text) more
      | _ => .error badUsage
    else do take (← a.turnOn s) rest
  | .operand text :: .separator :: rest => take (a.addOperand (valueOf text)) rest
  | .operand text :: rest => take (a.addOperand (valueOf text)) rest
  | .separator :: .operand text :: rest => take (a.addOperand (some text)) rest
  | .separator :: rest => take { a with surplus := true } rest

/-- Reads the arguments: both operands have to be there and nothing may be left over. -/
def read (texts : List String) : Except Failure Arguments := do
  let a ← take {} (← Argument.ofTexts texts)
  if a.operands.length < 2 || a.surplus then throw badUsage
  return a

end Arguments

end Playscript
