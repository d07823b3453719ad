/-! # The commands that become tasks

    Each command that is known has a row: the flags that it takes, the options that
    take a value, and the subcommands that may be its first word.  `sort` parts the
    words of a command by its row. -/

namespace Playscript

/-- A known command. -/
inductive Verb where
  | cp | mv | ln | ssh | scp | chmod | chown | umask | exporting | mkdir | ldconfig | gunzip
  | apt | aptGet | yum | echo | touch
deriving DecidableEq, Repr, Inhabited

/-- The words that have a meaning for a command. -/
structure Row where
  flags : List String := []
  valueOptions : List String := []
  subcommands : List String := []
deriving DecidableEq, Repr, Inhabited

namespace Verb

/-- All known commands. -/
def all : List Verb :=
  [.cp, .mv, .ln, .ssh, .scp, .chmod, .chown, .umask, .exporting, .mkdir, .ldconfig, .gunzip, .apt,
   .aptGet, .yum, .echo, .touch]

/-- The name of a command. -/
def name : Verb → String
  | .cp => "cp"
  | .mv => "mv"
  | .ln => "ln"
  | .ssh => "ssh"
  | .scp => "scp"
  | .chmod => "chmod"
  | .chown => "chown"
  | .umask => "umask"
  | .exporting => "export"
  | .mkdir => "mkdir"
  | .ldconfig => "ldconfig"
  | .gunzip => "gunzip"
  | .apt => "apt"
  | .aptGet => "apt-get"
  | .yum => "yum"
  | .echo => "echo"
  | .touch => "touch"

/-- The command of a name. -/
def ofName? (name : String) : Option Verb :=
  all.find? fun v => v.name == name

/-- The row of the commands that manage packages. -/
def packageRow : Row where
  flags := ["-y", "update", "install", "upgrade"]
  subcommands := ["update", "install", "upgrade"]

/-- The row of a command. -/
def row : Verb → Row
  | .cp => { flags := ["-f", "-n"] }
  | .mv => { flags := ["-r"] }
  | .ln => { flags := ["-s"] }
  | .ssh => {}
  | .scp => { flags := ["-r"], valueOptions := ["-i", "-P"] }
  | .chmod => { flags := ["-R", "-f", "-v"] }
  | .chown => { flags := ["-R", "-f", "-v", "-c"] }
  | .umask => {}
  | .exporting => { flags := ["-p"] }
  | .mkdir => { flags := ["-p"] }
  | .ldconfig => {}
  | .gunzip => {}
  | .apt => packageRow
  | .aptGet => packageRow
  | .yum => packageRow
  | .echo => { flags := ["-y"] }
  | .touch => { flags := ["-a", "-c"] }

end Verb

/-- What an option was given. -/
inductive OptionValue where
  | flag
  | text (value : String)
deriving DecidableEq, Repr, Inhabited

/-- The words of a command, parted. -/
structure Sorted where
  operands : List String := []
  options : List (String × OptionValue) := []
  /-- The option that waits for its value. -/
  waiting : Option String := none
deriving DecidableEq, Repr, Inhabited

namespace Sorted

/-- Gives an option a value: in its place if it is there, at the end if it is not. -/
def setOption : List (String × OptionValue) → String → OptionValue → List (String × OptionValue)
  | [], name, value => [(name, value)]
  | entry :: rest, name, value =>
    if entry.1 = name then (name, value) :: rest else entry :: setOption rest name value

/-- Whether an option was given. -/
def hasOption (s : Sorted) (name : String) : Bool :=
  s.options.any fun entry => entry.1 == name

end Sorted

namespace Row

/-- Parts one more word: a flag, an option that waits for its value, that value, or an operand. -/
def place (row : Row) (s : Sorted) (word : String) : Sorted :=
  if row.flags.contains word then
    { s with options := Sorted.setOption s.options word .flag, waiting := none }
  else if row.valueOptions.contains word then { s with waiting := some word }
  else
    match s.waiting with
    | some option =>
      { s with options := Sorted.setOption s.options option (.text word), waiting := none }
    | none => { s with operands := s.operands ++ [word] }

/-- Parts words one after the other. -/
def placeAll (row : Row) (s : Sorted) (words : List String) : Sorted :=
  words.foldl row.place s

/-- The subcommand that some words start with. -/
def subcommand? (row : Row) : List String → Option String
  | first :: _ => if row.subcommands.contains first then some first else none
  | [] => none

/-- Parts the words of a command; a subcommand in front is none of them. -/
def sort (row : Row) (words : List String) : Sorted :=
  row.placeAll {} (if (row.subcommand? words).isSome then words.drop 1 else words)

end Row

end Playscript
