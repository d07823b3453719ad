import Playscript.World
import Playscript.Yaml.Reader

/-! # The configuration file

    A mapping in a file of a fixed name, laid over the defaults.  A file that cannot
    be read as one is reported and leaves the defaults as they are. -/

namespace Playscript.Configuration

/-- Where the configuration is kept. -/
def fileName : String := ".script2ansible.yaml"

/-- What holds without a configuration. -/
def defaults : Entries :=
  [(.text "output_format", .text "yaml"), (.text "allow_shell_fallback", .bool true),
   (.text "verbose", .bool false), (.text "strict", .bool false), (.text "perl_custom", .text "")]

/-- What a value that is no mapping is called. -/
def shapeName : Value → String
  | .scalar .null => "NoneType"
  | .scalar (.bool _) => "bool"
  | .scalar (.int _) => "int"
  | .scalar (.real _) => "float"
  | .scalar (.text _) => "str"
  | .list _ => "list"
  | .map _ => "dict"

/-- The configuration that a file's content makes, or a complaint about it. -/
def ofContent (content : ByteArray) : Except String Entries :=
  match Text.ofBytes content with
  | .error fault => .error fault.message
  | .ok text =>
    match Yaml.read text with
    | .error fault => .error (fault.message fileName)
    | .ok (.map entries) => .ok (Entries.merge defaults entries)
    | .ok value =>
      if value.isTruthy then .error ("'" ++ shapeName value ++ "' object is not a mapping")
      else .ok defaults

/-- The configuration. -/
def load : Work Entries := do
  if ← Work.ask (·.exists? fileName) then
    match ofContent (← (← get).tree.read fileName) with
    | .ok entries => return entries
    | .error complaint =>
      Work.report .error ("Error reading config: " ++ complaint)
      return defaults
  else return defaults

end Playscript.Configuration
