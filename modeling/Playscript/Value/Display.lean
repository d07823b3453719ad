import Playscript.Value.Basic
import Playscript.Text.Quoted

/-! # Values inside a message

    A text stands in a message as it is; inside a list or a mapping it is quoted. -/

namespace Playscript

/-- A datum inside a list or a mapping. -/
def Scalar.quoted : Scalar → String
  | .null => "None"
  | .bool true => "True"
  | .bool false => "False"
  | .int n => toString n
  | .real d => d.text
  | .text s => Text.quoted s

namespace Value

mutual

/-- A value inside a list or a mapping. -/
def quoted : Value → String
  | .scalar s => s.quoted
  | .list items => "[" ++ ", ".intercalate (quotedItems items) ++ "]"
  | .map entries => "\x7b" ++ ", ".intercalate (quotedEntries entries) ++ "\x7d"

/-- The items of a list, each quoted. -/
def quotedItems : List Value → List String
  | [] => []
  | item :: rest => item.quoted :: quotedItems rest

/-- The entries of a mapping, each quoted. -/
def quotedEntries : List (Scalar × Value) → List String
  | [] => []
  | (key, value) :: rest => (key.quoted ++ ": " ++ value.quoted) :: quotedEntries rest

end

/-- A value inside a message. -/
def display : Value → String
  | .scalar (.text s) => s
  | v => v.quoted

end Value

end Playscript
