import Playscript.Text.Quoted
import Playscript.Value.Basic

/-! # Values as JSON text

    The text is ASCII: every other character is written by its UTF-16 code units.
    Items and entries stand on lines of their own, two columns deeper than what holds
    them. -/

namespace Playscript.Json

/-- A code unit by its number. -/
def unitEscape (unit : Nat) : List Char :=
  '\\' :: 'u' :: Text.hexDigits 4 unit

/-- A character inside a JSON text. -/
def escapeChar (c : Char) : List Char :=
  if c = '\x22' then ['\\', '\x22']
  else if c = '\\' then ['\\', '\\']
  else if c = '\n' then ['\\', 'n']
  else if c = '\r' then ['\\', 'r']
  else if c = '\t' then ['\\', 't']
  else if c.toNat = 8 then ['\\', 'b']
  else if c.toNat = 12 then ['\\', 'f']
  else if 32 ≤ c.toNat ∧ c.toNat < 127 then [c]
  else if c.toNat < 0x10000 then unitEscape c.toNat
  else
    let rest := c.toNat - 0x10000
    unitEscape (0xd800 + rest / 0x400) ++ unitEscape (0xdc00 + rest % 0x400)

/-- A text in double quotes. -/
def quoteText (s : String) : String :=
  String.ofList ('\x22' :: s.toList.flatMap escapeChar ++ ['\x22'])

/-- A number with a fraction; those that are not finite have names. -/
def realText : Decimal → String
  | .infinity true => "-Infinity"
  | .infinity false => "Infinity"
  | .notANumber => "NaN"
  | d => d.text

/-- A datum. -/
def scalarText : Scalar → String
  | .null => "null"
  | .bool true => "true"
  | .bool false => "false"
  | .int n => toString n
  | .real d => realText d
  | .text s => quoteText s

/-- A key: a datum that is no text is written as its text. -/
def keyText : Scalar → String
  | .text s => quoteText s
  | s => quoteText (scalarText s)

/-- A line end and the columns in front of the next line. -/
def lineBreak (depth : Nat) : String :=
  "\n" ++ String.ofList (List.replicate (2 * depth) ' ')

mutual

/-- A value at a depth. -/
def renderAt (depth : Nat) : Value → String
  | .scalar s => scalarText s
  | .list [] => "[]"
  | .list items =>
    "[" ++ lineBreak (depth + 1)
      ++ ("," ++ lineBreak (depth + 1)).intercalate (renderItems (depth + 1) items)
      ++ lineBreak depth ++ "]"
  | .map [] => "\x7b\x7d"
  | .map entries =>
    "\x7b" ++ lineBreak (depth + 1)
      ++ ("," ++ lineBreak (depth + 1)).intercalate (renderEntries (depth + 1) entries)
      ++ lineBreak depth ++ "\x7d"

/-- The items of a list. -/
def renderItems (depth : Nat) : List Value → List String
  | [] => []
  | item :: rest => renderAt depth item :: renderItems depth rest

/-- The entries of a mapping. -/
def renderEntries (depth : Nat) : List (Scalar × Value) → List String
  | [] => []
  | (key, value) :: rest =>
    (keyText key ++ ": " ++ renderAt depth value) :: renderEntries depth rest

end

/-- A value as a JSON text, without a line end behind it. -/
def render (v : Value) : String :=
  renderAt 0 v

end Playscript.Json
