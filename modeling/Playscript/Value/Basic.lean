import Playscript.Decimal

/-! # Values

    The data that settings, logs, tasks and generated files are made of.  A scalar is
    a single datum; a value is a scalar, a list, or a mapping from scalars to values.
    A mapping keeps its entries in the order in which they came: setting a key that
    is there keeps its place, a new key goes to the end. -/

namespace Playscript

/-- A single datum. -/
inductive Scalar where
  | null
  | bool (value : Bool)
  | int (value : Int)
  | real (value : Decimal)
  | text (value : String)
deriving DecidableEq, Repr, Inhabited

/-- A datum, a list of values, or a mapping in the order of its entries. -/
inductive Value where
  | scalar (datum : Scalar)
  | list (items : List Value)
  | map (entries : List (Scalar × Value))
deriving Repr

/-- The entries of a mapping. -/
abbrev Entries := List (Scalar × Value)

namespace Value

instance : Inhabited Value := ⟨.scalar .null⟩

/-- The absent datum. -/
abbrev null : Value := .scalar .null

/-- A truth value. -/
abbrev bool (b : Bool) : Value := .scalar (.bool b)

/-- A whole number. -/
abbrev int (n : Int) : Value := .scalar (.int n)

/-- A text. -/
abbrev text (s : String) : Value := .scalar (.text s)

end Value

namespace Entries

/-- The value of a key. -/
def get? (entries : Entries) (key : Scalar) : Option Value :=
  (entries.find? fun entry => entry.1 == key).map (·.2)

/-- Whether a key is there. -/
def has (entries : Entries) (key : Scalar) : Bool :=
  entries.any fun entry => entry.1 == key

/-- Gives a key a value: in its place if it is there, at the end if it is not. -/
def set (entries : Entries) (key : Scalar) (value : Value) : Entries :=
  match entries with
  | [] => [(key, value)]
  | entry :: rest =>
    if entry.1 = key then (key, value) :: rest else entry :: set rest key value

/-- Sets each of the second entries in turn. -/
def merge (entries more : Entries) : Entries :=
  more.foldl (fun acc entry => acc.set entry.1 entry.2) entries

/-- The value of a key that is a text. -/
def field? (entries : Entries) (key : String) : Option Value :=
  entries.get? (.text key)

/-- The value of a text key, or `null`. -/
def field (entries : Entries) (key : String) : Value :=
  (entries.field? key).getD .null

end Entries

/-- Whether a datum counts as true: not `null`, `false`, zero or empty. -/
def Scalar.isTruthy : Scalar → Bool
  | .null => false
  | .bool b => b
  | .int n => n != 0
  | .real d => !d.isZero
  | .text s => s != ""

namespace Value

/-- Whether a value counts as true: a true datum, or a list or mapping that is not empty. -/
def isTruthy : Value → Bool
  | .scalar s => s.isTruthy
  | .list items => !items.isEmpty
  | .map entries => !entries.isEmpty

/-- The value as a text, if it is one. -/
def text? : Value → Option String
  | .scalar (.text s) => some s
  | _ => none

/-- What a loop over the value goes through: the items of a list, the keys of a mapping, the
    characters of a text. -/
def items? : Value → Option (List Value)
  | .list items => some items
  | .map entries => some (entries.map fun entry => .scalar entry.1)
  | .scalar (.text s) => some (s.toList.map fun c => .text c.toString)
  | .scalar _ => none

/-- The number of items of a value that has some. -/
def size? (v : Value) : Option Nat :=
  v.items?.map List.length

end Value

end Playscript
