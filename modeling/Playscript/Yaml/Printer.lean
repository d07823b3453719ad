import Playscript.Value.Basic
import Playscript.Yaml.Sheet

/-! # Values as YAML text

    Lists and mappings are written in block style, two columns deeper than what holds
    them; empty ones as `[]` and `{}`.  A list inside a mapping is indented too, unless
    the layout is tight.  A document that is one plain scalar is closed by `...`. -/

namespace Playscript.Yaml

/-- How lists and keys are laid out. -/
structure Layout where
  /-- Whether a list inside a mapping starts at the column of its key. -/
  tightLists : Bool
  /-- Whether the entries of mappings are sorted by their keys. -/
  sortedKeys : Bool
deriving DecidableEq, Repr

/-- The layout of tasks: lists indented, entries in their order. -/
def Layout.tasks : Layout := ⟨false, false⟩

/-- The layout of variables: lists not indented, entries sorted. -/
def Layout.exports : Layout := ⟨true, true⟩

/-- The indentation inside a construct; the outermost block is not indented. -/
def deeper (indent : Option Nat) (flow indentless : Bool) : Nat :=
  match indent with
  | none => if flow then 2 else 0
  | some n => if indentless then n else n + 2

/-- A number with a fraction; an exponent needs a point in front. -/
def realText : Decimal → String
  | .infinity true => "-.inf"
  | .infinity false => ".inf"
  | .notANumber => ".nan"
  | d =>
    let cs := d.text.toList
    if cs.contains '.' then d.text
    else String.ofList (cs.flatMap fun c => if c == 'e' then ['.', '0', 'e'] else [c])

/-- The text of a datum that is no text. -/
def datumText : Scalar → String
  | .null => "null"
  | .bool true => "true"
  | .bool false => "false"
  | .int n => toString n
  | .real d => realText d
  | .text s => s

/-- The style of a datum. -/
def scalarStyle (inKey : Bool) : Scalar → Style
  | .text s => styleOf inKey s
  | _ => .plain

/-- Writes a datum. -/
def writeScalar (indent : Option Nat) (inKey : Bool) (sheet : Sheet) (s : Scalar) : Sheet :=
  sheet.styled (scalarStyle inKey s) (deeper indent true false) (!inKey) (datumText s)

/-- Whether a datum can be a key on one line. -/
def isShortKey : Scalar → Bool
  | .text s => isSimpleKey s
  | _ => true

/-- Writes the key of an entry up to where its value goes. -/
def writeKey (indent : Nat) (sheet : Sheet) (key : Scalar) : Sheet :=
  let sheet := sheet.indentTo indent
  if isShortKey key then (writeScalar (some indent) true sheet key).mark ":" false false
  else
    let sheet := writeScalar (some indent) false (sheet.mark "?" true true) key
    (sheet.indentTo indent).mark ":" true true

mutual

/-- Writes a value; `inMapping` holds for the value of an entry. -/
def write (layout : Layout) (indent : Option Nat) (inMapping : Bool) (sheet : Sheet) :
    Value → Sheet
  | .scalar s => writeScalar indent false sheet s
  | .list [] => sheet.mark "[]" true false
  | .list items =>
    writeItems layout (deeper indent false (layout.tightLists && inMapping && !sheet.indenting))
      sheet items
  | .map [] => sheet.mark "\x7b\x7d" true false
  | .map entries => writeEntries layout (deeper indent false false) sheet entries

/-- Writes the items of a list. -/
def writeItems (layout : Layout) (indent : Nat) (sheet : Sheet) : List Value → Sheet
  | [] => sheet
  | item :: rest =>
    let sheet := (sheet.indentTo indent).mark "-" true true
    writeItems layout indent (write layout (some indent) false sheet item) rest

/-- Writes the entries of a mapping. -/
def writeEntries (layout : Layout) (indent : Nat) (sheet : Sheet) :
    List (Scalar × Value) → Sheet
  | [] => sheet
  | (key, value) :: rest =>
    let sheet := writeKey indent sheet key
    writeEntries layout indent (write layout (some indent) true sheet value) rest

end

/-! ## Sorted mappings -/

/-- Whether a key comes no later than another; keys of different kinds keep their places. -/
def keyLe : Scalar → Scalar → Bool
  | .text a, .text b => !(b < a)
  | .int a, .int b => a ≤ b
  | _, _ => true

/-- Whether all keys of a mapping can be compared. -/
def comparable (entries : Entries) : Bool :=
  entries.all (fun e => match e.1 with | .text _ => true | _ => false)
    || entries.all (fun e => match e.1 with | .int _ => true | _ => false)

/-- The entries of a mapping sorted by their keys, if these can be compared. -/
def sortEntries (entries : Entries) : Entries :=
  if comparable entries then entries.mergeSort (fun a b => keyLe a.1 b.1) else entries

mutual

/-- A value with the entries of all mappings sorted. -/
def sorted : Value → Value
  | .scalar s => .scalar s
  | .list items => .list (sortedItems items)
  | .map entries => .map (sortEntries (sortedEntries entries))

/-- The items of a list, each sorted. -/
def sortedItems : List Value → List Value
  | [] => []
  | item :: rest => sorted item :: sortedItems rest

/-- The entries of a mapping, each value sorted. -/
def sortedEntries : List (Scalar × Value) → List (Scalar × Value)
  | [] => []
  | (key, value) :: rest => (key, sorted value) :: sortedEntries rest

end

/-- Whether a value is written as one plain scalar. -/
def isPlainScalar : Value → Bool
  | .scalar s => scalarStyle false s == .plain
  | _ => false

/-- A value as a YAML document. -/
def render (layout : Layout) (v : Value) : String :=
  let v := if layout.sortedKeys then sorted v else v
  let sheet := (write layout none false {} v).indentTo 0
  let sheet := if isPlainScalar v then (sheet.mark "..." true false).indentTo 0 else sheet
  sheet.text

end Playscript.Yaml
