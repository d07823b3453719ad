import Playscript.Text.Lines
import Playscript.Value.Basic
import Playscript.Yaml.Kind
import Playscript.Yaml.Node

/-! # Reading YAML

    The value of a document.  A scalar stands for what its tag says, and without a tag
    for what its form says.  Of two entries with the same key the last one counts. -/

namespace Playscript.Yaml

/-! ## Scalars -/

/-- The value of a digit, up to base sixteen. -/
def digitIn? (base : Nat) (c : Char) : Option Nat :=
  match Text.hexValue? c with
  | some n => if n < base then some n else none
  | none => none

/-- The number that digits stand for to a base. -/
def wholeIn (base : Nat) (digits : List Char) : Except Fault Nat :=
  match digits.mapM (digitIn? base) with
  | some (n :: ns) => .ok ((n :: ns).foldl (fun acc d => acc * base + d) 0)
  | _ => .error (.notWhole base (String.ofList digits))

/-- A number without the gaps in it, and without its sign: whether it is negative, and the rest. -/
def splitSign (text : String) : Except Fault (Bool × List Char) :=
  match text.toList.filter (· != '_') with
  | [] => .error .noDigits
  | '-' :: rest => .ok (true, rest)
  | '+' :: rest => .ok (false, rest)
  | cs => .ok (false, cs)

/-- The parts of a number to the base sixty. -/
def sixtyParts (cs : List Char) : List (List Char) :=
  Text.splitOnChar ':' cs

/-- The number without sign that a text stands for: binary, hexadecimal, octal, to the base sixty
    or decimal. -/
def magnitude : List Char → Except Fault Nat
  | [] => .error .noDigits
  | ['0'] => .ok 0
  | '0' :: 'b' :: rest => wholeIn 2 rest
  | '0' :: 'x' :: rest => wholeIn 16 rest
  | '0' :: rest => wholeIn 8 ('0' :: rest)
  | cs => do
    let parts ← (sixtyParts cs).mapM (wholeIn 10)
    return parts.foldl (fun acc part => acc * 60 + part) 0

/-- The whole number that a text stands for. -/
def wholeOf (text : String) : Except Fault Int := do
  let (negative, cs) ← splitSign text
  let n ← magnitude cs
  return if negative then -(n : Int) else n

/-- The digits of a fraction: in front of the point, behind it, and the power of ten. -/
def decimalParts (cs : List Char) : Option (List Char × List Char × Int) :=
  let whole := cs.takeWhile Char.isDigit
  let rest := cs.dropWhile Char.isDigit
  let (fraction, rest) := match rest with
    | '.' :: more => (more.takeWhile Char.isDigit, more.dropWhile Char.isDigit)
    | other => ([], other)
  let power? : Option Int := match rest with
    | [] => some 0
    | 'e' :: '-' :: digits => wholeNumber? digits |>.map fun n => -(n : Int)
    | 'e' :: '+' :: digits => wholeNumber? digits |>.map fun n => (n : Int)
    | 'e' :: digits => wholeNumber? digits |>.map fun n => (n : Int)
    | _ => none
  if whole.isEmpty && fraction.isEmpty then none
  else power?.map fun power => (whole, fraction, power)
where
  /-- Digits alone, as a number. -/
  wholeNumber? (digits : List Char) : Option Nat :=
    if digits.isEmpty || !digits.all Char.isDigit then none else some (Decimal.digitsValue digits)

/-- The number of a text to the base sixty: its last part has the fraction. -/
def sixtyReal (negative : Bool) (parts : List (List Char)) : Option Decimal := do
  let last ← parts.getLast?
  let (whole, fraction, _) ← decimalParts last
  let front ← parts.dropLast.mapM decimalParts
  let minutes := front.foldl (fun acc (digits, _, _) => acc * 60 + Decimal.digitsValue digits) 0
  let total := minutes * 60 + Decimal.digitsValue whole
  return Decimal.ofParts negative (Nat.toDigits 10 total) fraction 0

/-- The fraction that a text stands for. -/
def realOf (text : String) : Except Fault Decimal := do
  let (negative, cs) ← splitSign text
  let cs := cs.map Char.toLower
  if cs == ".inf".toList then return .infinity negative
  else if cs == ".nan".toList then return .notANumber
  else if cs.contains ':' then
    match sixtyReal negative (sixtyParts cs) with
    | some d => return d
    | none => throw (.notReal (String.ofList cs))
  else
    match decimalParts cs with
    | some (whole, fraction, power) => return Decimal.ofParts negative whole fraction power
    | none => throw (.notReal (String.ofList cs))

/-- The truth value that a text stands for. -/
def boolOf (text : String) : Except Fault Bool :=
  let word := text.map Char.toLower
  if ["yes", "true", "on"].contains word then .ok true
  else if ["no", "false", "off"].contains word then .ok false
  else .error (.notBool word)

/-- The tag of a kind of scalar. -/
def Kind.tag : Kind → String
  | .null => "null"
  | .bool => "bool"
  | .int => "int"
  | .float => "float"
  | .timestamp => "timestamp"
  | .merge => "merge"
  | .default => "value"
  | .sign => "yaml"
  | .text => "str"

/-! ## Parts -/

namespace Node

/-- The tag of a part. -/
def fullTag : Node → String
  | .scalar text free none _ =>
    Growing.ownTag ++ (if free then kindOf text else Kind.text).tag
  | .list _ none _ => Growing.ownTag ++ "seq"
  | .map _ none _ => Growing.ownTag ++ "map"
  | .scalar _ _ (some tag) _ => tag
  | .list _ (some tag) _ => tag
  | .map _ (some tag) _ => tag

/-- The complaint about a part that its tag does not fit. -/
def misfit (wanted found : String) (place : Mark) : Fault :=
  .alone ("expected a " ++ wanted ++ " node, but found " ++ found) place

/-- The complaint about a tag that nothing is known for. -/
def unknownTag (tag : String) (place : Mark) : Fault :=
  .alone ("could not determine a constructor for the tag " ++ Text.quoted tag) place

/-- The tags of scalars, without the text all start with. -/
def scalarTags : List String :=
  ["null", "bool", "int", "float", "timestamp", "str"].map (Growing.ownTag ++ ·)

/-- The datum of a scalar with a tag.  A date is kept as its text. -/
def datum (tag text : String) (place : Mark) : Except Fault Scalar :=
  if tag = Growing.ownTag ++ "null" then .ok .null
  else if tag = Growing.ownTag ++ "bool" then (boolOf text).map .bool
  else if tag = Growing.ownTag ++ "int" then (wholeOf text).map .int
  else if tag = Growing.ownTag ++ "float" then (realOf text).map .real
  else if tag = Growing.ownTag ++ "timestamp" || tag = Growing.ownTag ++ "str" then .ok (.text text)
  else if tag = Growing.ownTag ++ "seq" then .error (misfit "sequence" "scalar" place)
  else if tag = Growing.ownTag ++ "map" then .error (misfit "mapping" "scalar" place)
  else .error (unknownTag tag place)

/-- What was being built when a mapping fails. -/
def inMapping : String := "while constructing a mapping"

mutual

/-- The value of a part. -/
def toValue : Node → Except Fault Value
  | .scalar text free tag place => do
    return .scalar (← datum (fullTag (.scalar text free tag place)) text place)
  | .list items tag place => do
    let tag := tag.getD (Growing.ownTag ++ "seq")
    if tag = Growing.ownTag ++ "seq" then return .list (← toValues items)
    else if tag = Growing.ownTag ++ "map" then throw (misfit "mapping" "sequence" place)
    else if scalarTags.contains tag then throw (misfit "scalar" "sequence" place)
    else throw (unknownTag tag place)
  | .map entries tag place => do
    let tag := tag.getD (Growing.ownTag ++ "map")
    if tag = Growing.ownTag ++ "map" then
      let (merged, own) ← toEntries place entries
      return .map (Entries.merge [] (merged ++ own))
    else if tag = Growing.ownTag ++ "seq" then throw (misfit "sequence" "mapping" place)
    else if scalarTags.contains tag then throw (misfit "scalar" "mapping" place)
    else throw (unknownTag tag place)

/-- The values of items. -/
def toValues : List Node → Except Fault (List Value)
  | [] => .ok []
  | item :: rest => do return (← toValue item) :: (← toValues rest)

/-- The entries of a mapping that started somewhere: those merged into it, and its own. -/
def toEntries (since : Mark) : List (Node × Node) → Except Fault (Entries × Entries)
  | [] => .ok ([], [])
  | entry :: rest => do
    let (now, own) ← toEntry since entry
    let (moreNow, moreOwn) ← toEntries since rest
    return (now ++ moreNow, own ++ moreOwn)

/-- The entries that one entry of a mapping makes: those merged, and its own. -/
def toEntry (since : Mark) : Node × Node → Except Fault (Entries × Entries)
  | (key, value) => do
    if key.fullTag = Growing.ownTag ++ Kind.merge.tag then
      return (← merged since value, [])
    else
      let keyValue ←
        if key.fullTag = Growing.ownTag ++ Kind.default.tag then pure (Value.text "=")
        else toValue key
      match keyValue with
      | .scalar datum => return ([], [(datum, ← toValue value)])
      | _ => throw (.during inMapping since "found unhashable key" key.place)

/-- The entries that a part merges into a mapping: those of a mapping, or of the mappings in a
    list, of which the first one counts most. -/
def merged (since : Mark) : Node → Except Fault Entries
  | .map entries _ _ => do
    let (front, own) ← toEntries since entries
    return front ++ own
  | .list items _ _ => mergedItems since items
  | .scalar _ _ _ place =>
    .error (.during inMapping since
      "expected a mapping or list of mappings for merging, but found scalar" place)

/-- The entries that the mappings in a list merge. -/
def mergedItems (since : Mark) : List Node → Except Fault Entries
  | [] => .ok []
  | item :: rest => do
    let first ← match item with
      | .map entries _ _ => do
        let (front, own) ← toEntries since entries
        pure (front ++ own)
      | .list _ _ place =>
        throw (.during inMapping since
          "expected a mapping for merging, but found sequence" place)
      | .scalar _ _ _ place =>
        throw (.during inMapping since "expected a mapping for merging, but found scalar" place)
    return (← mergedItems since rest) ++ first

end

end Node

/-- The value of the only document of a text; `null` if there is nothing in it. -/
def read (text : String) : Except Fault Value := do
  match ← Node.ofText text with
  | some root => root.toValue
  | none => return .null

end Playscript.Yaml
