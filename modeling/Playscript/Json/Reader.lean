import Playscript.Text.Hex
import Playscript.Value.Basic

/-! # Reading JSON text

    Values in JSON, with the names of the numbers that are not finite.  Of a repeated
    key the last value counts, in the place of the first.  A control character in a
    text is refused, and so is a text with a byte order mark in front.  A half of a
    surrogate pair that stands alone is read as the replacement character. -/

namespace Playscript.Json

/-- What is read from the front of a text, and what is left of it. -/
abbrev Taken (α : Type) := Option (α × List Char)

/-- Drops blanks and line ends. -/
def skipBlanks (cs : List Char) : List Char :=
  cs.dropWhile fun c => c == ' ' || c == '\t' || c == '\n' || c == '\r'

/-- Takes a fixed text. -/
def takeText (text : String) (cs : List Char) : Option (List Char) :=
  if text.toList.isPrefixOf cs then some (cs.drop text.length) else none

/-! ## Texts -/

/-- The code unit that four digits stand for. -/
def codeUnit? : List Char → Option (Nat × List Char)
  | a :: b :: c :: d :: rest =>
    match Text.hexValue? a, Text.hexValue? b, Text.hexValue? c, Text.hexValue? d with
    | some a, some b, some c, some d => some (((a * 16 + b) * 16 + c) * 16 + d, rest)
    | _, _, _, _ => none
  | _ => none

/-- The second half of a surrogate pair at the front of a text. -/
def lowHalf? : List Char → Option (Nat × List Char)
  | '\\' :: 'u' :: rest =>
    match codeUnit? rest with
    | some (low, rest) => if 0xdc00 ≤ low ∧ low < 0xe000 then some (low, rest) else none
    | none => none
  | _ => none

/-- The character of an escape by its code. -/
def takeCode (cs : List Char) : Taken Char :=
  match codeUnit? cs with
  | none => none
  | some (high, rest) =>
    if 0xd800 ≤ high ∧ high < 0xdc00 then
      match lowHalf? rest with
      | some (low, rest) =>
        some (Char.ofNat (0x10000 + (high - 0xd800) * 0x400 + (low - 0xdc00)), rest)
      | none => some (Text.charOf high, rest)
    else some (Text.charOf high, rest)

/-- The character of a short escape. -/
def shortEscape? : Char → Option Char
  | '\x22' => some '\x22'
  | '\\' => some '\\'
  | '/' => some '/'
  | 'b' => some '\x08'
  | 'f' => some '\x0c'
  | 'n' => some '\n'
  | 'r' => some '\r'
  | 't' => some '\t'
  | _ => none

/-- The inside of a text up to its closing quote; `acc` is what has been read, backwards. -/
def takeQuoted : Nat → List Char → List Char → Taken String
  | 0, _, _ => none
  | _, _, [] => none
  | n + 1, acc, c :: rest =>
    if c == '\x22' then some (String.ofList acc.reverse, rest)
    else if c == '\\' then
      match rest with
      | 'u' :: rest =>
        match takeCode rest with
        | some (c, rest) => takeQuoted n (c :: acc) rest
        | none => none
      | e :: rest =>
        match shortEscape? e with
        | some c => takeQuoted n (c :: acc) rest
        | none => none
      | [] => none
    else if c.toNat < 32 then none
    else takeQuoted n (c :: acc) rest

/-! ## Numbers -/

/-- The digits behind a decimal point. -/
def takeFraction : List Char → List Char × List Char
  | '.' :: rest =>
    let digits := rest.takeWhile Char.isDigit
    if digits.isEmpty then ([], '.' :: rest) else (digits, rest.drop digits.length)
  | cs => ([], cs)

/-- The exponent of a number. -/
def takeExponent : List Char → Option Int × List Char
  | e :: rest =>
    if e == 'e' || e == 'E' then
      let (negative, behind) := match rest with
        | '-' :: behind => (true, behind)
        | '+' :: behind => (false, behind)
        | _ => (false, rest)
      let digits := behind.takeWhile Char.isDigit
      if digits.isEmpty then (none, e :: rest)
      else
        let n : Int := Decimal.digitsValue digits
        (some (if negative then -n else n), behind.drop digits.length)
    else (none, e :: rest)
  | [] => (none, [])

/-- A number. -/
def takeNumber (cs : List Char) : Taken Value :=
  let (negative, body) := match cs with
    | '-' :: body => (true, body)
    | _ => (false, cs)
  let digits := body.takeWhile Char.isDigit
  let whole := match digits with
    | '0' :: _ => ['0']
    | digits => digits
  if whole.isEmpty then none
  else
    let (fraction, rest) := takeFraction (body.drop whole.length)
    let (exponent, rest) := takeExponent rest
    if fraction.isEmpty && exponent.isNone then
      let n : Int := Decimal.digitsValue whole
      some (.int (if negative then -n else n), rest)
    else some (.scalar (.real (Decimal.ofParts negative whole fraction (exponent.getD 0))), rest)

/-- The names of single values. -/
def names : List (String × Value) :=
  [("null", .null), ("true", .bool true), ("false", .bool false),
   ("NaN", .scalar (.real .notANumber)), ("Infinity", .scalar (.real (.infinity false))),
   ("-Infinity", .scalar (.real (.infinity true)))]

/-- A value that is known by its name. -/
def takeName (cs : List Char) : Taken Value :=
  names.findSome? fun (name, value) => (takeText name cs).map (value, ·)

/-! ## Values -/

mutual

/-- A value at the front of a text. -/
def takeValue : Nat → List Char → Taken Value
  | 0, _ => none
  | n + 1, cs =>
    match cs with
    | '\x22' :: rest => (takeQuoted (rest.length + 1) [] rest).map fun (s, rest) => (.text s, rest)
    | '[' :: rest =>
      match skipBlanks rest with
      | ']' :: rest => some (.list [], rest)
      | rest => (takeItems n rest).map fun (items, rest) => (.list items, rest)
    | '\x7b' :: rest =>
      match skipBlanks rest with
      | '\x7d' :: rest => some (.map [], rest)
      | rest => (takeEntries n [] rest).map fun (entries, rest) => (.map entries, rest)
    | cs =>
      match takeName cs with
      | some taken => some taken
      | none => takeNumber cs

/-- The items of a list up to its closing bracket. -/
def takeItems : Nat → List Char → Taken (List Value)
  | 0, _ => none
  | n + 1, cs =>
    match takeValue n cs with
    | none => none
    | some (item, rest) =>
      match skipBlanks rest with
      | ']' :: rest => some ([item], rest)
      | ',' :: rest =>
        (takeItems n (skipBlanks rest)).map fun (items, rest) => (item :: items, rest)
      | _ => none

/-- The entries of a mapping up to its closing brace, behind those that have been read. -/
def takeEntries : Nat → Entries → List Char → Taken Entries
  | 0, _, _ => none
  | n + 1, entries, cs =>
    match cs with
    | '\x22' :: rest =>
      match takeQuoted (rest.length + 1) [] rest with
      | none => none
      | some (key, rest) =>
        match skipBlanks rest with
        | ':' :: rest =>
          match takeValue n (skipBlanks rest) with
          | none => none
          | some (value, rest) =>
            let entries := Entries.set entries (.text key) value
            match skipBlanks rest with
            | '\x7d' :: rest => some (entries, rest)
            | ',' :: rest => takeEntries n entries (skipBlanks rest)
            | _ => none
        | _ => none
    | _ => none

end

/-- The value of a JSON text; every level of it takes a character. -/
def read? (text : String) : Option Value :=
  let cs := text.toList
  match takeValue (2 * cs.length + 2) (skipBlanks cs) with
  | some (value, rest) => if (skipBlanks rest).isEmpty then some value else none
  | none => none

end Playscript.Json
