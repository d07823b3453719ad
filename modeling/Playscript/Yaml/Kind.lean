import Playscript.Text.Matcher

/-! # What a plain scalar stands for

    A scalar without quotes stands for a datum of the kind that its text has the form
    of.  A text of no such form stands for itself. -/

namespace Playscript.Yaml

open Text (Matcher)

/-- The kinds of data that plain scalars stand for. -/
inductive Kind where
  | null
  | bool
  | int
  | float
  | timestamp
  /-- The key that merges a mapping into another. -/
  | merge
  /-- The key of a default value. -/
  | default
  /-- A sign that only the language itself may use. -/
  | sign
  | text
deriving DecidableEq, Repr, Inhabited

namespace Form

open Text.Matcher

/-- The words for true. -/
def trueWords : List String :=
  ["yes", "Yes", "YES", "true", "True", "TRUE", "on", "On", "ON"]

/-- The words for false. -/
def falseWords : List String :=
  ["no", "No", "NO", "false", "False", "FALSE", "off", "Off", "OFF"]

/-- The words for nothing. -/
def nullWords : List String :=
  ["", "~", "null", "Null", "NULL"]

variable {ρ : Type}

/-- Characters of a class, at least so many. -/
def several (inClass : Char → Bool) (least : Nat) : Matcher ρ Unit := do
  let _ ← longest inClass least
  return ()

/-- One character of a class. -/
def one (inClass : Char → Bool) : Matcher ρ Unit := do
  let _ ← exactly inClass 1
  return ()

/-- So many digits, or one fewer. -/
def digitsOr (count : Nat) : Matcher ρ Unit := do
  let _ ← orElse (exactly Char.isDigit count) (exactly Char.isDigit (count - 1))
  return ()

/-- A sign, if there is one. -/
def sign : Matcher ρ Unit := do
  let _ ← optional (one fun c => c == '-' || c == '+')
  return ()

/-- Whether a character may stand among the digits of a number. -/
def inNumber (c : Char) : Bool :=
  c.isDigit || c == '_'

/-- The parts of a number to the base sixty, each behind a colon. -/
def sixties : Nat → Matcher ρ Unit
  | 0 => pure ()
  | n + 1 => do
    let _ ← optional (do
      lit ":"
      let _ ← optional (one fun c => '0' ≤ c && c ≤ '5')
      one Char.isDigit
      sixties n)
    return ()

/-- One part of a number to the base sixty, and more. -/
def someSixties (n : Nat) : Matcher ρ Unit := do
  lit ":"
  let _ ← optional (one fun c => '0' ≤ c && c ≤ '5')
  one Char.isDigit
  sixties n

/-- An exponent, if there is one. -/
def exponent : Matcher ρ Unit := do
  let _ ← optional (do
    one fun c => c == 'e' || c == 'E'
    one fun c => c == '-' || c == '+'
    several Char.isDigit 1)
  return ()

/-- The forms of a whole number: binary, octal, decimal, hexadecimal, and to the base sixty. -/
def intForms (n : Nat) : List (Matcher Unit Unit) :=
  [do sign; lit "0b"; several (fun c => c == '0' || c == '1' || c == '_') 1,
   do sign; lit "0"; several (fun c => ('0' ≤ c && c ≤ '7') || c == '_') 1,
   do sign; lit "0",
   do sign; one fun c => '1' ≤ c && c ≤ '9'
      several inNumber 0,
   do sign; lit "0x"; several (fun c => c.isDigit || ('a' ≤ c && c ≤ 'f') || ('A' ≤ c && c ≤ 'F')
        || c == '_') 1,
   do sign; one fun c => '1' ≤ c && c ≤ '9'
      several inNumber 0
      someSixties n]

/-- The forms of a number with a fraction. -/
def floatForms (n : Nat) : List (Matcher Unit Unit) :=
  [do sign; one Char.isDigit; several inNumber 0; lit "."; several inNumber 0; exponent,
   do lit "."; one Char.isDigit; several inNumber 0; exponent,
   do sign; one Char.isDigit; several inNumber 0; someSixties n; lit "."; several inNumber 0,
   do sign; lit "."; orElse (lit "inf") (orElse (lit "Inf") (lit "INF")),
   do lit "."; orElse (lit "nan") (orElse (lit "NaN") (lit "NAN"))]

/-- Whether a character is a blank inside a line. -/
def isGap (c : Char) : Bool :=
  c == ' ' || c == '\t'

/-- The forms of a date, and of a date with a time. -/
def timestampForms : List (Matcher Unit Unit) :=
  let four : Matcher Unit Unit := do
    let _ ← exactly Char.isDigit 4
    return ()
  let two : Matcher Unit Unit := do
    let _ ← exactly Char.isDigit 2
    return ()
  [do four; lit "-"; two; lit "-"; two,
   do
    four; lit "-"; digitsOr 2; lit "-"; digitsOr 2
    orElse (one fun c => c == 'T' || c == 't') (several isGap 1)
    digitsOr 2; lit ":"; two; lit ":"; two
    let _ ← optional (do lit "."; several Char.isDigit 0)
    let _ ← optional (do
      several isGap 0
      orElse (lit "Z") (do
        one fun c => c == '-' || c == '+'
        digitsOr 2
        let _ ← optional (do lit ":"; two)
        return ()))
    return ()]

end Form

/-- The kind of datum that a plain scalar stands for. -/
def kindOf (text : String) : Kind :=
  let cs := text.toList
  if Form.nullWords.contains text then .null
  else if Form.trueWords.contains text || Form.falseWords.contains text then .bool
  else if (Form.intForms cs.length).any (·.takesAll cs) then .int
  else if (Form.floatForms cs.length).any (·.takesAll cs) then .float
  else if Form.timestampForms.any (·.takesAll cs) then .timestamp
  else if text == "<<" then .merge
  else if text == "=" then .default
  else if text == "!" || text == "&" || text == "*" then .sign
  else .text

end Playscript.Yaml
