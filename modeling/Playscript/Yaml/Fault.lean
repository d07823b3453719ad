import Playscript.Text.Quoted

/-! # Faults of a YAML text

    A fault says what is wrong and where, and what was being read when it was found. -/

namespace Playscript.Yaml

/-- A place in a text, counted from zero. -/
structure Mark where
  index : Nat := 0
  line : Nat := 0
  column : Nat := 0
deriving DecidableEq, Repr, Inhabited

/-- The place behind a sign of one character. -/
def Mark.next (m : Mark) : Mark :=
  { m with index := m.index + 1, column := m.column + 1 }

/-- What is wrong with a text. -/
inductive Fault where
  /-- A problem, and what was being read and since where. -/
  | marked (context : Option String) (since : Option Mark) (problem : String) (place : Mark)
  /-- A character that no text may hold. -/
  | badCharacter (c : Char) (index : Nat)
  /-- A scalar that is said to be a number and is not one to its base. -/
  | notWhole (base : Nat) (text : String)
  | notReal (text : String)
  | noDigits
  /-- A scalar that is said to be a truth value and is none. -/
  | notBool (text : String)
deriving DecidableEq, Repr, Inhabited

namespace Fault

/-- A problem without anything around it. -/
def alone (problem : String) (place : Mark) : Fault :=
  .marked none none problem place

/-- A problem in something that was being read. -/
def during (context : String) (since : Mark) (problem : String) (place : Mark) : Fault :=
  .marked (some context) (some since) problem place

/-- A place in a file, counted from one. -/
def placeText (file : String) (m : Mark) : String :=
  "  in \"" ++ file ++ "\", line " ++ toString (m.line + 1) ++ ", column " ++ toString (m.column + 1)

/-- The wording of a fault in a file; the start of what was being read is left out where the
    problem itself stands there. -/
def message (file : String) : Fault → String
  | .marked context since problem place =>
    let start := match since with
      | some m => if m.line = place.line ∧ m.column = place.column then [] else [placeText file m]
      | none => []
    "\n".intercalate (context.toList ++ start ++ [problem, placeText file place])
  | .badCharacter c index =>
    "unacceptable character #x" ++ String.ofList (Text.hexDigits 4 c.toNat)
      ++ ": special characters are not allowed\n  in \"" ++ file ++ "\", position "
      ++ toString index
  | .notWhole base text =>
    "invalid literal for int() with base " ++ toString base ++ ": " ++ Text.quoted text
  | .notReal text => "could not convert string to float: " ++ Text.quoted text
  | .noDigits => "string index out of range"
  | .notBool text => Text.quoted text

end Fault

end Playscript.Yaml
