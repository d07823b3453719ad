import Playscript.Text.Blank
import Playscript.Text.Digit

/-! # Matching the front of a text

    A matcher takes characters from the front of a text and hands what it found to the
    matchers behind it.  Where it could take more or fewer characters it tries one way
    after the other until those behind it are content; the first way that works is the
    answer. -/

namespace Playscript.Text

/-- A matcher of `α` in a match whose answer is `ρ`: it gets what comes behind it. -/
def Matcher (ρ α : Type) : Type :=
  (α → List Char → Option ρ) → List Char → Option ρ

namespace Matcher

variable {ρ α β : Type}

instance : Monad (Matcher ρ) where
  pure a := fun k cs => k a cs
  bind m f := fun k cs => m (fun a rest => f a k rest) cs

/-- The first way in which a matcher takes the front of a text. -/
def run (m : Matcher α α) (cs : List Char) : Option α :=
  m (fun a _ => some a) cs

/-- Whether a matcher can take a text as a whole. -/
def takesAll (m : Matcher Unit α) (cs : List Char) : Bool :=
  (m (fun _ rest => if rest.isEmpty then some () else none) cs).isSome

/-- A fixed text. -/
def lit (text : String) : Matcher ρ Unit := fun k cs =>
  if text.toList.isPrefixOf cs then k () (cs.drop text.length) else none

/-- One matcher, and if nothing comes of it the other. -/
def orElse (a b : Matcher ρ α) : Matcher ρ α := fun k cs =>
  match a k cs with
  | some answer => some answer
  | none => b k cs

/-- A matcher, and if nothing comes of it none. -/
def optional (m : Matcher ρ α) : Matcher ρ (Option α) :=
  orElse (do return some (← m)) (pure none)

/-- At least `least` characters of a class, as many as possible; `taken` holds those before. -/
def longestFrom (inClass : Char → Bool) (k : List Char → List Char → Option ρ) :
    Nat → List Char → List Char → Option ρ
  | 0, taken, [] => k taken.reverse []
  | _ + 1, _, [] => none
  | least, taken, c :: rest =>
    match (if inClass c then longestFrom inClass k (least - 1) (c :: taken) rest else none) with
    | some answer => some answer
    | none => if least = 0 then k taken.reverse (c :: rest) else none

/-- At least `least` characters of a class, as many as possible. -/
def longest (inClass : Char → Bool) (least : Nat) : Matcher ρ (List Char) := fun k cs =>
  longestFrom inClass k least [] cs

/-- At least `least` characters of a class, as few as possible; `taken` holds those before. -/
def shortestFrom (inClass : Char → Bool) (k : List Char → List Char → Option ρ) :
    Nat → List Char → List Char → Option ρ
  | 0, taken, [] => k taken.reverse []
  | _ + 1, _, [] => none
  | least, taken, c :: rest =>
    match (if least = 0 then k taken.reverse (c :: rest) else none) with
    | some answer => some answer
    | none => if inClass c then shortestFrom inClass k (least - 1) (c :: taken) rest else none

/-- At least `least` characters of a class, as few as possible. -/
def shortest (inClass : Char → Bool) (least : Nat) : Matcher ρ (List Char) := fun k cs =>
  shortestFrom inClass k least [] cs

/-- Exactly so many characters of a class. -/
def exactly (inClass : Char → Bool) (count : Nat) : Matcher ρ (List Char) := fun k cs =>
  if (cs.take count).length = count ∧ (cs.take count).all inClass then
    k (cs.take count) (cs.drop count)
  else none

/-- Whether a character stands inside a line. -/
def inLine (c : Char) : Bool :=
  c != '\n'

/-- Whether a character stands inside a word. -/
def inWord (c : Char) : Bool :=
  !isBlank c

/-- Blanks, at least one. -/
def blanks : Matcher ρ Unit := do
  let _ ← longest isBlank 1
  return ()

/-- Blanks, if there are some. -/
def anyBlanks : Matcher ρ Unit := do
  let _ ← longest isBlank 0
  return ()

/-- A word: characters that are no blanks, at least one. -/
def word : Matcher ρ String := do
  return String.ofList (← longest inWord 1)

/-- The rest of a line, at least one character. -/
def restOfLine : Matcher ρ String := do
  return String.ofList (← longest inLine 1)

/-- Decimal digits, at least one. -/
def digits : Matcher ρ String := do
  return String.ofList (← longest isDecimal 1)

/-- A text with its quotes, from one quote to the next on the same line. -/
def quotedText (quote : Char) (least : Nat) : Matcher ρ String := do
  lit quote.toString
  let inside ← shortest inLine least
  lit quote.toString
  return String.ofList (quote :: inside ++ [quote])

end Matcher

end Playscript.Text
