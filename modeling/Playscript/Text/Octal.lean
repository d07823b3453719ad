import Playscript.Text.Blank
import Playscript.Text.Digit

/-! # Octal numbers

    Reading takes blanks around the number, which the information separators do not count as
    here, one sign, an optional `0o`, and digits with single underscores between them (and one
    after the `0o`).  A digit of any script stands for the plain digit, also in front of the
    `o`.  Writing pads with zeros. -/

namespace Playscript.Text

/-- Whether a character can stand around a number: a blank that is no information separator. -/
def padsNumber (c : Char) : Bool :=
  isBlank c && !(28 ≤ c.toNat && c.toNat ≤ 31)

/-- A text without what stands around a number. -/
def unpadded (cs : List Char) : List Char :=
  ((cs.dropWhile padsNumber).reverse.dropWhile padsNumber).reverse

/-- The plain digit for a digit of any script; other characters stay. -/
def plainDigit (c : Char) : Char :=
  match digitValue? c with
  | some d => Nat.digitChar d
  | none => c

/-- The value of a digit below eight. -/
def octalDigit? (c : Char) : Option Nat :=
  (digitValue? c).filter (· < 8)

/-- The number whose first digits have the value `acc`; an underscore needs a digit behind it. -/
def octalDigits? (acc : Nat) : List Char → Option Nat
  | [] => some acc
  | '_' :: c :: rest =>
    match octalDigit? c with
    | some d => octalDigits? (acc * 8 + d) rest
    | none => none
  | c :: rest =>
    match octalDigit? c with
    | some d => octalDigits? (acc * 8 + d) rest
    | none => none

/-- A number without sign: digits, or `0o` and digits. -/
def octalNat? : List Char → Option Nat
  | [] => none
  | '0' :: 'o' :: '_' :: c :: rest => (octalDigit? c).bind (octalDigits? · rest)
  | '0' :: 'o' :: c :: rest => (octalDigit? c).bind (octalDigits? · rest)
  | '0' :: 'O' :: '_' :: c :: rest => (octalDigit? c).bind (octalDigits? · rest)
  | '0' :: 'O' :: c :: rest => (octalDigit? c).bind (octalDigits? · rest)
  | c :: rest => (octalDigit? c).bind (octalDigits? · rest)

/-- An octal number with an optional sign and blanks around it. -/
def octal? (text : String) : Option Int :=
  match unpadded (text.toList.map plainDigit) with
  | '-' :: rest => (octalNat? rest).map fun n => -(n : Int)
  | '+' :: rest => (octalNat? rest).map fun n => (n : Int)
  | rest => (octalNat? rest).map fun n => (n : Int)

/-- The octal digits of a number, at least `width` of them. -/
def octalText (width : Nat) (n : Nat) : String :=
  let digits := Nat.toDigits 8 n
  String.ofList (List.replicate (width - digits.length) '0' ++ digits)

end Playscript.Text
