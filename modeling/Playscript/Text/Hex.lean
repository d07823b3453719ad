/-! # Hexadecimal numbers

    Characters are written by their codes, and read from them, in hexadecimal digits. -/

namespace Playscript.Text

/-- The lower-case hexadecimal digits of a number, at least `width` of them. -/
def hexDigits (width : Nat) (n : Nat) : List Char :=
  let digits := Nat.toDigits 16 n
  List.replicate (width - digits.length) '0' ++ digits

/-- The same digits in upper case. -/
def hexDigitsUpper (width : Nat) (n : Nat) : List Char :=
  (hexDigits width n).map Char.toUpper

/-- A character written by its code, with as many digits as its size needs. -/
def hexEscape (digits : Nat → Nat → List Char) (c : Char) : List Char :=
  if c.toNat < 0x100 then '\\' :: 'x' :: digits 2 c.toNat
  else if c.toNat < 0x10000 then '\\' :: 'u' :: digits 4 c.toNat
  else '\\' :: 'U' :: digits 8 c.toNat

/-- The value of a hexadecimal digit. -/
def hexValue? (c : Char) : Option Nat :=
  if c.isDigit then some (c.toNat - 48)
  else if 'a' ≤ c ∧ c ≤ 'f' then some (c.toNat - 87)
  else if 'A' ≤ c ∧ c ≤ 'F' then some (c.toNat - 55)
  else none

/-- The character of a code point; half of a surrogate pair has none of its own. -/
def charOf (code : Nat) : Char :=
  if 0xd800 ≤ code ∧ code < 0xe000 then '\ufffd' else Char.ofNat code

end Playscript.Text
