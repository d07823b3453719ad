/-! # Decimal fractions

    A number with a fractional part, as scripts' settings and logs hold it: a whole
    number of units of a negative power of ten, or one of the three values that are
    no finite number.  Its text is positional from `0.0001` up to below `10^16` and
    has an exponent outside of that.

    Decimals are exact: a number keeps all the digits that it was written with, where
    binary floating point of double precision would round it to some seventeen of them. -/

namespace Playscript

/-- A fractional number: `mantissa / 10 ^ scale`, an infinity, or no number at all. -/
inductive Decimal where
  | finite (mantissa : Int) (scale : Nat)
  | infinity (negative : Bool)
  | notANumber
deriving DecidableEq, Repr, Inhabited

namespace Decimal

/-- The number that decimal digits stand for. -/
def digitsValue (digits : List Char) : Nat :=
  digits.foldl (fun n c => n * 10 + (c.toNat - 48)) 0

/-- A number from the digits in front of its point, those behind it, and its power of ten; what
    is far too large is infinite and what is far too small is zero. -/
def ofParts (negative : Bool) (whole fraction : List Char) (exponent : Int) : Decimal :=
  let mantissa : Int := digitsValue (whole ++ fraction)
  let mantissa := if negative then -mantissa else mantissa
  let scale := (fraction.length : Int) - exponent
  if mantissa = 0 ∨ scale > 400 + whole.length then .finite 0 1
  else if scale < -400 then .infinity negative
  else if scale ≤ 0 then .finite (mantissa * Int.pow 10 (-scale).toNat * 10) 1
  else .finite mantissa scale.toNat

/-- Drops the trailing zeros of a digit string, lowering the scale with each. -/
def dropZeros : List Char → Nat → List Char × Int
  | digits, scale =>
    let kept := (digits.reverse.dropWhile (· == '0')).reverse
    (kept, (scale : Int) - ((digits.length - kept.length : Nat) : Int))

/-- The digits of a fraction without zeros around them and the power of ten of the first one. -/
def digitsAndPower (mantissa : Nat) (scale : Nat) : List Char × Int :=
  let (kept, rest) := dropZeros (Nat.toDigits 10 mantissa) scale
  (kept, (kept.length : Int) - 1 - rest)

/-- The exponent part of a text: a sign and at least two digits. -/
def exponentText (power : Int) : List Char :=
  let digits := Nat.toDigits 10 power.natAbs
  'e' :: (if power < 0 then '-' else '+') :: (List.replicate (2 - digits.length) '0' ++ digits)

/-- Digits with a point behind the first, and an exponent. -/
def scientific (digits : List Char) (power : Int) : List Char :=
  match digits with
  | [] => []
  | [d] => d :: exponentText power
  | d :: rest => d :: '.' :: rest ++ exponentText power

/-- Digits with the point where the power of ten of the first one puts it. -/
def positional (digits : List Char) (power : Int) : List Char :=
  if power < 0 then
    '0' :: '.' :: List.replicate (power.natAbs - 1) '0' ++ digits
  else
    let whole := power.natAbs + 1
    let padded := digits ++ List.replicate (whole - digits.length) '0'
    let fraction := padded.drop whole
    padded.take whole ++ '.' :: (if fraction.isEmpty then ['0'] else fraction)

/-- The text of a number. -/
def text : Decimal → String
  | .infinity true => "-inf"
  | .infinity false => "inf"
  | .notANumber => "nan"
  | .finite mantissa scale =>
    let sign := if mantissa < 0 then ['-'] else []
    if mantissa = 0 then "0.0"
    else
      let (digits, power) := digitsAndPower mantissa.natAbs scale
      let body := if -4 ≤ power ∧ power < 16 then positional digits power
        else scientific digits power
      String.ofList (sign ++ body)

/-- Whether a number is zero. -/
def isZero : Decimal → Bool
  | .finite mantissa _ => mantissa == 0
  | _ => false

end Decimal

end Playscript
