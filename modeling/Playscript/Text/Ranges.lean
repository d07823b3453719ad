/-! # Ranges of code points

    A character class beyond ASCII is a list of ranges of code points, both ends
    included.  Membership is a plain search: classes are asked only of the few
    characters that are not ASCII. -/

namespace Playscript.Text

/-- Ranges of code points, both ends included. -/
abbrev Ranges := List (Nat × Nat)

/-- Whether a code point lies in one of the ranges. -/
def Ranges.holds (ranges : Ranges) (code : Nat) : Bool :=
  ranges.any fun range => range.1 ≤ code && code ≤ range.2

/-- A class is a rule for ASCII and a table for the rest. -/
def inClass (ascii : Char → Bool) (beyond : Ranges) (c : Char) : Bool :=
  if c.toNat < 128 then ascii c else beyond.holds c.toNat

/-- Below 128 a class is its ASCII rule. -/
theorem inClass_ascii {ascii : Char → Bool} {beyond : Ranges} {c : Char}
    (h : c.toNat < 128) : inClass ascii beyond c = ascii c := by
  simp [inClass, h]

end Playscript.Text
