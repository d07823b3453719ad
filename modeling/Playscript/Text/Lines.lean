/-! # Lines

    Three ways to see lines in a text.  `unifyNewlines` makes every line end `\n`, as
    a text file is read.  `splitAtNewlines` cuts at `\n` alone and is what a file's
    lines are.  `splitLines` cuts at every kind of line end, with none for the empty
    text after the last one. -/

namespace Playscript.Text

/-- Every line end, `\r\n` and `\r` included, as one `\n`. -/
def unifyNewlines : List Char → List Char
  | [] => []
  | '\r' :: '\n' :: rest => '\n' :: unifyNewlines rest
  | '\r' :: rest => '\n' :: unifyNewlines rest
  | c :: rest => c :: unifyNewlines rest

/-- The pieces between the occurrences of a character; one more than there are of it. -/
def splitOnChar (mark : Char) : List Char → List (List Char)
  | [] => [[]]
  | c :: rest =>
    if c = mark then [] :: splitOnChar mark rest
    else match splitOnChar mark rest with
      | [] => [[c]]
      | piece :: pieces => (c :: piece) :: pieces

/-- The lines of a text file: cut after each `\n`, the ends dropped. -/
def splitAtNewlines (cs : List Char) : List (List Char) :=
  match (splitOnChar '\n' cs).reverse with
  | [] :: before => before.reverse
  | pieces => pieces.reverse

/-- Whether a character ends a line. -/
def isLineEnd (c : Char) : Bool :=
  (10 ≤ c.toNat && c.toNat ≤ 13) || (28 ≤ c.toNat && c.toNat ≤ 30)
    || c.toNat == 0x85 || c.toNat == 0x2028 || c.toNat == 0x2029

/-- The lines of a text, `line` being what has been read of the first one. -/
def splitLinesFrom (line : List Char) : List Char → List (List Char)
  | [] => if line.isEmpty then [] else [line.reverse]
  | '\r' :: '\n' :: rest => line.reverse :: splitLinesFrom [] rest
  | c :: rest =>
    if isLineEnd c then line.reverse :: splitLinesFrom [] rest
    else splitLinesFrom (c :: line) rest

/-- The lines of a text, cut at every kind of line end. -/
def splitLines (text : String) : List String :=
  (splitLinesFrom [] text.toList).map String.ofList

end Playscript.Text
