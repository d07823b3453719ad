import Playscript.Text.Quoted
import Playscript.Yaml.Style

/-! # Writing on a sheet

    A sheet is a text that is being written: it knows the column, whether a blank or
    a line end was written last, and whether nothing but indentation and list marks
    stands on the line.  Texts that pass column 80 are folded at a single space. -/

namespace Playscript.Yaml

/-- A text that is being written. -/
structure Sheet where
  /-- The characters so far, backwards. -/
  written : List Char := []
  column : Nat := 0
  /-- Whether what follows needs no blank in front. -/
  afterBlank : Bool := true
  /-- Whether only indentation and list marks stand on the line. -/
  indenting : Bool := true
deriving Repr, Inhabited

/-- The column behind which texts are folded. -/
def width : Nat := 80

namespace Sheet

/-- Adds characters to the line. -/
def put (s : Sheet) (cs : List Char) : Sheet :=
  { s with written := cs.reverse ++ s.written, column := s.column + cs.length }

/-- Ends the line. -/
def breakLine (s : Sheet) : Sheet :=
  { written := '\n' :: s.written, column := 0, afterBlank := true, indenting := true }

/-- Goes to a column, on a new line if this one has come further. -/
def indentTo (s : Sheet) (indent : Nat) : Sheet :=
  let s :=
    if !s.indenting || s.column > indent || (s.column == indent && !s.afterBlank) then s.breakLine
    else s
  if s.column < indent then
    { s.put (List.replicate (indent - s.column) ' ') with afterBlank := true }
  else s

/-- Writes a mark; with `spaced` a blank goes in front unless one is there, and `marks` tells
    that the line is still indentation behind it. -/
def mark (s : Sheet) (text : String) (spaced : Bool) (marks : Bool) : Sheet :=
  let cs := text.toList
  { s.put (if s.afterBlank || !spaced then cs else ' ' :: cs) with
    afterBlank := false, indenting := s.indenting && marks }

/-- Forgets that the line was only indented so far. -/
def inText (s : Sheet) : Sheet :=
  { s with afterBlank := false, indenting := false }

/-! ## Runs -/

/-- The class of a character for folding. -/
inductive RunKind where
  | spaces
  | breaks
  | letters
deriving DecidableEq, Repr

/-- The class of a character. -/
def runKind (c : Char) : RunKind :=
  if c == ' ' then .spaces else if isBreak c then .breaks else .letters

/-- A text as runs of characters of one class. -/
def runs : List Char → List (RunKind × List Char)
  | [] => []
  | c :: rest =>
    match runs rest with
    | [] => [(runKind c, [c])]
    | (kind, cs) :: more =>
      if kind = runKind c then (kind, c :: cs) :: more else (runKind c, [c]) :: (kind, cs) :: more

/-! ## Plain texts -/

/-- Writes the runs of a plain text. -/
def putPlainRuns (indent : Nat) (folds : Bool) (s : Sheet) : List (RunKind × List Char) → Sheet
  | [] => s
  | (kind, cs) :: rest =>
    let s :=
      if kind = .spaces ∧ cs.length = 1 ∧ s.column > width ∧ folds then (s.indentTo indent).inText
      else s.put cs
    putPlainRuns indent folds s rest

/-- Writes a text as it is. -/
def plain (s : Sheet) (indent : Nat) (folds : Bool) (text : List Char) : Sheet :=
  if text.isEmpty then s
  else
    let s := if s.afterBlank then s else s.put [' ']
    putPlainRuns indent folds s.inText (runs text)

/-! ## Texts in single quotes -/

/-- A text with its quotes doubled. -/
def doubleQuotes (cs : List Char) : List Char :=
  cs.flatMap fun c => if c == '\x27' then ['\x27', '\x27'] else [c]

/-- Ends so many lines. -/
def breakLines (s : Sheet) : Nat → Sheet
  | 0 => s
  | n + 1 => breakLines s.breakLine n

/-- Writes the runs of a text between single quotes; `first` holds for the first run. -/
def putSingleRuns (indent : Nat) (folds : Bool) (first : Bool) (s : Sheet) :
    List (RunKind × List Char) → Sheet
  | [] => s
  | (kind, cs) :: rest =>
    let s :=
      match kind with
      | .spaces =>
        if cs.length = 1 ∧ s.column > width ∧ folds ∧ !first ∧ !rest.isEmpty then
          s.indentTo indent
        else s.put cs
      | .breaks => (breakLines s (cs.length + 1)).indentTo indent
      | .letters => s.put (doubleQuotes cs)
    putSingleRuns indent folds false s rest

/-- Writes a text in single quotes. -/
def single (s : Sheet) (indent : Nat) (folds : Bool) (text : List Char) : Sheet :=
  (putSingleRuns indent folds true (s.mark "'" true false) (runs text)).mark "'" false false

/-! ## Texts in double quotes -/

/-- The letter of a short escape. -/
def shortEscape? (c : Char) : Option Char :=
  match c.toNat with
  | 0 => some '0'
  | 7 => some 'a'
  | 8 => some 'b'
  | 9 => some 't'
  | 10 => some 'n'
  | 11 => some 'v'
  | 12 => some 'f'
  | 13 => some 'r'
  | 27 => some 'e'
  | 34 => some '\x22'
  | 92 => some '\\'
  | 0x85 => some 'N'
  | 0xa0 => some '_'
  | 0x2028 => some 'L'
  | 0x2029 => some 'P'
  | _ => none

/-- A character that needs an escape, escaped. -/
def escape? (c : Char) : Option (List Char) :=
  match shortEscape? c with
  | some letter => some ['\\', letter]
  | none =>
    if 0x20 ≤ c.toNat ∧ c.toNat ≤ 0x7e then none
    else some (Text.hexEscape Text.hexDigitsUpper c)

/-- Whether a line between double quotes is folded here: behind an escape or at a space, `gap`
    being how much is still to be written. -/
def foldsHere (s : Sheet) (c : Char) (gap : Int) : Bool :=
  (c == ' ' || gap ≤ 0) && (s.column : Int) + gap > width

/-- Folds a line between double quotes in front of `next`. -/
def foldDouble (s : Sheet) (indent : Nat) (pending : List Char) (next : Option Char) : Sheet :=
  let s := ((s.put (pending ++ ['\\'])).indentTo indent).inText
  if next == some ' ' then s.put ['\\'] else s

/-- Writes a text between double quotes; `pending` are characters that need no escape and are
    still to be written, backwards, and `first` holds for the first character. -/
def putDouble (indent : Nat) (folds : Bool) (first : Bool) (s : Sheet) (pending : List Char) :
    List Char → Sheet
  | [] => s.put pending.reverse
  | c :: rest =>
    let may := folds && !first && !rest.isEmpty
    match escape? c with
    | some escaped =>
      let s := (s.put pending.reverse).put escaped
      let s := if may && s.foldsHere c (-1) then s.foldDouble indent [] rest.head? else s
      putDouble indent folds false s [] rest
    | none =>
      if may && s.foldsHere c pending.length then
        putDouble indent folds false (s.foldDouble indent pending.reverse (some c)) [c] rest
      else putDouble indent folds false s (c :: pending) rest

/-- Writes a text in double quotes. -/
def double (s : Sheet) (indent : Nat) (folds : Bool) (text : List Char) : Sheet :=
  (putDouble indent folds true (s.mark "\"" true false) [] text).mark "\"" false false

/-- Writes a text in a style. -/
def styled (s : Sheet) (style : Style) (indent : Nat) (folds : Bool) (text : String) : Sheet :=
  match style with
  | .plain => s.plain indent folds text.toList
  | .single => s.single indent folds text.toList
  | .double => s.double indent folds text.toList

/-- The text on a sheet. -/
def text (s : Sheet) : String :=
  String.ofList s.written.reverse

end Sheet

end Playscript.Yaml
