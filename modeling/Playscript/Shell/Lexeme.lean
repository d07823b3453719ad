import Playscript.Failure
import Playscript.Text.Digit

/-! # The extent of a word

    A word runs to the next blank, line end or operator character.  Quotes, braces,
    brackets and substitutions inside it are taken whole, however they nest.  The scan
    is one pass over the characters with a stack of the constructs that are open; the
    word level itself is the empty stack.

    A backslash in front of a line end is dropped and the line end stays, except
    between single quotes and behind another backslash. -/

namespace Playscript.Shell

/-- The characters that quote. -/
def isQuote (c : Char) : Bool :=
  c == '\x27' || c == '\x22' || c == '\x60'

/-- The characters that separate words on a line. -/
def isSpace (c : Char) : Bool :=
  c == ' ' || c == '\t'

/-- The characters that operators are made of. -/
def isOperatorChar (c : Char) : Bool :=
  "()<>;&|".toList.contains c

/-- The characters that end a word. -/
def endsWord (c : Char) : Bool :=
  isSpace c || c == '\n' || isOperatorChar c

/-- A construct that has to be closed. -/
inductive Opening where
  /-- Single quotes, with backslash escapes or without. -/
  | single (escapes : Bool)
  | double
  | back
  /-- A braced parameter. -/
  | brace
  /-- A bracketed sum. -/
  | bracket
  /-- A substitution in parentheses, with comments or without. -/
  | paren (comments : Bool)
deriving DecidableEq, Repr

namespace Opening

/-- The character that closes a construct. -/
def closer : Opening → Char
  | .single _ => '\x27'
  | .double => '\x22'
  | .back => '\x60'
  | .brace => '\x7d'
  | .bracket => ']'
  | .paren _ => ')'

/-- Whether another opening character inside the construct has to be closed too. -/
def counts (o : Opening) (c : Char) : Bool :=
  match o with
  | .bracket => c == '['
  | .paren _ => c == '('
  | _ => false

/-- What a quote opens. -/
def ofQuote (c : Char) (afterDollar : Bool) : Opening :=
  if c == '\x27' then .single afterDollar
  else if c == '\x22' then .double
  else .back

/-- What a bracket behind a dollar sign opens; a second parenthesis makes it a sum. -/
def ofBracket (c : Char) (next : Option Char) : Option Opening :=
  if c == '(' then some (.paren (next != some '('))
  else if c == '\x7b' then some .brace
  else if c == '[' then some .bracket
  else none

end Opening

/-- An open construct and how far the scan of it is. -/
structure Frame where
  opening : Opening
  depth : Nat := 1
  afterDollar : Bool := false
  escaped : Bool := false
  inComment : Bool := false
  /-- Whether a comment could start at the next character. -/
  fresh : Bool := true
deriving Repr

/-- What has been read of a word: its characters backwards, and what is known of them. -/
structure Lexeme where
  chars : List Char := []
  allDigits : Bool := true
  hasDollar : Bool := false
  quoted : Bool := false
  escaped : Bool := false
deriving Repr, Inhabited

namespace Lexeme

/-- Adds a character. -/
def push (w : Lexeme) (c : Char) : Lexeme :=
  { w with chars := c :: w.chars }

/-- Adds a character that stands at the word level. -/
def pushPlain (w : Lexeme) (c : Char) : Lexeme :=
  { w.push c with
    allDigits := w.allDigits && Text.isDecimal c
    hasDollar := w.hasDollar || c == '$'
    escaped := false }

/-- The text of a word. -/
def text (w : Lexeme) : String :=
  String.ofList w.chars.reverse

end Lexeme

/-- What reading one character inside an open construct does: the frame goes on, ends, or opens
    another one. -/
inductive Inside where
  | stay (frame : Frame)
  | leave
  | enter (frame : Frame) (inner : Opening)

/-- One character inside an open construct, with the character behind it in sight. -/
def Frame.step (f : Frame) (c : Char) (next : Option Char) : Inside :=
  let onward : Frame :=
    { f with afterDollar := c == '$', fresh := isSpace c || c == '\n' }
  if f.inComment then .stay { onward with inComment := c != '\n', afterDollar := false }
  else
    let comment := f.opening == .paren true && c == '#' && f.fresh
    if f.escaped then .stay { f with escaped := false, fresh := false }
    else
      let depth :=
        if c == f.opening.closer then f.depth - 1
        else if f.opening.counts c && !f.afterDollar then f.depth + 1
        else f.depth
      if depth == 0 then .leave
      else
        let onward := { onward with depth := depth, inComment := comment }
        match f.opening with
        | .single escapes =>
          .stay { onward with escaped := escapes && c == '\\', afterDollar := false }
        | .back => .stay { onward with escaped := c == '\\', afterDollar := false }
        | .double =>
          if c == '\x60' then .enter { onward with afterDollar := false } .back
          else match f.afterDollar, Opening.ofBracket c next with
            | true, some inner => .enter { onward with afterDollar := false } inner
            | _, _ => .stay { onward with escaped := c == '\\' }
        | _ =>
          if isQuote c then
            .enter { onward with afterDollar := false } (Opening.ofQuote c f.afterDollar)
          else match f.afterDollar, Opening.ofBracket c next with
            | true, some inner => .enter { onward with afterDollar := false } inner
            | _, _ => .stay { onward with escaped := c == '\\' }

/-- Whether a backslash in front of a line end is kept inside a construct. -/
def Frame.keepsBackslash (f : Frame) : Bool :=
  f.escaped || (match f.opening with | .single _ => true | _ => false)

/-- Whether the word level sees a dollar sign in this stack of constructs. -/
def showsDollar (stack : List Frame) : Bool :=
  match stack.getLast? with
  | some f => f.opening == .double
  | none => false

/-- Where a word ends: the word, the place behind it and the characters left; or the closing
    character that is missing. -/
abbrev WordEnd := Except Char (Lexeme × Nat × List Char)

/-- Reads a word from a place on, `stack` holding what is open, the innermost first. -/
def scanWord (stack : List Frame) (w : Lexeme) (place : Nat) : List Char → WordEnd
  | [] =>
    match stack with
    | [] => .ok (w, place, [])
    | f :: _ => .error f.opening.closer
  | c :: rest =>
    match stack with
    | f :: outer =>
      if c == '\\' && rest.head? == some '\n' && !f.keepsBackslash then
        scanWord stack w (place + 1) rest
      else
        let w := { w.push c with hasDollar := w.hasDollar || (c == '$' && showsDollar stack) }
        match f.step c rest.head? with
        | .stay f => scanWord (f :: outer) w (place + 1) rest
        | .leave => scanWord outer w (place + 1) rest
        | .enter f inner => scanWord ({ opening := inner } :: f :: outer) w (place + 1) rest
    | [] =>
      if w.escaped then scanWord [] (w.pushPlain c) (place + 1) rest
      else if c == '\\' then
        match rest with
        | '\n' :: _ => .ok (w, place + 1, rest)
        | _ => scanWord [] { w.pushPlain c with escaped := true, quoted := true } (place + 1) rest
      else if isQuote c then
        let w := { w.push c with allDigits := false, quoted := true }
        scanWord [{ opening := Opening.ofQuote c false }] w (place + 1) rest
      else
        match c, rest with
        | '$', d :: rest =>
          let both := { (w.push '$').push d with allDigits := false }
          match Opening.ofBracket d rest.head? with
          | some inner =>
            scanWord [{ opening := inner }] { both with hasDollar := true } (place + 2) rest
          | none =>
            if d == '\x27' || d == '\x22' then
              scanWord [{ opening := Opening.ofQuote d true }] { both with quoted := true }
                (place + 2) rest
            else if d == '$' then scanWord [] { both with hasDollar := true } (place + 2) rest
            else scanWord [] (w.pushPlain '$') (place + 1) (d :: rest)
        | c, d :: rest =>
          if (c == '<' || c == '>') && d == '(' then
            let both := { (w.push c).push d with allDigits := false, hasDollar := true }
            scanWord [{ opening := .paren (rest.head? != some '(') }] both (place + 2) rest
          else if endsWord c then .ok (w, place, c :: d :: rest)
          else scanWord [] (w.pushPlain c) (place + 1) (d :: rest)
        | c, [] =>
          if endsWord c then .ok (w, place, [c])
          else scanWord [] (w.pushPlain c) (place + 1) []

end Playscript.Shell
