import Playscript.Text.Hex
import Playscript.Yaml.Style
import Playscript.Yaml.Token

/-! # Cutting a YAML text into tokens

    Indentation opens and closes blocks.  What may turn out to be a key is remembered
    until a colon comes or until it is too late for one; the tokens that make it a key
    are then put in front of it.  So a token is only handed out when nothing can come
    in front of it any more. -/

namespace Playscript.Yaml

/-- Something that may turn out to be a key. -/
structure MaybeKey where
  /-- The number of the token it starts with. -/
  number : Nat
  /-- Whether nothing but a key can stand there. -/
  required : Bool
  place : Mark
deriving Repr, Inhabited

/-- A lexer in the middle of a text. -/
structure Lexer where
  rest : List Char
  place : Mark := {}
  /-- The tokens not handed out yet. -/
  tokens : List Token := []
  /-- How many tokens have been handed out. -/
  taken : Nat := 0
  done : Bool := false
  indent : Int := -1
  indents : List Int := []
  flow : Nat := 0
  mayBeKey : Bool := true
  /-- What may turn out to be a key, for each depth of brackets. -/
  keys : List (Nat × MaybeKey) := []
deriving Repr, Inhabited

/-- Cutting of a text. -/
abbrev Lexing := StateT Lexer (Except Fault)

namespace Lexing

/-! ## Characters -/

/-- The character so many places ahead; none at the end. -/
def peek (n : Nat := 0) : Lexing (Option Char) :=
  return (← get).rest[n]?

/-- The next characters. -/
def ahead (n : Nat) : Lexing (List Char) :=
  return (← get).rest.take n

/-- The place behind a character, `next` being the one after it. -/
def Mark.behind (m : Mark) (c : Char) (next : Option Char) : Mark :=
  if isBreak c || (c == '\r' && next != some '\n') then
    { index := m.index + 1, line := m.line + 1, column := 0 }
  else if c.toNat == 0xfeff then { m with index := m.index + 1 }
  else { m with index := m.index + 1, column := m.column + 1 }

/-- Moves over one character. -/
def forward : Lexing Unit :=
  modify fun l =>
    match l.rest with
    | c :: rest => { l with rest := rest, place := Mark.behind l.place c rest.head? }
    | [] => l

/-- Moves over so many characters. -/
def forwardBy : Nat → Lexing Unit
  | 0 => pure ()
  | n + 1 => do
    forward
    forwardBy n

/-- Takes the longest run of characters of a class. -/
def takeRun (inClass : Char → Bool) : Lexing (List Char) := do
  let run := (← get).rest.takeWhile inClass
  forwardBy run.length
  return run

/-- Whether a text ends here, or a line or a word. -/
def isGap (c : Option Char) : Bool :=
  match c with
  | none => true
  | some c => c == ' ' || c == '\t' || c == '\r' || isBreak c

/-- Whether a text ends here, or a line. -/
def isEnd (c : Option Char) : Bool :=
  match c with
  | none => true
  | some c => c == '\r' || isBreak c

/-- Whether a character ends a line. -/
def endsLine (c : Char) : Bool :=
  c == '\r' || isBreak c

/-- Takes a line end, as the text it stands for; nothing if there is none. -/
def takeBreak : Lexing (List Char) := do
  match (← get).rest with
  | '\r' :: '\n' :: _ =>
    forwardBy 2
    return ['\n']
  | c :: _ =>
    if c == '\r' || c == '\n' || c.toNat == 0x85 then
      forward
      return ['\n']
    else if isBreak c then
      forward
      return [c]
    else return []
  | [] => return []

/-- The place of the lexer. -/
def place : Lexing Mark := return (← get).place

/-- A character in a complaint; the end of the text is a character too. -/
def shown (c : Option Char) : String :=
  Text.quoted (c.getD '\x00').toString

/-- Whether a line that separates documents starts here. -/
def atSeparator : Lexing Bool := do
  let front ← ahead 3
  return (front == "---".toList || front == "...".toList) && isGap (← peek 3)

/-! ## Keys and blocks -/

/-- Adds a token. -/
def emit (kind : TokenKind) (place : Mark) : Lexing Unit :=
  modify fun l => { l with tokens := l.tokens ++ [Token.mk kind place] }

/-- Puts a token in front of one that has a number already. -/
def insertAt (number : Nat) (kind : TokenKind) (place : Mark) : Lexing Unit :=
  modify fun l =>
    let n := number - l.taken
    { l with tokens := l.tokens.take n ++ [Token.mk kind place] ++ l.tokens.drop n }

/-- The complaint about a key without its colon. -/
def missingColon (key : MaybeKey) (here : Mark) : Fault :=
  .during "while scanning a simple key" key.place "could not find expected ':'" here

/-- Gives up what cannot become a key any more: a key is on one line and not too long. -/
def dropStaleKeys : Lexing Unit := do
  let l ← get
  let isStale (key : MaybeKey) :=
    key.place.line != l.place.line || l.place.index - key.place.index > 1024
  match l.keys.find? fun (_, key) => isStale key && key.required with
  | some (_, key) => throw (missingColon key l.place)
  | none => set { l with keys := l.keys.filter fun (_, key) => !isStale key }

/-- Gives up what may be a key at this depth. -/
def dropKey : Lexing Unit := do
  let l ← get
  match l.keys.lookup l.flow with
  | some key =>
    if key.required then throw (missingColon key l.place)
    else set { l with keys := l.keys.filter fun (flow, _) => flow != l.flow }
  | none => pure ()

/-- Remembers that a key may start here. -/
def saveKey : Lexing Unit := do
  let l ← get
  if l.mayBeKey then
    dropKey
    modify fun now => { now with keys := now.keys ++ [(l.flow,
      { number := l.taken + l.tokens.length
        required := l.flow == 0 && l.indent == (l.place.column : Int), place := l.place })] }

/-- Closes the blocks that start behind a column. -/
def closeBlocks (column : Int) : Nat → Lexing Unit
  | 0 => pure ()
  | n + 1 => do
    let l ← get
    if l.flow == 0 && l.indent > column then
      set { l with
        indent := l.indents.head?.getD (-1), indents := l.indents.drop 1
        tokens := l.tokens ++ [Token.mk .blockEnd l.place] }
      closeBlocks column n

/-- Closes the blocks that start behind a column. -/
def unwind (column : Int) : Lexing Unit := do
  closeBlocks column ((← get).indents.length + 1)

/-- Opens a block at a column unless one is open there; whether it did. -/
def openBlock (column : Nat) : Lexing Bool := do
  let l ← get
  if l.indent < (column : Int) then
    set { l with indents := l.indent :: l.indents, indent := column }
    return true
  else return false

/-- Sets whether a key may start next. -/
def allowKey (b : Bool) : Lexing Unit :=
  modify fun l => { l with mayBeKey := b }

/-! ## Scalars -/

/-- Skips to the next token: blanks, comments, and line ends, behind which a key may start. -/
def skipGaps : Nat → Lexing Unit
  | 0 => pure ()
  | n + 1 => do
    let l ← get
    if l.place.index == 0 && (l.rest.head?.any fun c => c.toNat == 0xfeff) then forward
    let _ ← takeRun (· == ' ')
    if (← peek) == some '#' then
      let _ ← takeRun fun c => !endsLine c
    let lineEnd ← takeBreak
    if !lineEnd.isEmpty then
      if (← get).flow == 0 then allowKey true
      skipGaps n

/-- Takes line ends with spaces around them; none if a document ends there. -/
def takeBreaks : Nat → Lexing (Option (List Char))
  | 0 => return some []
  | n + 1 => do
    let _ ← takeRun (· == ' ')
    let lineEnd ← takeBreak
    if lineEnd.isEmpty then return some []
    else if ← atSeparator then return none
    else return (← takeBreaks n).map (lineEnd ++ ·)

/-- A line end between two pieces of text: a space, or the further line ends alone. -/
def foldedBreak (lineEnd breaks : List Char) : List Char :=
  if lineEnd != ['\n'] then lineEnd ++ breaks
  else if breaks.isEmpty then [' '] else breaks

/-- Takes what stands between two pieces of a plain scalar. -/
def plainGap : Lexing (List Char) := do
  let blanks ← takeRun (· == ' ')
  if (← peek).any endsLine then
    let lineEnd ← takeBreak
    allowKey true
    if ← atSeparator then return []
    match ← takeBreaks ((← get).rest.length + 1) with
    | none => return []
    | some breaks => return foldedBreak lineEnd breaks
  else return blanks

/-- How far a piece of a plain scalar goes. -/
def plainLength (inFlow : Bool) : List Char → Nat
  | [] => 0
  | c :: rest =>
    if isGap (some c) then 0
    else if c == ':' && (isGap rest.head? ||
        (inFlow && rest.head?.any fun d => ",[]\x7b\x7d".toList.contains d)) then 0
    else if inFlow && ",?[]\x7b\x7d".toList.contains c then 0
    else plainLength inFlow rest + 1

/-- The pieces of a plain scalar, `gap` being what stands in front of the next one. -/
def plainPieces (indent : Int) : Nat → List Char → Lexing (List Char)
  | 0, _ => return []
  | n + 1, gap => do
    if (← peek) == some '#' then return []
    let l ← get
    let length := plainLength (l.flow > 0) l.rest
    if length == 0 then return []
    allowKey false
    let piece ← ahead length
    forwardBy length
    let next ← plainGap
    let l ← get
    if next.isEmpty || l.rest.head? == some '#' ||
        (l.flow == 0 && (l.place.column : Int) < indent) then
      return gap ++ piece
    else return gap ++ piece ++ (← plainPieces indent n next)

/-- A plain scalar. -/
def plainScalar : Lexing Unit := do
  let start ← place
  let l ← get
  let text ← plainPieces (l.indent + 1) (l.rest.length + 1) []
  emit (.scalar (String.ofList text) true) start

/-- The characters of short escapes. -/
def escapeChar? : Char → Option Char
  | '0' => some '\x00'
  | 'a' => some '\x07'
  | 'b' => some '\x08'
  | 't' => some '\t'
  | '\t' => some '\t'
  | 'n' => some '\n'
  | 'v' => some '\x0b'
  | 'f' => some '\x0c'
  | 'r' => some '\r'
  | 'e' => some '\x1b'
  | ' ' => some ' '
  | '\x22' => some '\x22'
  | '\\' => some '\\'
  | '/' => some '/'
  | 'N' => some '\u0085'
  | '_' => some '\u00a0'
  | 'L' => some '\u2028'
  | 'P' => some '\u2029'
  | _ => none

/-- The number of digits of an escape by code. -/
def codeLength? : Char → Option Nat
  | 'x' => some 2
  | 'u' => some 4
  | 'U' => some 8
  | _ => none

/-- What was being read when a double-quoted scalar fails. -/
def inDouble : String := "while scanning a double-quoted scalar"

/-- What was being read when any quoted scalar fails. -/
def inQuoted : String := "while scanning a quoted scalar"

/-- Takes the digits of an escape by code. -/
def takeCode (start : Mark) (length : Nat) : Lexing Char := do
  let digits ← ahead length
  let good := digits.takeWhile fun c => (Text.hexValue? c).isSome
  if good.length < length then
    throw (.during inDouble start
      ("expected escape sequence of " ++ toString length ++ " hexadecimal numbers, but found "
        ++ shown (← peek good.length)) (← place))
  forwardBy length
  return Text.charOf (digits.foldl (fun n c => n * 16 + (Text.hexValue? c).getD 0) 0)

/-- Takes line ends inside quotes; a document may not end there. -/
def quotedBreaks (start : Mark) : Nat → Lexing (List Char)
  | 0 => return []
  | n + 1 => do
    if ← atSeparator then
      throw (.during inQuoted start "found unexpected document separator" (← place))
    let _ ← takeRun fun c => c == ' ' || c == '\t'
    let lineEnd ← takeBreak
    if lineEnd.isEmpty then return []
    else return lineEnd ++ (← quotedBreaks start n)

/-- Takes blanks or line ends inside quotes. -/
def quotedGap (start : Mark) : Lexing (List Char) := do
  let blanks ← takeRun fun c => c == ' ' || c == '\t'
  match ← peek with
  | none => throw (.during inQuoted start "found unexpected end of stream" (← place))
  | some c =>
    if endsLine c then
      let lineEnd ← takeBreak
      return foldedBreak lineEnd (← quotedBreaks start ((← get).rest.length + 1))
    else return blanks

/-- Takes an escape, behind its backslash. -/
def takeEscape (start : Mark) : Lexing (List Char) := do
  match ← peek with
  | none => throw (.during inDouble start ("found unknown escape character " ++ shown none) (← place))
  | some c =>
    match escapeChar? c, codeLength? c with
    | some d, _ =>
      forward
      return [d]
    | none, some length =>
      forward
      return [← takeCode start length]
    | none, none =>
      if endsLine c then
        let _ ← takeBreak
        quotedBreaks start ((← get).rest.length + 1)
      else
        throw (.during inDouble start ("found unknown escape character " ++ shown (some c))
          (← place))

/-- Takes the characters of a quoted scalar up to a blank, a line end or its quote. -/
def quotedText (double : Bool) (start : Mark) : Nat → Lexing (List Char)
  | 0 => return []
  | n + 1 => do
    let run ← takeRun fun c =>
      !(c == '\x27' || c == '\x22' || c == '\\' || c == ' ' || c == '\t' || endsLine c)
    match ← ahead 2 with
    | '\x27' :: more =>
      if double then
        forward
        return run ++ ['\x27'] ++ (← quotedText double start n)
      else if more == ['\x27'] then
        forwardBy 2
        return run ++ ['\x27'] ++ (← quotedText double start n)
      else return run
    | '\x22' :: _ =>
      if double then return run
      else
        forward
        return run ++ ['\x22'] ++ (← quotedText double start n)
    | '\\' :: _ =>
      forward
      if double then
        let escaped ← takeEscape start
        return run ++ escaped ++ (← quotedText double start n)
      else return run ++ ['\\'] ++ (← quotedText double start n)
    | _ => return run

/-- Takes the inside of a quoted scalar up to its quote. -/
def quotedInside (double : Bool) (start : Mark) : Nat → Lexing (List Char)
  | 0 => return []
  | n + 1 => do
    let text ← quotedText double start ((← get).rest.length + 1)
    if (← peek) == some (if double then '\x22' else '\x27') then return text
    else
      let gap ← quotedGap start
      return text ++ gap ++ (← quotedInside double start n)

/-- A quoted scalar. -/
def quotedScalar (double : Bool) : Lexing Unit := do
  let start ← place
  forward
  let text ← quotedInside double start ((← get).rest.length + 1)
  forward
  emit (.scalar (String.ofList text) false) start

/-! ## Block scalars -/

/-- What was being read when a block scalar fails. -/
def inBlock : String := "while scanning a block scalar"

/-- What becomes of the line ends at the end of a block scalar. -/
inductive Chomping where
  | keepOne
  | keepAll
  | dropAll
deriving DecidableEq, Repr

/-- Takes the sign that says what becomes of the last line ends. -/
def takeChomping : Lexing (Option Chomping) := do
  match ← peek with
  | some '+' =>
    forward
    return some .keepAll
  | some '-' =>
    forward
    return some .dropAll
  | _ => return none

/-- Takes the digit that says how deep a block scalar is. -/
def takeIncrement (start : Mark) : Lexing (Option Nat) := do
  match ← peek with
  | some c =>
    if c == '0' then
      throw (.during inBlock start
        "expected indentation indicator in the range 1-9, but found 0" (← place))
    else if c.isDigit then
      forward
      return some (c.toNat - 48)
    else return none
  | none => return none

/-- Takes the signs behind the one that starts a block scalar. -/
def blockSigns (start : Mark) : Lexing (Chomping × Option Nat) := do
  let first ← takeChomping
  let increment ← takeIncrement start
  let chomping ← match first with
    | some chomping => pure (some chomping)
    | none => if increment.isSome then takeChomping else pure none
  let c ← peek
  if !(isEnd c || c == some ' ') then
    throw (.during inBlock start
      ("expected chomping or indentation indicators, but found " ++ shown c) (← place))
  return (chomping.getD .keepOne, increment)

/-- Skips the rest of the line that starts a block scalar. -/
def skipBlockLine (start : Mark) : Lexing Unit := do
  let _ ← takeRun (· == ' ')
  if (← peek) == some '#' then
    let _ ← takeRun fun c => !endsLine c
  let c ← peek
  if !isEnd c then
    throw (.during inBlock start
      ("expected a comment or a line break, but found " ++ shown c) (← place))
  let _ ← takeBreak

/-- Skips spaces up to a column. -/
def skipSpacesTo (column : Nat) : Nat → Lexing Unit
  | 0 => pure ()
  | n + 1 => do
    let l ← get
    if l.place.column < column && l.rest.head? == some ' ' then
      forward
      skipSpacesTo column n

/-- Takes empty lines in front of a block scalar: the line ends, and the deepest column. -/
def leadingLines (deepest : Nat) : Nat → Lexing (List Char × Nat)
  | 0 => return ([], deepest)
  | n + 1 => do
    match ← peek with
    | some ' ' =>
      forward
      leadingLines (max deepest (← place).column) n
    | some c =>
      if endsLine c then
        let lineEnd ← takeBreak
        let (more, deepest) ← leadingLines deepest n
        return (lineEnd ++ more, deepest)
      else return ([], deepest)
    | none => return ([], deepest)

/-- Takes empty lines inside a block scalar of a depth. -/
def innerLines (indent : Nat) : Nat → Lexing (List Char)
  | 0 => return []
  | n + 1 => do
    skipSpacesTo indent indent
    let lineEnd ← takeBreak
    if lineEnd.isEmpty then return []
    else return lineEnd ++ (← innerLines indent n)

/-- Takes the lines of a block scalar, `breaks` being the line ends in front: the text, the last
    line end, and the line ends behind it. -/
def blockLines (folded : Bool) (indent : Nat) :
    Nat → List Char → Lexing (List Char × List Char × List Char)
  | 0, breaks => return ([], [], breaks)
  | n + 1, breaks => do
    let l ← get
    if l.place.column == indent && !l.rest.isEmpty then
      let starts := !(l.rest.head?.any fun c => c == ' ' || c == '\t')
      let line ← takeRun fun c => !endsLine c
      let lineEnd ← takeBreak
      let next ← innerLines indent ((← get).rest.length + 1)
      let l ← get
      if l.place.column == indent && !l.rest.isEmpty then
        let between :=
          if folded && lineEnd == ['\n'] && starts
              && !(l.rest.head?.any fun c => c == ' ' || c == '\t') then
            if next.isEmpty then [' '] else []
          else lineEnd
        let (text, last, behind) ← blockLines folded indent n next
        return (breaks ++ line ++ between ++ text, last, behind)
      else return (breaks ++ line, lineEnd, next)
    else return ([], [], breaks)

/-- A block scalar. -/
def blockScalar (folded : Bool) : Lexing Unit := do
  let start ← place
  forward
  let (chomping, increment) ← blockSigns start
  skipBlockLine start
  let least := (max ((← get).indent + 1) 1).toNat
  let fuel := (← get).rest.length + 1
  let (breaks, indent) ← match increment with
    | none => do
      let (breaks, deepest) ← leadingLines 0 fuel
      pure (breaks, max least deepest)
    | some n => do
      let indent := least + n - 1
      pure (← innerLines indent fuel, indent)
  let (text, last, behind) ← blockLines folded indent fuel breaks
  let tail := match chomping with
    | .keepOne => last
    | .keepAll => last ++ behind
    | .dropAll => []
  emit (.scalar (String.ofList (text ++ tail)) false) start

/-! ## Names and tags -/

/-- Whether a character can stand in the name of an anchor. -/
def inName (c : Char) : Bool :=
  c.isAlphanum || c == '-' || c == '_'

/-- The name of an anchor or an alias, behind its sign. -/
def anchorName (what : String) : Lexing String := do
  let start ← place
  forward
  let name ← takeRun inName
  let c ← peek
  let ends := isGap c || c.any fun c => "?:,]\x7d%@`".toList.contains c
  if name.isEmpty || !ends then
    throw (.during ("while scanning an " ++ what) start
      ("expected alphabetic or numeric character, but found " ++ shown c) (← place))
  return String.ofList name

/-- Whether a character can stand in a tag. -/
def inTag (c : Char) : Bool :=
  c.isAlphanum || "-;/?:@&=+$,_.!~*'()[]%".toList.contains c

/-- The text of a tag. -/
def tagText (start : Mark) : Lexing String := do
  let text ← takeRun inTag
  if text.isEmpty then
    throw (.during "while parsing a tag" start ("expected URI, but found " ++ shown (← peek))
      (← place))
  return String.ofList text

/-- A tag. -/
def tag : Lexing Unit := do
  let start ← place
  let c ← peek 1
  let (handle, suffix) ←
    if c == some '<' then do
      forwardBy 2
      let suffix ← tagText start
      if (← peek) != some '>' then
        throw (.during "while parsing a tag" start ("expected '>', but found " ++ shown (← peek))
          (← place))
      forward
      pure (none, suffix)
    else if isGap c then do
      forward
      pure (none, "!")
    else do
      let word := ((← get).rest.drop 1).takeWhile fun c => !(c == ' ' || endsLine c || c == '!')
      if (← peek (word.length + 1)) == some '!' then do
        forwardBy (word.length + 2)
        pure (some ("!" ++ String.ofList word ++ "!"), ← tagText start)
      else do
        forward
        pure (some "!", ← tagText start)
  let c ← peek
  if !(isEnd c || c == some ' ') then
    throw (.during "while scanning a tag" start ("expected ' ', but found " ++ shown c) (← place))
  emit (.tag handle suffix) start

/-! ## Tokens -/

/-- A token of some characters. -/
def sign (kind : TokenKind) (length : Nat) : Lexing Unit := do
  let start ← place
  forwardBy length
  emit kind start

/-- A mark between documents, or the end of the text, which closes all blocks. -/
def outermost (kind : TokenKind) (length : Nat) : Lexing Unit := do
  unwind (-1)
  dropKey
  allowKey false
  sign kind length

/-- The start of a bracketed collection. -/
def openFlow (kind : TokenKind) : Lexing Unit := do
  saveKey
  modify fun l => { l with flow := l.flow + 1 }
  allowKey true
  sign kind 1

/-- The end of a bracketed collection. -/
def closeFlow (kind : TokenKind) : Lexing Unit := do
  dropKey
  modify fun l => { l with flow := l.flow - 1 }
  allowKey false
  sign kind 1

/-- Refuses what can only stand where a key may start, and opens a block for it. -/
def startInBlock (complaint : String) (kind : TokenKind) : Lexing Unit := do
  let l ← get
  if l.flow == 0 then
    if !l.mayBeKey then throw (.alone complaint l.place)
    if ← openBlock l.place.column then emit kind l.place

/-- The dash of a list entry. -/
def blockEntry : Lexing Unit := do
  startInBlock "sequence entries are not allowed here" .blockSequenceStart
  allowKey true
  dropKey
  sign .blockEntry 1

/-- The question mark of a key. -/
def keySign : Lexing Unit := do
  startInBlock "mapping keys are not allowed here" .blockMappingStart
  allowKey ((← get).flow == 0)
  dropKey
  sign .key 1

/-- The colon of a value, which turns what stands in front of it into a key. -/
def valueSign : Lexing Unit := do
  let l ← get
  match l.keys.lookup l.flow with
  | some key =>
    modify fun l => { l with keys := l.keys.filter fun (flow, _) => flow != l.flow }
    insertAt key.number .key key.place
    if l.flow == 0 then
      if ← openBlock key.place.column then insertAt key.number .blockMappingStart key.place
    allowKey false
  | none =>
    startInBlock "mapping values are not allowed here" .blockMappingStart
    allowKey (l.flow == 0)
    dropKey
  sign .value 1

/-- A directive, to the end of its line. -/
def directive : Lexing Unit := do
  unwind (-1)
  dropKey
  allowKey false
  let start ← place
  let _ ← takeRun fun c => !endsLine c
  let _ ← takeBreak
  emit .directive start

/-- Whether a plain scalar can start here. -/
def startsPlain (inFlow : Bool) (c : Char) (next : Option Char) : Bool :=
  !(isGap (some c) || "-?:,[]\x7b\x7d#&*!|>'\"%@`".toList.contains c)
    || (!isGap next && (c == '-' || (!inFlow && (c == '?' || c == ':'))))

/-- Reads further tokens: one, and those that blocks and keys put around it. -/
def fetch : Lexing Unit := do
  skipGaps ((← get).rest.length + 1)
  dropStaleKeys
  unwind (← place).column
  let l ← get
  let inFlow := l.flow > 0
  match l.rest with
  | [] =>
    outermost .streamEnd 0
    modify fun l => { l with done := true, keys := [] }
  | c :: rest =>
    let spaced := isGap rest.head?
    if c == '%' && l.place.column == 0 then directive
    else if l.place.column == 0 && (← atSeparator) then
      outermost (if c == '-' then .documentStart else .documentEnd) 3
    else if c == '[' then openFlow .flowSequenceStart
    else if c == '\x7b' then openFlow .flowMappingStart
    else if c == ']' then closeFlow .flowSequenceEnd
    else if c == '\x7d' then closeFlow .flowMappingEnd
    else if c == ',' then do
      allowKey true
      dropKey
      sign .flowEntry 1
    else if c == '-' && spaced then blockEntry
    else if c == '?' && (inFlow || spaced) then keySign
    else if c == ':' && (inFlow || spaced) then valueSign
    else if c == '*' then do
      saveKey
      allowKey false
      let start ← place
      emit (.alias (← anchorName "alias")) start
    else if c == '&' then do
      saveKey
      allowKey false
      let start ← place
      emit (.anchor (← anchorName "anchor")) start
    else if c == '!' then do
      saveKey
      allowKey false
      tag
    else if (c == '|' || c == '>') && !inFlow then do
      allowKey true
      dropKey
      blockScalar (c == '>')
    else if c == '\x27' || c == '\x22' then do
      saveKey
      allowKey false
      quotedScalar (c == '\x22')
    else if startsPlain inFlow c rest.head? then do
      saveKey
      allowKey false
      plainScalar
    else
      throw (.marked (some "while scanning for the next token") none
        ("found character " ++ shown (some c) ++ " that cannot start any token") l.place)

/-- Whether the first token could still get another one in front. -/
def isOpen (l : Lexer) : Bool :=
  l.tokens.isEmpty || l.keys.any fun (_, key) => key.number == l.taken

/-- Reads tokens until the first one is settled. -/
def settle : Nat → Lexing Unit
  | 0 => pure ()
  | n + 1 => do
    let l ← get
    if !l.done then
      if !l.tokens.isEmpty then dropStaleKeys
      if isOpen (← get) then
        fetch
        settle n

/-- The next token. -/
def look : Lexing Token := do
  settle ((← get).rest.length + 2)
  return (← get).tokens.head?.getD { kind := .streamEnd, place := (← get).place }

/-- Takes the next token. -/
def take : Lexing Token := do
  let t ← look
  modify fun l => { l with tokens := l.tokens.drop 1, taken := l.taken + 1 }
  return t

end Lexing

end Playscript.Yaml
