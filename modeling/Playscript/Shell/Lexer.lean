import Playscript.Shell.Token
import Playscript.Shell.Lexeme

/-! # Cutting a script into tokens

    The lexer hands out one token at a time.  It remembers the last two tokens, since
    they decide what the next text is, and the here-documents whose bodies start at
    the next line end. -/

namespace Playscript.Shell

/-- A here-document whose body has not been read yet. -/
structure Awaited where
  delimiter : String
  /-- Whether tabs in front of its lines are dropped. -/
  dropsTabs : Bool
deriving Repr

/-- A lexer in the middle of a script. -/
structure Lexer where
  rest : List Char
  place : Nat := 0
  /-- The length of the script with its last line end. -/
  size : Nat
  last : Option Token := none
  before : Option Token := none
  inPattern : Bool := false
  /-- Whether the next word may be the `esac` that ends a `case` at once. -/
  esacs : Nat := 0
  openBraces : Nat := 0
  /-- Whether the next word may be the brace that opens a function's body. -/
  mayOpenBrace : Bool := false
  awaited : List Awaited := []
  /-- Where the last here-document read so far ends. -/
  heredocStop : Nat := 0
deriving Repr

/-- A script with a line end at its end; the empty script stays empty. -/
def withLineEnd (source : List Char) : List Char :=
  match source.getLast? with
  | none => []
  | some '\n' => source
  | some _ => source ++ ['\n']

namespace Lexer

/-- A lexer at the start of a script. -/
def start (source : List Char) : Lexer :=
  let text := withLineEnd source
  { rest := text, size := text.length }

/-- Moves behind some characters. -/
def moveTo (lx : Lexer) (place : Nat) (rest : List Char) : Lexer :=
  { lx with place := place, rest := rest }

/-! ## Here-documents -/

/-- Skips the lines up to one that equals the delimiter; `line` is what has been read of the
    first of them, backwards. -/
def skipBody (wanted : Awaited) (line : List Char) (place : Nat) :
    List Char → Option (Nat × List Char)
  | [] => none
  | '\n' :: rest =>
    let text := line.reverse
    let text := if wanted.dropsTabs then text.dropWhile (· == '\t') else text
    if text == wanted.delimiter.toList then some (place + 1, rest)
    else skipBody wanted [] (place + 1) rest
  | c :: rest => skipBody wanted (c :: line) (place + 1) rest

/-- Skips the bodies of here-documents one after the other. -/
def skipBodies (lx : Lexer) : List Awaited → Except Failure Lexer
  | [] => .ok lx
  | wanted :: more =>
    match skipBody wanted [] lx.place lx.rest with
    | some (place, rest) =>
      skipBodies { lx.moveTo place rest with heredocStop := place - 1 } more
    | none => .error (.openHeredoc wanted.delimiter lx.size)

/-- Skips the bodies of all here-documents that are awaited. -/
def skipAwaited (lx : Lexer) : Except Failure Lexer :=
  skipBodies { lx with awaited := [] } lx.awaited

/-! ## Operators -/

/-- The operators, each in front of its own beginnings. -/
def operators : List String :=
  ["<<-", "<<<", "<<", "<&", "<>", "<", ">>", ">&", ">|", ">", ";;&", ";;", ";&", ";", "&&",
   "&>>", "&>", "&", "||", "|&", "|", "(", ")"]

/-- The longest operator at the start of a text. -/
def operatorAt? (cs : List Char) : Option String :=
  operators.find? fun op => op.toList.isPrefixOf cs

/-- Remembers a token as the last one. -/
def emit (lx : Lexer) (t : Token) : Token × Lexer :=
  (t, { lx with last := some t, before := lx.last })

/-- Reads an operator. -/
def takeOperator (lx : Lexer) (op : String) : Token × Lexer :=
  let stop := lx.place + op.length
  let afterParen := match lx.last, lx.before with
    | some l, some b => l.isOperator "(" && b.kind == .word
    | _, _ => false
  let lx' := { lx.moveTo stop (lx.rest.drop op.length) with
    inPattern :=
      if op == ";;" || op == ";&" || op == ";;&" then true
      else if op == ")" then false else lx.inPattern
    mayOpenBrace := lx.mayOpenBrace || (op == ")" && afterParen) }
  lx'.emit { kind := .operator, text := op, start := lx.place, stop := stop }

/-! ## Words -/

/-- Whether the last token is this kind of keyword. -/
def lastIs (lx : Lexer) (text : String) : Bool :=
  match lx.last with
  | some t => t.isKeyword text
  | none => false

/-- Whether the last token is a word and the one before it one of these keywords. -/
def namedBy (lx : Lexer) (texts : List String) : Bool :=
  match lx.last, lx.before with
  | some l, some b => l.kind == .word && b.kind == .keyword && texts.contains b.text
  | _, _ => false

/-- The kind of a text that is a keyword only behind certain tokens, with what it changes. -/
def specialKeyword (lx : Lexer) (text : String) : Option TokenKind × Lexer :=
  if text == "in" && lx.namedBy ["for", "case", "select"] then
    if lx.namedBy ["case"] then
      (some .keyword, { lx with inPattern := true, esacs := lx.esacs + 1 })
    else (some .keyword, lx)
  else if text == "do" && lx.namedBy ["for", "select"] then (some .keyword, lx)
  else
    let wasEsac := lx.esacs > 0
    let lx := { lx with esacs := lx.esacs - 1 }
    if wasEsac && text == "esac" then (some .keyword, { lx with inPattern := false })
    else
      let mayOpen := lx.mayOpenBrace
      let lx := { lx with mayOpenBrace := false }
      if mayOpen && text == "\x7b" then
        (some .keyword, { lx with openBraces := lx.openBraces + 1 })
      else if text == "\x7d" && lx.openBraces > 0 && commandMayStart lx.last lx.before then
        (some .keyword, { lx with openBraces := lx.openBraces - 1 })
      else if text == "-p" && lx.lastIs "time" then (some .keyword, lx)
      else if text == "--" && lx.lastIs "-p" then (some .keyword, lx)
      else (none, lx)

/-- Whether a text is a keyword where a command may start. -/
def isKeywordHere (lx : Lexer) (w : Lexeme) (text : String) : Bool :=
  !w.hasDollar && !w.quoted && commandMayStart lx.last lx.before && keywords.contains text
    && (!lx.inPattern || text == "esac")

/-- The kind of a word that has been read, `next` being the character behind it, with what it
    changes. -/
def classify (lx : Lexer) (w : Lexeme) (next : Option Char) : TokenKind × Lexer :=
  let afterJoin := match lx.last with
    | some t => t.isOperator "<&" || t.isOperator ">&"
    | none => false
  if w.allDigits && (next == some '<' || next == some '>' || afterJoin) then (.number, lx)
  else
    let text := w.text
    match lx.specialKeyword text with
    | (some kind, lx) => (kind, lx)
    | (none, lx) =>
      if lx.isKeywordHere w text then
        (.keyword, { lx with
          openBraces :=
            if text == "\x7b" then lx.openBraces + 1
            else if text == "\x7d" then lx.openBraces - 1 else lx.openBraces
          inPattern := lx.inPattern && text != "esac" })
      else
        let lx := { lx with mayOpenBrace := lx.lastIs "function" }
        if isAssignment text.toList && assignmentMayStand lx.last lx.before && !lx.inPattern then
          (.assignment, lx)
        else (.word, lx)

/-- Reads a word. -/
def takeWord (lx : Lexer) : Except Failure (Token × Lexer) :=
  match scanWord [] {} lx.place lx.rest with
  | .error closer => .error (.unclosed closer (lx.size - 1))
  | .ok (w, stop, rest) =>
    let (kind, lx') := lx.classify w rest.head?
    .ok ((lx'.moveTo stop rest).emit
      { kind := kind, text := w.text, start := lx.place, stop := stop, quoted := w.quoted })

/-! ## Tokens -/

/-- Skips blanks, and the backslash in front of a line end. -/
def skipSpaces (place : Nat) : List Char → Nat × List Char
  | [] => (place, [])
  | c :: rest =>
    if isSpace c then skipSpaces (place + 1) rest
    else if c == '\\' && rest.head? == some '\n' then (place + 1, rest)
    else (place, c :: rest)

/-- Skips a comment up to its line end. -/
def skipComment (place : Nat) (rest : List Char) : Nat × List Char :=
  match rest with
  | '#' :: _ =>
    (place + (rest.takeWhile (· != '\n')).length, rest.dropWhile (· != '\n'))
  | _ => (place, rest)

/-- Reads the next token. -/
def next (lx : Lexer) : Except Failure (Token × Lexer) :=
  let (place, rest) := skipSpaces lx.place lx.rest
  let (place, rest) := skipComment place rest
  let lx := lx.moveTo place rest
  match rest with
  | [] => .ok (lx.emit { kind := .finish, text := "", start := place, stop := place })
  | '\n' :: rest =>
    match (lx.moveTo (place + 1) rest).skipAwaited with
    | .error e => .error e
    | .ok lx => .ok (lx.emit { kind := .newline, text := "\n", start := place, stop := place + 1 })
  | c :: rest' =>
    if (c == '<' || c == '>') && rest'.head? == some '(' then lx.takeWord
    else match operatorAt? rest with
      | some op => .ok (lx.takeOperator op)
      | none =>
        let afterJoin := match lx.last with
          | some t => t.isOperator "<&" || t.isOperator ">&"
          | none => false
        if c == '-' && afterJoin then
          .ok ((lx.moveTo (place + 1) rest').emit
            { kind := .operator, text := "-", start := place, stop := place + 1 })
        else lx.takeWord

end Lexer

end Playscript.Shell
