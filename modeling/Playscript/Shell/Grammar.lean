import Playscript.Shell.Tree
import Playscript.Shell.Lexer

/-! # The shell grammar

    One unit of a script is a list of pipelines up to a line end.  Reading is by
    recursive descent with one token in sight: `shift` takes that token and reads the
    next one at once, so a fault of the next token comes before the work on the token
    taken.  What a word stands for is left to a function given from outside.

    The bound on the depth of the descent is taken from the length of the unit: no
    construct goes down more than eight levels for one token. -/

namespace Playscript.Shell

/-- A reader in the middle of a unit. -/
structure Reader where
  lexer : Lexer
  /-- The token in sight. -/
  look : Token
  /-- The length of the source as it was given. -/
  length : Nat
  /-- Whether a parenthesis ends the source. -/
  inParens : Bool
deriving Repr

/-- Reading of a unit. -/
abbrev Reading := StateT Reader (Except Failure)

/-- A tree and the place where it stops. -/
abbrev Placed := Node × Nat

namespace Reading

/-- Stops at the token in sight. -/
def unexpected {α : Type} : Reading α := do
  let r ← get
  if r.look.kind == .finish then throw (.unexpectedEnd r.length)
  else throw (.unexpectedToken r.look.shown r.look.start)

/-- The token in sight. -/
def look : Reading Token := return (← get).look

/-- Takes the token in sight and reads the next one. -/
def shift : Reading Token := do
  let r ← get
  let (t, lx) ← r.lexer.next
  set { r with lexer := lx, look := t }
  return r.look

/-- Whether the token in sight is this operator. -/
def seesOperator (text : String) : Reading Bool := return (← look).isOperator text

/-- Whether the token in sight is this keyword. -/
def seesKeyword (text : String) : Reading Bool := return (← look).isKeyword text

/-- Takes this keyword. -/
def keyword (text : String) : Reading Token := do
  if ← seesKeyword text then shift else unexpected

/-- Takes this operator. -/
def operator (text : String) : Reading Token := do
  if ← seesOperator text then shift else unexpected

/-- Takes line ends. -/
def newlines : Nat → Reading Unit
  | 0 => pure ()
  | n + 1 => do
    if (← look).kind == .newline then
      let _ ← shift
      newlines n

end Reading

/-- The operators that redirect. -/
def redirectSigns : List String :=
  ["<", ">", ">>", "<<", "<<-", "<<<", "<&", ">&", "<>", ">|", "&>", "&>>"]

namespace Token

/-- Whether a redirection starts with the token. -/
def startsRedirect (t : Token) : Bool :=
  t.kind == .number || (t.kind == .operator && redirectSigns.contains t.text)

/-- Whether a construct with a body starts with the token. -/
def startsCompound (t : Token) : Bool :=
  t.isOperator "(" ||
    (t.kind == .keyword && ["\x7b", "if", "for", "case", "select", "while", "until"].contains t.text)

/-- Whether a pipeline starts with the token. -/
def startsPipeline (t : Token) : Bool :=
  t.kind == .word || t.kind == .assignment || t.startsRedirect || t.startsCompound ||
    (t.kind == .keyword && ["!", "time", "function", "coproc", "[["].contains t.text)

/-- Whether the token ends a list of words. -/
def endsList (t : Token) : Bool :=
  t.kind == .newline || t.kind == .finish || t.isOperator ";"

end Token

/-- The number that a token of digits stands for. -/
def numberOf (t : Token) : Int :=
  t.text.toList.foldl (fun n c => n * 10 + ((Text.digitValue? c).getD 0 : Int)) 0

namespace Grammar

open Reading

/-- What a word stands for. -/
abbrev Expansion := Token → Except Failure Node

variable (expand : Expansion)

/-- Takes a word and expands it. -/
def word : Reading Placed := do
  let t ← shift
  if ← seesOperator "(" then unexpected
  else return (← expand t, t.stop)

/-- Takes the word that names a here-document, whose body is awaited from here on. -/
def heredocWord (dropsTabs : Bool) : Reading Placed := do
  let t ← shift
  if ← seesOperator "(" then unexpected
  modify fun r => { r with lexer := { r.lexer with
    awaited := r.lexer.awaited ++ [{ delimiter := t.text, dropsTabs := dropsTabs }] } }
  return (.word t.text [], t.stop)

/-- What a redirection goes to. -/
def redirectTarget (sign : String) : Reading Placed := do
  let t ← look
  if t.kind == .word then
    if sign == "<<" || sign == "<<-" then heredocWord (sign == "<<-") else word expand
  else if sign == "<&" || sign == ">&" then
    if t.kind == .number then
      let _ ← shift
      return (.channel (some (numberOf t)), t.stop)
    else if t.isOperator "-" then
      let _ ← shift
      return (.channel none, t.stop)
    else unexpected
  else unexpected

/-- A redirection. -/
def redirect : Reading Placed := do
  let source ← if (← look).kind == .number then pure (some (numberOf (← shift))) else pure none
  let t ← look
  if t.kind == .operator && redirectSigns.contains t.text then
    let sign ← shift
    let (target, stop) ← redirectTarget expand sign.text
    return (.redirect source sign.text target, stop)
  else unexpected

/-- Redirections as long as there are some, `stop` being where the construct before them stops. -/
def redirects (stop : Nat) : Nat → Reading (List Node × Nat)
  | 0 => return ([], stop)
  | n + 1 => do
    if (← look).startsRedirect then
      let (first, stop) ← redirect expand
      let (more, stop) ← redirects stop n
      return (first :: more, stop)
    else return ([], stop)

/-- The parts of a simple command, `stop` being where those before them stop. -/
def elements (stop : Nat) : Nat → Reading (List Node × Nat)
  | 0 => return ([], stop)
  | n + 1 => do
    let t ← look
    if t.kind == .word || t.kind == .assignment then
      let (first, stop) ← word expand
      let (more, stop) ← elements stop n
      return (first :: more, stop)
    else if t.startsRedirect then
      let (first, stop) ← redirect expand
      let (more, stop) ← elements stop n
      return (first :: more, stop)
    else return ([], stop)

/-- The words that a loop goes through. -/
def loopWords : Nat → Reading (List Node)
  | 0 => return []
  | n + 1 => do
    if (← look).kind == .word then
      let t ← shift
      if (← look).kind == .word || (← look).endsList then
        let first ← expand t
        return first :: (← loopWords n)
      else unexpected
    else return []

/-- A list as one tree: a single command by itself if nothing but a line end is behind it. -/
def listNode (parts : List Node) : Node :=
  match parts with
  | [single] => single
  | parts => .list parts

/-- What the terms of a list end with. -/
inductive Terminator where
  | none
  | newline
  | sign

/-- A `case` up to its first pattern; there is no support for what follows. -/
def caseCommand (fuel : Nat) : Reading Placed := do
  let _ ← shift
  if (← look).kind == .word then
    let _ ← shift
    newlines fuel
    let _ ← keyword "in"
    newlines fuel
    if ← seesKeyword "esac" then
      let _ ← shift
      throw (.unsupported "case command")
    if ← seesOperator "(" then
      let _ ← shift
    if (← look).kind == .word then
      let _ ← shift
      if (← seesOperator "|") || (← seesOperator ")") then throw (.unsupported "pattern")
      else unexpected
    else unexpected
  else unexpected

mutual

/-- A pipeline with the keywords in front of it. -/
def pipelineCommand : Nat → Reading Placed
  | 0 => unexpected
  | n + 1 => do
    if ← seesKeyword "!" then
      let bang ← shift
      let t ← look
      if t.isOperator ";" then
        let _ ← shift
        return (.pipeline [.reserved bang.text, .operator t.text], t.stop)
      else if t.endsList then
        let _ ← shift
        throw .missingPart
      else
        let (inner, stop) ← pipelineCommand n
        match inner with
        | .pipeline parts => return (.pipeline (.reserved bang.text :: parts), stop)
        | single => return (.pipeline [.reserved bang.text, single], stop)
    else if ← seesKeyword "time" then
      let _ ← shift
      if ← seesKeyword "-p" then
        let _ ← shift
      if ← seesKeyword "--" then
        let _ ← shift
      let t ← look
      if t.startsPipeline || t.endsList then throw (.unsupported "time command") else unexpected
    else
      let (first, stop) ← command n
      let (more, stop) ← pipes stop n
      return (if more.isEmpty then first else .pipeline (first :: more), stop)

/-- The commands behind the first one of a pipeline, with the pipes between them. -/
def pipes (stop : Nat) : Nat → Reading (List Node × Nat)
  | 0 => return ([], stop)
  | n + 1 => do
    if (← seesOperator "|") || (← seesOperator "|&") then
      let sign ← shift
      newlines n
      let (first, stop) ← command n
      let (more, stop) ← pipes stop n
      return (.pipe sign.text :: first :: more, stop)
    else return ([], stop)

/-- A command. -/
def command : Nat → Reading Placed
  | 0 => unexpected
  | n + 1 => do
    let t ← look
    if t.startsCompound then
      let (body, stop) ← compound n
      let (behind, stop) ← redirects expand stop n
      return (.compound body behind, stop)
    else if t.isKeyword "function" then
      let _ ← shift
      if (← look).kind == .word then
        let name ← shift
        if ← seesOperator "(" then
          let _ ← shift
          let _ ← operator ")"
          functionBody [.reserved "function"] name [.reserved "(", .reserved ")"] n
        else functionBody [.reserved "function"] name [] n
      else unexpected
    else if t.isKeyword "coproc" then
      let _ ← shift
      if (← look).startsCompound then
        let (_, stop) ← compound n
        let _ ← redirects expand stop n
      else if (← look).kind == .word then
        let name ← shift
        if (← look).startsCompound then
          let (_, stop) ← compound n
          let _ ← redirects expand stop n
        else
          let _ ← elements expand name.stop n
      else
        let _ ← simple n
      throw (.unsupported "coproc")
    else if t.isKeyword "[[" then
      let _ ← shift
      unexpected
    else simple n

/-- A simple command, or a function that starts with its name. -/
def simple : Nat → Reading Placed
  | 0 => unexpected
  | n + 1 => do
    let t ← look
    if t.kind == .word then
      let name ← shift
      if ← seesOperator "(" then
        let _ ← shift
        let _ ← operator ")"
        functionBody [] name [.reserved "(", .reserved ")"] n
      else
        let first ← expand name
        let (more, stop) ← elements expand name.stop n
        return (.command (first :: more), stop)
    else if t.kind == .assignment || t.startsRedirect then
      let (parts, stop) ← elements expand t.stop n
      return (.command parts, stop)
    else unexpected

/-- The body of a function, and the function. -/
def functionBody (front : List Node) (name : Token) (signs : List Node) : Nat → Reading Placed
  | 0 => unexpected
  | n + 1 => do
    newlines n
    if (← look).startsCompound then
      let (body, stop) ← compound n
      let (behind, stop) ← redirects expand stop n
      let named ← expand name
      return (.function (front ++ [named] ++ signs ++ [.compound body behind]), stop)
    else unexpected

/-- A construct with a body. -/
def compound : Nat → Reading (List Node × Nat)
  | 0 => unexpected
  | n + 1 => do
    let t ← look
    if t.isOperator "(" then
      let _ ← shift
      let (body, _) ← list n
      let close ← operator ")"
      return ([.reserved "(", body, .reserved ")"], close.stop)
    else if t.isKeyword "\x7b" then
      let _ ← shift
      let (body, _) ← list n
      let close ← keyword "\x7d"
      return ([.reserved "\x7b", body, .reserved "\x7d"], close.stop)
    else if t.isKeyword "if" then
      let _ ← shift
      let (test, _) ← list n
      let _ ← keyword "then"
      let (body, _) ← list n
      let (more, stop) ← branches n
      return ([.branch ([.reserved "if", test, .reserved "then", body] ++ more)], stop)
    else if t.isKeyword "while" || t.isKeyword "until" then
      let _ ← shift
      let (test, _) ← list n
      let _ ← keyword "do"
      let (body, _) ← list n
      let close ← keyword "done"
      let parts := [.reserved t.text, test, .reserved "do", body, .reserved "done"]
      match test with
      | .list _ =>
        return ([if t.text == "while" then .whileLoop parts else .untilLoop parts], close.stop)
      | _ => throw .bareLoopTest
    else if t.isKeyword "for" || t.isKeyword "select" then
      let _ ← shift
      if (← look).kind == .word then
        let name ← shift
        let signs ← loopHead n
        let (body, stop) ← loopBody n
        let named ← expand name
        if t.text == "select" then throw (.unsupported "select command")
        return ([.forLoop ([.reserved t.text, named] ++ signs ++ body)], stop)
      else unexpected
    else
      let _ ← caseCommand n
      unexpected

/-- The branches behind the first one of an `if`, up to its end. -/
def branches : Nat → Reading (List Node × Nat)
  | 0 => unexpected
  | n + 1 => do
    if ← seesKeyword "elif" then
      let _ ← shift
      let (test, _) ← list n
      let _ ← keyword "then"
      let (body, _) ← list n
      let (more, stop) ← branches n
      return ([.reserved "elif", test, .reserved "then", body] ++ more, stop)
    else if ← seesKeyword "else" then
      let _ ← shift
      let (body, _) ← list n
      let close ← keyword "fi"
      return ([.reserved "else", body, .reserved "fi"], close.stop)
    else
      let close ← keyword "fi"
      return ([.reserved "fi"], close.stop)

/-- What stands between the name of a loop and its body. -/
def loopHead : Nat → Reading (List Node)
  | 0 => unexpected
  | n + 1 => do
    if ← seesOperator ";" then
      let _ ← shift
      newlines n
      return [.reserved ";"]
    else
      newlines n
      if ← seesKeyword "in" then
        let _ ← shift
        let words ← loopWords expand n
        let t ← look
        if t.endsList then
          let _ ← shift
          newlines n
          let sign := if t.isOperator ";" then [.reserved ";"] else []
          return [.reserved "in"] ++ words ++ sign
        else unexpected
      else return []

/-- The body of a loop. -/
def loopBody : Nat → Reading (List Node × Nat)
  | 0 => unexpected
  | n + 1 => do
    if ← seesKeyword "\x7b" then
      let _ ← shift
      let (body, _) ← list n
      let close ← keyword "\x7d"
      return ([.reserved "\x7b", body, .reserved "\x7d"], close.stop)
    else
      let _ ← keyword "do"
      let (body, _) ← list n
      let close ← keyword "done"
      return ([.reserved "do", body, .reserved "done"], close.stop)

/-- A list inside a construct. -/
def list : Nat → Reading Placed
  | 0 => unexpected
  | n + 1 => do
    newlines n
    let (first, stop) ← pipelineCommand n
    let (more, stop, terminator) ← listTail stop n
    let parts := first :: more
    match terminator, parts with
    | .sign, parts => return (.list parts, stop)
    | _, parts => return (listNode parts, stop)

/-- The commands behind the first one of a list inside a construct, with the operators between
    them. -/
def listTail (stop : Nat) : Nat → Reading (List Node × Nat × Terminator)
  | 0 => return ([], stop, .none)
  | n + 1 => do
    let t ← look
    if t.isOperator "&&" || t.isOperator "||" then
      let _ ← shift
      newlines n
      let (next, stop) ← pipelineCommand n
      let (more, stop, terminator) ← listTail stop n
      return (.operator t.text :: next :: more, stop, terminator)
    else if t.isOperator "&" || t.isOperator ";" || t.kind == .newline then
      let _ ← shift
      newlines n
      if (← look).startsPipeline then
        let (next, stop) ← pipelineCommand n
        let (more, stop, terminator) ← listTail stop n
        return (.operator t.text :: next :: more, stop, terminator)
      else if t.kind == .newline then return ([], stop, .newline)
      else return ([.operator t.text], t.stop, .sign)
    else return ([], stop, .none)

/-- The commands behind the first one of a unit, with the operators between them. -/
def unitTail (stop : Nat) : Nat → Reading (List Node × Nat)
  | 0 => return ([], stop)
  | n + 1 => do
    let t ← look
    if t.isOperator "&&" || t.isOperator "||" then
      let _ ← shift
      newlines n
      let (next, stop) ← pipelineCommand n
      let (more, stop) ← unitTail stop n
      return (.operator t.text :: next :: more, stop)
    else if t.isOperator "&" || t.isOperator ";" then
      let _ ← shift
      if (← look).startsPipeline then
        let (next, stop) ← pipelineCommand n
        let (more, stop) ← unitTail stop n
        return (.operator t.text :: next :: more, stop)
      else return ([.operator t.text], t.stop)
    else return ([], stop)

end

/-- A unit that was read: its tree, where the tree stops, and where the last here-document of
    the unit stops. -/
structure ScriptUnit where
  tree : Node
  stop : Nat
  heredocStop : Nat
deriving Repr

/-- Reads the bodies of the here-documents that are awaited. -/
def takeBodies : Reading Unit := do
  let r ← get
  let lx ← r.lexer.skipAwaited
  set { r with lexer := lx }

/-- One unit: a list up to a line end, or nothing at all. -/
def unitOf (fuel : Nat) : Reading (Option ScriptUnit) := do
  let t ← look
  let r ← get
  if t.kind == .finish || (r.inParens && t.isOperator ")") then return none
  else if t.kind == .newline then
    let _ ← shift
    let next ← look
    if next.kind == .finish || (r.inParens && next.isOperator ")") then return none else unexpected
  else
    let (first, stop) ← pipelineCommand expand fuel
    let (more, stop) ← unitTail expand stop fuel
    let t ← look
    if t.kind == .newline || t.kind == .finish || (r.inParens && t.isOperator ")") then
      takeBodies
      if t.kind == .newline then
        let _ ← shift
      return some {
        tree := listNode (first :: more), stop := stop
        heredocStop := (← get).lexer.heredocStop }
    else unexpected

/-- Reads one unit from the start of a source. -/
def readUnit (source : List Char) (inParens : Bool) : Except Failure (Option ScriptUnit) := do
  let (look, lexer) ← (Lexer.start source).next
  let reader : Reader :=
    { lexer := lexer, look := look, length := source.length, inParens := inParens }
  let (unit, _) ← (unitOf expand (8 * source.length + 64)).run reader
  return unit

end Grammar

end Playscript.Shell
