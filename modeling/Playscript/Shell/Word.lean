import Playscript.Shell.Grammar

/-! # What a word stands for

    The value of a word is its text with the quotes and backslashes taken away; the
    parameters, substitutions and tildes in it keep their text and are listed as
    parts.  A word in single quotes as a whole is its inside.  In any other word a
    single quote is only dropped (or kept, between double quotes): what stands
    between single quotes is searched for expansions like everything else.

    Substitutions hold scripts of their own; a function given from outside reads
    them. -/

namespace Playscript.Shell

/-- What has been found in a word: its value backwards and its parts backwards. -/
structure Expanded where
  value : List Char := []
  parts : List Node := []

namespace Expanded

/-- Adds text to the value. -/
def write (e : Expanded) (text : List Char) : Expanded :=
  { e with value := text.reverse ++ e.value }

/-- Adds a part and the text it keeps. -/
def add (e : Expanded) (part : Node) (text : List Char) : Expanded :=
  { e.write text with parts := part :: e.parts }

end Expanded

namespace Word

/-- Reads the script of a substitution: in parentheses or not, giving its tree and where the tree
    stops. -/
abbrev Substitution := List Char → Bool → Except Failure Placed

/-- The parameters that are named by one character. -/
def isSpecialParameter (c : Char) : Bool :=
  "0123456789$#?-!*@".toList.contains c

/-- A parameter or substitution behind a dollar sign: the part, its text, and what is left. -/
def dollar (sub : Substitution) (rest : List Char) :
    Except Failure (Node × List Char × List Char) :=
  match rest with
  | '\x7b' :: inner =>
    let name := inner.takeWhile (· != '\x7d')
    let taken := name.length + 2
    .ok (.parameter (String.ofList name), '$' :: rest.take taken, rest.drop taken)
  | '(' :: '(' :: _ => .error (.unsupported "arithmetic expansion")
  | '[' :: _ => .error (.unsupported "arithmetic substitution")
  | '(' :: inner =>
    match sub inner true with
    | .error e => .error e
    | .ok (tree, stop) =>
      .ok (.commandSubstitution tree, '$' :: '(' :: inner.take (stop + 1), inner.drop (stop + 1))
  | c :: more =>
    if isSpecialParameter c then .ok (.parameter c.toString, ['$', c], more)
    else
      let name := rest.takeWhile Text.isWordChar
      .ok (.parameter (String.ofList name), '$' :: name, rest.drop name.length)
  | [] => .ok (.parameter "", ['$'], [])

/-- Whether a tilde at the start of a word goes on with a character: up to a slash or a quote. -/
def inTilde (c : Char) : Bool :=
  !(c == '/' || c == '\\' || c == '\x27' || c == '\x22')

/-- Scans a word; `atStart` holds at its first character, `doubled` if it starts with a double
    quote, `long` if it has more than one character. -/
def scan (sub : Substitution) (doubled long : Bool) :
    Nat → Bool → Expanded → List Char → Except Failure Expanded
  | 0, _, e, _ => .ok e
  | _, _, e, [] => .ok e
  | n + 1, atStart, e, c :: rest =>
    if c == '\x27' then
      scan sub doubled long n false (if doubled then e.write [c] else e) rest
    else if c == '\x22' then scan sub doubled long n false e rest
    else if c == '\\' then
      match rest with
      | [] => .ok e
      | d :: rest => scan sub doubled long n false (e.write [d]) rest
    else if c == '$' && long then
      match dollar sub rest with
      | .error failure => .error failure
      | .ok (part, text, rest) => scan sub doubled long n false (e.add part text) rest
    else if c == '\x60' then
      match rest with
      | '\x60' :: rest => scan sub doubled long n false (e.write ['\x60', '\x60']) rest
      | rest =>
        let inner := rest.takeWhile (· != '\x60')
        if inner.length == rest.length then .error .wrongShape
        else match sub inner false with
          | .error failure => .error failure
          | .ok (tree, _) =>
            scan sub doubled long n false
              (e.add (.commandSubstitution tree) (c :: inner ++ ['\x60']))
              (rest.drop (inner.length + 1))
    else if (c == '<' || c == '>') && !doubled && rest.head? == some '(' then
      let inner := rest.drop 1
      match sub inner true with
      | .error failure => .error failure
      | .ok (tree, stop) =>
        scan sub doubled long n false
          (e.add (.processSubstitution tree) (c :: '(' :: inner.take (stop + 1)))
          (inner.drop (stop + 1))
    else if c == '~' && atStart && !doubled then
      let user := (c :: rest).takeWhile inTilde
      scan sub doubled long n false (e.add (.tilde (String.ofList user)) user)
        ((c :: rest).drop user.length)
    else scan sub doubled long n false (e.write [c]) rest

/-- The value and the parts of a word. -/
def valueAndParts (sub : Substitution) (t : Token) : Except Failure (String × List Node) :=
  let text := t.text.toList
  if text.head? == some '\x27' && text.getLast? == some '\x27' && text.length > 1 then
    .ok (String.ofList ((text.drop 1).take (text.length - 2)), [])
  else
    let doubled := t.quoted && text.head? == some '\x22'
    match scan sub doubled (text.length > 1) (text.length + 1) true {} text with
    | .error failure => .error failure
    | .ok e => .ok (String.ofList e.value.reverse, e.parts.reverse)

/-- The node of a word or an assignment. -/
def expand (sub : Substitution) (t : Token) : Except Failure Node :=
  match valueAndParts sub t with
  | .error failure => .error failure
  | .ok (value, parts) =>
    .ok (if t.kind == .assignment then .assignment value parts else .word value parts)

end Word

end Playscript.Shell
