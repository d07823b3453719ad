import Playscript.Text.Letter
import Playscript.Text.Quoted

/-! # Shell tokens

    What a script is made of for the grammar: words, assignments, descriptor numbers,
    keywords, operators, line ends and the end of the script.  Whether a text is a
    keyword or an assignment depends on the tokens in front of it; the rules for that
    stand here. -/

namespace Playscript.Shell

/-- What a token is for the grammar. -/
inductive TokenKind where
  | word
  | assignment
  | number
  | keyword
  | operator
  | newline
  | finish
deriving DecidableEq, Repr, Inhabited

/-- A token: its text as written and the places where it starts and stops. -/
structure Token where
  kind : TokenKind
  text : String
  start : Nat
  stop : Nat
  /-- Whether a word holds quotes or escapes. -/
  quoted : Bool := false
deriving Repr, Inhabited

namespace Token

/-- Whether the token is this keyword. -/
def isKeyword (t : Token) (text : String) : Bool :=
  t.kind == .keyword && t.text == text

/-- Whether the token is this operator. -/
def isOperator (t : Token) (text : String) : Bool :=
  t.kind == .operator && t.text == text

/-- The token inside a complaint: quoted, a number in plain digits. -/
def shown (t : Token) : String :=
  match t.kind with
  | .number => match t.text.toList.dropWhile (· == '0') with
    | [] => "0"
    | digits => String.ofList digits
  | _ => Text.quoted t.text

end Token

/-- The texts that are keywords where a command may start. -/
def keywords : List String :=
  ["if", "then", "else", "elif", "fi", "case", "esac", "for", "select", "while", "until", "do",
   "done", "in", "function", "time", "\x7b", "\x7d", "!", "[[", "]]", "coproc"]

/-- The keywords behind which a command may start. -/
def opensCommand : List String :=
  ["!", "do", "done", "elif", "else", "esac", "fi", "if", "then", "time", "-p", "--", "coproc",
   "until", "while", "\x7b", "\x7d"]

/-- The operators behind which a command may start. -/
def separatesCommands : List String :=
  ["&&", "||", "|&", ";;", ";&", ";;&", ";", "(", ")", "|", "&"]

/-- Whether a command may start behind the last token, the one before it being the second. -/
def commandMayStart (last before : Option Token) : Bool :=
  match last with
  | none => true
  | some t =>
    match t.kind with
    | .newline => true
    | .keyword => opensCommand.contains t.text
    | .operator => separatesCommands.contains t.text
    | .word => t.text == "\x7b" || t.text == "\x7d" ||
      (match before with
        | some b => b.isKeyword "function" || b.isKeyword "coproc"
        | none => false)
    | _ => false

/-- Whether an assignment may stand behind the last token. -/
def assignmentMayStand (last before : Option Token) : Bool :=
  match last with
  | some t =>
    t.kind == .assignment
      || (!(t.isOperator ";;" || t.isOperator ";&" || t.isOperator ";;&")
        && commandMayStart last before)
  | none => true

/-- Whether the rest of a text after some of its name has the form of an assignment. -/
def assignmentTail : List Char → Bool
  | [] => false
  | '=' :: _ => true
  | '+' :: '=' :: _ => true
  | c :: rest => (Text.isLetter c || c == '_') && assignmentTail rest

/-- Whether a text is `name=…` or `name+=…`, the name being letters and `_`. -/
def isAssignment : List Char → Bool
  | [] => false
  | c :: rest => (Text.isLetter c || c == '_') && assignmentTail (c :: rest)

end Playscript.Shell
