import Playscript.Yaml.Kind

/-! # How a text is written

    A text is written plain if it reads back as a text and nothing in it has a meaning
    for the format, else in single quotes if these can hold it, else in double quotes. -/

namespace Playscript.Yaml

/-- How a text is written. -/
inductive Style where
  | plain
  | single
  | double
deriving DecidableEq, Repr, Inhabited

/-- Whether a character breaks a line. -/
def isBreak (c : Char) : Bool :=
  c == '\n' || c.toNat == 0x85 || c.toNat == 0x2028 || c.toNat == 0x2029

/-- Whether a character separates what stands around it. -/
def isSeparator (c : Char) : Bool :=
  c.toNat == 0 || c == ' ' || c == '\t' || c == '\r' || isBreak c

/-- Whether a text ends here or goes on with a separator. -/
def separatedBehind (rest : List Char) : Bool :=
  match rest with
  | [] => true
  | c :: _ => isSeparator c

/-- Whether the first character of a text gives it another meaning. -/
def startsAsSign : List Char → Bool
  | [] => false
  | c :: rest =>
    "#,[]\x7b\x7d&*!|>'\"%@`".toList.contains c
      || ((c == '?' || c == ':' || c == '-') && separatedBehind rest)

/-- Whether a sign inside a text gives it another meaning, `before` being the last character. -/
def holdsSign (before : Char) : List Char → Bool
  | [] => false
  | c :: rest =>
    (c == ':' && separatedBehind rest) || (c == '#' && isSeparator before) || holdsSign c rest

/-- Whether two kinds of characters stand side by side in a text. -/
def holdsPair (first second : Char → Bool) : List Char → Bool
  | [] => false
  | [_] => false
  | a :: b :: rest => (first a && second b) || holdsPair first second (b :: rest)

/-- Whether a character is a space. -/
def isSpaceChar (c : Char) : Bool :=
  c == ' '

/-- Whether a character can only be written by an escape. -/
def isSpecial (c : Char) : Bool :=
  !(c == '\n' || (0x20 ≤ c.toNat && c.toNat ≤ 0x7e))

/-- Whether a text has more than one line. -/
def isMultiline (cs : List Char) : Bool :=
  cs.any isBreak

/-- Whether a character at an end of a text cannot stand plain. -/
def isLooseEnd (c : Char) : Bool :=
  c == ' ' || isBreak c

/-- Whether single quotes can hold a text. -/
def allowsSingle (cs : List Char) : Bool :=
  !(cs.any isSpecial || holdsPair isBreak isSpaceChar cs || holdsPair isSpaceChar isBreak cs)

/-- Whether nothing in a text has a meaning for the format. -/
def allowsPlain (cs : List Char) : Bool :=
  match cs with
  | [] => true
  | c :: rest =>
    allowsSingle cs && !isMultiline cs
      && !("---".toList.isPrefixOf cs || "...".toList.isPrefixOf cs)
      && !startsAsSign cs && !holdsSign c rest
      && !isLooseEnd c && !(cs.getLast?.any isLooseEnd)

/-- How a text is written; a key on one line can have no line breaks in single quotes. -/
def styleOf (inKey : Bool) (text : String) : Style :=
  let cs := text.toList
  if kindOf text == .text && allowsPlain cs then .plain
  else if allowsSingle cs && !(inKey && isMultiline cs) then .single
  else .double

/-- Whether a text can be a key on one line. -/
def isSimpleKey (text : String) : Bool :=
  !text.isEmpty && !isMultiline text.toList && text.length + 5 < 128

end Playscript.Yaml
