import Playscript.Text.Digit

/-! # References to variables

    A text may refer to variables as `${name}` or as `$name`.  The braced form takes
    ASCII names that do not start with a digit; the bare form takes the longest run of
    word characters.  A scan cuts a text into plain characters and references, and an
    expansion writes something for each reference. -/

namespace Playscript

/-- A reference: the name, and the text that refers to it. -/
structure Reference where
  name : String
  raw : String
deriving DecidableEq, Repr, Inhabited

/-- A piece of a text. -/
inductive Piece where
  | char (c : Char)
  | reference (r : Reference)
deriving DecidableEq, Repr

namespace Reference

/-- Whether a braced name can start with a character. -/
def startsName (c : Char) : Bool :=
  c.isAlpha || c == '_'

/-- Whether a braced name can go on with a character. -/
def inName (c : Char) : Bool :=
  c.isAlphanum || c == '_'

/-- The braced reference at the start of a text. -/
def bracedAt : List Char → Option Reference
  | '$' :: '\x7b' :: c :: rest =>
    if startsName c then
      let name := c :: rest.takeWhile inName
      if (rest.dropWhile inName).head? = some '\x7d' then
        some ⟨String.ofList name, String.ofList ('$' :: '\x7b' :: name ++ ['\x7d'])⟩
      else none
    else none
  | _ => none

/-- The bare reference at the start of a text. -/
def bareAt : List Char → Option Reference
  | '$' :: rest =>
    let name := rest.takeWhile Text.isWordChar
    if name.isEmpty then none else some ⟨String.ofList name, String.ofList ('$' :: name)⟩
  | _ => none

end Reference

/-- Cuts a text at the references that `find` sees, after some characters to skip. -/
def piecesAfter (find : List Char → Option Reference) : Nat → List Char → List Piece
  | _, [] => []
  | n + 1, _ :: rest => piecesAfter find n rest
  | 0, c :: rest =>
    match find (c :: rest) with
    | some r => .reference r :: piecesAfter find (r.raw.length - 1) rest
    | none => .char c :: piecesAfter find 0 rest

/-- The pieces of a text. -/
def pieces (find : List Char → Option Reference) (text : String) : List Piece :=
  piecesAfter find 0 text.toList

/-- A text again, with something written for each reference. -/
def assemble (value : Reference → String) (ps : List Piece) : String :=
  String.ofList (ps.flatMap fun
    | .char c => [c]
    | .reference r => (value r).toList)

/-- Expands the references that `find` sees in a text. -/
def expandWith (find : List Char → Option Reference) (value : Reference → String)
    (text : String) : String :=
  assemble value (pieces find text)

/-- Expands the braced references of a text, and then the bare ones of the result. -/
def expandReferences (value : Reference → String) (text : String) : String :=
  expandWith Reference.bareAt value (expandWith Reference.bracedAt value text)

end Playscript
