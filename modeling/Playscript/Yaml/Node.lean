import Playscript.Yaml.Lexer

/-! # The tree of a YAML text

    A document is a tree of scalars, lists and mappings, each with its tag and its
    place.  A part with an anchor can be named again by an alias, which stands for the
    same part. -/

namespace Playscript.Yaml

/-- A part of a document. -/
inductive Node where
  /-- A scalar; `free` says that its form decides what it stands for. -/
  | scalar (text : String) (free : Bool) (tag : Option String) (place : Mark)
  | list (items : List Node) (tag : Option String) (place : Mark)
  | map (entries : List (Node × Node)) (tag : Option String) (place : Mark)
deriving Repr

namespace Node

instance : Inhabited Node := ⟨.scalar "" true none {}⟩

/-- Where a part starts. -/
def place : Node → Mark
  | .scalar _ _ _ m => m
  | .list _ _ m => m
  | .map _ _ m => m

/-- A part that is not written. -/
def empty (m : Mark) : Node :=
  .scalar "" true none m

end Node

/-- Building of a tree: the parts with anchors, and the tokens. -/
abbrev Growing := StateT (List (String × Node)) Lexing

namespace Growing

/-- The next token. -/
def look : Growing Token := Lexing.look

/-- Takes the next token. -/
def take : Growing Token := Lexing.take

/-- What stands in front of a part. -/
structure Properties where
  anchor : Option String := none
  tag : Option (Option String × String) := none
  /-- Where the first of them starts. -/
  start : Option Mark := none
  tagPlace : Mark := {}
deriving Inhabited

/-- Takes an anchor or a tag, if one comes that is not there yet. -/
def takeProperty (p : Properties) : Growing Properties := do
  let t ← look
  let start := some (p.start.getD t.place)
  match t.kind, p.anchor, p.tag with
  | .anchor name, none, _ =>
    let _ ← take
    return { p with anchor := some name, start := start }
  | .tag handle suffix, _, none =>
    let _ ← take
    return { p with tag := some (handle, suffix), start := start, tagPlace := t.place }
  | _, _, _ => return p

/-- What all tags of the language itself start with. -/
def ownTag : String := "tag:yaml.org,2002:"

/-- The tag that a part has; one that says nothing is none. -/
def Properties.fullTag (p : Properties) : Growing (Option String) := do
  match p.tag with
  | none => return none
  | some (none, suffix) => return some suffix
  | some (some handle, suffix) =>
    if handle == "!" then return some ("!" ++ suffix)
    else if handle == "!!" then return some (ownTag ++ suffix)
    else
      throw (.during "while parsing a node" (p.start.getD {})
        ("found undefined tag handle " ++ Text.quoted handle) p.tagPlace)

/-- Builds a part and remembers it by its anchor, which has to be new. -/
def remember (anchor : Option String) (start : Mark) (build : Growing Node) : Growing Node := do
  match anchor with
  | none => build
  | some name =>
    match (← get).lookup name with
    | some first =>
      throw (.during ("found duplicate anchor " ++ Text.quoted name ++ "; first occurrence")
        first.place "second occurrence" start)
    | none =>
      modify fun known => (name, .list [] none start) :: known
      let node ← build
      modify fun known => (name, node) :: known
      return node

/-- The complaint about a token in a collection that started somewhere. -/
def unexpected (context : String) (since : Mark) (wanted : String) (t : Token) : Fault :=
  .during context since (wanted ++ t.kind.shown) t.place

mutual

/-- A part; `block` says whether indented collections may stand here, and `flat` whether a list
    may that is not indented. -/
def node (block flat : Bool) : Nat → Growing Node
  | 0 => return .empty {}
  | n + 1 => do
    let t ← look
    if let .alias name := t.kind then
      let _ ← take
      match (← get).lookup name with
      | some known => return known
      | none => throw (.alone ("found undefined alias " ++ Text.quoted name) t.place)
    let p ← takeProperty (← takeProperty {})
    let given ← p.fullTag
    let tag := if given == some "!" then none else given
    let t ← look
    let start := p.start.getD t.place
    match t.kind with
    | .scalar text plain =>
      let _ ← take
      remember p.anchor start
        (return .scalar text ((plain && given.isNone) || given == some "!") tag start)
    | .flowSequenceStart =>
      let _ ← take
      remember p.anchor start (return .list (← flowItems t.place true n) tag start)
    | .flowMappingStart =>
      let _ ← take
      remember p.anchor start (return .map (← flowEntries t.place true n) tag start)
    | kind =>
      if flat && kind == .blockEntry then
        remember p.anchor start (return .list (← flatItems n) tag start)
      else if block && kind == .blockSequenceStart then do
        let _ ← take
        remember p.anchor start (return .list (← blockItems t.place n) tag start)
      else if block && kind == .blockMappingStart then do
        let _ ← take
        remember p.anchor start (return .map (← blockEntries t.place n) tag start)
      else if p.anchor.isSome || given.isSome then
        remember p.anchor start (return .scalar "" tag.isNone tag start)
      else
        throw (unexpected (if block then "while parsing a block node" else "while parsing a flow node")
          start "expected the node content, but found " t)

/-- A part, or nothing if one of some tokens comes. -/
def nodeUnless (stops : List TokenKind) (block flat : Bool) (behind : Mark) : Nat → Growing Node
  | 0 => return .empty behind
  | n + 1 => do
    if stops.contains (← look).kind then return .empty behind
    else node block flat n

/-- The items of an indented list. -/
def blockItems (since : Mark) : Nat → Growing (List Node)
  | 0 => return []
  | n + 1 => do
    let t ← look
    match t.kind with
    | .blockEntry =>
      let _ ← take
      let item ← nodeUnless [.blockEntry, .blockEnd] true false t.place n
      return item :: (← blockItems since n)
    | .blockEnd =>
      let _ ← take
      return []
    | _ =>
      throw (unexpected "while parsing a block collection" since
        "expected <block end>, but found " t)

/-- The items of a list that is not indented. -/
def flatItems : Nat → Growing (List Node)
  | 0 => return []
  | n + 1 => do
    let t ← look
    if t.kind == .blockEntry then
      let _ ← take
      let item ← nodeUnless [.blockEntry, .key, .value, .blockEnd] true false t.place n
      return item :: (← flatItems n)
    else return []

/-- The entries of an indented mapping. -/
def blockEntries (since : Mark) : Nat → Growing (List (Node × Node))
  | 0 => return []
  | n + 1 => do
    let t ← look
    match t.kind with
    | .key =>
      let _ ← take
      let key ← nodeUnless [.key, .value, .blockEnd] true true t.place n
      let value ← blockValue n
      return (key, value) :: (← blockEntries since n)
    | .blockEnd =>
      let _ ← take
      return []
    | _ =>
      throw (unexpected "while parsing a block mapping" since
        "expected <block end>, but found " t)

/-- The value behind a key of an indented mapping. -/
def blockValue : Nat → Growing Node
  | 0 => return .empty {}
  | n + 1 => do
    let t ← look
    if t.kind == .value then
      let _ ← take
      nodeUnless [.key, .value, .blockEnd] true true t.place.next n
    else return .empty t.place

/-- The items of a bracketed list; `first` says that none came yet. -/
def flowItems (since : Mark) (first : Bool) : Nat → Growing (List Node)
  | 0 => return []
  | n + 1 => do
    if !first && (← look).kind != .flowSequenceEnd then
      let t ← look
      if t.kind == .flowEntry then
        let _ ← take
      else
        throw (unexpected "while parsing a flow sequence" since "expected ',' or ']', but got " t)
    let t ← look
    match t.kind with
    | .flowSequenceEnd =>
      let _ ← take
      return []
    | .key =>
      let _ ← take
      let key ← nodeUnless [.value, .flowEntry, .flowSequenceEnd] false false t.place n
      let value ← flowValue .flowSequenceEnd n
      return .map [(key, value)] none t.place :: (← flowItems since false n)
    | _ =>
      let item ← node false false n
      return item :: (← flowItems since false n)

/-- The value behind a key in brackets. -/
def flowValue (closer : TokenKind) : Nat → Growing Node
  | 0 => return .empty {}
  | n + 1 => do
    let t ← look
    if t.kind == .value then
      let _ ← take
      nodeUnless [.flowEntry, closer] false false t.place.next n
    else return .empty t.place

/-- The entries of a bracketed mapping; `first` says that none came yet. -/
def flowEntries (since : Mark) (first : Bool) : Nat → Growing (List (Node × Node))
  | 0 => return []
  | n + 1 => do
    if !first && (← look).kind != .flowMappingEnd then
      let t ← look
      if t.kind == .flowEntry then
        let _ ← take
      else
        throw (unexpected "while parsing a flow mapping" since
          "expected ',' or '\x7d', but got " t)
    let t ← look
    match t.kind with
    | .flowMappingEnd =>
      let _ ← take
      return []
    | .key =>
      let _ ← take
      let key ← nodeUnless [.value, .flowEntry, .flowMappingEnd] false false t.place n
      let value ← flowValue .flowMappingEnd n
      return (key, value) :: (← flowEntries since false n)
    | _ =>
      let key ← node false false n
      let value := .empty (← look).place
      return (key, value) :: (← flowEntries since false n)

end

/-- Skips the marks that end documents. -/
def skipEnds : Nat → Growing Unit
  | 0 => pure ()
  | n + 1 => do
    if (← look).kind == .documentEnd then
      let _ ← take
      skipEnds n

/-- Skips directives. -/
def skipDirectives : Nat → Growing Unit
  | 0 => pure ()
  | n + 1 => do
    if (← look).kind == .directive then
      let _ ← take
      skipDirectives n

/-- Takes the mark that starts a document, with directives in front; none at the end of the
    text. -/
def startDocument (n : Nat) : Growing (Option Mark) := do
  skipEnds n
  let first ← look
  if first.kind == .streamEnd then return none
  skipDirectives n
  let t ← look
  if t.kind == .documentStart then
    let _ ← take
    return some first.place
  else throw (.alone ("expected '<document start>', but found " ++ t.kind.shown) t.place)

/-- The content of a document behind the mark that starts it. -/
def content (n : Nat) : Growing Node := do
  let t ← look
  nodeUnless [.directive, .documentStart, .documentEnd, .streamEnd] true false t.place n

/-- The only document of a text; none if there is nothing in it. -/
def onlyDocument (n : Nat) : Growing (Option Node) := do
  let t ← look
  let root ←
    if [TokenKind.directive, .documentStart, .streamEnd].contains t.kind then
      match ← startDocument n with
      | none => return none
      | some _ => content n
    else node true false n
  match ← startDocument n with
  | none => return some root
  | some second =>
    throw (.during "expected a single document in the stream" root.place
      "but found another document" second)

end Growing

namespace Node

/-- Whether a text may hold a character. -/
def isAllowed (c : Char) : Bool :=
  let n := c.toNat
  n == 0x9 || n == 0xa || n == 0xd || (0x20 ≤ n && n ≤ 0x7e) || n == 0x85
    || (0xa0 ≤ n && n ≤ 0xfffd) || 0x10000 ≤ n

/-- The tree of a text. -/
def ofText (text : String) : Except Fault (Option Node) :=
  let cs := text.toList
  match cs.findIdx? fun c => !isAllowed c with
  | some i => .error (.badCharacter (cs.getD i ' ') i)
  | none =>
    let fuel := 8 * (cs.length + 4)
    match ((Growing.onlyDocument fuel).run []).run { rest := cs } with
    | .ok ((root, _), _) => .ok root
    | .error fault => .error fault

end Node

end Playscript.Yaml
