import Playscript.Yaml.Fault

/-! # YAML tokens -/

namespace Playscript.Yaml

/-- What a token is. -/
inductive TokenKind where
  | streamEnd
  | directive
  | documentStart
  | documentEnd
  | blockSequenceStart
  | blockMappingStart
  | blockEnd
  | flowSequenceStart
  | flowSequenceEnd
  | flowMappingStart
  | flowMappingEnd
  | blockEntry
  | flowEntry
  | key
  | value
  | alias (name : String)
  | anchor (name : String)
  /-- A tag: the handle, if it has one, and what stands behind it. -/
  | tag (handle : Option String) (suffix : String)
  /-- A scalar, plain or not. -/
  | scalar (text : String) (plain : Bool)
deriving DecidableEq, Repr, Inhabited

/-- A token and where it starts. -/
structure Token where
  kind : TokenKind
  place : Mark
deriving DecidableEq, Repr, Inhabited

namespace TokenKind

/-- What a token is called in a complaint. -/
def shown : TokenKind → String
  | .streamEnd => "'<stream end>'"
  | .directive => "'<directive>'"
  | .documentStart => "'<document start>'"
  | .documentEnd => "'<document end>'"
  | .blockSequenceStart => "'<block sequence start>'"
  | .blockMappingStart => "'<block mapping start>'"
  | .blockEnd => "'<block end>'"
  | .flowSequenceStart => "'['"
  | .flowSequenceEnd => "']'"
  | .flowMappingStart => "'\x7b'"
  | .flowMappingEnd => "'\x7d'"
  | .blockEntry => "'-'"
  | .flowEntry => "','"
  | .key => "'?'"
  | .value => "':'"
  | .alias _ => "'<alias>'"
  | .anchor _ => "'<anchor>'"
  | .tag _ _ => "'<tag>'"
  | .scalar _ _ => "'<scalar>'"

end TokenKind

end Playscript.Yaml
