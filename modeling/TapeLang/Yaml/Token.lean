/-!
# The tokens of a YAML text

Indentation shows in the tokens: a block starts and ends with a token of its own, and a key that was
recognized by the colon after it has a token in front.
-/

namespace TapeLang.Yaml

/-- How a scalar is written. -/
inductive ScalarStyle where
  | plain
  /-- In quotes, or as a block of lines. -/
  | marked
  deriving DecidableEq, Repr

/-- What a token stands for. -/
inductive TokenKind where
  | streamStart
  | streamEnd
  | versionDirective (major minor : Nat)
  | tagDirective (handle stem : String)
  | documentStart
  | documentEnd
  | blockSequenceStart
  | blockMappingStart
  | blockEnd
  | flowSequenceStart
  | flowSequenceEnd
  | flowMappingStart
  | flowMappingEnd
  | blockEntry
  | flowEntry
  | key
  | value
  | reference (name : String)
  | anchor (name : String)
  /-- A tag with an empty handle is complete. -/
  | tag (handle suffix : String)
  | scalar (style : ScalarStyle) (text : String)
  deriving DecidableEq, Repr

/-- A token, and the line where it starts. -/
structure Token where
  kind : TokenKind
  line : Nat
  deriving DecidableEq, Repr

end TapeLang.Yaml
