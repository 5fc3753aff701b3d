/-!
# Tokens of YAML

The marks of a YAML text, and those that stand for its indentation: where a block starts, where
it ends, and where a word turns out to be a key.
-/

namespace TemplateModules
namespace Yaml

/-- How a scalar is written. -/
inductive Style where
  | plain
  | singleQuoted
  | doubleQuoted
  | literal
  | folded
  deriving DecidableEq, Repr

/-- A tag as it is written: a handle, which is empty for a whole tag, and what follows it. -/
structure TagText where
  handle : List Char
  /-- The bytes of what follows the handle. -/
  suffix : List UInt8
  deriving DecidableEq, Repr

inductive Token where
  /-- The version of the language that a document is written in. -/
  | version (major minor : Nat)
  /-- What a handle of tags stands for. -/
  | tagHandle (definition : TagText)
  | documentStart
  | documentEnd
  | blockSequenceStart
  | blockMappingStart
  | blockEnd
  | flowSequenceStart
  | flowSequenceEnd
  | flowMappingStart
  | flowMappingEnd
  | blockEntry
  | flowEntry
  | key
  | value
  /-- An alias. -/
  | reference (name : List Char)
  | anchor (name : List Char)
  | tag (t : TagText)
  | scalar (text : List Char) (style : Style)
  deriving DecidableEq, Repr

end Yaml
end TemplateModules
