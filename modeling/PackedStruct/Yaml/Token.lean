import PackedStruct.Yaml.Cursor
/-!
The tokens of a YAML text. Indentation appears among them as the starts and ends of block
collections.
-/

namespace PackedStruct.Yaml

inductive Token where
  | version (major minor : Nat)
  | tagDirective (handle lead : String)
  | documentStart
  | documentEnd
  | blockSequenceStart
  | blockMappingStart
  | blockEnd
  | flowSequenceStart
  | flowSequenceEnd
  | flowMappingStart
  | flowMappingEnd
  | blockEntry
  | flowEntry
  | key
  | value
  | alias (name : String)
  | anchor (name : String)
  | tag (handle suffix : String)
  /-- The text of a scalar, and whether it stood there without quotes. -/
  | scalar (plain : Bool) (text : String)
  deriving DecidableEq, Repr

end PackedStruct.Yaml
