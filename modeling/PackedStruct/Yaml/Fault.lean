/-!
Why a text is not one YAML document.
-/

namespace PackedStruct.Yaml

inductive Fault where
  | badCharacter
  | noToken
  | noColon
  | notAllowedHere
  | badTab
  | unfinishedText
  | badEscape
  | badHeader
  | badDirective
  | badAnchor
  | badTag
  | noContent
  | noSeparator
  | notOneDocument
  | unknownAlias
  | tooDeep
  | tooManyAliases
  | duplicateKey
  | badNumber
  deriving DecidableEq, Repr

def Fault.message : Fault → String
  | .badCharacter => "control characters are not allowed"
  | .noToken => "found a character that cannot start a token"
  | .noColon => "did not find ':' after a key"
  | .notAllowedHere => "found an indicator that is not allowed in this context"
  | .badTab => "found a tab where indentation is expected"
  | .unfinishedText => "found the end of the document inside quoted text"
  | .badEscape => "found an unknown escape in quoted text"
  | .badHeader => "found a malformed header of a block of text"
  | .badDirective => "found a malformed directive"
  | .badAnchor => "found an anchor or alias without a name"
  | .badTag => "found a malformed or undefined tag"
  | .noContent => "did not find a node"
  | .noSeparator => "did not find the next item or the end of a collection"
  | .notOneDocument => "found more than one document"
  | .unknownAlias => "found an alias without an anchor"
  | .tooDeep => "collections are nested too deeply"
  | .tooManyAliases => "aliases are repeated too often"
  | .duplicateKey => "found a key twice in a mapping"
  | .badNumber => "found a number that is out of range"

end PackedStruct.Yaml
