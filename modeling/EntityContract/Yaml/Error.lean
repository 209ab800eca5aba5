import EntityContract.Yaml.Character

/-!
Why a YAML text has no value.
-/

namespace EntityContract.Yaml

inductive Flaw where
  | unexpectedCharacter
  | unclosedText
  | boundaryInText
  | unknownEscape
  | tabAsIndentation
  | badHeader
  | badAnchor
  | badTag
  | badDirective
  | ambiguousColon
  | missingColon
  | misplacedEntry
  | misplacedKey
  | misplacedValue
  deriving DecidableEq, Repr

def Flaw.message : Flaw → String
  | .unexpectedCharacter => "no token starts with this character"
  | .unclosedText => "the quoted text is not closed"
  | .boundaryInText => "a document boundary stands inside a quoted text"
  | .unknownEscape => "unknown escape"
  | .tabAsIndentation => "a tab stands where indentation is expected"
  | .badHeader => "malformed header of a block text"
  | .badAnchor => "malformed anchor"
  | .badTag => "malformed tag"
  | .badDirective => "malformed directive"
  | .ambiguousColon => "a colon stands before an indicator"
  | .missingColon => "no colon behind a key"
  | .misplacedEntry => "a sequence entry is not allowed here"
  | .misplacedKey => "a mapping key is not allowed here"
  | .misplacedValue => "a mapping value is not allowed here"

end Yaml

/-- Why a YAML text has no value, or not one of the expected form. -/
inductive YamlError where
  | illegalCharacter (c : Char)
  | flawed (flaw : Yaml.Flaw) (mark : Yaml.Mark)
  | badStructure
  | badDirectives
  | undefinedHandle (handle : String)
  | undefinedAnchor (anchor : String)
  | moreThanOneDocument
  | tooDeep
  | tooManyAliases
  | hugeInteger (text : String)
  | untyped (text expected : String)
  | emptyTag
  | repeatedKey
  | unexpected (expected : String)
  | repeatedField (name : String)
  deriving DecidableEq, Repr

def YamlError.message : YamlError → String
  | .illegalCharacter c => s!"the character {c.toNat} is not allowed"
  | .flawed flaw mark => flaw.message ++ s!" at line {mark.line + 1} column {mark.column + 1}"
  | .badStructure => "the parts of the text do not fit together"
  | .badDirectives => "the directives do not fit together"
  | .undefinedHandle handle => s!"undefined tag handle {handle}"
  | .undefinedAnchor anchor => s!"unknown anchor {anchor}"
  | .moreThanOneDocument => "the text holds more than one document"
  | .tooDeep => "collections are nested too deeply"
  | .tooManyAliases => "too many aliases are followed"
  | .hugeInteger text => s!"the integer {text} does not fit 64 bits"
  | .untyped text expected => s!"{text} is not {expected}"
  | .emptyTag => "empty tag"
  | .repeatedKey => "a key occurs twice in one mapping"
  | .unexpected expected => s!"expected {expected}"
  | .repeatedField name => s!"duplicate field {name}"

end EntityContract
