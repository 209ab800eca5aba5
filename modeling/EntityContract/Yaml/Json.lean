import EntityContract.Yaml.Value

/-!
YAML as JSON. A document is read as a YAML value and then written as JSON: keys that are numbers or
truth values become texts, and a tagged value becomes an object with the tag as its key. The value
of a data file is read without that step: each key is the text that stands in the file.
-/

namespace EntityContract.Yaml

namespace Scalar

/-- Numbers that are not finite have no JSON form and become null. -/
def json : Scalar → Json
  | .null | .infinity _ | .notANumber => .null
  | .bool value => .bool value
  | .num value => .num value
  | .str value => .str value

def keyText? : Scalar → Option String
  | .bool value => some (if value then "true" else "false")
  | .num value => some value.text
  | .str value => some value
  | _ => none

end Scalar

namespace Value

def keyText? : Value → Option String
  | .scalar value => value.keyText?
  | _ => none

mutual

/-- The tree of JSON values that a value is written as; none if a key has no text. Keys that are
different in YAML may be the same text here. -/
def json? : Value → Option Json
  | .scalar value => some value.json
  | .sequence items => (jsonItems? items).map .arr
  | .mapping pairs => (jsonMembers? pairs).map .obj
  | .tagged tag value => (json? value).map fun value => .obj [("!" ++ tag, value)]

def jsonItems? : List Value → Option (List Json)
  | [] => some []
  | item :: items => do return (← json? item) :: (← jsonItems? items)

def jsonMembers? : List (Value × Value) → Option Members
  | [] => some []
  | (key, value) :: pairs => do return (← keyText? key, ← json? value) :: (← jsonMembers? pairs)

end

end Value

namespace Tree

def untagged (tag : Option String) : Except YamlError Unit :=
  if tag.any (·.startsWith "!") then .error (.unexpected "a value without a local tag") else .ok ()

mutual

/-- The tree of JSON values that a tree stands for, repeated keys included. Local tags have no
meaning here. -/
def json : Tree → Except YamlError Json
  | .scalar tag style text => do
    untagged tag
    return (← Scalar.ofTagged tag (style = .plain) text).json
  | .sequence tag items => do
    untagged tag
    return .arr (← jsonItems items)
  | .mapping tag pairs => do
    untagged tag
    return .obj (← jsonMembers pairs)

def jsonItems : List Tree → Except YamlError (List Json)
  | [] => .ok []
  | item :: items => do return (← json item) :: (← jsonItems items)

def jsonMembers : List (Tree × Tree) → Except YamlError Members
  | [] => .ok []
  | (.scalar _ _ key, value) :: pairs => do return (key, ← json value) :: (← jsonMembers pairs)
  | _ :: _ => .error (.unexpected "a text as key")

end

end Tree

def readJson (text : String) : Except YamlError Json := do
  match ← (← Document.ofText text).tree? with
  | some tree => return (← tree.json).distinct
  | none => return .null

end EntityContract.Yaml
