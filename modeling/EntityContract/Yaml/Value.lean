import EntityContract.Yaml.Document
import EntityContract.Yaml.Scalar

/-!
The values of YAML documents. No mapping has the same key twice, where keys are compared as values:
the number `1` and the text `1` are different keys.
-/

namespace EntityContract.Yaml

inductive Value where
  | scalar (value : Scalar)
  | sequence (items : List Value)
  | mapping (pairs : List (Value × Value))
  | tagged (tag : String) (value : Value)
  deriving Repr, Inhabited

namespace Value

mutual

/-- Equality of values; mappings may list their pairs in any order. -/
def same : Value → Value → Bool
  | .scalar x, .scalar y => x.same y
  | .sequence xs, .sequence ys => sameItems xs ys
  | .mapping xs, .mapping ys => xs.length == ys.length && samePairs xs ys
  | .tagged tag x, .tagged tag' y => tag == tag' && same x y
  | _, _ => false

def sameItems : List Value → List Value → Bool
  | [], [] => true
  | x :: xs, y :: ys => same x y && sameItems xs ys
  | _, _ => false

/-- Each pair of the first mapping has an equal one in the second. -/
def samePairs : List (Value × Value) → List (Value × Value) → Bool
  | [], _ => true
  | (key, value) :: xs, ys =>
    ys.any (fun (key', value') => same key key' && same value value') && samePairs xs ys

end

/-- The name of a local tag: what follows its `!`. Other tags have none. -/
def localTag? : Option String → Except YamlError (Option String)
  | none => .ok none
  | some tag =>
    match tag.toList with
    | ['!'] => .error .emptyTag
    | '!' :: '!' :: c :: name => .ok (some (String.ofList (c :: name)))
    | '!' :: name => .ok (some (String.ofList name))
    | _ => .ok none

def withTag (tag : Option String) (value : Value) : Except YamlError Value :=
  (localTag? tag).map fun
    | some name => .tagged name value
    | none => value

def hasRepeatedKey : List (Value × Value) → Bool
  | [] => false
  | (key, _) :: pairs => pairs.any (fun (key', _) => same key key') || hasRepeatedKey pairs

mutual

def ofTree : Tree → Except YamlError Value
  | .scalar tag style text => do
    withTag tag (.scalar (← Scalar.ofTagged tag (style = .plain) text))
  | .sequence tag items => do withTag tag (.sequence (← ofItems items))
  | .mapping tag pairs => do
    let pairs ← ofPairs pairs
    if hasRepeatedKey pairs then throw .repeatedKey
    withTag tag (.mapping pairs)

def ofItems : List Tree → Except YamlError (List Value)
  | [] => .ok []
  | item :: items => do return (← ofTree item) :: (← ofItems items)

def ofPairs : List (Tree × Tree) → Except YamlError (List (Value × Value))
  | [] => .ok []
  | (key, value) :: pairs => do return (← ofTree key, ← ofTree value) :: (← ofPairs pairs)

end

/-- The value of a text; an empty one is null. -/
def ofText (text : String) : Except YamlError Value := do
  match ← (← Document.ofText text).tree? with
  | some tree => ofTree tree
  | none => return .scalar .null

end Value

end EntityContract.Yaml
