import EntityContract.Yaml.Document
import EntityContract.Yaml.Scalar

/-!
Records in YAML: mappings from names of fields to values. A name is any scalar, and stands for its
text. An empty text and a value that is left out are records without fields.
-/

namespace EntityContract.Yaml

abbrev Record := List (String × Node Nat)

/-- The field `name`, if there is one; it must not be written twice. -/
def Record.single? (name : String) (fields : Record) : Following (Option (Node Nat)) :=
  match fields.filter (·.1 == name) with
  | [] => return none
  | [(_, value)] => return some value
  | _ => throw (.repeatedField name)

namespace Document

def text (document : Document) (node : Node Nat) : Following String := do
  match ← document.follow node with
  | .scalar _ _ text => return text
  | _ => throw (.unexpected "a text")

/-- The fields of a record, and how deeply collections may be nested in it. -/
def fields (document : Document) (depth : Nat) (node : Node Nat) : Following (Record × Nat) := do
  match ← document.follow node, depth with
  | .mapping _ _, 0 => throw .tooDeep
  | .mapping _ pairs, depth + 1 =>
    return (← pairs.mapM fun (key, value) => do return (← document.text key, value), depth)
  | .scalar _ .plain "", depth => return ([], depth)
  | _, _ => throw (.unexpected "a mapping")

def rootFields (document : Document) : Following (Record × Nat) :=
  match document.root with
  | some root => document.fields depth root
  | none => return ([], depth)

def isNull (document : Document) (node : Node Nat) : Following Bool := do
  match ← document.follow node with
  | .scalar ⟨_, none⟩ .plain text => return text.isEmpty || Scalar.isNull text
  | .scalar ⟨_, some tag⟩ .plain text =>
    if tag ≠ Scalar.coreTag "null" then return false
    if Scalar.isNull text then return true
    throw (.untyped text "null")
  | _ => return false

/-- A number without sign that fits 64 bits. It is written plainly, or tagged as an integer in a
literal text. -/
def natural (document : Document) (node : Node Nat) : Following Nat := do
  match ← document.follow node with
  | .scalar properties style text =>
    let typed := style = .plain ||
      (style = .literal && properties.tag = some (Scalar.coreTag "int"))
    match Scalar.int? text.toList with
    | some (.ofNat value) =>
      if typed ∧ value < Nat.pow 2 64 then return value
      else throw (.untyped text "a natural number")
    | _ => throw (.untyped text "a natural number")
  | _ => throw (.unexpected "a natural number")

end Document

end EntityContract.Yaml
