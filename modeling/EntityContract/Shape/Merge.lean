import EntityContract.Shape.Basic

/-!
Two objects that a value must both satisfy, as one object.
-/

namespace EntityContract.Shape

/-- What a value must be that is declared twice. -/
def both (ours theirs : Shape) : Shape :=
  if ours.same theirs then ours else .intersection ours theirs

/-- A field declared on both sides: both shapes, required if either side requires it, otherwise
with the first default. -/
def mergeField (ours theirs : Shape) : Shape :=
  let shape := both ours.present theirs.present
  if !ours.isOptional || !theirs.isOptional then shape
  else match ours.default?.or theirs.default? with
    | some value => shape.withDefault value
    | none => shape.orAbsent

/-- Merges a field into the first one of its name, or appends it. -/
def mergeInto (name : String) (theirs : Shape) : Fields → Fields
  | [] => [(name, theirs)]
  | (other, ours) :: fields =>
    if other = name then (other, mergeField ours theirs) :: fields
    else (other, ours) :: mergeInto name theirs fields

def mergeFields (base overlay : Fields) : Fields :=
  overlay.foldl (fun fields field => mergeInto field.1 field.2 fields) base

/-- One side that passes undeclared fields through is enough. -/
def mergePolicy (base overlay : UnknownFields) : UnknownFields :=
  if base = .passthrough ∨ overlay = .passthrough then .passthrough else .strip

end EntityContract.Shape

namespace EntityContract.ObjectShape

/-- The fields of `base` in their order, then the new ones of `overlay`. -/
def merge (base overlay : ObjectShape) : ObjectShape :=
  ⟨Shape.mergeFields base.fields overlay.fields, Shape.mergePolicy base.policy overlay.policy⟩

end EntityContract.ObjectShape
