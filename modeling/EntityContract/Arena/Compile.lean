import EntityContract.Arena.Basic
import EntityContract.Registry.Flatten

/-!
Compiling shapes into an arena. An entity gets its place before its shape is compiled, so each is
compiled once and later references find it. Intersections of objects become one object.
-/

namespace EntityContract

/-- Why there is no arena: a key is not registered, or merged fields lead from one merge to the
next without end. -/
inductive CompileError where
  | unknownReference (error : UnknownReference)
  | unfinished
  deriving DecidableEq, Repr

def CompileError.message : CompileError → String
  | .unknownReference error => error.message
  | .unfinished => "entities merge without end"

/-- The nodes so far, and the places of the entities. -/
structure Builder where
  nodes : Array Node
  entities : List (String × NodeId)

namespace Builder

def empty : Builder := ⟨#[], []⟩

end Builder

abbrev Build := StateT Builder (Except CompileError)

namespace Build

def push (node : Node) : Build NodeId := fun builder =>
  .ok (builder.nodes.size, { builder with nodes := builder.nodes.push node })

/-- Gives an entity the next place, still pending. -/
def reserve (key : String) : Build NodeId := fun builder =>
  let slot := builder.nodes.size
  .ok (slot, ⟨builder.nodes.push .pending, (key, slot) :: builder.entities⟩)

def fill (slot : NodeId) (node : Node) : Build Unit := fun builder =>
  .ok ((), { builder with nodes := builder.nodes.setIfInBounds slot node })

/-- The place of an entity: the one it has, or a new one that is filled with its shape. -/
def entity (registry : Registry) (compile : Shape → Build NodeId) (key : String) :
    Build NodeId := do
  match (← get).entities.lookup key with
  | some slot => return slot
  | none =>
    match registry.shape? key with
    | none => throw (.unknownReference ⟨key⟩)
    | some shape =>
      let slot ← reserve key
      let target ← compile shape
      fill slot (.entity key target)
      return slot

def field (compile : Shape → Build NodeId) (field : String × Shape) : Build FieldNode := do
  let node ← compile field.2.present
  return ⟨field.1, node, !field.2.isOptional, field.2.default?⟩

def object (compile : Shape → Build NodeId) (object : ObjectShape) : Build NodeId := do
  push (.object (← object.fields.mapM (field compile)) object.policy)

/-- A variant is called by the key that it refers to, or by its number. -/
def variantLabel (number : Nat) (variant : Shape) : String :=
  match variant.present with
  | .ref key => key
  | _ => s!"variant {number}"

def variants (compile : Shape → Build NodeId) : Nat → List Shape → Build (List Variant)
  | _, [] => return []
  | number, shape :: shapes => do
    let node ← compile shape
    return ⟨variantLabel number shape, node⟩ :: (← variants compile (number + 1) shapes)

/-- The node that checks a shape. Nested calls are at most `fuel` deep; the shape of an entity that
has no place yet is left to `enter`. -/
def shapeWith (registry : Registry) (enter : Shape → Build NodeId) : Nat → Shape → Build NodeId
  | 0, _ => throw .unfinished
  | fuel + 1, source =>
    let compile := shapeWith registry enter fuel
    match source with
    | .string format => push (.string format)
    | .integer => push .integer
    | .number => push .number
    | .boolean => push .boolean
    | .unknown => push .unknown
    | .literal value => push (.literal value)
    | .enum options => push (.enum options)
    | .array item => do push (.array (← compile item))
    | .record value => do push (.record (← compile value))
    | .object fields policy => object compile ⟨fields, policy⟩
    | .optional inner _ => compile inner
    | .union shapes => do push (.union (← variants compile 1 shapes))
    | .intersection left right =>
      match registry.flatten source with
      | some merged => object compile merged
      | none => do
        let left ← compile left
        push (.intersection left (← compile right))
    | .ref key => entity registry enter key

/-- The node that checks a shape, with fewer than so many entities entered one below the other. -/
def shapeWithin (registry : Registry) (depth : Nat) : Nat → Shape → Build NodeId
  | 0, _ => throw .unfinished
  | entities + 1, source =>
    shapeWith registry (shapeWithin registry depth entities) depth source

/-- The node that checks a shape. Nested calls are at most `depth` deep from one entity to the
next; no more entities are entered than there are, as each is entered once. -/
def shape (registry : Registry) (depth : Nat) (source : Shape) : Build NodeId :=
  shapeWithin registry depth (registry.size + 1) source

end Build

namespace Shape

mutual

def weight : Shape → Nat
  | .array inner | .record inner | .optional inner _ => inner.weight + 1
  | .object fields _ => weightFields fields + 1
  | .union variants => weightVariants variants + 1
  | .intersection left right => left.weight + right.weight + 1
  | _ => 1

def weightFields : Fields → Nat
  | [] => 0
  | (_, shape) :: fields => shape.weight + weightFields fields

def weightVariants : List Shape → Nat
  | [] => 0
  | shape :: shapes => shape.weight + weightVariants shapes

end

end Shape

namespace Registry

def weight (registry : Registry) : Nat :=
  registry.entities.foldr (fun entity total => entity.shape.weight + 1 + total) 0

/-- How deep the calls that compile a shape may be nested from one entity to the next. Each call is
for another shape; a merged one is made of declared shapes, of which there are fewer than
`2 ^ weight` sets, nested in a tree of no more. -/
def compileDepth (registry : Registry) (shape : Shape) : Nat :=
  Nat.pow 4 (registry.weight + shape.weight + 1)

end Registry

namespace Build

/-- The node that checks a shape, with calls nested as deep as they may be. -/
def complete (registry : Registry) (source : Shape) : Build NodeId :=
  shape registry (registry.compileDepth source) source

/-- A node for each of the entities, in one arena. -/
def roots (registry : Registry) (keys : List String) : Build (List (String × NodeId)) :=
  keys.mapM fun key => return (key, ← complete registry (.ref key))

def finish {α : Type} (compile : Build α) : Except CompileError (α × Arena) :=
  (compile.run .empty).map fun (result, builder) => (result, ⟨builder.nodes⟩)

end Build

end EntityContract
