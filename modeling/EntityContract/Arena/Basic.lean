import EntityContract.Shape.Basic

/-!
Compiled shapes: nodes in an array that refer to each other by their index, so that entities may
refer to themselves.
-/

namespace EntityContract

abbrev NodeId := Nat

/-- A declared field: the node that checks it, and what its absence means. -/
structure FieldNode where
  name : String
  node : NodeId
  required : Bool
  default? : Option Json

/-- A variant of a union under the name that reports use. -/
structure Variant where
  label : String
  node : NodeId

inductive Node where
  /-- The place of an entity that is still being compiled. -/
  | pending
  | string (format : StringFormat)
  | integer
  | number
  | boolean
  | unknown
  | literal (value : Json)
  | enum (options : List String)
  | array (item : NodeId)
  | record (value : NodeId)
  | object (fields : List FieldNode) (policy : UnknownFields)
  | union (variants : List Variant)
  | intersection (left right : NodeId)
  | entity (key : String) (target : NodeId)
  deriving Inhabited

def FieldNode.find? (fields : List FieldNode) (name : String) : Option FieldNode :=
  fields.find? (·.name == name)

structure Arena where
  nodes : Array Node

namespace Arena

def size (arena : Arena) : Nat := arena.nodes.size

/-- The node at an index; a place outside the array is as good as one that is pending. -/
def node (arena : Arena) (id : NodeId) : Node := arena.nodes[id]?.getD .pending

/-- Follows at most so many entities to the node that does the checking. -/
def resolveWithin (arena : Arena) : Nat → NodeId → NodeId
  | 0, id => id
  | steps + 1, id =>
    match arena.node id with
    | .entity _ target => arena.resolveWithin steps target
    | _ => id

/-- Follows entities to the node that does the checking. -/
def resolve (arena : Arena) (id : NodeId) : NodeId := arena.resolveWithin arena.size id

/-- The names that the objects behind a node declare; intersections declare those of both sides. -/
def declares (arena : Arena) (side : NodeId → List String) (id : NodeId) : List String :=
  match arena.node (arena.resolve id) with
  | .object fields _ => fields.map (·.name)
  | .intersection left right => side left ++ side right
  | _ => []

def declaredWithin (arena : Arena) : Nat → NodeId → List String
  | 0 => fun _ => []
  | steps + 1 => arena.declares (arena.declaredWithin steps)

/-- The search goes as deep as there are nodes, which is deep enough in a compiled arena. -/
def declared (arena : Arena) (id : NodeId) : List String :=
  arena.declaredWithin (arena.size + 1) id

end Arena

end EntityContract
