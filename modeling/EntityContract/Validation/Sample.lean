import EntityContract.Validation.Walk

/-!
The smallest document for a node: required fields only, the first of a closed list, the first
variant of a union, and empty collections.
-/

namespace EntityContract.Sample

def string : StringFormat → String
  | .any => ""
  | .uri => "https://example.com"
  | .dateTime => "1970-01-01T00:00:00Z"

/-- The sample of a node below the entities on the way, given the samples of other nodes. An entity
that is asked for below itself has no finite sample and gives null. -/
def visit (arena : Arena) (sample : List NodeId → NodeId → Json) (onTheWay : List NodeId)
    (id : NodeId) : Json :=
  match arena.node id with
  | .pending => .null
  | .unknown => .null
  | .entity _ target => if onTheWay.contains id then .null else sample (id :: onTheWay) target
  | .string format => .str (string format)
  | .integer => Json.int 0
  | .number => Json.int 0
  | .boolean => .bool false
  | .literal value => value
  | .enum options => (options.head?.map .str).getD .null
  | .array _ => .arr []
  | .record _ => .obj []
  | .object fields _ =>
    .obj (Members.ofWritten ((fields.filter (·.required)).map fun field =>
      (field.name, sample onTheWay field.node)))
  | .union variants =>
    (variants.head?.map fun variant => sample onTheWay variant.node).getD .null
  | .intersection left right =>
    Json.mergeOutputs (sample onTheWay left) (sample onTheWay right) none

/-- The sample below at most so many nodes. -/
def generate (arena : Arena) : Nat → List NodeId → NodeId → Json
  | 0 => fun _ _ => .null
  | steps + 1 => visit arena (generate arena steps)

/-- Each entity is on the way once, and from one to the next nodes are met in falling order: so the
bound is never met in a compiled arena. -/
def minimal (arena : Arena) (root : NodeId) : Json :=
  generate arena ((arena.size + 1) * (arena.size + 1)) [] root

end EntityContract.Sample
