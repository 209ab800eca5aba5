import EntityContract.Arena.Basic
import EntityContract.Validation.Violation

/-!
Walking a document along an arena. The walk goes down the document; on each value it follows
entities, unions and intersections, of which there are no more than the arena has nodes.
-/

namespace EntityContract

/-- What a walk brings: the normalized value, all violations in order, and the label of the variant
if the value was checked against a union. -/
structure Outcome where
  output : Json
  violations : List Violation
  label? : Option String

namespace Outcome

def accept (value : Json) : Outcome := ⟨value, [], none⟩

def reject (path : Path) (value : Json) (fault : Fault) : Outcome :=
  ⟨value, [⟨path, fault, []⟩], none⟩

end Outcome

namespace Json

mutual

/-- Joins what the two sides of an intersection made of one input: objects member by member,
arrays of one length element by element. Otherwise the side that changed the input wins, and the
left one if both or neither did. -/
def mergeOutputs : Json → Json → Option Json → Json
  | .obj left, .obj right, input => .obj (mergeMembers left right input ++
      right.filter fun member => !Members.contains member.1 left)
  | .arr left, .arr right, input =>
    if left.length = right.length then .arr (mergeItems left right 0 input)
    else if input.any (·.same (.arr left)) && !input.any (·.same (.arr right)) then .arr right
    else .arr left
  | left, right, input =>
    if input.any (·.same left) && !input.any (·.same right) then right else left

/-- The members of the left side, joined with those of the same key on the right. -/
def mergeMembers : Members → Members → Option Json → Members
  | [], _, _ => []
  | (key, left) :: rest, right, input =>
    (key, match right.lookup key with
      | some value => mergeOutputs left value (input.bind (·.get? key))
      | none => left) :: mergeMembers rest right input

def mergeItems : List Json → List Json → Nat → Option Json → List Json
  | left :: lefts, right :: rights, index, input =>
    mergeOutputs left right (input.bind (·.at? index)) :: mergeItems lefts rights (index + 1) input
  | _, _, _, _ => []

end

end Json

namespace Walk

abbrev Check := NodeId → Path → Outcome

/-- The checks of the parts of a value. -/
inductive Parts where
  | none
  | items (checks : List Check)
  | members (checks : List (String × Check))

def checkString (format : StringFormat) (path : Path) (value : Json) : Outcome :=
  match value with
  | .str text =>
    match format.problem? text with
    | some problem => .reject path value (.format text problem)
    | none => .accept value
  | _ => .reject path value (.type "string" value)

def checkEnum (options : List String) (path : Path) (value : Json) : Outcome :=
  match value with
  | .str text =>
    if options.contains text then .accept value else .reject path value (.enum options text)
  | _ => .reject path value (.type "string" value)

/-- Whole numbers become integers. -/
def checkInteger (path : Path) (value : Json) : Outcome :=
  match value with
  | .num n =>
    if n.isWhole then .accept (.num n.normalize) else .reject path value (.type "integer" value)
  | _ => .reject path value (.type "integer" value)

def checkNumber (path : Path) (value : Json) : Outcome :=
  match value with
  | .num _ => .accept value
  | _ => .reject path value (.type "number" value)

def checkBoolean (path : Path) (value : Json) : Outcome :=
  match value with
  | .bool _ => .accept value
  | _ => .reject path value (.type "boolean" value)

def checkLiteral (expected : Json) (path : Path) (value : Json) : Outcome :=
  if value.same expected then .accept value else .reject path value (.literal expected value)

def itemOutcomes (item : NodeId) (path : Path) : Nat → List Check → List Outcome
  | _, [] => []
  | index, check :: checks =>
    check item (path ++ [.index index]) :: itemOutcomes item path (index + 1) checks

def checkArray (item : NodeId) (path : Path) (value : Json) : Parts → Outcome
  | .items checks =>
    let outcomes := itemOutcomes item path 0 checks
    ⟨.arr (outcomes.map (·.output)), outcomes.flatMap (·.violations), none⟩
  | _ => .reject path value (.type "array" value)

def checkRecord (item : NodeId) (path : Path) (value : Json) : Parts → Outcome
  | .members checks =>
    let outcomes := checks.map fun member => (member.1, member.2 item (path ++ [.key member.1]))
    ⟨.obj (outcomes.map fun member => (member.1, member.2.output)),
      outcomes.flatMap (·.2.violations), none⟩
  | _ => .reject path value (.type "object" value)

/-- The members that an object keeps: declared ones as their nodes make them, others as they are
or not at all. -/
def memberOutcomes (fields : List FieldNode) (policy : UnknownFields) (path : Path) :
    Members → List (String × Check) → List (String × Outcome)
  | (key, value) :: members, (_, check) :: checks =>
    let rest := memberOutcomes fields policy path members checks
    match FieldNode.find? fields key with
    | some field => (key, check field.node (path ++ [.key key])) :: rest
    | none => if policy = .passthrough then (key, .accept value) :: rest else rest
  | _, _ => []

/-- What the absence of a field brings: a violation, its default, or nothing. -/
def absentField (path : Path) (field : FieldNode) : List (String × Json) × List Violation :=
  if field.required then ([], [⟨path ++ [.key field.name], .missing, []⟩])
  else match field.default? with
    | some value => ([(field.name, value)], [])
    | none => ([], [])

/-- Present members first, in the order of the document, then the absent fields as declared. -/
def checkObject (fields : List FieldNode) (policy : UnknownFields) (path : Path) (value : Json)
    (parts : Parts) : Outcome :=
  match value, parts with
  | .obj members, .members checks =>
    let present := memberOutcomes fields policy path members checks
    let absent := (fields.filter fun field => !Members.contains field.name members).map
      (absentField path)
    let filled := absent.flatMap (·.1)
    ⟨.obj (filled.foldl (fun kept member => Members.insert member.1 member.2 kept)
        (present.map fun member => (member.1, member.2.output))),
      present.flatMap (·.2.violations) ++ absent.flatMap (·.2), none⟩
  | _, _ => .reject path value (.type "object" value)

/-- The number of members that the objects behind a node declare. -/
def specificity (arena : Arena) (id : NodeId) (value : Json) : Nat :=
  match value with
  | .obj members => members.countP fun member => (arena.declared id).contains member.1
  | _ => 0

/-- The length of the longest path among violations; none without violations. -/
def deepest (violations : List Violation) : Option Nat :=
  (violations.map (·.path.length)).max?

/-- Violations deeper in the document tell more, then fewer do. -/
def outranks (candidate best : List Violation) : Bool :=
  match compare ((deepest candidate).getD 0) ((deepest best).getD 0) with
  | .gt => true
  | .lt => false
  | .eq => candidate.length < best.length

/-- What has been found among the variants of a union: the most specific one that fits, and the
one that fails best. -/
structure Selection where
  fitting : Option (Nat × String × Json)
  failing : Option (String × List Violation)

/-- Takes a variant into account; of equals the earlier one stays. -/
def Selection.add (selection : Selection) (label : String) (score : Nat) (outcome : Outcome) :
    Selection :=
  if outcome.violations.isEmpty then
    if selection.fitting.all fun best => best.1 < score then
      { selection with fitting := some (score, label, outcome.output) }
    else selection
  else if selection.failing.all fun best => outranks outcome.violations best.2 then
    { selection with failing := some (label, outcome.violations) }
  else selection

def Selection.outcome (selection : Selection) (value : Json) : Outcome :=
  match selection.fitting, selection.failing with
  | some (_, label, output), _ => ⟨output, [], some label⟩
  | none, some (label, violations) => ⟨value, violations.map (·.inVariant label), none⟩
  | none, none => .accept value

def checkUnion (arena : Arena) (variants : List Variant) (path : Path) (value : Json)
    (check : Check) : Outcome :=
  let selection : Selection := variants.foldl (fun selection variant =>
    selection.add variant.label (specificity arena variant.node value) (check variant.node path))
    ⟨none, none⟩
  selection.outcome value

/-- Both sides, with the outputs joined; the label of the right side comes first. -/
def checkIntersection (value : Json) (left right : Outcome) : Outcome :=
  ⟨Json.mergeOutputs left.output right.output (some value), left.violations ++ right.violations,
    right.label?.or left.label?⟩

/-- What a node does with a value, given the checks of the parts of the value and those of the nodes
that the value is left to as a whole. -/
def visit (arena : Arena) (value : Json) (parts : Parts) (again : Check) : Check := fun id path =>
  match arena.node id with
  | .pending => .accept value
  | .unknown => .accept value
  | .string format => checkString format path value
  | .integer => checkInteger path value
  | .number => checkNumber path value
  | .boolean => checkBoolean path value
  | .literal expected => checkLiteral expected path value
  | .enum options => checkEnum options path value
  | .array item => checkArray item path value parts
  | .record item => checkRecord item path value parts
  | .object fields policy => checkObject fields policy path value parts
  | .union variants => checkUnion arena variants path value again
  | .intersection left right => checkIntersection value (again left path) (again right path)
  | .entity _ target => again target path

/-- Checks a value whose parts can be checked, in at most so many steps that stay on the value.
The bound is never met in a compiled arena. -/
def step (arena : Arena) (value : Json) (parts : Parts) : Nat → Check
  | 0 => fun _ _ => .accept value
  | steps + 1 => visit arena value parts (step arena value parts steps)

mutual

/-- Checks a value against a node of the arena. -/
def check (arena : Arena) : Json → Check
  | .arr items => step arena (.arr items) (.items (checkItems arena items)) (arena.size + 1)
  | .obj members =>
    step arena (.obj members) (.members (checkMembers arena members)) (arena.size + 1)
  | value => step arena value .none (arena.size + 1)

def checkItems (arena : Arena) : List Json → List Check
  | [] => []
  | item :: items => check arena item :: checkItems arena items

def checkMembers (arena : Arena) : Members → List (String × Check)
  | [] => []
  | (key, value) :: members => (key, check arena value) :: checkMembers arena members

end

end Walk

end EntityContract
