import EntityContract.Shape.Definition
import EntityContract.Text.Blank

/-!
The registry: the entities of a schema document by name, in document order. Every definition is
read when it is indexed, so a registry holds shapes only, and no entity in it refers to itself
without an object, array or record in between.
-/

namespace EntityContract

/-- A named definition and the shape that it describes. -/
structure Entity where
  name : String
  definition : Json
  shape : Shape

structure Registry where
  entities : List Entity

/-- Why a schema document has no registry. -/
inductive LoadError where
  | notAnObject
  | missingContainer (pointer : String)
  | emptyKey
  | duplicateKey (name : String)
  | invalidDefinition (name : String) (cause : DefinitionError)
  | unguardedRecursion (name : String)
  deriving DecidableEq, Repr

namespace LoadError

def message : LoadError → String
  | .notAnObject => "schema document must be an object"
  | .missingContainer pointer => s!"schema document has no object at '{pointer}'"
  | .emptyKey => "entity name cannot be empty"
  | .duplicateKey name => s!"duplicate entity in schema document: {name}"
  | .invalidDefinition name cause =>
    s!"invalid definition for entity '{name}': " ++ cause.message
  | .unguardedRecursion name =>
    s!"entity '{name}' refers to itself without an enclosing object or array"

end LoadError

structure UnknownReference where
  key : String
  deriving DecidableEq, Repr

def UnknownReference.message (error : UnknownReference) : String :=
  s!"unknown schema reference: {error.key}"

namespace Shape

mutual

/-- The keys that a value of the shape is checked against before any of its parts is. -/
def unguarded : Shape → List String
  | .ref key => [key]
  | .optional inner _ => inner.unguarded
  | .union variants => unguardedVariants variants
  | .intersection left right => left.unguarded ++ right.unguarded
  | _ => []

def unguardedVariants : List Shape → List String
  | [] => []
  | shape :: shapes => shape.unguarded ++ unguardedVariants shapes

end

end Shape

namespace Registry

def empty : Registry := ⟨[]⟩

def get? (registry : Registry) (key : String) : Option Entity :=
  registry.entities.find? (·.name == key)

def shape? (registry : Registry) (key : String) : Option Shape := (registry.get? key).map (·.shape)

def contains (registry : Registry) (key : String) : Bool := (registry.get? key).isSome

def entity (registry : Registry) (key : String) : Except UnknownReference Entity :=
  match registry.get? key with
  | some entity => .ok entity
  | none => .error ⟨key⟩

def names (registry : Registry) : List String := registry.entities.map (·.name)

def size (registry : Registry) : Nat := registry.entities.length

/-- The keys that the entity of a key refers to unguarded; none if it is not registered. -/
def unguarded (registry : Registry) (key : String) : List String :=
  ((registry.shape? key).map Shape.unguarded).getD []

/-- `keys` and the keys that they reach in at most so many unguarded steps. -/
def reach (registry : Registry) (keys : List String) : Nat → List String
  | 0 => keys
  | steps + 1 =>
    let further := (keys.flatMap registry.unguarded).filter fun key => !keys.contains key
    if further = [] then keys else registry.reach (keys ++ further.eraseDups) steps

/-- Does the entity reach itself by unguarded references? A shortest such path visits no entity
twice, so as many steps as there are entities are enough. -/
def isUnguarded (registry : Registry) (name : String) : Bool :=
  (registry.reach (registry.unguarded name).eraseDups registry.size).contains name

/-- Reads the definitions one after the other; a name is neither blank nor taken. -/
def readEntries (entities : List Entity) : List (String × Json) → Except LoadError (List Entity)
  | [] => .ok entities
  | (name, definition) :: entries =>
    if isBlankText name then .error .emptyKey
    else if entities.any (·.name == name) then .error (.duplicateKey name)
    else match Shape.ofDefinition definition with
      | .ok shape => readEntries (entities ++ [⟨name, definition, shape⟩]) entries
      | .error cause => .error (.invalidDefinition name cause)

/-- Indexes names and definitions in their order. -/
def ofEntries (entries : List (String × Json)) : Except LoadError Registry := do
  let registry : Registry := ⟨← readEntries [] entries⟩
  match registry.entities.find? fun entity => registry.isUnguarded entity.name with
  | some entity => .error (.unguardedRecursion entity.name)
  | none => .ok registry

def containerPointer : String := "/components/schemas"

def ofDocument (document : Json) : Except LoadError Registry :=
  if !document.isObject then .error .notAnObject
  else match (document.get? "components").bind (·.get? "schemas") with
    | some (.obj entries) => ofEntries entries
    | _ => .error (.missingContainer containerPointer)

end Registry

end EntityContract
