import EntityContract.Shape.Basic

/-!
Reading a shape from a schema definition. The keywords are asked in a fixed order and the first
one that is present decides: `$ref`, `allOf`, `anyOf` or `oneOf`, `const`, `enum`, `type`, and
last the keywords of an object.
-/

namespace EntityContract

/-- What every reference to an entity starts with. -/
def referenceStem : String := "#/components/schemas/"

def referenceTo (key : String) : String := referenceStem ++ key

inductive DefinitionError where
  | notAnObject
  | notAString (keyword : String)
  | notAnArray (keyword : String)
  | empty (keyword : String)
  | unsupportedReference (pointer : String)
  | unsupportedType (name : String)
  | requiredEntryNotAString
  | propertiesNotAnObject
  | recordWithProperties
  | additionalPropertiesNotASchema
  | property (name : String) (cause : DefinitionError)
  deriving DecidableEq, Repr

namespace DefinitionError

def message : DefinitionError → String
  | .notAnObject => "definition must be an object"
  | .notAString keyword => s!"{keyword} must be a string"
  | .notAnArray keyword => s!"{keyword} must be an array"
  | .empty keyword => s!"{keyword} must not be empty"
  | .unsupportedReference pointer =>
    s!"unsupported reference '{pointer}', expected '{referenceStem}<Name>'"
  | .unsupportedType name => s!"unsupported type '{name}'"
  | .requiredEntryNotAString => "required entries must be strings"
  | .propertiesNotAnObject => "properties must be an object"
  | .recordWithProperties => "additionalProperties schema alongside properties is not supported"
  | .additionalPropertiesNotASchema => "additionalProperties must be a boolean or an object"
  | .property name cause => s!"property '{name}': " ++ cause.message

end DefinitionError

namespace Shape

/-- The shape that a `$ref` names. -/
def ofPointer : Json → Except DefinitionError Shape
  | .str pointer =>
    match pointer.dropPrefix? referenceStem with
    | some key =>
      if key.isEmpty then .error (.unsupportedReference pointer) else .ok (.ref key.toString)
    | none => .error (.unsupportedReference pointer)
  | _ => .error (.notAString "$ref")

/-- A list of values: strings alone are a closed list, anything else a union of literals. -/
def ofEnum : Json → Except DefinitionError Shape
  | .arr [] => .error (.empty "enum")
  | .arr values =>
    match values.mapM Json.text? with
    | some options => .ok (.enum options)
    | none => .ok (.union (values.map .literal))
  | _ => .error (.notAnArray "enum")

def requiredNames (members : Members) : Except DefinitionError (List String) :=
  match members.lookup "required" with
  | none => .ok []
  | some (.arr names) =>
    match names.mapM Json.text? with
    | some names => .ok names
    | none => .error .requiredEntryNotAString
  | some _ => .error (.notAnArray "required")

/-- A property with a default or that is not required may be absent. -/
def asField (required : List String) (name : String) (definition : Json) (shape : Shape) : Shape :=
  match definition.get? "default" with
  | some value => shape.withDefault value
  | none => if required.contains name then shape else shape.orAbsent

/-- Required names that no property declares become fields of any value. -/
def withMissing (required : List String) (fields : Fields) : Fields :=
  fields ++ ((required.eraseDups.filter fun name => !fields.any (·.1 == name)).map (·, .unknown))

def unionKeyword : String := "anyOf/oneOf"

def ofStringFormat (members : Members) : Shape :=
  match members.lookup "format" with
  | some (.str name) => .string (.ofName name)
  | _ => .string .any

/-- Keywords that make a definition without `type` an object. -/
def isObjectDefinition (members : Members) : Bool :=
  members.contains "properties" || members.contains "additionalProperties" ||
    members.contains "required"

/-- An object with the fields that `properties` declares, or a record when `additionalProperties`
is a definition; `fields` reads the one, for given required names, and `value` the other. -/
def ofObjectDefinition (members : Members) (fields : List String → Except DefinitionError Fields)
    (value : Except DefinitionError Shape) : Except DefinitionError Shape := do
  let required ← requiredNames members
  if (members.lookup "properties").any (!·.isObject) then .error .propertiesNotAnObject
  else match members.lookup "additionalProperties" with
    | none | some (.bool true) =>
      return .object (withMissing required (← fields required)) .passthrough
    | some (.bool false) => return .object (withMissing required (← fields required)) .strip
    | some (.obj _) =>
      if members.contains "properties" ∨ required ≠ [] then .error .recordWithProperties
      else return .record (← value)
    | some _ => .error .additionalPropertiesNotASchema

mutual

/-- The shape that a definition describes. -/
def ofDefinition : Json → Except DefinitionError Shape
  | .bool true => .ok .unknown
  | .obj members =>
    if let some pointer := members.lookup "$ref" then ofPointer pointer
    else if let some parts := shapesAt "allOf" "allOf" members then do
      match ← parts with
      | [] => .error (.empty "allOf")
      | first :: rest => .ok (rest.foldl .intersection first)
    else if let some variants :=
        (shapesAt "anyOf" unionKeyword members).or (shapesAt "oneOf" unionKeyword members) then do
      match ← variants with
      | [] => .error (.empty unionKeyword)
      | variants => .ok (.union variants)
    else if let some value := members.lookup "const" then .ok (.literal value)
    else if let some values := members.lookup "enum" then ofEnum values
    else match members.lookup "type" with
      | some (.str "string") => .ok (ofStringFormat members)
      | some (.str "integer") => .ok .integer
      | some (.str "number") => .ok .number
      | some (.str "boolean") => .ok .boolean
      | some (.str "null") => .ok (.literal .null)
      | some (.str "array") => do return .array (← shapeAt "items" members)
      | some (.str "object") =>
        ofObjectDefinition members (fieldsAt · members) (shapeAt "additionalProperties" members)
      | some (.str name) => .error (.unsupportedType name)
      | some _ => .error (.notAString "type")
      | none =>
        if isObjectDefinition members then
          ofObjectDefinition members (fieldsAt · members) (shapeAt "additionalProperties" members)
        else .ok .unknown
  | _ => .error .notAnObject

/-- The shape that the member `key` defines; without that member anything. -/
def shapeAt (key : String) : Members → Except DefinitionError Shape
  | [] => .ok .unknown
  | (other, definition) :: members =>
    if other = key then ofDefinition definition else shapeAt key members

def shapesAt (key keyword : String) : Members → Option (Except DefinitionError (List Shape))
  | [] => none
  | (other, .arr definitions) :: members =>
    if other = key then some (ofDefinitions definitions) else shapesAt key keyword members
  | (other, _) :: members =>
    if other = key then some (.error (.notAnArray keyword)) else shapesAt key keyword members

def fieldsAt (required : List String) : Members → Except DefinitionError Fields
  | [] => .ok []
  | (other, .obj properties) :: members =>
    if other = "properties" then ofProperties required properties else fieldsAt required members
  | (other, _) :: members =>
    if other = "properties" then .error .propertiesNotAnObject else fieldsAt required members

def ofDefinitions : List Json → Except DefinitionError (List Shape)
  | [] => .ok []
  | definition :: definitions => do
    let shape ← ofDefinition definition
    return shape :: (← ofDefinitions definitions)

def ofProperties (required : List String) : Members → Except DefinitionError Fields
  | [] => .ok []
  | (name, definition) :: properties => do
    let shape ← (ofDefinition definition).mapError (.property name)
    return (name, asField required name definition shape) :: (← ofProperties required properties)

end

end Shape

end EntityContract
