import EntityContract.Json.Basic

/-!
The entity model: a shape describes the values that a document may hold at some place. Shapes are
plain trees; an entity refers to another one, or to itself, by its key.
-/

namespace EntityContract

/-- A further constraint on strings. -/
inductive StringFormat where
  | any
  | uri
  | dateTime
  deriving DecidableEq, Repr

namespace StringFormat

def name? : StringFormat → Option String
  | .any => none
  | .uri => some "uri"
  | .dateTime => some "date-time"

/-- The format that a schema document names; a name that is not known constrains nothing. -/
def ofName (name : String) : StringFormat :=
  if name = "uri" ∨ name = "url" then .uri
  else if name = "date-time" then .dateTime
  else .any

end StringFormat

/-- What an object does with the fields that it does not declare. Neither policy rejects them. -/
inductive UnknownFields where
  | strip
  | passthrough
  deriving DecidableEq, Repr

inductive Shape where
  | string (format : StringFormat)
  | integer
  | number
  | boolean
  /-- Anything, also null. -/
  | unknown
  /-- Exactly this value. -/
  | literal (value : Json)
  /-- One of a closed list of strings. -/
  | enum (options : List String)
  | array (item : Shape)
  /-- Any keys, all values of one shape. -/
  | record (value : Shape)
  /-- Declared fields in their order, and a policy for the others. -/
  | object (fields : List (String × Shape)) (policy : UnknownFields)
  /-- May be absent; then the default, if there is one, is filled in. -/
  | optional (inner : Shape) (default? : Option Json)
  | union (variants : List Shape)
  | intersection (left right : Shape)
  /-- The entity of this key. -/
  | ref (key : String)
  deriving Repr, Inhabited

abbrev Fields := List (String × Shape)

structure ObjectShape where
  fields : Fields
  policy : UnknownFields
  deriving Repr

namespace ObjectShape

def toShape (object : ObjectShape) : Shape := .object object.fields object.policy

def field? (object : ObjectShape) (name : String) : Option Shape := object.fields.lookup name

end ObjectShape

namespace Shape

def isOptional : Shape → Bool
  | .optional _ _ => true
  | _ => false

def orAbsent : Shape → Shape
  | .optional inner default? => .optional inner default?
  | shape => .optional shape none

/-- Makes absence valid and has `value` filled in. -/
def withDefault (value : Json) : Shape → Shape
  | .optional inner _ => .optional inner (some value)
  | shape => .optional shape (some value)

/-- Gives an object, also an optional one, another policy for undeclared fields. -/
def withPolicy (policy : UnknownFields) : Shape → Shape
  | .object fields _ => .object fields policy
  | .optional inner default? => .optional (inner.withPolicy policy) default?
  | shape => shape

/-- Makes every field of an object, also of an optional one, optional. -/
def withFieldsOptional : Shape → Shape
  | .object fields policy => .object (fields.map fun field => (field.1, field.2.orAbsent)) policy
  | .optional inner default? => .optional inner.withFieldsOptional default?
  | shape => shape

/-- The shape that a present value must have, and the outermost default. -/
def presence : Shape → Shape × Option Json
  | .optional inner default? =>
    let (shape, further) := inner.presence
    (shape, default?.or further)
  | shape => (shape, none)

/-- What a value that is present must be: the shape without optional wrappers. -/
def present (shape : Shape) : Shape := shape.presence.1

def default? (shape : Shape) : Option Json := shape.presence.2

mutual

/-- Every key that the shape refers to, in order, references not followed. -/
def mentions : Shape → List String
  | .ref key => [key]
  | .array inner | .record inner | .optional inner _ => inner.mentions
  | .object fields _ => mentionsFields fields
  | .union variants => mentionsVariants variants
  | .intersection left right => left.mentions ++ right.mentions
  | _ => []

def mentionsFields : Fields → List String
  | [] => []
  | (_, shape) :: fields => shape.mentions ++ mentionsFields fields

def mentionsVariants : List Shape → List String
  | [] => []
  | shape :: shapes => shape.mentions ++ mentionsVariants shapes

end

/-- The keys that the shape refers to, each where it is first used. -/
def references (shape : Shape) : List String := shape.mentions.eraseDups

mutual

/-- Equality of shapes; literals and defaults are compared as values. -/
def same : Shape → Shape → Bool
  | .string x, .string y => x == y
  | .integer, .integer => true
  | .number, .number => true
  | .boolean, .boolean => true
  | .unknown, .unknown => true
  | .literal x, .literal y => x.same y
  | .enum xs, .enum ys => xs == ys
  | .array x, .array y => x.same y
  | .record x, .record y => x.same y
  | .object xs policy, .object ys policy' => policy == policy' && sameFields xs ys
  | .optional x none, .optional y none => x.same y
  | .optional x (some d), .optional y (some d') => x.same y && d.same d'
  | .union xs, .union ys => sameVariants xs ys
  | .intersection x x', .intersection y y' => x.same y && x'.same y'
  | .ref x, .ref y => x == y
  | _, _ => false

def sameFields : Fields → Fields → Bool
  | [], [] => true
  | (name, x) :: xs, (name', y) :: ys => name == name' && x.same y && sameFields xs ys
  | _, _ => false

def sameVariants : List Shape → List Shape → Bool
  | [], [] => true
  | x :: xs, y :: ys => x.same y && sameVariants xs ys
  | _, _ => false

end

end Shape

end EntityContract
