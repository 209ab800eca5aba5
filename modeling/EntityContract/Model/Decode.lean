import EntityContract.Text.Quoted
import EntityContract.Timestamp

/-!
Reading typed values from JSON. The fields of a record are read together: of several bad ones the
first in the order of the document is reported, and a missing one only if none is bad.
-/

namespace EntityContract

inductive DecodeError where
  | missingField (name : String)
  | invalidType (received : Json) (expected : String)
  | invalidValue (received : Json) (expected : String)
  | unknownVariant (name : String) (variants : List String)
  | noVariant (type : String)
  | timestamp (cause : TimestampError)

namespace DecodeError

/-- What a value is called when it is not what was expected. -/
def describe : Json → String
  | .null => "null"
  | .bool value => s!"boolean `{value}`"
  | .num (.int value) => s!"integer `{value}`"
  | .num n => "floating point `" ++ n.text ++ "`"
  | .str text => "string " ++ Quoted.text text
  | .arr _ => "sequence"
  | .obj _ => "map"

def choices (variants : List String) : String :=
  match variants.map fun variant => s!"`{variant}`" with
  | [] => "there are no variants"
  | [only] => "expected " ++ only
  | [first, second] => "expected " ++ first ++ " or " ++ second
  | all => "expected one of " ++ ", ".intercalate all

def message : DecodeError → String
  | .missingField name => s!"missing field `{name}`"
  | .invalidType received expected =>
    "invalid type: " ++ describe received ++ ", expected " ++ expected
  | .invalidValue received expected =>
    "invalid value: " ++ describe received ++ ", expected " ++ expected
  | .unknownVariant name variants => s!"unknown variant `{name}`, " ++ choices variants
  | .noVariant type => s!"data did not match any variant of untagged enum {type}"
  | .timestamp cause => cause.message

end DecodeError

def Members.without (names : List String) (members : Members) : Members :=
  members.filter fun member => !names.contains member.1

abbrev Decoder (α : Type) := Json → Except DecodeError α

namespace Decoder

def text : Decoder String
  | .str value => .ok value
  | value => .error (.invalidType value "a string")

def flag : Decoder Bool
  | .bool value => .ok value
  | value => .error (.invalidType value "a boolean")

/-- A signed integer of 64 bits. -/
def integer : Decoder Int
  | .num (.int value) =>
    if value < Int.pow 2 63 then .ok value else .error (.invalidValue (Json.int value) "i64")
  | value => .error (.invalidType value "i64")

def list {α : Type} (item : Decoder α) : Decoder (List α)
  | .arr items => items.mapM item
  | value => .error (.invalidType value "a sequence")

def object : Decoder Members
  | .obj members => .ok members
  | value => .error (.invalidType value "a map")

def record {α : Type} (item : Decoder α) : Decoder (List (String × α))
  | .obj members => members.mapM fun (name, value) => return (name, ← item value)
  | value => .error (.invalidType value "a map")

/-- A value of a closed list of names; also written as an object with that one name and null. -/
def variant {α : Type} (variants : List (String × α)) : Decoder α
  | .str name => find name
  | .obj [(name, payload)] => do
    let value ← find name
    match payload with
    | .null => .ok value
    | _ => .error (.invalidType payload "unit")
  | .obj members => .error (.invalidValue (.obj members) "map with a single key")
  | value => .error (.invalidType value "string or map")
where
  find (name : String) : Except DecodeError α :=
    match variants.lookup name with
    | some value => .ok value
    | none => .error (.unknownVariant name (variants.map (·.1)))

def timestamp : Decoder Timestamp
  | .str text =>
    match Timestamp.ofText text with
    | .ok value => .ok value
    | .error _ =>
      .error (.timestamp (if text.isEmpty then .prematureEnd else .invalidCharacters))
  | value => .error (.invalidType value "an RFC 3339 formatted date and time string")

/-- A record: an object whose members are read by `read`. -/
def structured {α : Type} (name : String) (read : Members → Except DecodeError α) : Decoder α
  | .obj members => read members
  | value => .error (.invalidType value ("struct " ++ name))

end Decoder

/-- What reading some fields of a record brings: the values if all are there and well formed, the
bad fields, and the missing ones as declared. -/
structure FieldsRead (α : Type) where
  value? : Option α
  bad : List (String × DecodeError)
  missing : List String

structure FieldReader (α : Type) where
  read : Members → FieldsRead α

namespace FieldReader

/-- The fields of both readers are read, whether or not those of the first are well formed. -/
instance : Applicative FieldReader where
  pure value := ⟨fun _ => ⟨some value, [], []⟩⟩
  seq f x := ⟨fun members =>
    let f := f.read members
    let x := (x ()).read members
    ⟨f.value?.bind x.value?.map, f.bad ++ x.bad, f.missing ++ x.missing⟩⟩

/-- A field, or what its absence brings. -/
def orAbsent {α : Type} (name : String) (decode : Decoder α) (absent : FieldsRead α) :
    FieldReader α where
  read members :=
    match members.lookup name with
    | none => absent
    | some value =>
      match decode value with
      | .ok value => ⟨some value, [], []⟩
      | .error error => ⟨none, [(name, error)], []⟩

def required {α : Type} (name : String) (decode : Decoder α) : FieldReader α :=
  orAbsent name decode ⟨none, [], [name]⟩

def withDefault {α : Type} (name : String) (decode : Decoder α) (value : α) : FieldReader α :=
  orAbsent name decode ⟨some value, [], []⟩

/-- A field that may be absent or null. -/
def optional {α : Type} (name : String) (decode : Decoder α) : FieldReader (Option α) :=
  orAbsent name (fun
    | .null => .ok none
    | value => (decode value).map some) ⟨some none, [], []⟩

def extra (names : List String) : FieldReader Members where
  read members := ⟨some (members.without names), [], []⟩

/-- The first bad field in the order of the document, or else the first missing one as declared. -/
def run {α : Type} (reader : FieldReader α) (members : Members) : Except DecodeError α :=
  let result := reader.read members
  let bad := members.findSome? fun member => result.bad.lookup member.1
  match bad, result.missing, result.value? with
  | some error, _, _ => .error error
  | none, name :: _, _ => .error (.missingField name)
  | none, [], some value => .ok value
  | none, [], none => .error (.missingField "")

end FieldReader

namespace Encode

/-- A member that is written only when there is a value. -/
def optional {α : Type} (name : String) (encode : α → Json) : Option α → Members
  | some value => [(name, encode value)]
  | none => []

end Encode

end EntityContract
