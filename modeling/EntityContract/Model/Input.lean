import EntityContract.Model.Decode

/-!
Configurable values of a server: inputs, inputs whose text refers to further inputs, and the
arguments and settings made of them.
-/

namespace EntityContract

open FieldReader (required withDefault optional)

inductive InputFormat where
  | string
  | number
  | boolean
  | filepath
  deriving DecidableEq, Repr

namespace InputFormat

def decode : Decoder InputFormat := Decoder.variant
  [("string", .string), ("number", .number), ("boolean", .boolean), ("filepath", .filepath)]

def encode : InputFormat → Json
  | .string => .str "string"
  | .number => .str "number"
  | .boolean => .str "boolean"
  | .filepath => .str "filepath"

end InputFormat

structure Input where
  description : Option String
  isRequired : Bool
  format : InputFormat
  /-- A fixed text, which may name variables. -/
  value : Option String
  isSecret : Bool
  /-- The text when the user gives none. -/
  default? : Option String
  choices : Option (List String)
  extra : Members

namespace Input

def fieldNames : List String :=
  ["description", "isRequired", "format", "value", "isSecret", "default", "choices"]

def ofMembers : Members → Except DecodeError Input := FieldReader.run <|
  Input.mk <$> optional "description" .text
    <*> withDefault "isRequired" .flag false
    <*> withDefault "format" InputFormat.decode .string
    <*> optional "value" .text
    <*> withDefault "isSecret" .flag false
    <*> optional "default" .text
    <*> optional "choices" (.list .text)
    <*> FieldReader.extra fieldNames

def decode : Decoder Input := .structured "Input" ofMembers

def toMembers (input : Input) : Members :=
  Encode.optional "description" .str input.description ++
    [("isRequired", .bool input.isRequired), ("format", input.format.encode)] ++
    Encode.optional "value" .str input.value ++
    [("isSecret", .bool input.isSecret)] ++
    Encode.optional "default" .str input.default? ++
    Encode.optional "choices" (fun choices => .arr (choices.map .str)) input.choices ++
    input.extra

def encode (input : Input) : Json := .obj input.toMembers

end Input

/-- An input whose value may name further inputs, which are kept in the order of their names. -/
structure InputWithVariables where
  input : Input
  parts : Option (List (String × Input))

namespace InputWithVariables

/-- Puts a name where its order wants it; a name that is there gets the new input. -/
def insertVariable (name : String) (input : Input) : List (String × Input) → List (String × Input)
  | [] => [(name, input)]
  | (other, old) :: rest =>
    if name = other then (name, input) :: rest
    else if name < other then (name, input) :: (other, old) :: rest
    else (other, old) :: insertVariable name input rest

def sortVariables (parts : List (String × Input)) : List (String × Input) :=
  parts.foldl (fun sorted entry => insertVariable entry.1 entry.2 sorted) []

def ofMembers (members : Members) : Except DecodeError InputWithVariables := do
  let parts ← (optional "variables" (.record Input.decode)).run members
  let input ← Input.ofMembers (members.without ["variables"])
  return ⟨input, parts.map sortVariables⟩

def decode : Decoder InputWithVariables := .structured "InputWithVariables" ofMembers

def toMembers (input : InputWithVariables) : Members :=
  input.input.toMembers ++
    Encode.optional "variables"
      (fun parts => .obj (parts.map fun entry => (entry.1, entry.2.encode)))
      input.parts

def encode (input : InputWithVariables) : Json := .obj input.toMembers

end InputWithVariables

inductive NamedArgumentType where
  | named
  deriving DecidableEq, Repr

namespace NamedArgumentType

def decode : Decoder NamedArgumentType := Decoder.variant [("named", .named)]

def encode : NamedArgumentType → Json
  | .named => .str "named"

end NamedArgumentType

structure NamedArgument where
  base : InputWithVariables
  type : NamedArgumentType
  name : String
  isRepeated : Bool

namespace NamedArgument

def ofMembers (members : Members) : Except DecodeError NamedArgument := do
  let (type, name, isRepeated) ← FieldReader.run
    ((·, ·, ·) <$> required "type" NamedArgumentType.decode
      <*> required "name" .text
      <*> withDefault "isRepeated" .flag false) members
  let base ← InputWithVariables.ofMembers (members.without ["type", "name", "isRepeated"])
  return ⟨base, type, name, isRepeated⟩

def decode : Decoder NamedArgument := .structured "NamedArgument" ofMembers

def toMembers (argument : NamedArgument) : Members :=
  argument.base.toMembers ++ [("type", argument.type.encode), ("name", .str argument.name),
    ("isRepeated", .bool argument.isRepeated)]

def encode (argument : NamedArgument) : Json := .obj argument.toMembers

end NamedArgument

inductive Argument where
  | named (argument : NamedArgument)
  | positional (argument : InputWithVariables)

namespace Argument

/-- A named argument if the value is one; a positional one would be read from any object. -/
def decode : Decoder Argument := fun value =>
  match NamedArgument.decode value, InputWithVariables.decode value with
  | .ok argument, _ => .ok (.named argument)
  | .error _, .ok argument => .ok (.positional argument)
  | .error _, .error _ => .error (.noVariant "Argument")

def encode : Argument → Json
  | .named argument => argument.encode
  | .positional argument => argument.encode

end Argument

/-- A setting that is given by name, such as an environment variable. -/
structure KeyValueInput where
  base : InputWithVariables
  name : String

namespace KeyValueInput

def ofMembers (members : Members) : Except DecodeError KeyValueInput := do
  let name ← (required "name" .text).run members
  let base ← InputWithVariables.ofMembers (members.without ["name"])
  return ⟨base, name⟩

def decode : Decoder KeyValueInput := .structured "KeyValueInput" ofMembers

def toMembers (input : KeyValueInput) : Members :=
  input.base.toMembers ++ [("name", .str input.name)]

def encode (input : KeyValueInput) : Json := .obj input.toMembers

end KeyValueInput

end EntityContract
