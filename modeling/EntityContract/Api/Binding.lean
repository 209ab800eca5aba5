import EntityContract.Api.Endpoint
import EntityContract.Validator

/-!
Operations with their shapes compiled: requests and answers are validated as their endpoint
declares them.
-/

namespace EntityContract

/-- What a request carries; texts are as they were sent. -/
structure RequestParts where
  path : List (String × String)
  query : List (String × String)
  body : Option Json

/-- An operation and the validators of its parameters and answers. -/
structure BoundEndpoint where
  endpoint : Endpoint
  parameters : List (Parameter × Validator)
  response : Validator
  errors : List (Nat × Validator)

/-- The value that a text writes for a shape of integers, numbers or truth values. -/
def Shape.written? (shape : Shape) (text : String) : Option Json :=
  match shape with
  | .integer => (Number.int64? text.toList).map Json.int
  | .number => (Number.signedDecimal? text.toList).map fun value => .num (.float value)
  | .boolean =>
    if text = "true" then some (.bool true) else if text = "false" then some (.bool false) else none
  | _ => none

/-- The text of a query parameter as the value that its shape asks for, if it can be read so. -/
def queryValue (shape : Shape) (text : String) : Json :=
  let asked := match shape with
    | .optional inner _ => inner
    | shape => shape
  (asked.written? text).getD (.str text)

namespace RequestParts

def value? (request : RequestParts) (parameter : Parameter) : Option Json :=
  match parameter.location with
  | .path => (request.path.lookup parameter.name).map .str
  | .query => (request.query.lookup parameter.name).map (queryValue parameter.shape)
  | .body => request.body

end RequestParts

namespace BoundEndpoint

def bind (registry : Registry) (endpoint : Endpoint) : Except CompileError BoundEndpoint := do
  let parameters ← endpoint.parameters.mapM fun parameter =>
    return (parameter, ← registry.compileShape parameter.shape)
  let errors ← endpoint.errors.mapM fun error =>
    return (error.status, ← registry.compileShape error.shape)
  return ⟨endpoint, parameters, ← registry.compileShape endpoint.response, errors⟩

/-- What a parameter brings to the normalized request, and its violations. -/
def checkParameter (request : RequestParts) (parameter : Parameter) (validator : Validator) :
    Members × List Violation :=
  let segment := Segment.key parameter.name
  match request.value? parameter, parameter.shape with
  | some value, _ =>
    match validator.validate value with
    | .valid document _ => ([(parameter.name, document)], [])
    | .invalid violations => ([], violations.map (·.under segment))
  | none, .optional _ (some value) => ([(parameter.name, value)], [])
  | none, .optional _ none => ([], [])
  | none, _ => ([], [⟨[segment], .missingParameter, []⟩])

/-- Validates the declared parameters; a valid request is the object of their values. -/
def validateRequest (bound : BoundEndpoint) (request : RequestParts) : ValidationResult :=
  let checked := bound.parameters.map fun (parameter, validator) =>
    checkParameter request parameter validator
  match checked.flatMap (·.2) with
  | [] => .valid (.obj (Members.ofWritten (checked.flatMap (·.1)))) none
  | violations => .invalid violations

/-- The validator for the answer of a status; every status of success has the same one. -/
def responseValidator? (bound : BoundEndpoint) (status : Nat) : Option Validator :=
  if 200 ≤ status ∧ status < 300 then some bound.response else bound.errors.lookup status

/-- Validates an answer; fails if its status is not declared. -/
def validateResponse (bound : BoundEndpoint) (status : Nat) (body : Json) :
    Option ValidationResult :=
  (bound.responseValidator? status).map (·.validate body)

def unexpectedStatus (status : Nat) : String :=
  s!"response status {status} is not declared by the endpoint"

end BoundEndpoint

namespace Registry

/-- Every operation with its shapes compiled against the registry. -/
def bindEndpoints (registry : Registry) : Except CompileError (List BoundEndpoint) :=
  Endpoint.table.mapM (BoundEndpoint.bind registry)

end Registry

end EntityContract
