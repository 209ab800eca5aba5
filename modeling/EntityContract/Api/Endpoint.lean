import EntityContract.Api.Template
import EntityContract.Shape.Basic

/-!
The operations of the registry: method, path, parameters and answers, each with its shape. A
request is routed by its method and path.
-/

namespace EntityContract

inductive Method where
  | get
  | post
  deriving DecidableEq, Repr

/-- A name, in capitals, that no operation has as its method. -/
structure UnsupportedMethod where
  name : String
  deriving DecidableEq, Repr

def UnsupportedMethod.message (error : UnsupportedMethod) : String :=
  s!"unsupported method: {error.name}"

namespace Method

def name : Method → String
  | .get => "GET"
  | .post => "POST"

def ofName (name : String) : Except UnsupportedMethod Method :=
  let upper := name.toUpper
  if upper = "GET" then .ok .get
  else if upper = "POST" then .ok .post
  else .error ⟨upper⟩

end Method

inductive ParameterLocation where
  | path
  | query
  | body
  deriving DecidableEq, Repr

structure Parameter where
  name : String
  location : ParameterLocation
  /-- An optional shape lets the parameter be left out. -/
  shape : Shape

structure ErrorResponse where
  status : Nat
  description : String
  shape : Shape

structure Endpoint where
  method : Method
  template : Template
  /-- The name of the operation. -/
  operation : String
  description : String
  parameters : List Parameter
  /-- The body of an answer that tells of success. -/
  response : Shape
  errors : List ErrorResponse

namespace Endpoint

def parameter? (endpoint : Endpoint) (name : String) : Option Parameter :=
  endpoint.parameters.find? (·.name == name)

def error? (endpoint : Endpoint) (status : Nat) : Option ErrorResponse :=
  endpoint.errors.find? (·.status == status)

def errorShape : Shape := .object [("error", .optional (.string .any) none)] .passthrough

def failure (status : Nat) (description : String) : ErrorResponse :=
  ⟨status, description, errorShape⟩

def serverName : Parameter := ⟨"serverName", .path, .string .any⟩

def publish : Endpoint where
  method := .post
  template := [.fixed "v0", .fixed "publish"]
  operation := "postV0publish"
  description :=
    "Publish a new MCP server to the registry or update an existing one.\n\n" ++
    "**Note**: This endpoint is optional for registry implementations. " ++
    "Read-only registries may not provide this functionality.\n\n" ++
    "Authentication mechanism is registry-specific and may vary between implementations."
  parameters := [⟨"body", .body, .ref "ServerDetail"⟩]
  response := .ref "ServerResponse"
  errors := [failure 401 "Unauthorized - Invalid or missing authentication token",
    failure 403 "Forbidden - Insufficient permissions",
    failure 500 "Internal server error"]

def listServers : Endpoint where
  method := .get
  template := [.fixed "v0", .fixed "servers"]
  operation := "getV0servers"
  description := "Returns a list of all registered MCP servers"
  parameters := [⟨"cursor", .query, .optional (.string .any) none⟩,
    ⟨"limit", .query, .optional .integer none⟩]
  response := .ref "ServerList"
  errors := []

def latestServer : Endpoint where
  method := .get
  template := [.fixed "v0", .fixed "servers", .placeholder "serverName"]
  operation := "getV0serversServerName"
  description :=
    "Returns detailed information about the latest version of a specific MCP server."
  parameters := [serverName]
  response := .ref "ServerResponse"
  errors := [failure 404 "Server not found"]

def listVersions : Endpoint where
  method := .get
  template := [.fixed "v0", .fixed "servers", .placeholder "serverName", .fixed "versions"]
  operation := "getV0serversServerNameversions"
  description :=
    "Returns all available versions for a specific MCP server, " ++
    "ordered by publication date (newest first)"
  parameters := [serverName]
  response := .ref "ServerList"
  errors := [failure 404 "Server not found"]

def serverVersion : Endpoint where
  method := .get
  template := [.fixed "v0", .fixed "servers", .placeholder "serverName", .fixed "versions",
    .placeholder "version"]
  operation := "getV0serversServerNameversionsVersion"
  description := "Returns detailed information about a specific version of an MCP server."
  parameters := [serverName, ⟨"version", .path, .string .any⟩]
  response := .ref "ServerResponse"
  errors := [failure 404 "Server or version not found"]

def table : List Endpoint := [publish, listServers, latestServer, listVersions, serverVersion]

def ofOperation? (operation : String) : Option Endpoint :=
  table.find? (·.operation == operation)

def ofTemplate? (method : Method) (template : String) : Option Endpoint :=
  table.find? fun endpoint => endpoint.method == method && endpoint.template.text == template

end Endpoint

/-- An operation with the values that a path gives to its placeholders. -/
structure RequestMatch where
  endpoint : Endpoint
  params : List (String × String)

namespace RequestMatch

def pathOnly (path : String) : String :=
  String.ofList (path.toList.takeWhile fun c => c ≠ '?' ∧ c ≠ '#')

def find? (method : Method) (path : String) : Option RequestMatch :=
  (Endpoint.table.filter (·.method == method)).findSome? fun endpoint =>
    (endpoint.template.matchPath (pathOnly path)).map fun params => ⟨endpoint, params⟩

def param? (found : RequestMatch) (name : String) : Option String := found.params.lookup name

end RequestMatch

end EntityContract
