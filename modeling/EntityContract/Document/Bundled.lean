import EntityContract.Shape.Definition

/-!
The schema document that comes with the library: the registry of servers with its entities and the
operations on it.
-/

namespace EntityContract.Bundled

local instance : Coe String Json := ⟨.str⟩

def entity (name : String) : Json := .obj [("$ref", referenceTo name)]

def repository : Json :=
  .obj [
    ("type", "object"),
    ("required", .arr ["url", "source", "id"]),
    ("properties", .obj [
      ("url", .obj [
        ("type", "string"),
        ("format", "uri"),
        ("example", "https://github.com/modelcontextprotocol/servers")]),
      ("source", .obj [("type", "string"), ("example", "github")]),
      ("id", .obj [("type", "string")]),
      ("subfolder", .obj [
        ("type", "string"),
        ("description", "Path of the server within a monorepo")])])]

def server : Json :=
  .obj [
    ("type", "object"),
    ("required", .arr ["name", "description", "version"]),
    ("properties", .obj [
      ("name", .obj [("type", "string"), ("example", "io.modelcontextprotocol/filesystem")]),
      ("description", .obj [("type", "string")]),
      ("repository", entity "Repository"),
      ("version", .obj [("type", "string"), ("example", "1.0.2")]),
      ("websiteUrl", .obj [("type", "string"), ("format", "uri")])])]

def input : Json :=
  .obj [
    ("type", "object"),
    ("properties", .obj [
      ("description", .obj [("type", "string")]),
      ("isRequired", .obj [("type", "boolean"), ("default", .bool false)]),
      ("format", .obj [
        ("type", "string"),
        ("enum", .arr ["string", "number", "boolean", "filepath"]),
        ("default", "string")]),
      ("value", .obj [
        ("type", "string"),
        ("description", "Fixed value; may contain \x7bvariable\x7d placeholders")]),
      ("isSecret", .obj [("type", "boolean"), ("default", .bool false)]),
      ("default", .obj [("type", "string")]),
      ("choices", .obj [("type", "array"), ("items", .obj [("type", "string")])])])]

def inputWithVariables : Json :=
  .obj [
    ("allOf", .arr [
      entity "Input",
      .obj [
        ("type", "object"),
        ("properties", .obj [
          ("variables", .obj [("type", "object"), ("additionalProperties", entity "Input")])])]])]

def positionalArgument : Json :=
  .obj [("allOf", .arr [entity "InputWithVariables"])]

def namedArgument : Json :=
  .obj [
    ("allOf", .arr [
      entity "InputWithVariables",
      .obj [
        ("type", "object"),
        ("required", .arr ["type", "name"]),
        ("properties", .obj [
          ("type", .obj [("type", "string"), ("const", "named")]),
          ("name", .obj [("type", "string"), ("example", "--port")]),
          ("isRepeated", .obj [("type", "boolean"), ("default", .bool false)])])]])]

def argument : Json :=
  .obj [("anyOf", .arr [entity "PositionalArgument", entity "NamedArgument"])]

def keyValueInput : Json :=
  .obj [
    ("allOf", .arr [
      entity "InputWithVariables",
      .obj [
        ("type", "object"),
        ("required", .arr ["name"]),
        ("properties", .obj [("name", .obj [("type", "string"), ("example", "API_KEY")])])]])]

def package : Json :=
  .obj [
    ("type", "object"),
    ("required", .arr ["registryType", "identifier", "version"]),
    ("properties", .obj [
      ("registryType", .obj [("type", "string"), ("example", "npm")]),
      ("registryBaseUrl", .obj [("type", "string"), ("format", "uri")]),
      ("identifier", .obj [("type", "string")]),
      ("version", .obj [("type", "string")]),
      ("fileSha256", .obj [("type", "string")]),
      ("runtimeHint", .obj [("type", "string"), ("example", "npx")]),
      ("runtimeArguments", .obj [("type", "array"), ("items", entity "Argument")]),
      ("packageArguments", .obj [("type", "array"), ("items", entity "Argument")]),
      ("environmentVariables", .obj [("type", "array"), ("items", entity "KeyValueInput")])])]

def remote : Json :=
  .obj [
    ("type", "object"),
    ("required", .arr ["type", "url"]),
    ("properties", .obj [
      ("type", .obj [("type", "string"), ("enum", .arr ["streamable-http", "sse"])]),
      ("url", .obj [("type", "string"), ("format", "uri")]),
      ("headers", .obj [("type", "array"), ("items", entity "KeyValueInput")])])]

def serverDetail : Json :=
  .obj [
    ("allOf", .arr [
      entity "Server",
      .obj [
        ("type", "object"),
        ("properties", .obj [
          ("$schema", .obj [("type", "string"), ("format", "uri")]),
          ("packages", .obj [("type", "array"), ("items", entity "Package")]),
          ("remotes", .obj [("type", "array"), ("items", entity "Remote")]),
          ("_meta", .obj [
            ("type", "object"),
            ("properties", .obj [
              ("io.modelcontextprotocol.registry/publisher-provided", .obj [
                ("type", "object")])])])])]])]

def serverResponse : Json :=
  .obj [
    ("type", "object"),
    ("required", .arr ["server"]),
    ("properties", .obj [
      ("server", entity "ServerDetail"),
      ("_meta", .obj [
        ("type", "object"),
        ("properties", .obj [
          ("io.modelcontextprotocol.registry/official", .obj [
            ("type", "object"),
            ("required", .arr ["status", "publishedAt", "updatedAt", "isLatest"]),
            ("properties", .obj [
              ("status", .obj [
                ("type", "string"),
                ("enum", .arr ["active", "deprecated", "deleted"])]),
              ("publishedAt", .obj [("type", "string"), ("format", "date-time")]),
              ("updatedAt", .obj [("type", "string"), ("format", "date-time")]),
              ("isLatest", .obj [("type", "boolean")])])])])])])]

def serverList : Json :=
  .obj [
    ("type", "object"),
    ("required", .arr ["servers"]),
    ("properties", .obj [
      ("servers", .obj [("type", "array"), ("items", entity "ServerResponse")]),
      ("metadata", .obj [
        ("type", "object"),
        ("properties", .obj [
          ("nextCursor", .obj [("type", "string")]),
          ("count", .obj [("type", "integer")])])])])]

def entities : Members := [
  ("Repository", repository),
  ("Server", server),
  ("Input", input),
  ("InputWithVariables", inputWithVariables),
  ("PositionalArgument", positionalArgument),
  ("NamedArgument", namedArgument),
  ("Argument", argument),
  ("KeyValueInput", keyValueInput),
  ("Package", package),
  ("Remote", remote),
  ("ServerDetail", serverDetail),
  ("ServerResponse", serverResponse),
  ("ServerList", serverList)]

def listServers : Json :=
  .obj [
    ("get", .obj [
      ("operationId", "getV0servers"),
      ("summary", "List MCP servers"),
      ("description", "Returns a list of all registered MCP servers"),
      ("parameters", .arr [
        .obj [
          ("name", "cursor"),
          ("in", "query"),
          ("required", .bool false),
          ("schema", .obj [("type", "string")])],
        .obj [
          ("name", "limit"),
          ("in", "query"),
          ("required", .bool false),
          ("schema", .obj [("type", "integer")])]]),
      ("responses", .obj [
        ("200", .obj [
          ("description", "A page of servers"),
          ("content", .obj [("application/json", .obj [("schema", entity "ServerList")])])])])])]

def latestServer : Json :=
  .obj [
    ("get", .obj [
      ("operationId", "getV0serversServerName"),
      ("summary", "Get the latest version of a server"),
      ("description", .str <|
        "Returns detailed information about the latest version of a specific MCP server."),
      ("parameters", .arr [.obj [("$ref", "#/components/parameters/ServerName")]]),
      ("responses", .obj [
        ("200", .obj [
          ("description", "Server details"),
          ("content", .obj [("application/json", .obj [("schema", entity "ServerResponse")])])]),
        ("404", .obj [("$ref", "#/components/responses/NotFound")])])])]

def listVersions : Json :=
  .obj [
    ("get", .obj [
      ("operationId", "getV0serversServerNameversions"),
      ("summary", "List versions of a server"),
      ("description", .str <|
        "Returns all available versions for a specific MCP server, ordered by publication " ++
          "date (newest first)"),
      ("parameters", .arr [.obj [("$ref", "#/components/parameters/ServerName")]]),
      ("responses", .obj [
        ("200", .obj [
          ("description", "Versions of the server"),
          ("content", .obj [("application/json", .obj [("schema", entity "ServerList")])])]),
        ("404", .obj [("$ref", "#/components/responses/NotFound")])])])]

def serverVersion : Json :=
  .obj [
    ("get", .obj [
      ("operationId", "getV0serversServerNameversionsVersion"),
      ("summary", "Get a specific version of a server"),
      ("description", .str <|
        "Returns detailed information about a specific version of an MCP server."),
      ("parameters", .arr [
        .obj [("$ref", "#/components/parameters/ServerName")],
        .obj [
          ("name", "version"),
          ("in", "path"),
          ("required", .bool true),
          ("schema", .obj [("type", "string")])]]),
      ("responses", .obj [
        ("200", .obj [
          ("description", "Server details"),
          ("content", .obj [("application/json", .obj [("schema", entity "ServerResponse")])])]),
        ("404", .obj [("$ref", "#/components/responses/NotFound")])])])]

def publish : Json :=
  .obj [
    ("post", .obj [
      ("operationId", "postV0publish"),
      ("summary", "Publish a server"),
      ("description", .str <|
        "Publish a new MCP server to the registry or update an existing one.\n\n**Note**: " ++
          "This endpoint is optional for registry implementations. Read-only registries may " ++
          "not provide this functionality.\n\nAuthentication mechanism is registry-specific " ++
          "and may vary between implementations.\n"),
      ("requestBody", .obj [
        ("required", .bool true),
        ("content", .obj [("application/json", .obj [("schema", entity "ServerDetail")])])]),
      ("responses", .obj [
        ("200", .obj [
          ("description", "The published server"),
          ("content", .obj [("application/json", .obj [("schema", entity "ServerResponse")])])]),
        ("401", .obj [("$ref", "#/components/responses/Error")]),
        ("403", .obj [("$ref", "#/components/responses/Error")]),
        ("500", .obj [("$ref", "#/components/responses/Error")])])])]

def paths : Members := [
  ("/v0/servers", listServers),
  ("/v0/servers/\x7bserverName\x7d", latestServer),
  ("/v0/servers/\x7bserverName\x7d/versions", listVersions),
  ("/v0/servers/\x7bserverName\x7d/versions/\x7bversion\x7d", serverVersion),
  ("/v0/publish", publish)]

def info : Json :=
  .obj [
    ("title", "MCP Server Registry API"),
    ("version", "1.0.0"),
    ("description", .str <|
      "REST API for discovering and publishing MCP servers.\n\nRegistry implementations " ++
        "may extend any object with additional fields;\nclients must preserve fields they do " ++
        "not understand.\n"),
    ("license", .obj [("name", "MIT")])]

def parameters : Json :=
  .obj [
    ("ServerName", .obj [
      ("name", "serverName"),
      ("in", "path"),
      ("required", .bool true),
      ("description", "URL-encoded server name"),
      ("schema", .obj [("type", "string")])])]

def responses : Json :=
  .obj [
    ("NotFound", .obj [
      ("description", "Server not found"),
      ("content", .obj [
        ("application/json", .obj [
          ("schema", .obj [
            ("type", "object"),
            ("properties", .obj [("error", .obj [("type", "string")])])])])])]),
    ("Error", .obj [
      ("description", "Request failed"),
      ("content", .obj [
        ("application/json", .obj [
          ("schema", .obj [
            ("type", "object"),
            ("properties", .obj [("error", .obj [("type", "string")])])])])])])]

def document : Json := .obj [
  ("openapi", "3.1.0"),
  ("info", info),
  ("servers", .arr [.obj [("url", "https://registry.modelcontextprotocol.io")]]),
  ("paths", .obj paths),
  ("components", .obj [
    ("parameters", parameters),
    ("responses", responses),
    ("schemas", .obj entities)])]

end EntityContract.Bundled
