import EntityContract.Model.Input

/-!
The entries of a registry of servers: a server with its packages and remote endpoints, and the
answers that list servers. Every record keeps the members that it does not declare.
-/

namespace EntityContract

open FieldReader (required withDefault optional)

def Encode.list {α : Type} (encode : α → Json) (values : List α) : Json := .arr (values.map encode)

structure Repository where
  url : String
  source : String
  id : String
  subfolder : Option String
  extra : Members

namespace Repository

def ofMembers : Members → Except DecodeError Repository := FieldReader.run <|
  Repository.mk <$> required "url" .text
    <*> required "source" .text
    <*> required "id" .text
    <*> optional "subfolder" .text
    <*> .extra ["url", "source", "id", "subfolder"]

def decode : Decoder Repository := .structured "Repository" ofMembers

def encode (repository : Repository) : Json :=
  .obj ([("url", .str repository.url), ("source", .str repository.source),
    ("id", .str repository.id)] ++ Encode.optional "subfolder" .str repository.subfolder ++
    repository.extra)

end Repository

structure Server where
  name : String
  description : String
  repository : Option Repository
  version : String
  websiteUrl : Option String
  extra : Members

namespace Server

def ofMembers : Members → Except DecodeError Server := FieldReader.run <|
  Server.mk <$> required "name" .text
    <*> required "description" .text
    <*> optional "repository" Repository.decode
    <*> required "version" .text
    <*> optional "websiteUrl" .text
    <*> .extra ["name", "description", "repository", "version", "websiteUrl"]

def decode : Decoder Server := .structured "Server" ofMembers

def toMembers (server : Server) : Members :=
  [("name", .str server.name), ("description", .str server.description)] ++
    Encode.optional "repository" Repository.encode server.repository ++
    [("version", .str server.version)] ++
    Encode.optional "websiteUrl" .str server.websiteUrl ++ server.extra

def encode (server : Server) : Json := .obj server.toMembers

end Server

structure Package where
  registryType : String
  registryBaseUrl : Option String
  identifier : String
  version : String
  fileSha256 : Option String
  runtimeHint : Option String
  runtimeArguments : Option (List Argument)
  packageArguments : Option (List Argument)
  environmentVariables : Option (List KeyValueInput)
  extra : Members

namespace Package

def fieldNames : List String :=
  ["registryType", "registryBaseUrl", "identifier", "version", "fileSha256", "runtimeHint",
    "runtimeArguments", "packageArguments", "environmentVariables"]

def ofMembers : Members → Except DecodeError Package := FieldReader.run <|
  Package.mk <$> required "registryType" .text
    <*> optional "registryBaseUrl" .text
    <*> required "identifier" .text
    <*> required "version" .text
    <*> optional "fileSha256" .text
    <*> optional "runtimeHint" .text
    <*> optional "runtimeArguments" (.list Argument.decode)
    <*> optional "packageArguments" (.list Argument.decode)
    <*> optional "environmentVariables" (.list KeyValueInput.decode)
    <*> .extra fieldNames

def decode : Decoder Package := .structured "Package" ofMembers

def encode (package : Package) : Json :=
  .obj ([("registryType", .str package.registryType)] ++
    Encode.optional "registryBaseUrl" .str package.registryBaseUrl ++
    [("identifier", .str package.identifier), ("version", .str package.version)] ++
    Encode.optional "fileSha256" .str package.fileSha256 ++
    Encode.optional "runtimeHint" .str package.runtimeHint ++
    Encode.optional "runtimeArguments" (Encode.list Argument.encode) package.runtimeArguments ++
    Encode.optional "packageArguments" (Encode.list Argument.encode) package.packageArguments ++
    Encode.optional "environmentVariables" (Encode.list KeyValueInput.encode)
      package.environmentVariables ++
    package.extra)

end Package

inductive RemoteTransport where
  | streamableHttp
  | sse
  deriving DecidableEq, Repr

namespace RemoteTransport

def decode : Decoder RemoteTransport :=
  Decoder.variant [("streamable-http", .streamableHttp), ("sse", .sse)]

def encode : RemoteTransport → Json
  | .streamableHttp => .str "streamable-http"
  | .sse => .str "sse"

end RemoteTransport

structure Remote where
  transport : RemoteTransport
  url : String
  headers : Option (List KeyValueInput)
  extra : Members

namespace Remote

def ofMembers : Members → Except DecodeError Remote := FieldReader.run <|
  Remote.mk <$> required "type" RemoteTransport.decode
    <*> required "url" .text
    <*> optional "headers" (.list KeyValueInput.decode)
    <*> .extra ["type", "url", "headers"]

def decode : Decoder Remote := .structured "Remote" ofMembers

def encode (remote : Remote) : Json :=
  .obj ([("type", remote.transport.encode), ("url", .str remote.url)] ++
    Encode.optional "headers" (Encode.list KeyValueInput.encode) remote.headers ++ remote.extra)

end Remote

/-- The namespace of what a publisher adds to an entry. -/
def publisherMetaKey : String := "io.modelcontextprotocol.registry/publisher-provided"

/-- The namespace of what the registry keeps about an entry. -/
def officialMetaKey : String := "io.modelcontextprotocol.registry/official"

structure ServerDetail where
  server : Server
  schema : Option String
  packages : Option (List Package)
  remotes : Option (List Remote)
  metadata : Option Members

namespace ServerDetail

def ofMembers (members : Members) : Except DecodeError ServerDetail := do
  let (schema, packages, remotes, metadata) ← FieldReader.run
    ((·, ·, ·, ·) <$> optional "$schema" .text
      <*> optional "packages" (.list Package.decode)
      <*> optional "remotes" (.list Remote.decode)
      <*> optional "_meta" .object) members
  let server ← Server.ofMembers (members.without ["$schema", "packages", "remotes", "_meta"])
  return ⟨server, schema, packages, remotes, metadata⟩

def decode : Decoder ServerDetail := .structured "ServerDetail" ofMembers

def encode (detail : ServerDetail) : Json :=
  .obj (detail.server.toMembers ++
    Encode.optional "$schema" .str detail.schema ++
    Encode.optional "packages" (Encode.list Package.encode) detail.packages ++
    Encode.optional "remotes" (Encode.list Remote.encode) detail.remotes ++
    Encode.optional "_meta" .obj detail.metadata)

def key (detail : ServerDetail) : String := detail.server.name ++ "@" ++ detail.server.version

def publisherMeta? (detail : ServerDetail) : Option Json :=
  detail.metadata.bind fun members => members.lookup publisherMetaKey

end ServerDetail

inductive ServerStatus where
  | active
  | deprecated
  | deleted
  deriving DecidableEq, Repr

namespace ServerStatus

def decode : Decoder ServerStatus :=
  Decoder.variant [("active", .active), ("deprecated", .deprecated), ("deleted", .deleted)]

def encode : ServerStatus → Json
  | .active => .str "active"
  | .deprecated => .str "deprecated"
  | .deleted => .str "deleted"

end ServerStatus

structure OfficialMeta where
  status : ServerStatus
  publishedAt : Timestamp
  updatedAt : Timestamp
  isLatest : Bool
  extra : Members

namespace OfficialMeta

def ofMembers : Members → Except DecodeError OfficialMeta := FieldReader.run <|
  OfficialMeta.mk <$> required "status" ServerStatus.decode
    <*> required "publishedAt" .timestamp
    <*> required "updatedAt" .timestamp
    <*> required "isLatest" .flag
    <*> .extra ["status", "publishedAt", "updatedAt", "isLatest"]

def decode : Decoder OfficialMeta := .structured "OfficialMeta" ofMembers

def encode (metadata : OfficialMeta) : Json :=
  .obj ([("status", metadata.status.encode), ("publishedAt", .str metadata.publishedAt.text),
    ("updatedAt", .str metadata.updatedAt.text), ("isLatest", .bool metadata.isLatest)] ++
    metadata.extra)

end OfficialMeta

/-- What an answer says about an entry, by namespace. -/
structure ResponseMeta where
  official : Option OfficialMeta
  extra : Members

namespace ResponseMeta

def ofMembers : Members → Except DecodeError ResponseMeta := FieldReader.run <|
  ResponseMeta.mk <$> optional officialMetaKey OfficialMeta.decode
    <*> .extra [officialMetaKey]

def decode : Decoder ResponseMeta := .structured "ResponseMeta" ofMembers

def encode (metadata : ResponseMeta) : Json :=
  .obj (Encode.optional officialMetaKey OfficialMeta.encode metadata.official ++ metadata.extra)

end ResponseMeta

/-- An entry as the registry answers with it. -/
structure ServerResponse where
  server : ServerDetail
  metadata : Option ResponseMeta
  extra : Members

namespace ServerResponse

def ofMembers : Members → Except DecodeError ServerResponse := FieldReader.run <|
  ServerResponse.mk <$> required "server" ServerDetail.decode
    <*> optional "_meta" ResponseMeta.decode
    <*> .extra ["server", "_meta"]

def decode : Decoder ServerResponse := .structured "ServerResponse" ofMembers

def encode (response : ServerResponse) : Json :=
  .obj ([("server", response.server.encode)] ++
    Encode.optional "_meta" ResponseMeta.encode response.metadata ++ response.extra)

def official? (response : ServerResponse) : Option OfficialMeta :=
  response.metadata.bind (·.official)

end ServerResponse

structure ListMetadata where
  nextCursor : Option String
  count : Option Int
  extra : Members

namespace ListMetadata

def ofMembers : Members → Except DecodeError ListMetadata := FieldReader.run <|
  ListMetadata.mk <$> optional "nextCursor" .text
    <*> optional "count" .integer
    <*> .extra ["nextCursor", "count"]

def decode : Decoder ListMetadata := .structured "ListMetadata" ofMembers

def encode (metadata : ListMetadata) : Json :=
  .obj (Encode.optional "nextCursor" .str metadata.nextCursor ++
    Encode.optional "count" Json.int metadata.count ++ metadata.extra)

end ListMetadata

structure ServerList where
  servers : List ServerResponse
  metadata : Option ListMetadata
  extra : Members

namespace ServerList

def ofMembers : Members → Except DecodeError ServerList := FieldReader.run <|
  ServerList.mk <$> required "servers" (.list ServerResponse.decode)
    <*> optional "metadata" ListMetadata.decode
    <*> .extra ["servers", "metadata"]

def decode : Decoder ServerList := .structured "ServerList" ofMembers

def encode (list : ServerList) : Json :=
  .obj ([("servers", Encode.list ServerResponse.encode list.servers)] ++
    Encode.optional "metadata" ListMetadata.encode list.metadata ++ list.extra)

end ServerList

end EntityContract
