import EntityContract.Document.Basic
import EntityContract.Proofs.Registry.Flattening
import EntityContract.Proofs.Registry.Permutation

/-!
The registry of the schema document that comes with the library: its shapes, and the fields of the
objects that they come down to.
-/

namespace EntityContract

/-- A reference is read as one. -/
theorem Shape.ofPointer_referenceTo {key : String} (hkey : key ≠ "") :
    Shape.ofPointer (.str (referenceTo key)) = .ok (.ref key) := by
  rw [Shape.ofPointer, referenceTo]
  split
  · rename_i rest hrest
    have happend := String.eq_append_of_dropPrefix?_string_eq_some hrest
    rw [String.append_right_inj] at happend
    subst happend
    rw [if_neg (by simpa using hkey)]
    rfl
  · rename_i hnone
    have hstarts : (referenceStem ++ key).startsWith referenceStem = true := by
      rw [String.startsWith_string_iff]
      simp
    rw [String.dropPrefix?_eq_dropPrefix?_toSlice, String.Slice.dropPrefix?_eq_none_iff] at hnone
    simp [hstarts] at hnone

namespace Bundled

def text : Shape := .string .any

def address : Shape := .string .uri

/-- A field that may be absent, and then has no default. -/
def maybe (name : String) (shape : Shape) : String × Shape := (name, .optional shape none)

/-- A yes or no, which is no if it is absent. -/
def flag (name : String) : String × Shape := (name, .optional .boolean (some (.bool false)))

def repositoryFields : Fields :=
  [("url", address), ("source", text), ("id", text), maybe "subfolder" text]

def serverFields : Fields :=
  [("name", text), ("description", text), maybe "repository" (.ref "Repository"), ("version", text),
    maybe "websiteUrl" address]

def inputFields : Fields :=
  [maybe "description" text, flag "isRequired",
    ("format",
      .optional (.enum ["string", "number", "boolean", "filepath"]) (some (.str "string"))),
    maybe "value" text, flag "isSecret", maybe "default" text, maybe "choices" (.array text)]

def variablesFields : Fields := [maybe "variables" (.record (.ref "Input"))]

def namedFields : Fields :=
  [("type", .literal (.str "named")), ("name", text), flag "isRepeated"]

def keyFields : Fields := [("name", text)]

def packageFields : Fields :=
  [("registryType", text), maybe "registryBaseUrl" address, ("identifier", text), ("version", text),
    maybe "fileSha256" text, maybe "runtimeHint" text,
    maybe "runtimeArguments" (.array (.ref "Argument")),
    maybe "packageArguments" (.array (.ref "Argument")),
    maybe "environmentVariables" (.array (.ref "KeyValueInput"))]

def remoteFields : Fields :=
  [("type", .enum ["streamable-http", "sse"]), ("url", address),
    maybe "headers" (.array (.ref "KeyValueInput"))]

def metadataFields : Fields :=
  [maybe "io.modelcontextprotocol.registry/publisher-provided" (.object [] .passthrough)]

def detailFields : Fields :=
  [maybe "$schema" address, maybe "packages" (.array (.ref "Package")),
    maybe "remotes" (.array (.ref "Remote")), maybe "_meta" (.object metadataFields .passthrough)]

def officialFields : Fields :=
  [("status", .enum ["active", "deprecated", "deleted"]), ("publishedAt", .string .dateTime),
    ("updatedAt", .string .dateTime), ("isLatest", .boolean)]

def responseFields : Fields :=
  [("server", .ref "ServerDetail"),
    maybe "_meta" (.object [maybe "io.modelcontextprotocol.registry/official"
      (.object officialFields .passthrough)] .passthrough)]

def listFields : Fields :=
  [("servers", .array (.ref "ServerResponse")),
    maybe "metadata" (.object [maybe "nextCursor" text, maybe "count" .integer] .passthrough)]

/-- An entity with further fields. -/
def extended (key : String) (fields : Fields) : Shape :=
  .intersection (.ref key) (.object fields .passthrough)

def registry : Registry where
  entities := [
    ⟨"Repository", repository, .object repositoryFields .passthrough⟩,
    ⟨"Server", server, .object serverFields .passthrough⟩,
    ⟨"Input", input, .object inputFields .passthrough⟩,
    ⟨"InputWithVariables", inputWithVariables, extended "Input" variablesFields⟩,
    ⟨"PositionalArgument", positionalArgument, .ref "InputWithVariables"⟩,
    ⟨"NamedArgument", namedArgument, extended "InputWithVariables" namedFields⟩,
    ⟨"Argument", argument, .union [.ref "PositionalArgument", .ref "NamedArgument"]⟩,
    ⟨"KeyValueInput", keyValueInput, extended "InputWithVariables" keyFields⟩,
    ⟨"Package", package, .object packageFields .passthrough⟩,
    ⟨"Remote", remote, .object remoteFields .passthrough⟩,
    ⟨"ServerDetail", serverDetail, extended "Server" detailFields⟩,
    ⟨"ServerResponse", serverResponse, .object responseFields .passthrough⟩,
    ⟨"ServerList", serverList, .object listFields .passthrough⟩]

section Shapes

attribute [local simp] repositoryFields serverFields inputFields variablesFields namedFields
  keyFields packageFields remoteFields metadataFields detailFields officialFields responseFields
  listFields extended maybe flag text address

attribute [local simp] Shape.ofDefinition Shape.shapesAt Shape.shapeAt Shape.ofObjectDefinition
  Shape.fieldsAt Shape.ofDefinitions Shape.ofProperties Shape.requiredNames Shape.ofEnum
  Shape.ofStringFormat StringFormat.ofName Shape.asField Shape.withMissing Shape.orAbsent
  Shape.withDefault Members.contains Json.isObject Json.get? Json.members? Json.text?
  List.lookup_cons List.lookup_nil bind Except.bind pure Except.pure Except.mapError
  Shape.ofPointer_referenceTo entity in
theorem reads_entities : List.Forall₂ Registry.Reads entities registry.entities := by
  refine .cons ⟨rfl, rfl, by decide, by simp [repository]⟩ ?_
  refine .cons ⟨rfl, rfl, by decide, by simp [server]⟩ ?_
  refine .cons ⟨rfl, rfl, by decide, by simp [input]⟩ ?_
  refine .cons ⟨rfl, rfl, by decide, by simp [inputWithVariables]⟩ ?_
  refine .cons ⟨rfl, rfl, by decide, by simp [positionalArgument]⟩ ?_
  refine .cons ⟨rfl, rfl, by decide, by simp [namedArgument]⟩ ?_
  refine .cons ⟨rfl, rfl, by decide, by simp [argument]⟩ ?_
  refine .cons ⟨rfl, rfl, by decide, by simp [keyValueInput]⟩ ?_
  refine .cons ⟨rfl, rfl, by decide, by simp [package]⟩ ?_
  refine .cons ⟨rfl, rfl, by decide, by simp [remote]⟩ ?_
  refine .cons ⟨rfl, rfl, by decide, by simp [serverDetail]⟩ ?_
  refine .cons ⟨rfl, rfl, by decide, by simp [serverResponse]⟩ ?_
  refine .cons ⟨rfl, rfl, by decide, by simp [serverList]⟩ ?_
  exact .nil

theorem nodup_names : registry.names.Nodup := by decide

/-- Entities refer unguarded to entities before them only. -/
theorem idxOf_lt_of_refers {key other : String} (h : registry.Refers key other) :
    registry.names.idxOf other < registry.names.idxOf key := by
  have hearlier : ∀ entity ∈ registry.entities, ∀ other ∈ entity.shape.unguarded,
      registry.names.idxOf other < registry.names.idxOf entity.name := by
    decide
  obtain ⟨shape, hshape, hother⟩ := Registry.refers_iff.mp h
  obtain ⟨entity, hentity, rfl⟩ := Option.map_eq_some_iff.mp hshape
  obtain ⟨hmem, rfl⟩ := (Registry.get?_eq_some_iff nodup_names).mp hentity
  exact hearlier entity hmem other hother

theorem acyclic (key : String) : ¬Relation.TransGen registry.Refers key key := by
  have hlt : ∀ {other}, Relation.TransGen registry.Refers key other →
      registry.names.idxOf other < registry.names.idxOf key := by
    intro other h
    induction h with
    | single h => exact idxOf_lt_of_refers h
    | tail _ h ih => exact Nat.lt_trans (idxOf_lt_of_refers h) ih
  exact fun hcycle => Nat.lt_irrefl _ (hlt hcycle)

theorem ofEntries_entities : Registry.ofEntries entities = .ok registry :=
  Registry.ofEntries_eq_ok_iff.mpr ⟨reads_entities, nodup_names, acyclic⟩

/-- The document that comes with the library is indexed as this registry. -/
theorem registry_bundled : SchemaDocument.bundled.registry = .ok registry := by
  have hobject : SchemaDocument.bundled.value.isObject = true := rfl
  have hdefinitions : SchemaDocument.bundled.definitions = some entities := rfl
  have hcontainer : SchemaDocument.bundled.container? = some (.obj entities) := rfl
  rw [SchemaDocument.registry, hobject, hdefinitions, hcontainer]
  dsimp only
  rw [ofEntries_entities]
  rfl

theorem wellFormed_of_mem_entities : ∀ entity ∈ registry.entities, entity.shape.WellFormed := by
  simp [registry, Shape.WellFormed, Shape.Everywhere, Shape.subshapes, Shape.subshapesOfFields,
    Shape.subshapesOfVariants, Shape.Local]

end Shapes

theorem indexed : registry.Indexed := ⟨nodup_names, wellFormed_of_mem_entities, acyclic⟩

section Flattening

theorem flattens_entity {key : String} {fields : Fields}
    (h : registry.shape? key = some (.object fields .passthrough)) :
    registry.Flattens (.ref key) ⟨fields, .passthrough⟩ :=
  .ref h (.object fields .passthrough)

/-- An entity with further fields comes down to the fields of both. -/
theorem flattens_extended {key base : String} {fields further : Fields}
    (h : registry.shape? key = some (extended base further))
    (hbase : registry.Flattens (.ref base) ⟨fields, .passthrough⟩)
    (hnodup : (further.map (·.1)).Nodup)
    (hdisjoint : ∀ name ∈ fields.map (·.1), name ∉ further.map (·.1)) :
    registry.Flattens (.ref key) ⟨fields ++ further, .passthrough⟩ := by
  have hflattens := Registry.Flattens.ref h (.intersection hbase (.object further .passthrough))
  rw [ObjectShape.merge] at hflattens
  dsimp only at hflattens
  rwa [Shape.mergeFields_eq_append hnodup hdisjoint] at hflattens

theorem flattens_input : registry.Flattens (.ref "Input") ⟨inputFields, .passthrough⟩ :=
  flattens_entity rfl

theorem flattens_inputWithVariables : registry.Flattens (.ref "InputWithVariables")
    ⟨inputFields ++ variablesFields, .passthrough⟩ :=
  flattens_extended rfl flattens_input (by decide) (by decide)

theorem flattens_positionalArgument : registry.Flattens (.ref "PositionalArgument")
    ⟨inputFields ++ variablesFields, .passthrough⟩ :=
  .ref rfl flattens_inputWithVariables

theorem flattens_namedArgument : registry.Flattens (.ref "NamedArgument")
    ⟨inputFields ++ variablesFields ++ namedFields, .passthrough⟩ :=
  flattens_extended rfl flattens_inputWithVariables (by decide) (by decide)

theorem flattens_keyValueInput : registry.Flattens (.ref "KeyValueInput")
    ⟨inputFields ++ variablesFields ++ keyFields, .passthrough⟩ :=
  flattens_extended rfl flattens_inputWithVariables (by decide) (by decide)

theorem flattens_repository :
    registry.Flattens (.ref "Repository") ⟨repositoryFields, .passthrough⟩ :=
  flattens_entity rfl

theorem flattens_package : registry.Flattens (.ref "Package") ⟨packageFields, .passthrough⟩ :=
  flattens_entity rfl

theorem flattens_remote : registry.Flattens (.ref "Remote") ⟨remoteFields, .passthrough⟩ :=
  flattens_entity rfl

theorem flattens_server : registry.Flattens (.ref "Server") ⟨serverFields, .passthrough⟩ :=
  flattens_entity rfl

theorem flattens_serverDetail : registry.Flattens (.ref "ServerDetail")
    ⟨serverFields ++ detailFields, .passthrough⟩ :=
  flattens_extended rfl flattens_server (by decide) (by decide)

theorem flattens_serverResponse :
    registry.Flattens (.ref "ServerResponse") ⟨responseFields, .passthrough⟩ :=
  flattens_entity rfl

theorem flattens_serverList : registry.Flattens (.ref "ServerList") ⟨listFields, .passthrough⟩ :=
  flattens_entity rfl

end Flattening

end Bundled

end EntityContract
