import EntityContract.Digest.Sha256
import EntityContract.Document.Bundled
import EntityContract.Document.Conversion
import EntityContract.Document.Format
import EntityContract.Document.Outline

/-!
Schema documents: a JSON value together with its definitions as they were written, so that a name
that is defined twice is found. The value alone keeps only the last definition of a name.
-/

namespace EntityContract

inductive DocumentPlace where
  | bundled
  | file (path : String)
  deriving DecidableEq, Repr

/-- Where a document was loaded from: a text, one place, or the first of several places that had
one. -/
inductive DocumentSource where
  | inline
  | place (place : DocumentPlace)
  | chain (places : List DocumentPlace)
  deriving DecidableEq, Repr

structure SchemaDocument where
  value : Json
  definitions : Option Members
  source : DocumentSource

namespace SchemaDocument

def repeated? : List String → List String → Option String
  | _, [] => none
  | seen, name :: names => if seen.contains name then some name else repeated? (name :: seen) names

/-- The definitions of a text, as far as its outline has any. -/
def outline? (format : DocumentFormat) (text : String) : Option Members :=
  match format with
  | .json => (Outline.ofJsonText? text).join
  | .yaml => (Outline.ofYamlText? text).join

def readValue (format : DocumentFormat) (text : String) : Except DocumentError Json :=
  match format with
  | .json =>
    match Json.ofText? text with
    | some value => .ok value
    | none => .error (.json .malformed)
  | .yaml => (writtenYaml text).map Json.distinct

/-- Reads a document. A name that is defined twice is reported before any other fault. -/
def ofText (format : DocumentFormat) (text : String) : Except DocumentError SchemaDocument := do
  let definitions := outline? format text
  if let some name := definitions.bind fun members => repeated? [] (members.map (·.1)) then
    throw (.load (.duplicateKey name))
  return ⟨← readValue format text, definitions, .inline⟩

def bundled : SchemaDocument := ⟨Bundled.document, some Bundled.entities, .place .bundled⟩

def container? (document : SchemaDocument) : Option Json :=
  ((document.value.get? "components").bind (·.get? "schemas")).filter Json.isObject

/-- Indexes the definitions as they were written, if there are any. -/
def registry (document : SchemaDocument) : Except DocumentError Registry :=
  if !document.value.isObject then .error (.load .notAnObject)
  else
    let registry := match document.definitions, document.container? with
      | some definitions, some _ => Registry.ofEntries definitions
      | _, _ => Registry.ofDocument document.value
    registry.mapError .load

def paths (document : SchemaDocument) : List String :=
  (((document.value.get? "paths").bind Json.members?).getD []).map (·.1)

/-- The SHA-256 digest of the compact form. A document has the same one in YAML and in JSON. -/
def fingerprint (document : SchemaDocument) : String := Sha256.hex document.value.compact

end SchemaDocument

end EntityContract
