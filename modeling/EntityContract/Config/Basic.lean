import EntityContract.Document.Loading
import EntityContract.Text.Blank
import EntityContract.Yaml.Print
import EntityContract.Yaml.Record

/-!
The configuration: where the schema document is, what is converted to what, and how many documents
are validated at a time. It is kept in a YAML file in which every field may be left out.
-/

namespace EntityContract

structure ConversionConfig where
  input : String
  output : String
  deriving DecidableEq, Repr

structure ContractConfig where
  version : String
  document : Option String
  conversion : ConversionConfig
  jobs : Nat
  deriving DecidableEq, Repr

namespace ContractConfig

/-- What holds for the fields that are left out. -/
def standard : ContractConfig := ⟨"1.0", none, ⟨"openapi.yaml", "src/openapi.json"⟩, 4⟩

/-! ### Reading -/

/-- The field `name` of a record, or what holds if it is left out. -/
def field {α : Type} (name : String) (standard : α) (read : Yaml.Node Nat → Yaml.Following α)
    (fields : Yaml.Record) : Yaml.Following α := do
  match ← fields.single? name with
  | some node => read node
  | none => return standard

def readConversion (document : Yaml.Document) (depth : Nat) (node : Yaml.Node Nat) :
    Yaml.Following ConversionConfig := do
  let (fields, _) ← document.fields depth node
  return {
    input := ← field "input" standard.conversion.input document.text fields
    output := ← field "output" standard.conversion.output document.text fields }

def readJobs (document : Yaml.Document) (depth : Nat) (node : Yaml.Node Nat) :
    Yaml.Following Nat := do
  let (fields, _) ← document.fields depth node
  field "jobs" standard.jobs document.natural fields

def readOptional (document : Yaml.Document) (node : Yaml.Node Nat) :
    Yaml.Following (Option String) := do
  if ← document.isNull node then return none else return some (← document.text node)

def ofDocument (document : Yaml.Document) : Yaml.Following ContractConfig := do
  let (fields, depth) ← document.rootFields
  return {
    version := ← field "version" standard.version document.text fields
    document := ← field "document" none (readOptional document) fields
    conversion := ← field "conversion" standard.conversion (readConversion document depth) fields
    jobs := ← field "validation" standard.jobs (readJobs document depth) fields }

/-- The configuration of a text. A blank one leaves out every field. -/
def ofText (text : String) : Except YamlError ContractConfig :=
  if isBlankText text then .ok standard
  else do (ofDocument (← Yaml.Document.ofText text)).run' 0

/-! ### Writing -/

/-- A field with a text as its value, under so many spaces. A block text ends its line itself. -/
def line (indent : Nat) (name value : String) : String :=
  let written := Yaml.Printed.text (indent + 2) value
  let start := String.ofList (List.replicate indent ' ') ++ name ++ ": " ++ written
  if written.toList.getLast?.any Yaml.Printed.isAnyBreak then start else start ++ "\n"

def text (config : ContractConfig) : String :=
  line 0 "version" config.version ++
    (config.document.map (line 0 "document")).getD "" ++
    "conversion:\n" ++ line 2 "input" config.conversion.input ++
    line 2 "output" config.conversion.output ++
    "validation:\n" ++ "  jobs: " ++ toString config.jobs ++ "\n"

/-! ### Files -/

variable {m : Type → Type} [Monad m] [Files m]

def load (path : String) : m (Except DocumentError ContractConfig) := do
  match ← Files.readText path with
  | .error error => return .error (.file error)
  | .ok text => return (ofText text).mapError .yaml

def save (config : ContractConfig) (path : String) : m (Except DocumentError Unit) := do
  return (← Files.write path config.text).mapError .file

/-- The configured document, or else the one that comes with the library. -/
def loadDocument (config : ContractConfig) : m (Except DocumentError SchemaDocument) :=
  match config.document with
  | some path => SchemaDocument.ofFile path
  | none => SchemaDocument.ofPlaces [.bundled]

end ContractConfig

end EntityContract
