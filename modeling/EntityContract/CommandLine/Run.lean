import EntityContract.Api.Endpoint
import EntityContract.CommandLine.Arguments
import EntityContract.Config.Basic
import EntityContract.Validator

/-!
What the commands do: the texts that they print and the files that they write.
-/

namespace EntityContract.CommandLine

structure Outcome where
  exitCode : UInt32
  output : String
  errors : String
  deriving DecidableEq, Repr

inductive Failure where
  | configuration (path : String) (error : DocumentError)
  /-- The document that is named, or else the bundled one. -/
  | document (path : Option String) (error : DocumentError)
  | conversion (input : String) (error : DocumentError)
  | registry (error : DocumentError)
  | validator (error : CompileError)
  | invalidInputs (failed total : Nat) (entity : String)
  deriving DecidableEq, Repr

def Failure.message : Failure → String
  | .configuration path error => s!"Failed to load config '{path}': " ++ error.message
  | .document (some path) error => s!"Failed to load document '{path}': " ++ error.message
  | .document none error => "Failed to load bundled document: " ++ error.message
  | .conversion input error => s!"Failed to convert '{input}': " ++ error.message
  | .registry error => error.message
  | .validator error => error.message
  | .invalidInputs failed total entity =>
    s!"{failed} of {total} document(s) failed validation against " ++ entity

namespace Outcome

def success (output : String) : Outcome := ⟨0, output, ""⟩

/-- A run that fails after it has printed something. -/
def failureAfter (output errors : String) (failure : Failure) : Outcome :=
  ⟨1, output, errors ++ "error: " ++ failure.message ++ "\n"⟩

def failure (failure : Failure) : Outcome := failureAfter "" "" failure

def ofStop : Stop → Outcome
  | .help usage => success usage.help
  | .version => success versionText
  | .misuse usage => ⟨2, "", usage.help⟩

end Outcome

inductive InputFault where
  | file (error : FileError)
  | json (fault : JsonFault)
  | yaml (error : YamlError)
  deriving DecidableEq, Repr

def InputFault.message : InputFault → String
  | .file error => "Failed to read: " ++ error.message
  | .json fault => "Invalid JSON: " ++ fault.message
  | .yaml error => "Invalid YAML: " ++ error.message

inductive FileOutcome where
  | valid
  | invalid (violations : List Violation)
  | unreadable (fault : InputFault)

namespace FileOutcome

def failed : FileOutcome → Bool
  | .valid => false
  | _ => true

/-- A violation on a line of its own; one of the whole document has no path. -/
def line (path : String) (violation : Violation) : String :=
  if violation.path = [] then path ++ ": " ++ violation.message ++ "\n"
  else path ++ ": " ++ violation.path.display ++ ": " ++ violation.message ++ "\n"

def output (path : String) : FileOutcome → String
  | .valid => path ++ ": valid\n"
  | .invalid violations => String.join (violations.map (line path))
  | .unreadable _ => ""

def errors (path : String) : FileOutcome → String
  | .unreadable fault => path ++ ": " ++ fault.message ++ "\n"
  | _ => ""

end FileOutcome

/-- The value of an input text. Names that do not tell YAML are JSON. -/
def readInput (path text : String) : Except InputFault Json :=
  match DocumentFormat.ofPath? path with
  | some .yaml => (Yaml.readJson text).mapError .yaml
  | _ =>
    match Json.ofText? text with
    | some value => .ok value
    | none => .error (.json .malformed)

def checkInput (validator : Validator) (path : String) (text : Except FileError String) :
    FileOutcome :=
  match (text.mapError InputFault.file).bind (readInput path) with
  | .error fault => .unreadable fault
  | .ok value =>
    match validator.validate value with
    | .valid _ _ => .valid
    | .invalid violations => .invalid violations

/-- What is printed about the input files, in their order. -/
def report (entity : String) (outcomes : List (String × FileOutcome)) : Outcome :=
  let output := String.join (outcomes.map fun (path, outcome) => outcome.output path)
  let errors := String.join (outcomes.map fun (path, outcome) => outcome.errors path)
  let failed := outcomes.countP (·.2.failed)
  if failed = 0 then ⟨0, output, errors⟩
  else .failureAfter output errors (.invalidInputs failed outcomes.length entity)

def entityLine (entity : Entity) : String :=
  match entity.shape.references with
  | [] => entity.name ++ "\n"
  | references => entity.name ++ " -> " ++ ", ".intercalate references ++ "\n"

def padded (width : Nat) (text : String) : String :=
  text ++ String.ofList (List.replicate (width - text.length) ' ')

def endpointLine (endpoint : Endpoint) : String :=
  padded 6 endpoint.method.name ++ " " ++ padded 44 endpoint.template.text ++ " " ++
    endpoint.operation ++ "\n"

variable {m : Type → Type} [Monad m] [Files m]

def configuration : Option String → m (Except Failure ContractConfig)
  | none => return .ok .standard
  | some path => do return (← ContractConfig.load path).mapError (.configuration path)

/-- The document that is named, or else the configured one. -/
def document (config : ContractConfig) (path : Option String) :
    m (Except Failure SchemaDocument) := do
  let config := { config with document := path.or config.document }
  return (← config.loadDocument).mapError (.document config.document)

def runConvert (config : ContractConfig) (input output : Option String) : m Outcome := do
  let input := input.getD config.conversion.input
  let output := output.getD config.conversion.output
  match ← convertFile input output with
  | .error error => return .failure (.conversion input error)
  | .ok () => return .success s!"Converted '{input}' to '{output}'.\n"

def validatorOf (document : SchemaDocument) (entity : String) : Except Failure Validator := do
  let registry ← document.registry.mapError .registry
  (registry.compile entity).mapError .validator

def runValidate (config : ContractConfig) (entity : String) (path : Option String)
    (files : List String) : m Outcome := do
  match (← document config path).bind (validatorOf · entity) with
  | .error failure => return .failure failure
  | .ok validator =>
    let outcomes ← files.mapM fun file => do
      return (file, checkInput validator file (← Files.readText file))
    return report entity outcomes

/-- The entities of a document with the keys that they refer to, and its digest. -/
def entityLines (document : SchemaDocument) : Except Failure String := do
  let registry ← document.registry.mapError .registry
  return String.join (registry.entities.map entityLine) ++
    "fingerprint: " ++ document.fingerprint ++ "\n"

def runEntities (config : ContractConfig) (path : Option String) : m Outcome := do
  match (← document config path).bind entityLines with
  | .error failure => return .failure failure
  | .ok lines => return .success lines

/-- Runs a command. How many documents are validated at a time does not show. -/
def runCommand (config : ContractConfig) : Command → m Outcome
  | .convert input output => runConvert config input output
  | .validate entity document _ files => runValidate config entity document files
  | .entities document => runEntities config document
  | .endpoints => return .success (String.join (Endpoint.table.map endpointLine))

def run (arguments : List String) : m Outcome := do
  match parse arguments with
  | .error stop => return .ofStop stop
  | .ok (path, command) =>
    match ← configuration path with
    | .error failure => return .failure failure
    | .ok config => runCommand config command

end EntityContract.CommandLine
