import EntityContract.Document.Basic

/-!
Loading of schema documents from files, and the first contract of a process.
-/

namespace EntityContract

namespace SchemaDocument

variable {m : Type → Type} [Monad m] [Files m]

def ofFile (path : String) : m (Except DocumentError SchemaDocument) := do
  match ← Files.readText path with
  | .error error => return .error (.file error)
  | .ok text =>
    return (ofText (.ofDocumentPath path) text).map fun document =>
      { document with source := .place (.file path) }

def ofPlace (place : DocumentPlace) : m (Except DocumentError SchemaDocument) :=
  match place with
  | .bundled => return .ok bundled
  | .file path => ofFile path

def first? : List DocumentPlace → m (Option SchemaDocument)
  | [] => return none
  | place :: places => do
    match ← ofPlace place with
    | .ok document => return some document
    | .error _ => first? places

/-- The first document that loads; of several places all are named as its source. -/
def ofPlaces (places : List DocumentPlace) : m (Except DocumentError SchemaDocument) := do
  match ← first? places with
  | none => return .error .noSources
  | some document =>
    return .ok (if 1 < places.length then { document with source := .chain places } else document)

end SchemaDocument

/-- Installs the contract of a document. A document that does not load leaves what is installed. -/
def Installed.bootstrap (state : Installed) (document : Except DocumentError SchemaDocument) :
    Except DocumentError Contract × Installed :=
  match document.bind SchemaDocument.registry with
  | .error error => (.error error, state)
  | .ok registry =>
    let (result, state) := state.install registry
    (result.mapError .contract, state)

end EntityContract
