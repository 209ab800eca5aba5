import EntityContract.Document.Error
import EntityContract.Json.Print
import EntityContract.Yaml.Json

/-!
Conversion of YAML texts to JSON texts.
-/

namespace EntityContract

/-- The tree of JSON values that a YAML text is written as. -/
def writtenYaml (yaml : String) : Except DocumentError Json := do
  match (← (Yaml.Value.ofText yaml).mapError .yaml).json? with
  | some tree => return tree
  | none => throw (.json .keyWithoutText)

/-- The indented JSON text of a YAML text, with a line break at the end. Keys that have the same
text are all written. -/
def convertText (yaml : String) : Except DocumentError String :=
  (writtenYaml yaml).map fun tree => tree.pretty ++ "\n"

/-- Converts a file. The output is written only if the input is converted. -/
def convertFile {m : Type → Type} [Monad m] [Files m] (input output : String) :
    m (Except DocumentError Unit) := do
  match ← Files.readText input with
  | .error error => return .error (.file error)
  | .ok yaml =>
    match convertText yaml with
    | .error error => return .error error
    | .ok json => return (← Files.writeUnder output json).mapError .file

end EntityContract
