import EntityContract.File.Path

/-!
The textual forms of schema documents.
-/

namespace EntityContract

inductive DocumentFormat where
  | json
  | yaml
  deriving DecidableEq, Repr

namespace DocumentFormat

def ofPath? (path : String) : Option DocumentFormat :=
  (FilePath.extension? path).bind fun extension =>
    match extension.toLower with
    | "json" => some .json
    | "yaml" | "yml" => some .yaml
    | _ => none

/-- The form of a document file; one whose name does not tell it is YAML. -/
def ofDocumentPath (path : String) : DocumentFormat := (ofPath? path).getD .yaml

end DocumentFormat

end EntityContract
