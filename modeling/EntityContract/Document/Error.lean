import EntityContract.Contract
import EntityContract.File.Basic
import EntityContract.Yaml.Error

/-!
Why a schema document cannot be used.
-/

namespace EntityContract

inductive JsonFault where
  | malformed
  | keyWithoutText
  deriving DecidableEq, Repr

def JsonFault.message : JsonFault → String
  | .malformed => "malformed text"
  | .keyWithoutText => "key must be a string"

inductive DocumentError where
  | file (error : FileError)
  | json (fault : JsonFault)
  | yaml (error : YamlError)
  | load (error : LoadError)
  | contract (error : ContractError)
  | noSources
  deriving DecidableEq, Repr

def DocumentError.message : DocumentError → String
  | .file error => "I/O error: " ++ error.message
  | .json fault => "JSON error: " ++ fault.message
  | .yaml error => "YAML error: " ++ error.message
  | .load error => "invalid schema document: " ++ error.message
  | .contract error => error.message
  | .noSources => "no schema document sources available"

end EntityContract
