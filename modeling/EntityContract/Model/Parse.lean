import EntityContract.Model.Decode
import EntityContract.Validator

/-!
Reading typed values from documents that have been validated first.
-/

namespace EntityContract

inductive ParseError where
  | invalid (violations : List Violation)
  | decode (cause : DecodeError)

namespace ParseError

def message : ParseError → String
  | .invalid violations => "document is invalid: " ++ Violation.summary violations
  | .decode cause => "failed to deserialize validated document: " ++ cause.message

end ParseError

def Validator.parse {α : Type} (validator : Validator) (decode : Decoder α) (document : Json) :
    Except ParseError α :=
  match validator.validate document with
  | .invalid violations => .error (.invalid violations)
  | .valid document _ => (decode document).mapError .decode

end EntityContract
