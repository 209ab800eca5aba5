import EntityContract.Validation.Violation

/-!
The result of validating one document, and the short report of it.
-/

namespace EntityContract

inductive ValidationResult where
  /-- The normalized document, and the label of the chosen variant of a union. -/
  | valid (document : Json) (variant? : Option String)
  | invalid (violations : List Violation)

namespace ValidationResult

def isValid : ValidationResult → Bool
  | .valid _ _ => true
  | .invalid _ => false

def violations : ValidationResult → List Violation
  | .valid _ _ => []
  | .invalid violations => violations

structure Reported where
  path : String
  message : String
  deriving DecidableEq, Repr

/-- The lines of the report; none for a valid document. -/
def report? : ValidationResult → Option (List Reported)
  | .valid _ _ => none
  | .invalid violations =>
    some (violations.map fun violation => ⟨violation.path.display, violation.message⟩)

end ValidationResult

end EntityContract
