import EntityContract.Path
import EntityContract.Shape.Basic
import EntityContract.Timestamp
import EntityContract.Uri.Basic

/-!
What is wrong with a document: the place, the constraint that is broken there, and, below a union
of which no variant fits, the variants that came closest.
-/

namespace EntityContract

inductive ConstraintKind where
  | typeMismatch
  | required
  | enum
  | literal
  | format
  deriving DecidableEq, Repr

namespace ConstraintKind

def name : ConstraintKind → String
  | .typeMismatch => "type_mismatch"
  | .required => "required"
  | .enum => "enum"
  | .literal => "literal"
  | .format => "format"

end ConstraintKind

inductive FormatProblem where
  | uri (cause : UriError)
  | dateTime (cause : TimestampError)
  deriving DecidableEq, Repr

namespace FormatProblem

def name : FormatProblem → String
  | .uri _ => "uri"
  | .dateTime _ => "date-time"

def message : FormatProblem → String
  | .uri cause => cause.message
  | .dateTime cause => cause.message

end FormatProblem

namespace StringFormat

def problem? (format : StringFormat) (text : String) : Option FormatProblem :=
  match format with
  | .any => none
  | .uri =>
    match Uri.check text with
    | .ok _ => none
    | .error cause => some (.uri cause)
  | .dateTime =>
    match Timestamp.ofText text with
    | .ok _ => none
    | .error cause => some (.dateTime cause)

end StringFormat

inductive Fault where
  | type (expected : String) (received : Json)
  | missing
  | missingParameter
  | enum (options : List String) (received : String)
  | literal (expected received : Json)
  | format (text : String) (problem : FormatProblem)

namespace Fault

def kind : Fault → ConstraintKind
  | .type _ _ => .typeMismatch
  | .missing => .required
  | .missingParameter => .required
  | .enum _ _ => .enum
  | .literal _ _ => .literal
  | .format _ _ => .format

def message : Fault → String
  | .type expected received => s!"expected {expected}, received " ++ received.typeName
  | .missing => "required field is missing"
  | .missingParameter => "required parameter is missing"
  | .enum options received =>
    s!"invalid enum value '{received}': expected one of " ++
      " | ".intercalate (options.map fun option => s!"'{option}'")
  | .literal expected received =>
    "expected literal " ++ expected.compact ++ ", received " ++ received.compact
  | .format text problem => s!"invalid " ++ problem.name ++ s!" '{text}': " ++ problem.message

end Fault

/-- A broken constraint; `closest` names the variants of the unions around it, innermost first. -/
structure Violation where
  path : Path
  fault : Fault
  closest : List String

namespace Violation

def message (violation : Violation) : String :=
  violation.fault.message ++
    String.join (violation.closest.map fun label => s!" (closest variant: {label})")

/-- The same violation, told as one of the closest variant of a union. -/
def inVariant (label : String) (violation : Violation) : Violation :=
  { violation with closest := violation.closest ++ [label] }

/-- The same violation in a document that has the checked one as a part. -/
def under (segment : Segment) (violation : Violation) : Violation :=
  { violation with path := segment :: violation.path }

/-- One line for readers; a fault of the whole document needs no path. -/
def text (violation : Violation) : String :=
  if violation.path = [] then violation.message
  else violation.path.display ++ ": " ++ violation.message

def summary (violations : List Violation) : String := "; ".intercalate (violations.map text)

end Violation

end EntityContract
