import EntityContract.Json.Print

/-!
Where a value lies in a document, and the two ways to write that down: for readers, and as a JSON
pointer.
-/

namespace EntityContract

inductive Segment where
  | index (position : Nat)
  | key (name : String)
  deriving DecidableEq, Repr

/-- The steps from the root of a document. -/
abbrev Path := List Segment

namespace Segment

def isIdentifierStart (c : Char) : Bool := c.isAlpha || c = '_' || c = '$'

def isIdentifierPart (c : Char) : Bool := c.isAlphanum || c = '_' || c = '$'

/-- Keys of letters, digits, `_` and `$` that start with no digit are written plainly. -/
def isIdentifier (name : String) : Bool :=
  match name.toList with
  | first :: rest => isIdentifierStart first && rest.all isIdentifierPart
  | [] => false

/-- The text of a step: a dot and the key, or brackets around an index or a quoted key. -/
def display (first : Bool) : Segment → String
  | .index position => "[" ++ toString position ++ "]"
  | .key name =>
    if isIdentifier name then (if first then name else "." ++ name)
    else "[" ++ Json.quote name ++ "]"

/-- In a pointer `~` and `/` are written `~0` and `~1`. -/
def escapePointer (c : Char) : List Char :=
  if c = '~' then ['~', '0'] else if c = '/' then ['~', '1'] else [c]

def pointerToken : Segment → String
  | .index position => toString position
  | .key name => String.ofList (name.toList.flatMap escapePointer)

end Segment

namespace Path

/-- The path as `servers[0].server.name`; other keys are quoted in brackets. -/
def display : Path → String
  | [] => ""
  | first :: rest => first.display true ++ String.join (rest.map (·.display false))

def pointer (path : Path) : String :=
  String.join (path.map fun segment => "/" ++ segment.pointerToken)

end Path

end EntityContract
