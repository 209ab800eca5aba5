import EntityContract.Yaml.Error

/-!
Folding of lines. A text that runs over several lines is one line: a single break between two of
its words stands for a space, and of several breaks the first one is dropped.
-/

namespace EntityContract.Yaml

/-- The white space since the last character of a text, newest first. Once a line is broken, blanks
are indentation and are dropped. A break that is escaped leaves `breaks none`. -/
inductive Gap where
  | none
  | blanks (chars : List Char)
  | breaks (first : Option Char) (more : List Char)
  deriving DecidableEq, Repr

namespace Gap

def addBlank (c : Char) : Gap → Gap
  | none => blanks [c]
  | blanks chars => blanks (c :: chars)
  | breaks first more => breaks first more

def addBreak (c : Char) : Gap → Gap
  | breaks first more => breaks first (c :: more)
  | _ => breaks (some c) []

def isNone : Gap → Bool
  | none => true
  | _ => false

def hasBreak : Gap → Bool
  | breaks _ _ => true
  | _ => false

/-- What the gap contributes between two words, newest first. -/
def fold : Gap → List Char
  | none => []
  | blanks chars => chars
  | breaks (some '\n') [] => [' ']
  | breaks (some '\n') more => more
  | breaks (some separator) more => more ++ [separator]
  | breaks Option.none more => more

end Gap

end EntityContract.Yaml
