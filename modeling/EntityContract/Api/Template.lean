import EntityContract.Text.Split

/-!
Path templates: fixed segments and placeholders, each after a slash. Matching a path against a
template undoes filling it, as long as no value is empty or holds a slash.
-/

namespace EntityContract

inductive TemplateSegment where
  | fixed (text : String)
  | placeholder (name : String)
  deriving DecidableEq, Repr

/-- The segments of a path template, in order. -/
abbrev Template := List TemplateSegment

namespace Template

def write (segment : TemplateSegment → String) (template : Template) : String :=
  String.join (template.map fun part => "/" ++ segment part)

def text : Template → String := write fun
  | .fixed text => text
  | .placeholder name => ":" ++ name

def bracedText : Template → String := write fun
  | .fixed text => text
  | .placeholder name => "\x7b" ++ name ++ "\x7d"

/-- The values of the placeholders if the segments of a path fit. -/
def matchSegments : Template → List (List Char) → Option (List (String × String))
  | [], [] => some []
  | .fixed text :: template, segment :: segments =>
    if segment = text.toList then matchSegments template segments else none
  | .placeholder name :: template, segment :: segments =>
    if segment = [] then none
    else (matchSegments template segments).map ((name, String.ofList segment) :: ·)
  | _, _ => none

/-- The values of the placeholders if a path fits, undecoded and in order. -/
def matchPath (template : Template) (path : String) : Option (List (String × String)) :=
  match Text.split '/' path.toList with
  | [] :: segments => matchSegments template segments
  | _ => none

end Template

end EntityContract
