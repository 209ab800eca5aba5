import EntityContract.Text.Split

/-!
Names of files: parts between slashes. Empty parts and single points say nothing, but for a point
at the beginning.
-/

namespace EntityContract.FilePath

/-- The parts of a name; a leading slash is not one of them. -/
def parts (path : String) : List String :=
  let pieces := (Text.split '/' path.toList).map String.ofList
  let named := pieces.filter fun piece => piece != "" && piece != "."
  if pieces.head? = some "." then "." :: named else named

def isAbsolute (path : String) : Bool := path.startsWith "/"

/-- What follows the last point of a name, unless the name has none or begins with it. -/
def extensionOf? (name : String) : Option String :=
  match (Text.split '.' name.toList).reverse with
  | last :: _ :: rest =>
    if name = ".." ∨ (rest = [] ∧ name.startsWith ".") then none else some (String.ofList last)
  | _ => none

/-- The extension of the last part, which is the name of a file. -/
def extension? (path : String) : Option String :=
  (parts path).getLast?.bind fun name => if name = "." then none else extensionOf? name

/-- The directory that a name points into; the empty name is the current one. A name without parts
points into none. -/
def parent? (path : String) : Option String :=
  match parts path with
  | [] => none
  | named =>
    let above := "/".intercalate named.dropLast
    some (if isAbsolute path then "/" ++ above else above)

end EntityContract.FilePath
