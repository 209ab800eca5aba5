import EntityContract.File.Basic

/-!
A tree of files as a value: the files and directories under the current directory. Names lead
through directories only, and a point or a slash at the end of a name leads into one.
-/

namespace EntityContract

inductive FileEntry where
  | directory
  | file (content : ByteArray)

/-- Entries by the parts of their names; the current directory has no entry. -/
structure FileTree where
  entries : List (List String × FileEntry)

namespace FileTree

def empty : FileTree := ⟨[]⟩

def entry? (tree : FileTree) (place : List String) : Option FileEntry :=
  if place = [] then some .directory else tree.entries.lookup place

def set (tree : FileTree) (place : List String) (entry : FileEntry) : FileTree :=
  ⟨(place, entry) :: tree.entries.filter (·.1 != place)⟩

def requireDirectory (tree : FileTree) (place : List String) : Except FileError Unit :=
  match tree.entry? place with
  | some .directory => .ok ()
  | some (.file _) => .error .notDirectory
  | none => .error .notFound

/-- The place that a name leads to from a place, which need not exist if all before it does. -/
def walk (tree : FileTree) (place : List String) : List String → Except FileError (List String)
  | [] => .ok place
  | step :: steps => do
    tree.requireDirectory place
    let next :=
      if step = "." then place else if step = ".." then place.dropLast else place ++ [step]
    tree.walk next steps

/-- The steps of a name. A slash at the end is a step into a directory. -/
def steps (path : String) : List String :=
  let pieces := (Text.split '/' path.toList).map String.ofList
  let named := pieces.filter (· != "")
  if pieces.getLast? = some "" then named ++ ["."] else named

/-- The place of a name in the tree. Absolute names lead out of it. -/
def locate (tree : FileTree) (path : String) : Except FileError (List String) :=
  if path = "" ∨ FilePath.isAbsolute path then .error .notFound else tree.walk [] (steps path)

def read (tree : FileTree) (path : String) : Except FileError ByteArray := do
  match tree.entry? (← tree.locate path) with
  | some (.file content) => return content
  | some .directory => throw .isDirectory
  | none => throw .notFound

/-- Writes a file; only the directory it is in has to exist. -/
def write (tree : FileTree) (path : String) (content : ByteArray) : Except FileError FileTree := do
  if path = "" ∨ FilePath.isAbsolute path then throw .notFound
  let names := steps path
  let directory ← tree.walk [] names.dropLast
  tree.requireDirectory directory
  match names.getLast? with
  | none => throw .isDirectory
  | some name =>
    if name = "." ∨ name = ".." then throw .isDirectory
    match tree.entry? (directory ++ [name]) with
    | some .directory => throw .isDirectory
    | _ => return tree.set (directory ++ [name]) (.file content)

/-- Walks as `walk` does, and creates directories that are missing on the way. -/
def create (tree : FileTree) (place : List String) :
    List String → Except FileError FileTree
  | [] => .ok tree
  | step :: steps =>
    if step = "." then tree.create place steps
    else if step = ".." then tree.create place.dropLast steps
    else
      let next := place ++ [step]
      match tree.entry? next with
      | some .directory => tree.create next steps
      | some (.file _) => .error (if steps = [] then .exists else .notDirectory)
      | none => (tree.set next .directory).create next steps

def createDirectories (tree : FileTree) (path : String) : Except FileError FileTree :=
  if path = "" then .ok tree
  else if FilePath.isAbsolute path then .error .notFound
  else tree.create [] (FilePath.parts path)

/-- Puts a file or directory into the tree together with the directories above it. -/
def add (tree : FileTree) (path : String) (content : Option ByteArray) :
    Except FileError FileTree := do
  match content with
  | none => tree.createDirectories path
  | some content =>
    let tree ← tree.createDirectories ((FilePath.parent? path).getD "")
    tree.write path content

end FileTree

abbrev OnFiles (α : Type) := StateM FileTree α

namespace OnFiles

/-- Keeps the tree if the change of it fails. -/
def change (f : FileTree → Except FileError FileTree) : OnFiles (Except FileError Unit) := do
  match f (← get) with
  | .ok tree => set tree; return .ok ()
  | .error error => return .error error

instance : Files (StateM FileTree) where
  read path := return (← get).read path
  write path text := change fun tree => tree.write path text.toUTF8
  createDirectories path := change fun tree => tree.createDirectories path

end OnFiles

end EntityContract
