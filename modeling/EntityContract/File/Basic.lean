import EntityContract.File.Path

/-!
Files: what a program can do with them and how that fails.
-/

namespace EntityContract

inductive FileError where
  | notFound
  | notDirectory
  | isDirectory
  | exists
  | notText
  | other (text : String)
  deriving DecidableEq, Repr

def FileError.message : FileError → String
  | .notFound => "No such file or directory (os error 2)"
  | .notDirectory => "Not a directory (os error 20)"
  | .isDirectory => "Is a directory (os error 21)"
  | .exists => "File exists (os error 17)"
  | .notText => "stream did not contain valid UTF-8"
  | .other text => text

class Files (m : Type → Type) where
  read : String → m (Except FileError ByteArray)
  write : String → String → m (Except FileError Unit)
  /-- Creates a directory and those above it, as far as they are missing. -/
  createDirectories : String → m (Except FileError Unit)

namespace Files

variable {m : Type → Type} [Monad m] [Files m]

def readText (path : String) : m (Except FileError String) := do
  match ← read path with
  | .error error => return .error error
  | .ok bytes =>
    match String.fromUTF8? bytes with
    | some text => return .ok text
    | none => return .error .notText

/-- Writes a file; the directory it is in is created first. -/
def writeUnder (path text : String) : m (Except FileError Unit) := do
  let made ← match FilePath.parent? path with
    | none | some "" => pure (.ok ())
    | some directory => createDirectories directory
  match made with
  | .error error => return .error error
  | .ok () => write path text

end Files

end EntityContract
