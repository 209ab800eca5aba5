import EntityContract.CommandLine.Run

/-!
The program on the files of the system.
-/

namespace EntityContract

def FileError.ofSystem : IO.Error → FileError
  | .noFileOrDirectory .. => .notFound
  | .alreadyExists .. => .exists
  | .inappropriateType _ 20 _ => .notDirectory
  | .inappropriateType .. => .isDirectory
  | error => .other (toString error)

def attempt {α : Type} (action : IO α) : IO (Except FileError α) := do
  try
    return .ok (← action)
  catch error =>
    return .error (.ofSystem error)

instance : Files IO where
  read path := attempt (IO.FS.readBinFile path)
  write path text := attempt (IO.FS.writeFile path text)
  createDirectories path := attempt (IO.FS.createDirAll path)

end EntityContract

open EntityContract in
/-- Runs the program, prints what it says, and ends with its exit code. -/
def main (arguments : List String) : IO UInt32 := do
  let outcome ← CommandLine.run (m := IO) arguments
  IO.print outcome.output
  IO.eprint outcome.errors
  return outcome.exitCode
