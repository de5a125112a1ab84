import Compare68k.Cli.Run
/-!
# The program

The command line, attached to the system.
-/

namespace Compare68k.Cli

/-- The number of an error, which the system may give as a negative one. -/
def errorNumber (code : UInt32) : Nat :=
  min code.toNat (0 - code).toNat

def FileError.ofSystem : IO.Error → FileError
  | .noFileOrDirectory .. => .notFound
  | .permissionDenied .. => .permissionDenied
  | .invalidArgument _ code text => .ofCode (errorNumber code) text
  | .inappropriateType _ code text => .ofCode (errorNumber code) text
  | .otherError code text => .ofCode (errorNumber code) text
  | e => ⟨0, "Uncategorized", toString e⟩

def readBytes (path : String) : IO (Except FileError ByteArray) := do
  try
    return .ok (← IO.FS.readBinFile path)
  catch e =>
    return .error (.ofSystem e)

end Compare68k.Cli

open Compare68k in
def main (args : List String) : IO UInt32 := do
  let outcome ← Cli.run Cli.readBytes args
  (← IO.getStdout).putStr outcome.output
  (← IO.getStderr).putStr outcome.errors
  return outcome.exit
