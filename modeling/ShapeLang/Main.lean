import ShapeLang.Command

/-!
# The program

Runs the command on the files of the system.
-/

namespace ShapeLang.Command

/-- The number of a system error, which some calls report negated. -/
def systemCode (code : UInt32) : UInt32 := if code < 0x80000000 then code else 0 - code

def readErrorOf (e : IO.Error) : ReadError :=
  match e with
  | .noFileOrDirectory .. => .notFound
  | .permissionDenied .. => .other "Permission denied (os error 13)"
  | .inappropriateType _ code _ => if systemCode code = 20 then .notFolder else .isFolder
  | other => .other (toString other)

def readFile (path : String) : IO (Except ReadError String) := do
  match ← (IO.FS.readBinFile path).toBaseIO with
  | .ok bytes => return decodeText bytes
  | .error e => return .error (readErrorOf e)

end ShapeLang.Command

def main (args : List String) : IO UInt32 := do
  let stderr ← IO.getStderr
  let color := (← IO.getEnv "NO_COLOR").isNone && (← stderr.isTty)
  let outcome ← ShapeLang.Command.run ShapeLang.Command.readFile color args
  stderr.putStr outcome.errors
  return outcome.code
