import FieldCompression.Interop.CommandLine

/-!
# The program

Reads the file that the arguments name, replays it, and writes what that gives. How much is logged
is said by a level in the environment, as in `RUST_LOG=debug`; without it errors alone are logged.
The lines are the program's own, and the notes of the library are not among them.
-/

namespace FieldCompression.Interop

/-- The number and the words that a failure carries, if the operating system gave them. -/
def systemCause : IO.Error → UInt32 × String
  | .alreadyExists _ code details | .interrupted _ code details
  | .noFileOrDirectory _ code details | .invalidArgument _ code details
  | .permissionDenied _ code details | .resourceExhausted _ code details
  | .inappropriateType _ code details | .noSuchThing _ code details
  | .otherError code details | .resourceBusy code details | .resourceVanished code details
  | .unsupportedOperation code details | .hardwareFault code details
  | .unsatisfiedConstraints code details | .illegalOperation code details
  | .protocolError code details | .timeExpired code details => (code, details)
  | e => (0, e.toString)

/-- The cause of a failure. Where opening a file failed the number comes negated. -/
def FileError.ofFailure (e : IO.Error) : FileError :=
  let (code, details) := systemCause e
  .ofCode (min code.toNat (-code).toNat) details

/-- The content of a file, or why it cannot be read. -/
def readFile (path : String) : BaseIO (Except FileError Bytes) := do
  match ← (IO.FS.readBinFile path).toBaseIO with
  | .ok content => return .ok content.toList
  | .error e => return .error (.ofFailure e)

/-- The verbosity that the environment asks for. -/
def readVerbosity : IO Verbosity := do
  let level? ← IO.getEnv "RUST_LOG"
  return (level?.bind fun level ↦ Verbosity.ofName? level.toLower).getD (some .error)

/-- Does what the arguments ask for, and gives the exit code. -/
def execute (arguments : List String) : IO UInt32 := do
  let verbosity ← readVerbosity
  let result ←
    match Request.ofArguments arguments with
    | .replay path _ =>
      match ← readFile path with
      | .ok recording => pure (runProgram verbosity arguments fun _ ↦ some recording)
      | .error e => pure (.failed e.text)
    | .stop result => pure result
  IO.print result.printed
  for line in result.log do
    IO.eprintln line
  return UInt32.ofNat result.code

end FieldCompression.Interop

/-- Runs the program. -/
def main (arguments : List String) : IO UInt32 := FieldCompression.Interop.execute arguments
