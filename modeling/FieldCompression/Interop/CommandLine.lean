import FieldCompression.Interop.Session

/-!
# The command line

The program takes the path of a recording and, if wanted, the greatest capacity of the dynamic
table. It prints the decoded fields of each section, and it logs what happens.

Everything that it writes is a function of its arguments, of the content of the file, and of the
verbosity of the log. The function is here, and reading the file and writing the results is all
that remains to be done outside it.
-/

namespace FieldCompression.Interop

/-! ## Logging -/

/-- How important a line of the log is. -/
inductive Level where
  /-- Something is wrong. -/
  | error
  /-- Something may be wrong. -/
  | warn
  /-- Something a user wants to know. -/
  | info
  /-- What the program does. -/
  | debug
  /-- Every detail. -/
  | trace
deriving DecidableEq, Repr

namespace Level

/-- The position of a level, the most important one first. -/
def rank : Level → Nat
  | error => 1
  | warn => 2
  | info => 3
  | debug => 4
  | trace => 5

/-- The name of a level in the log. -/
def label : Level → String
  | error => "ERROR"
  | warn => "WARN"
  | info => "INFO"
  | debug => "DEBUG"
  | trace => "TRACE"

end Level

/-- How much is logged: all levels down to the given one, or nothing. -/
abbrev Verbosity := Option Level

/-- Whether a level is logged. -/
def Verbosity.shows (verbosity : Verbosity) (level : Level) : Bool :=
  match verbosity with
  | none => false
  | some least => level.rank ≤ least.rank

/-- The verbosity with a given name. -/
def Verbosity.ofName? : String → Option Verbosity
  | "off" => some none
  | "error" => some (some .error)
  | "warn" => some (some .warn)
  | "info" => some (some .info)
  | "debug" => some (some .debug)
  | "trace" => some (some .trace)
  | _ => none

/-! ## Showing reports -/

namespace Report

/-- What a report prints. -/
def printed : Report → String
  | event e =>
    match e.field? with
    | some field => s!"{Text.Utf8.lossy field.name}\t{Text.Utf8.lossy field.value}\n"
    | none => ""
  | decoded .. => "\n"
  | _ => ""

/-- What a report logs. -/
def logged? : Report → Option (Level × String)
  | received stream length => some (.debug, s!"Got stream={stream} len={length}")
  | event (.indexed entry _) =>
    some (.trace, s!"Indexed static={entry.isStatic} index={entry.absolute}")
  | event (.nameReference entry _ huffman neverIndexed) =>
    some (.trace, s!"Literal static={entry.isStatic} index={entry.absolute} " ++
      s!"huffman={huffman} hide={neverIndexed}")
  | event (.literalName ..) => none
  | event (.rejected cause) => some (.error, s!"Field section rejected err={cause.name}")
  | decoded stream requiredInsertCount =>
    some (.debug, s!"Decoded stream={stream} required_insert_count={requiredInsertCount}")
  | blocked stream => some (.debug, s!"Blocked stream={stream}")
  | neverUnblocked stream => some (.error, s!"Stream {stream} never unblocked")

/-- The line of a report in a log of the given verbosity. -/
def logLine? (verbosity : Verbosity) (r : Report) : Option String :=
  match r.logged? with
  | some (level, message) =>
    if verbosity.shows level then some s!"{level.label} {message}" else none
  | none => none

end Report

/-- The text of a failure. -/
def Failure.text : Failure → String
  | decoding cause => cause.name
  | truncated => "Error \x7b kind: UnexpectedEof, message: \"failed to fill whole buffer\" \x7d"

/-! ## The capacity -/

/-- Why an argument is no capacity. -/
inductive CapacityError where
  /-- There is nothing in it. -/
  | empty
  /-- There is something other than digits in it. -/
  | invalidDigit
  /-- It exceeds 64 bits. -/
  | overflow
deriving DecidableEq, Repr

namespace CapacityError

/-- The text of a cause. -/
def text (e : CapacityError) : String :=
  let kind :=
    match e with
    | empty => "Empty"
    | invalidDigit => "InvalidDigit"
    | overflow => "PosOverflow"
  s!"ParseIntError \x7b kind: {kind} \x7d"

end CapacityError

/-- The number of digits read from left to right, `value` being that of the digits so far. The
first character that is no digit or makes the number too great decides. -/
def readDigits (value : Nat) : List Char → Except CapacityError Nat
  | [] => .ok value
  | c :: rest =>
    if !c.isDigit then .error .invalidDigit
    else
      let value := value * 10 + (c.toNat - '0'.toNat)
      if wordBound ≤ value then .error .overflow else readDigits value rest

/-- Reads a capacity: decimal digits, and a plus sign before them if wanted. -/
def readCapacity (argument : String) : Except CapacityError Nat :=
  match argument.toList with
  | [] => .error .empty
  | ['+'] => .error .invalidDigit
  | '+' :: digits => readDigits 0 digits
  | digits => readDigits 0 digits

/-! ## Files that cannot be read -/

/-- What the operating system says of a file that it cannot open or read. -/
structure FileError where
  /-- The number of the cause. -/
  code : Nat
  /-- The kind of the cause. -/
  kind : String
  /-- The cause in words. -/
  message : String
deriving DecidableEq, Repr

namespace FileError

/-- There is no file under the path. -/
def notFound : FileError := ⟨2, "NotFound", "No such file or directory"⟩

/-- The causes that a path or the rights to a file can have, each of a kind of its own. -/
def known : List FileError :=
  [notFound, ⟨13, "PermissionDenied", "Permission denied"⟩,
    ⟨20, "NotADirectory", "Not a directory"⟩, ⟨21, "IsADirectory", "Is a directory"⟩,
    ⟨36, "InvalidFilename", "File name too long"⟩,
    ⟨40, "FilesystemLoop", "Too many levels of symbolic links"⟩]

/-- The cause with a number. Where that is none of the known ones, the given words say what
it is. -/
def ofCode (code : Nat) (message : String) : FileError :=
  (known.find? fun e ↦ e.code == code).getD ⟨code, "Uncategorized", message⟩

/-- The text of a cause. -/
def text (e : FileError) : String :=
  s!"Os \x7b code: {e.code}, kind: {e.kind}, message: \"{e.message}\" \x7d"

end FileError

/-! ## Running -/

/-- What a run of the program gives. -/
structure Result where
  /-- The exit code. -/
  code : Nat
  /-- What it prints. -/
  printed : String := ""
  /-- The lines that it logs, and the failure that ended it. -/
  log : List String := []
deriving DecidableEq, Repr

/-- A run that failed with the given text, after what it had written before. -/
def Result.failed (text : String) (printed : String := "") (log : List String := []) : Result where
  code := 1
  printed := printed
  log := log ++ [s!"Error: {text}"]

/-- How the program is used. -/
def usage : String := "Usage: qpack-decode FILE [TABLE_CAPACITY]\n"

/-- The capacity if the arguments do not give one. -/
def defaultCapacity : Nat := 4096

/-- The settings under which a recording is replayed. -/
def settingsFor (capacity : Nat) : Settings := { maxTableCapacity := capacity }

/-- The outcome of replaying a recording. -/
def showRun (verbosity : Verbosity) (run : Session.Run) : Result :=
  let printed := "".intercalate (run.reports.map Report.printed)
  let log := run.reports.filterMap (Report.logLine? verbosity)
  match run.failure? with
  | none => { code := 0, printed, log }
  | some failure => .failed failure.text printed log

/-- Replays the recording in a file, unless there is no such file. -/
def replayFile (verbosity : Verbosity) (capacity : Nat) (content? : Option Bytes) : Result :=
  match content? with
  | none => .failed FileError.notFound.text
  | some recording =>
    showRun verbosity ((Session.start (settingsFor capacity)).run recording)

/-- What the arguments ask for. -/
inductive Request where
  /-- To replay the recording in a file. -/
  | replay (path : String) (capacity : Nat)
  /-- Nothing that needs a file. -/
  | stop (result : Result)
deriving DecidableEq, Repr

/-- Reads the arguments. -/
def Request.ofArguments : List String → Request
  | [path] => replay path defaultCapacity
  | [path, capacity] =>
    match readCapacity capacity with
    | .error cause => stop (.failed cause.text)
    | .ok capacity => replay path capacity
  | _ => stop { code := 0, printed := usage }

/-- Runs the program. The capacity is read before the file is opened. -/
def runProgram (verbosity : Verbosity) (arguments : List String)
    (content? : String → Option Bytes) : Result :=
  match Request.ofArguments arguments with
  | .replay path capacity => replayFile verbosity capacity (content? path)
  | .stop result => result

end FieldCompression.Interop
