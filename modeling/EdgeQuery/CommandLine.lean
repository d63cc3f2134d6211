import EdgeQuery.Diagnostic

/-!
The command: what it prints, what it logs and how it ends, as a function of its arguments and of
what there is to read. How the arguments are read, how a failure is described, what becomes of an
event that is logged and how data is written as JSON is left to others.
-/

namespace EdgeQuery

/-- What the command is asked to do. A file that is not named is the standard input. -/
inductive Command
  | parse (file : Option String) (format : OutputFormat)
  | check (files : List String)
  | tokens (file : Option String)
deriving DecidableEq, Repr

structure Invocation where
  ignoreCase : Bool
  verbose : Bool
  command : Command
deriving DecidableEq, Repr

/-- Why a text could not be read. -/
inductive ReadFailure
  | notFound
  | permissionDenied
  | notADirectory
  | isADirectory
  | nameTooLong
  | invalidUtf8
  | other (text : String)
deriving DecidableEq, Repr

def ReadFailure.text : ReadFailure → String
  | .notFound => "No such file or directory (os error 2)"
  | .permissionDenied => "Permission denied (os error 13)"
  | .notADirectory => "Not a directory (os error 20)"
  | .isADirectory => "Is a directory (os error 21)"
  | .nameTooLong => "File name too long (os error 36)"
  | .invalidUtf8 => "stream did not contain valid UTF-8"
  | .other content => content

/-- Why the command fails. -/
inductive Failure
  | unreadableFile (path : String) (cause : ReadFailure)
  | unreadableInput (cause : ReadFailure)
  | faulty (diagnostic : Diagnostic)
  /-- A check has found this many faults. -/
  | found (count : Nat)
  /-- Data cannot be written as JSON. -/
  | unwritable (cause : String)
deriving DecidableEq, Repr

namespace Failure

def message : Failure → String
  | .unreadableFile path cause => "Failed to read '" ++ path ++ "': " ++ cause.text
  | .unreadableInput cause => "Failed to read standard input: " ++ cause.text
  | .faulty diagnostic => diagnostic.text
  | .found count => toString count ++ " error(s) found"
  | .unwritable cause => "Serialization error: " ++ cause

def cause? : Failure → Option String
  | .unreadableFile _ cause | .unreadableInput cause => some cause.text
  | .unwritable cause => some cause
  | .faulty _ | .found _ => none

end Failure

/-- What happens on the way, for those who search for faults in the command itself. Where a
statement begins is an event, too, but it is never asked for. -/
inductive Event
  | selected (dialect : String)
  /-- A fault is reported, and reading goes on at the next statement. -/
  | skipped (fault : String)
  | checked (path : String) (statements faults : Nat)
deriving DecidableEq, Repr

/-- How severe an event has to be if it is to be logged. All of the above are for debugging only. -/
inductive LogLevel
  | debug
  | warning
deriving DecidableEq, Repr

/-- What there is to read: the standard input, which is empty once it has been read, and files. -/
structure Surroundings where
  input : ByteArray
  file : String → Except ReadFailure ByteArray

/-- What the command prints, and the code that it ends with. -/
structure Outcome where
  code : UInt32
  output : String
  errors : String
deriving DecidableEq, Repr

/-- What the command takes from others. -/
structure Facilities where
  /-- What the arguments and the environment's setting ask for, or how the command ends at once. -/
  readArguments : List String → Option String → Except Outcome Invocation
  /-- What is printed about a failure that the command ends with. -/
  describe : Failure → String
  /-- What is printed about an event where events of the level are logged. -/
  log : LogLevel → Event → String
  json : JsonWriter

namespace Surroundings

/-- A hyphen stands for the standard input. As in any path, empty and dot components behind it do
not matter. -/
def isInput (path : String) : Bool :=
  match path.splitOn "/" with
  | "-" :: rest => rest.all fun component => component = "" || component = "."
  | _ => false

def decode (bytes : ByteArray) : Except ReadFailure String :=
  match String.fromUTF8? bytes with
  | some text => .ok text
  | none => .error .invalidUtf8

/-- The text of a file. -/
def readFile (surroundings : Surroundings) (path : String) : Except Failure Input :=
  match surroundings.file path >>= decode with
  | .ok text => .ok ⟨path, text⟩
  | .error cause => .error (.unreadableFile path cause)

/-- The text of the standard input. -/
def readInput (surroundings : Surroundings) : Except Failure Input :=
  match decode surroundings.input with
  | .ok text => .ok ⟨"<stdin>", text⟩
  | .error cause => .error (.unreadableInput cause)

/-- Reads what a path stands for, and leaves what is there to read afterwards. -/
def read (surroundings : Surroundings) (path : Option String) :
    Except Failure Input × Surroundings :=
  if path.all isInput then (surroundings.readInput, { surroundings with input := .empty })
  else (surroundings.readFile (path.getD ""), surroundings)

end Surroundings

/-- What happens while the faults in a text are looked for. -/
def Input.events (input : Input) (dialect : Dialect) : List Event :=
  let (file, faults) := SourceFile.recoverText input.text dialect
  faults.map (fun fault => .skipped fault.text) ++
    [.checked input.name file.statements.length faults.length]

/-- Lines, each with its line feed. -/
def unlines (lines : List String) : String :=
  String.join (lines.map (· ++ "\n"))

/-- What a command prints, what happens meanwhile, and why it fails if it does. -/
structure Command.Run where
  output : String
  events : List Event
  failure : Option Failure

namespace Command

/-- The faults in the files, up to a file that cannot be read, and what happens meanwhile. -/
def checkAll (dialect : Dialect) (surroundings : Surroundings) :
    List String → List Diagnostic × List Event × Option Failure
  | [] => ([], [], none)
  | path :: paths =>
    match surroundings.read (some path) with
    | (.error failure, _) => ([], [], some failure)
    | (.ok input, surroundings) =>
      let (diagnostics, events, failure) := checkAll dialect surroundings paths
      (input.check dialect ++ diagnostics, input.events dialect ++ events, failure)

def run (command : Command) (dialect : Dialect) (surroundings : Surroundings)
    (writer : JsonWriter) : Run :=
  match command with
  | .parse file format =>
    match (surroundings.read file).1 with
    | .error failure => ⟨"", [], some failure⟩
    | .ok input =>
      match input.parse dialect with
      | .error diagnostic => ⟨"", [], some (.faulty diagnostic)⟩
      | .ok file =>
        match format.render writer file with
        | .error cause => ⟨"", [], some (.unwritable cause)⟩
        | .ok text => ⟨text, [], none⟩
  | .check files =>
    let (diagnostics, events, failure) := checkAll dialect surroundings files
    let found := if diagnostics.isEmpty then none else some (Failure.found diagnostics.length)
    ⟨unlines (diagnostics.map Diagnostic.text), events, failure.or found⟩
  | .tokens file =>
    match (surroundings.read file).1 with
    | .error failure => ⟨"", [], some failure⟩
    | .ok input =>
      match input.tokenLines dialect writer with
      | .error cause => ⟨"", [], some (.unwritable cause)⟩
      | .ok lines => ⟨unlines lines, [], none⟩

/-- The paths that the command reads. -/
def paths : Command → List (Option String)
  | .parse file _ => [file]
  | .check files => files.map some
  | .tokens file => [file]

end Command

namespace Invocation

def dialect (invocation : Invocation) : Dialect :=
  .ofIgnoreCase invocation.ignoreCase

def logLevel (invocation : Invocation) : LogLevel :=
  if invocation.verbose then .debug else .warning

end Invocation

namespace Facilities

/-- What is logged of an invocation in the course of which there are the given events. The log is
printed where the errors are. -/
def logOf (facilities : Facilities) (invocation : Invocation) (events : List Event) : String :=
  String.join ((.selected invocation.dialect.name :: events).map
    (facilities.log invocation.logLevel))

/-- Does what is asked for. A failure is reported behind the log. -/
def perform (facilities : Facilities) (invocation : Invocation) (surroundings : Surroundings) :
    Outcome :=
  let run := invocation.command.run invocation.dialect surroundings facilities.json
  let log := facilities.logOf invocation run.events
  match run.failure with
  | none => ⟨0, run.output, log⟩
  | some failure => ⟨1, run.output, log ++ "Error: " ++ facilities.describe failure ++ "\n"⟩

/-- The outcome of the command with the given arguments and setting of the environment. -/
def runCommandLine (facilities : Facilities) (arguments : List String) (setting : Option String)
    (surroundings : Surroundings) : Outcome :=
  match facilities.readArguments arguments setting with
  | .error outcome => outcome
  | .ok invocation => facilities.perform invocation surroundings

end Facilities
end EdgeQuery
