import EdgeQuery.CommandLine.Standard

/-!
The executable: reads what the command needs, and prints what it yields.
-/

open EdgeQuery

/-- All bytes of a stream. -/
partial def readStream (stream : IO.FS.Stream) (bytes : ByteArray) : IO ByteArray := do
  let chunk ← stream.read 65536
  if chunk.isEmpty then return bytes else readStream stream (bytes ++ chunk)

/-- The number of a system error, which is reported with either sign. -/
def errorNumber (code : UInt32) : UInt32 :=
  min code (0 - code)

def readFailure : IO.Error → ReadFailure
  | .noFileOrDirectory .. => .notFound
  | .permissionDenied .. => .permissionDenied
  | .inappropriateType _ code _ => if errorNumber code = 21 then .isADirectory else .notADirectory
  | .invalidArgument _ code text =>
    if errorNumber code = 36 then .nameTooLong else .other text
  | error => .other (toString error)

/-- The contents of a file, or why they cannot be had. -/
def fetchFile (path : String) : IO (Except ReadFailure ByteArray) := do
  try
    return .ok (← IO.FS.readBinFile path)
  catch error =>
    return .error (readFailure error)

/-- Reads in advance what the command may read. -/
def fetch (command : Command) : IO Surroundings := do
  let mut files : List (String × Except ReadFailure ByteArray) := []
  let mut input := ByteArray.empty
  for path in command.paths do
    if path.all Surroundings.isInput then
      input ← readStream (← IO.getStdin) input
    else
      let name := path.getD ""
      files := (name, ← fetchFile name) :: files
  let fetched := files
  return ⟨input, fun path => (fetched.lookup path).getD (.error .notFound)⟩

def main (arguments : List String) : IO UInt32 := do
  let setting ← IO.getEnv "SURQL_CASE_INSENSITIVE"
  let facilities := Facilities.standard
  let surroundings ← match facilities.readArguments arguments setting with
    | .ok invocation => fetch invocation.command
    | .error _ => pure ⟨.empty, fun _ => .error .notFound⟩
  let outcome := facilities.runCommandLine arguments setting surroundings
  (← IO.getStdout).putStr outcome.output
  (← IO.getStderr).putStr outcome.errors
  return outcome.code
