import EdgeQuery.CommandLine.Arguments
import EdgeQuery.Datum.Json

/-!
The facilities of the executable. What is proved of the command holds with any others that can be
relied on.
-/

namespace EdgeQuery

/-- The message, and the cause if there is one. -/
def Failure.describe (failure : Failure) : String :=
  match failure.cause? with
  | some cause => failure.message ++ "\n\nCaused by:\n    " ++ cause
  | none => failure.message

def Event.line : Event → String
  | .selected dialect => "DEBUG selected dialect dialect=\"" ++ dialect ++ "\"\n"
  | .skipped fault => "DEBUG skipping to the next statement error=" ++ fault ++ "\n"
  | .checked path statements faults =>
    "DEBUG checked path=" ++ path ++ " statements=" ++ toString statements ++
      " errors=" ++ toString faults ++ "\n"

def JsonWriter.standard : JsonWriter where
  compact datum := .ok datum.compactJson
  indented datum := .ok datum.indentedJson

def Facilities.standard : Facilities where
  readArguments arguments setting :=
    (Invocation.ofArguments arguments setting).mapError Refusal.outcome
  describe := Failure.describe
  log
    | .debug, event => event.line
    | .warning, _ => ""
  json := .standard

end EdgeQuery
