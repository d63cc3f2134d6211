import EdgeQuery.Datum.Outline
import EdgeQuery.Datum.Tree
import EdgeQuery.Position
import EdgeQuery.Query

/-!
What is reported about a text that has a name: the faults in it, each with its line and column, its
syntax tree in one of three formats, and its tokens. How data is written as JSON is left to others.
-/

namespace EdgeQuery

/-- A text and the name under which it is reported. -/
structure Input where
  name : String
  text : String
deriving DecidableEq, Repr

/-- A fault, located by line and column. -/
structure Diagnostic where
  path : String
  line : Nat
  column : Nat
  message : String
deriving DecidableEq, Repr

/-- The formats in which a syntax tree is shown. -/
inductive OutputFormat
  | canonical
  | json
  | outline
deriving DecidableEq, Repr

/-- What writes data as JSON, on one line or on indented ones, unless it fails. -/
structure JsonWriter where
  compact : Datum → Except String String
  indented : Datum → Except String String

namespace Diagnostic

def ofError (name : String) (index : LineIndex) (error : SyntaxError) : Diagnostic :=
  let position := index.position error.span.start
  ⟨name, position.line, position.column, error.message⟩

def text (diagnostic : Diagnostic) : String :=
  diagnostic.path ++ ":" ++ toString diagnostic.line ++ ":" ++ toString diagnostic.column ++ ": " ++
    diagnostic.message

end Diagnostic

namespace OutputFormat

/-- The format that an option asks for. -/
def ofName? (name : String) : Option OutputFormat :=
  match name with
  | "sql" => some canonical
  | "json" => some json
  | "debug" => some outline
  | _ => none

/-- The file in the given format. -/
def render (format : OutputFormat) (writer : JsonWriter) (file : SourceFile) :
    Except String String :=
  match format with
  | canonical => .ok file.text
  | json => (writer.indented file.datum).map (· ++ "\n")
  | outline => .ok (file.datum.outline ++ "\n")

end OutputFormat

namespace Input

/-- The syntax tree of the text, or the first fault. -/
def parse (input : Input) (dialect : Dialect) : Except Diagnostic SourceFile :=
  match SourceFile.ofText input.text dialect with
  | .ok file => .ok file
  | .error error => .error (.ofError input.name (LineIndex.ofText input.text) error)

/-- All faults in the text. -/
def check (input : Input) (dialect : Dialect) : List Diagnostic :=
  let index := LineIndex.ofText input.text
  (SourceFile.recoverText input.text dialect).2.map (Diagnostic.ofError input.name index)

/-- A token with its text and place. -/
def tokenDatum (index : LineIndex) (token : Token) : Datum :=
  let position := index.position token.span.start
  .record "Token"
    [("kind", token.kind.datum), ("text", .string token.text), ("span", token.span.datum),
      ("line", .number position.line), ("column", .number position.column)]

/-- The tokens of the text, each with its text and place. -/
def tokenData (input : Input) (dialect : Dialect) : List Datum :=
  let index := LineIndex.ofText input.text
  (Scanner.ofText input.text dialect).tokens.1.map (tokenDatum index)

/-- The tokens of the text, each on a line of JSON. -/
def tokenLines (input : Input) (dialect : Dialect) (writer : JsonWriter) :
    Except String (List String) :=
  (input.tokenData dialect).mapM writer.compact

end Input
end EdgeQuery
