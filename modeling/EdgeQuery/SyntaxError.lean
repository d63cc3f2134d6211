import EdgeQuery.Token

/-!
What can be wrong with a query, and how each fault is put into words.
-/

namespace EdgeQuery

/-- A construct that the end of a text can leave open. -/
inductive Construct
  | string
  | comment
  | delimited (delimiter : Delimiter)
deriving DecidableEq, Repr

def Construct.text : Construct → String
  | .string => "string literal"
  | .comment => "block comment"
  | .delimited delimiter => "`" ++ (Symbol.opening delimiter).text ++ "`"

/-- What could have stood where another token was found. -/
inductive Expectation
  | keyword (keyword : Keyword)
  | symbol (symbol : Symbol)
  | identifier | variable | expression | duration | tableName | objectKey | endOfEdgePath
  | endOfInput
deriving DecidableEq, Repr

namespace Expectation

def text : Expectation → String
  | .keyword k => k.text
  | .symbol s => s.text
  | .identifier => "identifier"
  | .variable => "variable"
  | .expression => "expression"
  | .duration => "duration"
  | .tableName => "table name"
  | .objectKey => "object key"
  | .endOfEdgePath => "end of edge path"
  | .endOfInput => "end of input"

/-- Spellings are quoted, descriptions are not. -/
def quoted (expectation : Expectation) : String :=
  match expectation with
  | .keyword _ | .symbol _ => "`" ++ expectation.text ++ "`"
  | _ => expectation.text

/-- A choice in words: `a`, `a or b`, `a, b or c`. -/
def choice : List Expectation → String
  | [] => "something else"
  | [only] => only.quoted
  | [first, last] => first.quoted ++ " or " ++ last.quoted
  | first :: more => first.quoted ++ ", " ++ choice more

end Expectation

inductive SyntaxError
  /-- A character that begins no token. -/
  | invalidCharacter (c : Char) (span : Span)
  /-- A number that does not fit into 64 bits. -/
  | numberOutOfRange (span : Span)
  /-- A token that cannot stand where it stands. -/
  | unexpected (expected : List Expectation) (found : TokenKind) (span : Span)
  /-- A construct that is still open where the text ends; the span is that of its beginning, or of
  all of it where it is a string or a comment. -/
  | unterminated (construct : Construct) (start : Span)
  /-- Nesting beyond the limit. -/
  | tooDeep (span : Span)
deriving DecidableEq, Repr

namespace SyntaxError

/-- The fault that a faulty token stands for. -/
def ofLexical (error : LexicalError) (span : Span) : SyntaxError :=
  match error with
  | .invalidCharacter c => .invalidCharacter c span
  | .numberOutOfRange => .numberOutOfRange span
  | .unterminatedString => .unterminated .string span
  | .unterminatedComment => .unterminated .comment span

/-- Where the fault is. -/
def span : SyntaxError → Span
  | .invalidCharacter _ span | .numberOutOfRange span | .unexpected _ _ span
  | .unterminated _ span | .tooDeep span => span

/-- The fault in words, without its place. -/
def message : SyntaxError → String
  | .invalidCharacter c _ => "invalid character " ++ Text.quotedChar c
  | .numberOutOfRange _ => "number out of range"
  | .unexpected expected found _ =>
    "expected " ++ Expectation.choice expected ++ ", found " ++ found.describe
  | .unterminated construct _ => "unterminated " ++ construct.text
  | .tooDeep _ => "expression nested too deeply"

/-- The fault in words, with its place. -/
def text (error : SyntaxError) : String :=
  let place := match error with
    | .unterminated _ _ => " starting at "
    | _ => " at "
  error.message ++ place ++ error.span.text

end SyntaxError
end EdgeQuery
