import EdgeQuery.Duration
import EdgeQuery.Keyword
import EdgeQuery.Span
import EdgeQuery.Symbol
import EdgeQuery.Text.Quoted

/-!
Tokens and comments. A token carries its kind, the text it was read from, and where that text
stands; characters that form no token yield tokens of the kind `error`, so every text has tokens.
-/

namespace EdgeQuery

/-- Why a piece of text is no token. -/
inductive LexicalError
  | invalidCharacter (c : Char)
  | numberOutOfRange
  | unterminatedString
  | unterminatedComment
deriving DecidableEq, Repr

inductive TokenKind
  | number (value : UInt64)
  | duration (value : Duration)
  /-- A string, without its quotes. -/
  | string (content : String)
  | identifier (name : String)
  /-- A variable, without its dollar sign. -/
  | variable (name : String)
  | keyword (keyword : Keyword)
  | symbol (symbol : Symbol)
  | endOfInput
  | error (error : LexicalError)
deriving DecidableEq, Repr

structure Token where
  kind : TokenKind
  text : String
  span : Span
deriving DecidableEq, Repr

/-- A comment with its delimiters, without the line feed that ends a line comment. -/
structure Comment where
  text : String
  span : Span
deriving DecidableEq, Repr

namespace TokenKind

def symbol? : TokenKind → Option Symbol
  | symbol s => some s
  | _ => none

def keyword? : TokenKind → Option Keyword
  | keyword k => some k
  | _ => none

/-- How a message names the token. -/
def describe : TokenKind → String
  | .number value => "number `" ++ toString value.toNat ++ "`"
  | .duration value => "duration `" ++ value.text ++ "`"
  | .string content => "string " ++ Text.quoted content
  | .identifier name => "identifier `" ++ name ++ "`"
  | .variable name => "variable `$" ++ name ++ "`"
  | .keyword k => "`" ++ k.text ++ "`"
  | .symbol s => "`" ++ s.text ++ "`"
  | .endOfInput => "end of input"
  | .error (.invalidCharacter c) => "invalid character " ++ Text.quotedChar c
  | .error .numberOutOfRange => "out-of-range number"
  | .error .unterminatedString => "unterminated string literal"
  | .error .unterminatedComment => "unterminated comment"

end TokenKind

namespace Token

/-- The token that stands at the end of a text of the given size. -/
def atEnd (size : Nat) : Token :=
  ⟨.endOfInput, "", ⟨size, size⟩⟩

/-- The token as a plain name: an identifier, or a keyword as it is spelled in the text. -/
def name? (token : Token) : Option String :=
  match token.kind with
  | .identifier name => some name
  | .keyword _ => some token.text
  | _ => none

end Token
end EdgeQuery
