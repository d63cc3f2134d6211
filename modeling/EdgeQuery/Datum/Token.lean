import EdgeQuery.Datum
import EdgeQuery.Token

/-!
Tokens, spans and comments as data.
-/

namespace EdgeQuery

def Span.datum (span : Span) : Datum :=
  .record "Span" [("start", .number span.start), ("end", .number span.stop)]

/-- The name of a keyword: capitalised, and by its two words if it has two. -/
def Keyword.label (keyword : Keyword) : String :=
  match keyword with
  | .NOINDEX => "NoIndex"
  | _ => keyword.text.toLower.capitalize

def DurationUnit.label : DurationUnit → String
  | .nanoseconds => "Nanoseconds"
  | .microseconds => "Microseconds"
  | .milliseconds => "Milliseconds"
  | .seconds => "Seconds"
  | .minutes => "Minutes"
  | .hours => "Hours"
  | .days => "Days"
  | .weeks => "Weeks"
  | .years => "Years"

def Duration.datum (duration : Duration) : Datum :=
  .record "Duration"
    [("value", .number duration.value.toNat), ("unit", .unit duration.unit.label)]

def Symbol.label : Symbol → String
  | .plus => "Plus" | .minus => "Minus" | .star => "Star" | .slash => "Slash"
  | .percent => "Percent"
  | .equal => "Eq" | .notEqual => "NotEq" | .less => "Lt" | .lessEqual => "LtEq"
  | .greater => "Gt" | .greaterEqual => "GtEq"
  | .bars => "DoublePipe" | .ampersands => "DoubleAmpersand"
  | .arrow .out => "Arrow" | .arrow .into => "LeftArrow"
  | .opening .paren => "LeftParen" | .closing .paren => "RightParen"
  | .opening .bracket => "LeftBracket" | .closing .bracket => "RightBracket"
  | .opening .brace => "LeftBrace" | .closing .brace => "RightBrace"
  | .comma => "Comma" | .semicolon => "Semicolon" | .dot => "Dot" | .colon => "Colon"
  | .doubleColon => "DoubleColon"

def LexicalError.datum : LexicalError → Datum
  | .invalidCharacter c => .wrapped "InvalidCharacter" (.string (String.singleton c))
  | .numberOutOfRange => .unit "NumberOutOfRange"
  | .unterminatedString => .unit "UnterminatedString"
  | .unterminatedComment => .unit "UnterminatedComment"

def TokenKind.datum : TokenKind → Datum
  | .number value => .wrapped "Number" (.number value.toNat)
  | .duration value => .wrapped "Duration" value.datum
  | .string content => .wrapped "String" (.string content)
  | .identifier name => .wrapped "Identifier" (.string name)
  | .variable name => .wrapped "Variable" (.string name)
  | .keyword k => .wrapped "Keyword" (.unit k.label)
  | .symbol s => .unit s.label
  | .endOfInput => .unit "Eof"
  | .error e => .wrapped "Error" e.datum

def Comment.datum (comment : Comment) : Datum :=
  .record "Comment" [("text", .string comment.text), ("span", comment.span.datum)]

end EdgeQuery
