import EdgeQuery.SyntaxError
import EdgeQuery.Token.Scanner

/-!
The cursor of a parser, and the steps it takes. A cursor stands between the tokens that have been
read and those ahead. It looks ahead as far as it likes and never goes back. The mark at the end of
the text is not a token that can be passed, so it is not among those ahead.

A parse yields a value or a fault, and in both cases the cursor it has come to: after a fault the
cursor stands at the offending token, with the nesting level reached there and the delimiters that
are still open.
-/

namespace EdgeQuery

/-- The limit on nesting. A parenthesised part, an argument, an item, a subquery and every operator
of a chain are a level each. -/
def nestingLimit : Nat := 128

structure Cursor where
  /-- The tokens not yet read, without the mark at the end of the text. -/
  ahead : List Token
  /-- The offset at which the text ends. -/
  size : Nat
  /-- The offset at which the last token read ends. -/
  behind : Nat
  /-- The comments that have found no place in a file yet. -/
  comments : List Comment
  /-- The number of nesting levels that a statement has. -/
  limit : Nat
  /-- The number of nesting levels that may still be entered. -/
  levels : Nat
  /-- The delimiters that are open, the innermost first, with their places. -/
  opened : List (Delimiter × Span)

/-- A walk of the cursor that yields an `α` or fails with an `ε`. -/
abbrev Walk (ε α : Type) := EStateM ε Cursor α

/-- A parser for values of type `α`. -/
abbrev Parse (α : Type) := Walk SyntaxError α

namespace Cursor

/-- The cursor at the beginning of a text. -/
def ofText (text : String) (dialect : Dialect) (limit : Nat) : Cursor :=
  let (tokens, scanner) := (Scanner.ofText text dialect).tokens
  { ahead := tokens.dropLast
    size := scanner.offset
    behind := 0
    comments := scanner.comments
    limit := limit
    levels := limit
    opened := [] }

/-- The token that is `n` places ahead; beyond the last one it is the mark of the end. -/
def peek (cursor : Cursor) (n : Nat) : Token :=
  cursor.ahead[n]?.getD (Token.atEnd cursor.size)

def current (cursor : Cursor) : Token :=
  cursor.peek 0

/-- The kind of the token that is `n` places ahead. -/
def kind (cursor : Cursor) (n : Nat) : TokenKind :=
  (cursor.peek n).kind

def atSymbol (cursor : Cursor) (symbol : Symbol) : Bool :=
  cursor.kind 0 = .symbol symbol

def atKeyword (cursor : Cursor) (keyword : Keyword) : Bool :=
  cursor.kind 0 = .keyword keyword

/-- Whether all tokens have been read. -/
def atEnd (cursor : Cursor) : Bool :=
  cursor.ahead.isEmpty

/-- The name that the token `n` places ahead can be read as. -/
def name? (cursor : Cursor) (n : Nat) : Option String :=
  (cursor.peek n).name?

/-- The cursor behind the current token. -/
def advanced (cursor : Cursor) : Cursor :=
  match cursor.ahead with
  | [] => cursor
  | token :: ahead => { cursor with ahead := ahead, behind := token.span.stop }

/-- What is wrong at the current token, where something else was expected. A faulty token is a
fault of its own, and the end of the text leaves the innermost open delimiter unclosed. -/
def fault (cursor : Cursor) (expected : List Expectation) : SyntaxError :=
  let token := cursor.current
  match token.kind, cursor.opened with
  | .error error, _ => .ofLexical error token.span
  | .endOfInput, (delimiter, start) :: _ => .unterminated (.delimited delimiter) start
  | found, _ => .unexpected expected found token.span

end Cursor

/-- Repeats a walk that reads tokens if it yields a value, as long as it does, at most `rounds`
times. -/
def Walk.repeatUpTo {ε α : Type} (item? : Walk ε (Option α)) : Nat → Walk ε (List α)
  | 0 => return []
  | rounds + 1 => do
    match ← item? with
    | some value => return value :: (← repeatUpTo item? rounds)
    | none => return []

/-- Repeats a walk that reads tokens if it yields a value, as long as it does. There cannot be more
rounds than tokens. -/
def Walk.repeated {ε α : Type} (item? : Walk ε (Option α)) : Walk ε (List α) := do
  repeatUpTo item? (← get).ahead.length

namespace Parse

open Walk

/-- Fails at the current token. -/
def expected {α : Type} (choices : List Expectation) : Parse α :=
  fun cursor => .error (cursor.fault choices) cursor

/-- Reads the current token. -/
def advance : Parse Unit :=
  modify Cursor.advanced

/-- The kind of the token that is `n` places ahead. -/
def kind (n : Nat) : Parse TokenKind :=
  return (← get).kind n

def atSymbol (symbol : Symbol) : Parse Bool :=
  return (← get).atSymbol symbol

def atKeyword (keyword : Keyword) : Parse Bool :=
  return (← get).atKeyword keyword

/-- Reads the symbol if it stands here. -/
def eatSymbol (symbol : Symbol) : Parse Bool := do
  let found ← atSymbol symbol
  if found then advance
  return found

/-- Reads the keyword if it stands here. -/
def eatKeyword (keyword : Keyword) : Parse Bool := do
  let found ← atKeyword keyword
  if found then advance
  return found

def symbol (symbol : Symbol) : Parse Unit := do
  if ← atSymbol symbol then advance else expected [.symbol symbol]

def keyword (keyword : Keyword) : Parse Unit := do
  if ← atKeyword keyword then advance else expected [.keyword keyword]

/-- Reads an identifier. A keyword is none. -/
def identifier : Parse String := do
  match ← kind 0 with
  | .identifier name => advance; return name
  | _ => expected [.identifier]

/-- Reads a name where keywords have no meaning. -/
def name : Parse String := do
  match (← get).name? 0 with
  | some name => advance; return name
  | none => expected [.identifier]

def duration : Parse Duration := do
  match ← kind 0 with
  | .duration value => advance; return value
  | _ => expected [.duration]

/-- Fails unless all tokens have been read. -/
def endOfInput : Parse Unit := do
  if (← get).atEnd then return else expected [.endOfInput]

/-- Reads an opening delimiter, which stands here, and what is inside, up to and with the closing
delimiter. -/
def within {α : Type} (delimiter : Delimiter) (inner : Parse α) : Parse α := do
  modify fun cursor =>
    { cursor.advanced with opened := (delimiter, cursor.current.span) :: cursor.opened }
  let value ← inner
  symbol (.closing delimiter)
  modify fun cursor => { cursor with opened := cursor.opened.tail }
  return value

/-- Parses one level deeper, where `levels` are left below. -/
def nested {α : Type} (levels : Nat) (inner : Parse α) : Parse α := do
  modify fun cursor => { cursor with levels := levels }
  let value ← inner
  modify fun cursor => { cursor with levels := levels + 1 }
  return value

/-- Fails because no nesting level is left. -/
def tooDeep {α : Type} : Parse α :=
  fun cursor => .error (.tooDeep cursor.current.span) cursor

/-- Reads what `inner` reads, but only if `found` says that it is there. -/
def onlyIf {α : Type} (found : Parse Bool) (inner : Parse α) : Parse (Option α) := do
  if ← found then return some (← inner) else return none

/-- One or more items with commas between them. -/
def commaList {α : Type} (item : Parse α) : Parse (List α) := do
  let first ← item
  return first :: (← repeated (onlyIf (eatSymbol .comma) item))

/-- Delimited items with commas between them, or none. -/
def delimitedList {α : Type} (delimiter : Delimiter) (item : Parse α) : Parse (List α) :=
  within delimiter do
    if ← atSymbol (.closing delimiter) then return [] else commaList item

end Parse
end EdgeQuery
