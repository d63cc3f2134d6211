import EdgeQuery.SourceFile
import EdgeQuery.Statement.Parse

/-!
Reading whole files: up to the first fault, or past the faults, each of which costs the text up to
the next semicolon. Comments stand before the statement that they precede; those inside a statement
stand right behind it.
-/

namespace EdgeQuery

open Parse Walk

namespace Cursor

/-- The tokens behind the first semicolon, and the offset where the last token passed ends. -/
def pastSemicolon : List Token → Nat → List Token × Nat
  | [], behind => ([], behind)
  | token :: ahead, _ =>
    if token.kind = .symbol .semicolon then (ahead, token.span.stop)
    else pastSemicolon ahead token.span.stop

/-- The cursor behind the next semicolon, or at the end. A parse that failed at its first token has
to pass it, lest nothing be read; `remaining` is how many tokens that parse began with. -/
def synchronized (cursor : Cursor) (remaining : Nat) : Cursor :=
  let cursor :=
    if cursor.ahead.length = remaining && !cursor.atSymbol .semicolon then cursor.advanced
    else cursor
  let (ahead, behind) := pastSemicolon cursor.ahead cursor.behind
  { cursor with ahead := ahead, behind := behind }

end Cursor

namespace Walk

variable {ε : Type}

/-- Takes the comments that begin before the offset. -/
def commentsBefore (offset : Nat) : Walk ε (List SourceItem) := do
  let cursor ← get
  let early := fun comment : Comment => decide (comment.span.start < offset)
  set { cursor with comments := cursor.comments.dropWhile early }
  return (cursor.comments.takeWhile early).map .comment

/-- Takes the comments before the current token. -/
def commentsHere : Walk ε (List SourceItem) := do
  commentsBefore (← get).current.span.start

/-- Takes the comments before the end of the last token read. -/
def commentsBehind : Walk ε (List SourceItem) := do
  commentsBefore (← get).behind

/-- Walks all the way, in rounds that read at least one token each, and takes the comments at the
end. -/
def rounds {α : Type} (round : Walk ε α) : Walk ε (List α × List SourceItem) := do
  let groups ← repeated do
    if (← get).atEnd then return none else return some (← round)
  return (groups, ← commentsHere)

end Walk

/-- Runs a parser and hands its fault on as a value. The cursor stays where the parser left it. -/
def Parse.attempt {α : Type} (parser : Parse α) : Walk Empty (Except SyntaxError α) :=
  fun cursor =>
    match parser cursor with
    | .ok value later => .ok (.ok value) later
    | .error error later => .ok (.error error) later

/-- The outcome of a walk that cannot fail. -/
def Walk.outcome {α : Type} (walk : Walk Empty α) (cursor : Cursor) : α × Cursor :=
  match walk cursor with
  | .ok value later => (value, later)
  | .error error _ => error.elim

namespace SourceFile

/-- Reads a statement and the comments around it. -/
def parseGroup : Parse (List SourceItem) := do
  let leading ← commentsHere
  let statement ← Statement.parseTerminated
  return leading ++ .statement statement :: (← commentsBehind)

/-- Reads all statements and comments that are left. -/
def parse : Parse SourceFile := do
  let (groups, last) ← rounds parseGroup
  return ⟨groups.flatten ++ last⟩

/-- Reads a statement with the comments around it, or passes over it and keeps its fault. -/
def recoverGroup : Walk Empty (List SourceItem × List SyntaxError) := do
  let leading ← commentsHere
  let remaining := (← get).ahead.length
  match ← attempt Statement.parseTerminated with
  | .ok statement => return (leading ++ .statement statement :: (← commentsBehind), [])
  | .error error =>
    modify (Cursor.synchronized · remaining)
    return (leading, [error])

/-- Reads all statements and comments that are left, and the fault of each statement that has one.
Such a statement is not part of the file. -/
def recover : Walk Empty (SourceFile × List SyntaxError) := do
  let (groups, last) ← rounds recoverGroup
  return (⟨groups.flatMap (·.1) ++ last⟩, groups.flatMap (·.2))

end SourceFile
end EdgeQuery
