import EdgeQuery.SourceFile.Parse

/-!
Reading texts: files, single statements and single expressions.
-/

namespace EdgeQuery

/-- What a parser makes of a text. -/
def Parse.run {α : Type} (parser : Parse α) (text : String) (dialect : Dialect) (limit : Nat) :
    Except SyntaxError α :=
  match parser (Cursor.ofText text dialect limit) with
  | .ok value _ => .ok value
  | .error error _ => .error error

/-- The file that a text is, or the first fault in it. -/
def SourceFile.ofText (text : String) (dialect : Dialect) : Except SyntaxError SourceFile :=
  SourceFile.parse.run text dialect nestingLimit

/-- The file that a text is, without the faulty statements, and their faults. -/
def SourceFile.recoverText (text : String) (dialect : Dialect) : SourceFile × List SyntaxError :=
  (SourceFile.recover.outcome (Cursor.ofText text dialect nestingLimit)).1

/-- The one statement that a text is, with or without a semicolon. -/
def Statement.ofText (text : String) (dialect : Dialect) : Except SyntaxError Statement :=
  Statement.parseSingle.run text dialect nestingLimit

/-- Reads an expression that is all there is. -/
def Expr.parseSingle : Parse Expr := do
  let e ← Expr.parse
  Parse.endOfInput
  return e

/-- The one expression that a text is. -/
def Expr.ofText (text : String) (dialect : Dialect) : Except SyntaxError Expr :=
  Expr.parseSingle.run text dialect nestingLimit

end EdgeQuery
