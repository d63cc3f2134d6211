import EdgeQuery.Statement.Printed

/-!
Source files: statements and the comments around them, in the order of their text.
-/

namespace EdgeQuery

inductive SourceItem
  | statement (statement : Statement)
  | comment (comment : Comment)

structure SourceFile where
  items : List SourceItem

def SourceItem.statement? : SourceItem → Option Statement
  | .statement s => some s
  | .comment _ => none

def SourceItem.comment? : SourceItem → Option Comment
  | .statement _ => none
  | .comment c => some c

/-- One line per item; a statement ends with a semicolon. -/
def SourceItem.pieces : SourceItem → List Piece
  | .statement s => s.pieces ++ [.symbol .semicolon, .lineEnd]
  | .comment c => [.comment c.text, .lineEnd]

namespace SourceFile

def statements (file : SourceFile) : List Statement :=
  file.items.filterMap SourceItem.statement?

def comments (file : SourceFile) : List Comment :=
  file.items.filterMap SourceItem.comment?

def pieces (file : SourceFile) : List Piece :=
  file.items.flatMap SourceItem.pieces

def text (file : SourceFile) : String :=
  Piece.join file.pieces

end SourceFile
end EdgeQuery
