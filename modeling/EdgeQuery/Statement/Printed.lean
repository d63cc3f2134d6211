import EdgeQuery.Statement

/-!
The canonical text of a statement: keywords in capitals, one space between words, and no word that
could be left out except the BY of GROUP BY and ORDER BY.
-/

namespace EdgeQuery

def SelectItem.pieces : SelectItem → List Piece
  | .all => [.symbol .star]
  | .value e name => e.pieces ++ Piece.naming name

def SelectList.pieces : SelectList → List Piece
  | .wildcard => [.symbol .star]
  | .items list => Piece.commaList (list.map SelectItem.pieces)

/-- What follows the word SELECT. -/
def Projection.pieces : Projection → List Piece
  | .value e name => .space :: Piece.after .VALUE (e.pieces ++ Piece.naming name)
  | .fields list omitted =>
    Piece.optional (list.map SelectList.pieces) ++
      Piece.optional (omitted.map OmitItem.listPieces)

/-- A keyword and a space, or nothing. -/
def Piece.leading (keyword : Keyword) (written : Bool) : List Piece :=
  if written then [.keyword keyword, .space] else []

mutual

def Select.pieces : Select → List Piece
  | ⟨projection, source, clauses⟩ =>
    .keyword .SELECT :: projection.pieces ++ .space :: Source.pieces source ++
      clauses.flatMap fun clause => .space :: clause.pieces
termination_by structural query => query

def Source.pieces : Source → List Piece
  | ⟨only, tables, hint⟩ =>
    Piece.after .FROM (Piece.leading .ONLY only ++
      Piece.commaList (SourceTable.listPieces tables)) ++
      Piece.optional (hint.map IndexHint.pieces)
termination_by structural source => source

def SourceTable.pieces : SourceTable → List Piece
  | .reference field => field.pieces
  | .subquery query => Piece.enclosed .paren (Select.pieces query)
  | .array items => Expr.arrayPieces items
termination_by structural table => table

def SourceTable.listPieces : List SourceTable → List (List Piece)
  | [] => []
  | table :: tables => SourceTable.pieces table :: SourceTable.listPieces tables
termination_by structural tables => tables

end

def Assignment.pieces (assignment : Assignment) : List Piece :=
  assignment.field.pieces ++ [.space, .symbol .equal, .space] ++ assignment.value.pieces

def Data.pieces : Data → List Piece
  | .content entries => Piece.after .CONTENT (Expr.objectPieces entries)
  | .merge entries => Piece.after .MERGE (Expr.objectPieces entries)
  | .patch items => Piece.after .PATCH (Expr.arrayPieces items)
  | .set assignments =>
    Piece.after .SET (Piece.commaList (assignments.map Assignment.pieces))
  | .unset assignments =>
    Piece.after .UNSET (Piece.commaList (assignments.map Assignment.pieces))

def Output.pieces : Output → List Piece
  | .before => Piece.words [.RETURN, .BEFORE]
  | .after => Piece.words [.RETURN, .AFTER]
  | .diff => Piece.words [.RETURN, .DIFF]
  | .fields list => Piece.after .RETURN list.pieces

/-- The end of a CREATE or UPDATE. -/
def Output.tailPieces (output : Option Output) (timeout : Option Duration) (parallel : Bool) :
    List Piece :=
  Piece.optional (output.map Output.pieces) ++ Piece.optional (timeout.map Piece.timeout) ++
    Piece.flag .PARALLEL parallel

def Create.pieces (query : Create) : List Piece :=
  Piece.after .CREATE (Piece.leading .ONLY query.only ++
    Piece.commaList (query.targets.map Identifier.pieces)) ++
    .space :: query.data.pieces ++
    Output.tailPieces query.output query.timeout query.parallel

def Update.pieces (query : Update) : List Piece :=
  Piece.after .UPDATE (Piece.leading .ONLY query.only ++
    Piece.commaList (Expr.itemPieces query.targets)) ++
    Piece.optional (query.data.map Data.pieces) ++
    Piece.optional (query.condition.map fun e => Piece.after .WHERE e.pieces) ++
    Output.tailPieces query.output query.timeout query.parallel

def Statement.pieces : Statement → List Piece
  | .select query => query.pieces
  | .create query => query.pieces
  | .update query => query.pieces
  | .value e => e.pieces

def Statement.text (statement : Statement) : String :=
  Piece.join statement.pieces

end EdgeQuery
