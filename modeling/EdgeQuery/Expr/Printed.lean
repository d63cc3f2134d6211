import EdgeQuery.Expr

/-!
The canonical text of an expression. Parentheses are added around an operand exactly where reading
the text back would group the operators in another way.
-/

namespace EdgeQuery

namespace Literal

def piece : Literal → Piece
  | .string content => .string content
  | .number value => .number value
  | .duration value => .duration value

end Literal

namespace ObjectKey

def pieces : ObjectKey → List Piece
  | .raw name => [.word name]
  | .dotted names => Piece.dotted (names.map fun name => [.word name])
  | .string content => [.string content]

end ObjectKey

namespace Expr

/-- A left operand of a looser level would be split up by the operator behind it. -/
def opensLeft (op : BinaryOp) : Expr → Bool
  | .binary _ inner _ => inner.level.rank < op.level.rank
  | _ => false

/-- A right operand of a looser or the same level would lose its left part to the operator before
it. -/
def opensRight (op : BinaryOp) : Expr → Bool
  | .binary _ inner _ => inner.level.rank ≤ op.level.rank
  | _ => false

/-- Parenthesised pieces, if need be. -/
def grouped (needed : Bool) (pieces : List Piece) : List Piece :=
  if needed then Piece.enclosed .paren pieces else pieces

/-- An object between its braces, with spaces inside unless it is empty. -/
def braced (entries : List (List Piece)) : List Piece :=
  match entries with
  | [] => Piece.enclosed .brace []
  | _ => Piece.enclosed .brace (.space :: Piece.commaList entries ++ [.space])

mutual

def pieces : Expr → List Piece
  | .literal value => [value.piece]
  | .reference target => target.pieces
  | .variable name => [.variable name]
  | .binary left op right =>
    grouped (left.opensLeft op) (pieces left) ++ .space :: op.piece :: .space ::
      grouped (right.opensRight op) (pieces right)
  | .call callee args =>
    calleePieces callee ++ Piece.enclosed .paren (Piece.commaList (itemPieces args))
  | .namespaceCall function => callPieces function
  | .object entries => braced (entryPieces entries)
  | .array items => Piece.enclosed .bracket (Piece.commaList (itemPieces items))
  | .paren inner => Piece.enclosed .paren (pieces inner)
termination_by structural e => e

def calleePieces : Callee Expr → List Piece
  | .identifier id => id.pieces
  | .path segments => Piece.dotted (segments.map Identifier.pieces)
  | .namespaceCall function => callPieces function
termination_by structural callee => callee

def callPieces : NamespaceCall Expr → List Piece
  | ⟨space, function, args⟩ =>
    [.word space, .symbol .doubleColon, .word function] ++ argPieces args
termination_by structural call => call

/-- The argument list of a namespace call, if one was written. -/
def argPieces : Option (List Expr) → List Piece
  | none => []
  | some es => Piece.enclosed .paren (Piece.commaList (itemPieces es))
termination_by structural es => es

def itemPieces : List Expr → List (List Piece)
  | [] => []
  | e :: es => pieces e :: itemPieces es
termination_by structural es => es

def entryPieces : List (ObjectKey × Expr) → List (List Piece)
  | [] => []
  | (key, e) :: es => (key.pieces ++ .symbol .colon :: .space :: pieces e) :: entryPieces es
termination_by structural es => es

end

/-- Bracketed items. -/
def arrayPieces (items : List Expr) : List Piece :=
  Piece.enclosed .bracket (Piece.commaList (itemPieces items))

def objectPieces (entries : List (ObjectKey × Expr)) : List Piece :=
  braced (entryPieces entries)

def text (e : Expr) : String :=
  Piece.join e.pieces

end Expr
end EdgeQuery
