import EdgeQuery.Token

/-!
Canonical texts are made of pieces: tokens, the spaces and line ends between them, and comments.
A text that is written piece by piece can be compared with the tokens that it is read back as.
-/

namespace EdgeQuery

inductive Piece
  | symbol (symbol : Symbol)
  | keyword (keyword : Keyword)
  | word (name : String)
  | variable (name : String)
  | number (value : UInt64)
  | duration (value : Duration)
  | string (content : String)
  | space
  | lineEnd
  | comment (content : String)
deriving DecidableEq, Repr

namespace Piece

/-- The quote around a string: single, unless the string contains a single quote. -/
def quoteFor (content : String) : String :=
  if '\'' ∈ content.toList then "\"" else "'"

def text : Piece → String
  | .symbol s => s.text
  | .keyword k => k.text
  | .word name => name
  | .variable name => "$" ++ name
  | .number value => toString value.toNat
  | .duration value => value.text
  | .string content => quoteFor content ++ content ++ quoteFor content
  | .space => " "
  | .lineEnd => "\n"
  | .comment content => content

/-- The text that the pieces make up. -/
def join (pieces : List Piece) : String :=
  String.ofList (pieces.flatMap fun piece => piece.text.toList)

@[simp]
theorem join_nil : join [] = "" := rfl

theorem join_append (left right : List Piece) : join (left ++ right) = join left ++ join right := by
  simp [join, String.ofList_append]

/-- Items with a comma and a space between neighbours. -/
def commaList (items : List (List Piece)) : List Piece :=
  [Piece.symbol .comma, Piece.space].intercalate items

/-- Items with a dot between neighbours. -/
def dotted (items : List (List Piece)) : List Piece :=
  [Piece.symbol .dot].intercalate items

/-- The pieces between a pair of brackets. -/
def enclosed (delimiter : Delimiter) (inner : List Piece) : List Piece :=
  .symbol (.opening delimiter) :: inner ++ [.symbol (.closing delimiter)]

/-- The words of a phrase, with a space between neighbours. -/
def words (keywords : List Keyword) : List Piece :=
  [Piece.space].intercalate (keywords.map fun k => [Piece.keyword k])

/-- A keyword in front of something that is written after a space. -/
def after (keyword : Keyword) (inner : List Piece) : List Piece :=
  .keyword keyword :: .space :: inner

/-- Something optional, written after a space. -/
def optional (inner : Option (List Piece)) : List Piece :=
  match inner with
  | some pieces => .space :: pieces
  | none => []

/-- A keyword that is written, with a space before it, or left out. -/
def flag (keyword : Keyword) (written : Bool) : List Piece :=
  if written then [.space, .keyword keyword] else []

end Piece
end EdgeQuery
