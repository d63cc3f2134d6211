import EdgeQuery.Expr.Printed

/-!
The clauses behind the sources of a SELECT. They form a list: any order and any repetition is
kept, and what repetition means is left to the reader of the tree.
-/

namespace EdgeQuery

inductive OrderDirection
  | ascending
  | descending
deriving DecidableEq, Repr

/-- How values are compared when they are ordered, and in which direction. -/
inductive OrderModifier
  | collate (direction : Option OrderDirection)
  | numeric (direction : Option OrderDirection)
  | direction (direction : OrderDirection)
deriving DecidableEq, Repr

inductive OrderTarget
  | value (value : Expr)
  /-- A random order. -/
  | rand
deriving BEq

structure OrderItem where
  target : OrderTarget
  modifier : Option OrderModifier
deriving BEq

/-- A field that is left out, or some nested fields of it. -/
structure OmitItem where
  field : FieldReference
  nested : Option (List String)
deriving DecidableEq, Repr

inductive Grouping
  | all
  | by (keys : List Expr)
deriving BEq

inductive FetchItem
  | field (id : Identifier)
  | edge (path : EdgePath) (name : Option Identifier)
deriving DecidableEq, Repr

inductive IndexHint
  | noIndex
  | index (names : List Identifier)
deriving DecidableEq, Repr

inductive Clause
  | condition (value : Expr)
  | split (field : FieldReference)
  | omission (items : List OmitItem)
  | group (grouping : Grouping)
  | order (items : List OrderItem)
  | limit (value : Expr)
  | start (value : Expr)
  | fetch (items : List FetchItem)
  | timeout (value : Duration)
  | parallel
  | tempfiles
  | explain (full : Bool)
  | hint (hint : IndexHint)
deriving BEq

/-- A name given with AS. -/
def Piece.naming (name : Option Identifier) : List Piece :=
  Piece.optional (name.map fun id => Piece.after .AS id.pieces)

def OrderDirection.keyword : OrderDirection → Keyword
  | .ascending => .ASC
  | .descending => .DESC

def OrderModifier.keywords : OrderModifier → List Keyword
  | .collate d => .COLLATE :: (d.map OrderDirection.keyword).toList
  | .numeric d => .NUMERIC :: (d.map OrderDirection.keyword).toList
  | .direction d => [d.keyword]

def OrderTarget.pieces : OrderTarget → List Piece
  | .value e => e.pieces
  | .rand => .keyword .RAND :: Piece.enclosed .paren []

def OrderItem.pieces (item : OrderItem) : List Piece :=
  item.target.pieces ++ Piece.optional (item.modifier.map fun m => Piece.words m.keywords)

def OmitItem.pieces (item : OmitItem) : List Piece :=
  let nested := match item.nested with
    | some names =>
      .symbol .dot :: Piece.enclosed .brace (Piece.commaList (names.map fun name => [.word name]))
    | none => []
  item.field.pieces ++ nested

def OmitItem.listPieces (items : List OmitItem) : List Piece :=
  Piece.after .OMIT (Piece.commaList (items.map OmitItem.pieces))

def FetchItem.pieces : FetchItem → List Piece
  | .field id => id.pieces
  | .edge path name => path.pieces ++ Piece.naming name

def IndexHint.pieces : IndexHint → List Piece
  | .noIndex => Piece.words [.WITH, .NOINDEX]
  | .index names =>
    Piece.after .WITH (Piece.after .INDEX (Piece.commaList (names.map Identifier.pieces)))

def Piece.timeout (value : Duration) : List Piece :=
  Piece.after .TIMEOUT [.duration value]

def Clause.pieces : Clause → List Piece
  | .condition e => Piece.after .WHERE e.pieces
  | .split field => Piece.after .SPLIT field.pieces
  | .omission items => OmitItem.listPieces items
  | .group .all => Piece.words [.GROUP, .ALL]
  | .group (.by keys) =>
    Piece.after .GROUP (Piece.after .BY (Piece.commaList (Expr.itemPieces keys)))
  | .order items =>
    Piece.after .ORDER (Piece.after .BY (Piece.commaList (items.map OrderItem.pieces)))
  | .limit e => Piece.after .LIMIT e.pieces
  | .start e => Piece.after .START e.pieces
  | .fetch items => Piece.after .FETCH (Piece.commaList (items.map FetchItem.pieces))
  | .timeout value => Piece.timeout value
  | .parallel => [.keyword .PARALLEL]
  | .tempfiles => [.keyword .TEMPFILES]
  | .explain full => .keyword .EXPLAIN :: Piece.flag .FULL full
  | .hint index => index.pieces

end EdgeQuery
