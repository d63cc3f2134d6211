import EdgeQuery.Piece

/-!
References to what a database holds: tables and fields by name, records by table and key, and
graph edges followed from a record. A reference goes on either with dotted names or with an edge
path, never with both.
-/

namespace EdgeQuery

/-- The part of a record's name behind the colon, as in `person:tobie`. -/
inductive RecordKey
  | raw (name : String)
  | number (value : UInt64)
  | string (content : String)
  | variable (name : String)
deriving DecidableEq, Repr

structure RecordId where
  table : String
  key : RecordKey
deriving DecidableEq, Repr

inductive Identifier
  | raw (name : String)
  /-- Names joined by dots, of which a parsed identifier has two at least. -/
  | dotted (names : List String)
  | record (id : RecordId)
  | variable (name : String)
deriving DecidableEq, Repr

/-- One or two hops along edges of one direction. -/
structure EdgePath where
  direction : Direction
  first : Identifier
  second : Option Identifier
deriving DecidableEq, Repr

inductive FieldReference
  | identifier (identifier : Identifier)
  /-- A dotted chain in which a record stands, as in `person:tobie.name`. -/
  | path (segments : List Identifier)
  | edge (origin : Option Identifier) (path : EdgePath)
deriving DecidableEq, Repr

namespace RecordKey

/-- The key that a token stands for; every keyword is a name here. -/
def ofToken? (token : Token) : Option RecordKey :=
  match token.kind with
  | .number value => some (.number value)
  | .string content => some (.string content)
  | .variable name => some (.variable name)
  | _ => token.name?.map .raw

def piece : RecordKey → Piece
  | .raw name => .word name
  | .number value => .number value
  | .string content => .string content
  | .variable name => .variable name

end RecordKey

namespace Identifier

/-- The identifier of one or more names. -/
def ofNames (first : String) (more : List String) : Identifier :=
  if more.isEmpty then .raw first else .dotted (first :: more)

def isRaw : Identifier → Bool
  | .raw _ => true
  | _ => false

/-- The name of a raw identifier. -/
def rawName? : Identifier → Option String
  | .raw name => some name
  | _ => none

def pieces : Identifier → List Piece
  | .raw name => [.word name]
  | .dotted names => Piece.dotted (names.map fun name => [.word name])
  | .record id => [.word id.table, .symbol .colon, id.key.piece]
  | .variable name => [.variable name]

end Identifier

namespace EdgePath

def hops (path : EdgePath) : Nat :=
  if path.second.isSome then 2 else 1

def pieces (path : EdgePath) : List Piece :=
  let arrow := Piece.symbol (.arrow path.direction)
  let second := match path.second with
    | some target => arrow :: target.pieces
    | none => []
  arrow :: path.first.pieces ++ second

end EdgePath

namespace FieldReference

def pieces : FieldReference → List Piece
  | .identifier id => id.pieces
  | .path segments => Piece.dotted (segments.map Identifier.pieces)
  | .edge origin hops => (origin.map Identifier.pieces).getD [] ++ hops.pieces

end FieldReference
end EdgeQuery
