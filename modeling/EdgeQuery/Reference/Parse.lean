import EdgeQuery.Parse.Cursor
import EdgeQuery.Reference

/-!
Reading references. A name is followed as far as it goes: a colon belongs to it if a key follows, a
dot if another name follows. The words behind a colon or a dot are names even where they are
spelled like keywords, since no clause can begin there.
-/

namespace EdgeQuery

open Parse Walk

namespace Cursor

/-- Whether a dot stands here that a name follows. -/
def atChainDot (cursor : Cursor) : Bool :=
  cursor.atSymbol .dot && (cursor.name? 1).isSome

/-- The direction of the arrow that stands here. -/
def arrow? (cursor : Cursor) : Option Direction :=
  match cursor.kind 0 with
  | .symbol (.arrow direction) => some direction
  | _ => none

end Cursor

/-- Reads a colon and the record key behind it, if both stand here. -/
def RecordKey.parse? : Parse (Option RecordKey) := do
  let cursor ← get
  if cursor.atSymbol .colon then
    match RecordKey.ofToken? (cursor.peek 1) with
    | some key => advance; advance; return some key
    | none => return none
  else return none

/-- Reads a dot and the name behind it, if both stand here. -/
def Parse.nextName? : Parse (Option String) := do
  if (← get).atChainDot then advance; return some (← name) else return none

namespace Identifier

/-- The name as a segment of a chain, with the record key that follows it. -/
def parseKey (name : String) : Parse Identifier := do
  match ← RecordKey.parse? with
  | some key => return .record ⟨name, key⟩
  | none => return .raw name

/-- Reads a name, names joined by dots, or a record. -/
def parse : Parse Identifier := do
  let name ← identifier
  match ← RecordKey.parse? with
  | some key => return .record ⟨name, key⟩
  | none => return .ofNames name (← repeated nextName?)

/-- Reads a dot and the segment behind it, if both stand here. -/
def nextSegment? : Parse (Option Identifier) := do
  match ← nextName? with
  | some name => return some (← parseKey name)
  | none => return none

/-- The identifier that the segments of a chain make up, unless a record is one of several. -/
def ofSegments? (first : Identifier) (more : List Identifier) : Option Identifier :=
  if more.isEmpty then some first
  else if (first :: more).all isRaw then some (.dotted ((first :: more).filterMap rawName?))
  else none

/-- Reads a name given with AS, if one is given. -/
def parseNaming : Parse (Option Identifier) :=
  onlyIf (eatKeyword .AS) parse

end Identifier

/-- Reads a path along edges of the direction whose arrow stands here. There is no third hop and no
change of direction. -/
def EdgePath.parse (direction : Direction) : Parse EdgePath := do
  advance
  let first ← Identifier.parse
  let second ← onlyIf (eatSymbol (.arrow direction)) Identifier.parse
  if (← get).arrow?.isSome then expected [.endOfEdgePath]
  else return ⟨direction, first, second⟩

namespace FieldReference

/-- Reads a chain of segments that begins here, and the edge path behind it. A chain in which a
record is followed or led by a name has no edge path. -/
def parseChain : Parse FieldReference := do
  let first ← Identifier.parseKey (← Parse.identifier)
  let more ← repeated Identifier.nextSegment?
  match Identifier.ofSegments? first more with
  | none => return .path (first :: more)
  | some origin =>
    match (← get).arrow? with
    | some direction => return .edge (some origin) (← EdgePath.parse direction)
    | none => return .identifier origin

def parse : Parse FieldReference := do
  match ← kind 0 with
  | .symbol (.arrow direction) => return .edge none (← EdgePath.parse direction)
  | .identifier _ => parseChain
  | _ => expected [.identifier, .symbol (.arrow .out), .symbol (.arrow .into)]

end FieldReference
end EdgeQuery
