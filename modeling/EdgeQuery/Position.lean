import EdgeQuery.Span

/-!
Lines and columns. A `LineIndex` holds the lines of a text with the offset where each begins, and
turns a byte offset into a position: offsets past the end count as the end, offsets inside a
character as the start of that character.
-/

namespace EdgeQuery

/-- A line and a column, both counted from one; columns count characters. -/
structure Position where
  line : Nat
  column : Nat
deriving DecidableEq, Repr

def Position.text (position : Position) : String :=
  toString position.line ++ ":" ++ toString position.column

/-- A line without its line feed, and the offset of its first character. -/
structure Line where
  start : Nat
  chars : List Char
deriving DecidableEq, Repr

/-- The lines of a text, of which there is always a first one. -/
structure LineIndex where
  first : Line
  more : List Line
deriving DecidableEq, Repr

namespace LineIndex

/-- The lines of a text that begins at `offset`. -/
def ofChars (offset : Nat) : List Char → LineIndex
  | [] => ⟨⟨offset, []⟩, []⟩
  | c :: chars =>
    let index := ofChars (offset + c.utf8Size) chars
    if c = '\n' then ⟨⟨offset, []⟩, index.first :: index.more⟩
    else ⟨⟨offset, c :: index.first.chars⟩, index.more⟩

def ofText (text : String) : LineIndex :=
  ofChars 0 text.toList

/-- The number of leading characters that fit into `room` bytes. -/
def fitting (room : Nat) : List Char → Nat
  | [] => 0
  | c :: chars => if c.utf8Size ≤ room then fitting (room - c.utf8Size) chars + 1 else 0

/-- The column of an offset within its line. -/
def column (line : Line) (offset : Nat) : Nat :=
  fitting (offset - line.start) line.chars + 1

/-- The position of an offset that does not lie before `line`, the line with the given number. -/
def locate (offset number : Nat) (line : Line) : List Line → Position
  | [] => ⟨number, column line offset⟩
  | next :: more =>
    if next.start ≤ offset then locate offset (number + 1) next more
    else ⟨number, column line offset⟩

def position (index : LineIndex) (offset : Nat) : Position :=
  locate offset 1 index.first index.more

end LineIndex
end EdgeQuery
