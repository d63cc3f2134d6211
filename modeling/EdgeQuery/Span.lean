/-!
Spans: the part of a text from one byte offset up to another, counted in the text's UTF-8 form.
-/

namespace EdgeQuery

/-- From the offset `start` up to, and without, the offset `stop`. -/
structure Span where
  start : Nat
  stop : Nat
deriving DecidableEq, Repr

namespace Span

def size (span : Span) : Nat :=
  span.stop - span.start

def isEmpty (span : Span) : Bool :=
  span.start == span.stop

def text (span : Span) : String :=
  toString span.start ++ ".." ++ toString span.stop

end Span

/-- The number of bytes that the characters take. -/
def width : List Char → Nat
  | [] => 0
  | c :: chars => c.utf8Size + width chars

@[simp]
theorem width_nil : width [] = 0 := rfl

@[simp]
theorem width_cons (c : Char) (chars : List Char) :
    width (c :: chars) = c.utf8Size + width chars := rfl

@[simp]
theorem width_append (left right : List Char) :
    width (left ++ right) = width left + width right := by
  induction left with
  | nil => simp
  | cons c left ih => rw [List.cons_append, width_cons, width_cons, ih, Nat.add_assoc]

end EdgeQuery
