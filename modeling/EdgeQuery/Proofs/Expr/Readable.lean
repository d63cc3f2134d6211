import EdgeQuery.Proofs.Expr.Valid

/-!
Names that are names and strings that can be quoted. A tree whose payloads are of this kind is
written in pieces that can be read back, and these are the only trees for which that is so.
-/

namespace EdgeQuery

namespace Piece

/-- The piece can be read back and is no comment. -/
def IsPlain (piece : Piece) : Prop :=
  piece.Readable ∧ piece.isComment = false

/-- All pieces can be read back, and none is a comment. -/
def Plain (pieces : List Piece) : Prop :=
  ∀ piece ∈ pieces, piece.IsPlain

section Plain

variable {left right inner : List Piece} {piece : Piece} {items : List (List Piece)}

@[simp]
theorem plain_nil : Plain [] := by
  simp [Plain]

@[simp]
theorem plain_cons : Plain (piece :: right) ↔ piece.IsPlain ∧ Plain right :=
  List.forall_mem_cons

@[simp]
theorem plain_append : Plain (left ++ right) ↔ Plain left ∧ Plain right :=
  List.forall_mem_append

@[simp]
theorem isPlain_symbol (s : Symbol) : (symbol s).IsPlain := ⟨trivial, rfl⟩

@[simp]
theorem isPlain_keyword (k : Keyword) : (keyword k).IsPlain := ⟨trivial, rfl⟩

@[simp]
theorem isPlain_number (value : UInt64) : (number value).IsPlain := ⟨trivial, rfl⟩

@[simp]
theorem isPlain_duration (value : Duration) : (duration value).IsPlain := ⟨trivial, rfl⟩

@[simp]
theorem isPlain_space : space.IsPlain := ⟨trivial, rfl⟩

@[simp]
theorem isPlain_word {name : String} : (word name).IsPlain ↔ isName name :=
  and_iff_left rfl

@[simp]
theorem isPlain_variable {name : String} : (Piece.variable name).IsPlain ↔ isName name :=
  and_iff_left rfl

@[simp]
theorem isPlain_string {content : String} : (string content).IsPlain ↔ isQuotable content :=
  and_iff_left rfl

@[simp]
theorem plain_enclosed {delimiter : Delimiter} :
    Plain (enclosed delimiter inner) ↔ Plain inner := by
  simp [enclosed]

theorem plain_intercalate {separator : List Piece} (h : Plain separator) :
    Plain (separator.intercalate items) ↔ ∀ item ∈ items, Plain item := by
  induction items with
  | nil => simp
  | cons first more ih =>
    cases more with
    | nil => simp
    | cons second more =>
      rw [List.intercalate_cons_cons, plain_append, plain_append, ih, List.forall_mem_cons]
      simp [h]

@[simp]
theorem plain_commaList : Plain (commaList items) ↔ ∀ item ∈ items, Plain item :=
  plain_intercalate (by simp)

@[simp]
theorem plain_dotted : Plain (dotted items) ↔ ∀ item ∈ items, Plain item :=
  plain_intercalate (by simp)

end Plain
end Piece

open Piece

namespace RecordKey

/-- The key can be read back from what it is written as. -/
def Readable : RecordKey → Prop
  | .raw name | .variable name => isName name
  | .number _ => True
  | .string content => isQuotable content

@[simp]
theorem isPlain_piece {key : RecordKey} : key.piece.IsPlain ↔ key.Readable := by
  cases key <;> simp [piece, Readable]

end RecordKey

namespace Identifier

/-- All names are names, and a key can be read back. -/
def Readable : Identifier → Prop
  | .raw name | .variable name => isName name
  | .dotted names => ∀ name ∈ names, isName name
  | .record id => isName id.table ∧ id.key.Readable

@[simp]
theorem plain_pieces {id : Identifier} : Plain id.pieces ↔ id.Readable := by
  cases id <;> simp [pieces, Readable]

end Identifier

namespace EdgePath

def Readable (path : EdgePath) : Prop :=
  path.first.Readable ∧ ∀ target ∈ path.second, target.Readable

@[simp]
theorem plain_pieces {path : EdgePath} : Plain path.pieces ↔ path.Readable := by
  obtain ⟨direction, first, second⟩ := path
  cases second <;> simp [pieces, Readable]

end EdgePath

namespace FieldReference

def Readable : FieldReference → Prop
  | .identifier id => id.Readable
  | .path segments => ∀ segment ∈ segments, segment.Readable
  | .edge origin hops => (∀ id ∈ origin, id.Readable) ∧ hops.Readable

@[simp]
theorem plain_pieces {target : FieldReference} : Plain target.pieces ↔ target.Readable := by
  cases target with
  | edge origin hops => cases origin <;> simp [pieces, Readable]
  | _ => simp [pieces, Readable]

end FieldReference

namespace ObjectKey

def Readable : ObjectKey → Prop
  | .raw name => isName name
  | .dotted names => ∀ name ∈ names, isName name
  | .string content => isQuotable content

@[simp]
theorem plain_pieces {key : ObjectKey} : Plain key.pieces ↔ key.Readable := by
  cases key <;> simp [pieces, Readable]

end ObjectKey

/-- The names of a function and of its namespace are names. -/
def NamespaceCall.Readable {α : Type} (function : NamespaceCall α) : Prop :=
  isName function.space ∧ isName function.function

/-- What a call is applied to has names that are names, apart from what its own arguments have. -/
def Callee.Readable {α : Type} : Callee α → Prop
  | .identifier id => id.Readable
  | .path segments => ∀ segment ∈ segments, segment.Readable
  | .namespaceCall function => function.Readable

namespace Expr

/-- What a node holds by itself can be read back. -/
def NodeReadable : Expr → Prop
  | .literal (.string content) => isQuotable content
  | .reference target => target.Readable
  | .variable name => isName name
  | .call callee _ => callee.Readable
  | .namespaceCall function => function.Readable
  | .object entries => ∀ entry ∈ entries, entry.1.Readable
  | _ => True

/-- Every name in the tree is a name, and every string can be quoted. -/
def Readable (e : Expr) : Prop :=
  ∀ s ∈ e.subtrees, s.NodeReadable

section Pieces

theorem readable_iff {e : Expr} :
    e.Readable ↔ e.NodeReadable ∧ ∀ child ∈ e.children, child.Readable :=
  forall_subtrees

@[simp]
theorem isPlain_op (op : BinaryOp) : op.piece.IsPlain := by
  cases op <;> simp [BinaryOp.piece]

@[simp]
theorem plain_grouped {needed : Bool} {inner : List Piece} :
    Plain (grouped needed inner) ↔ Plain inner := by
  cases needed <;> simp [grouped]

@[simp]
theorem plain_braced {entries : List (List Piece)} :
    Plain (braced entries) ↔ ∀ entry ∈ entries, Plain entry := by
  cases entries <;> simp [braced]

theorem plain_entryPiecesOf {entry : ObjectKey × Expr} :
    Plain (entryPiecesOf entry) ↔ entry.1.Readable ∧ Plain entry.2.pieces := by
  simp [entryPiecesOf]

theorem plain_callPieces {function : NamespaceCall Expr} :
    Plain (callPieces function) ↔
      function.Readable ∧ ∀ e ∈ function.args.getD [], Plain e.pieces := by
  obtain ⟨space, name, args⟩ := function
  cases args <;> simp [callPieces_eq, NamespaceCall.Readable, and_assoc]

theorem plain_calleePieces {callee : Callee Expr} :
    Plain (calleePieces callee) ↔ callee.Readable ∧ ∀ e ∈ callee.children, Plain e.pieces := by
  cases callee with
  | namespaceCall function => exact plain_callPieces
  | _ => simp [calleePieces, Callee.Readable, Callee.children]

/-- The pieces of a tree are those of its parts and what it holds by itself. -/
theorem plain_pieces_iff {e : Expr} :
    Plain e.pieces ↔ e.NodeReadable ∧ ∀ child ∈ e.children, Plain child.pieces := by
  cases e with
  | literal value => cases value <;> simp [pieces, Literal.piece, NodeReadable, children]
  | reference target => simp [pieces, NodeReadable, children]
  | «variable» name => simp [pieces, NodeReadable, children]
  | binary left op right => simp [pieces, NodeReadable, children]
  | call callee args =>
    simp [pieces_call, plain_calleePieces, NodeReadable, children, or_imp, forall_and, and_assoc]
  | namespaceCall function => simp [pieces, plain_callPieces, NodeReadable, children]
  | object entries =>
    rw [pieces_object, plain_braced, List.forall_mem_map, NodeReadable, children,
      List.forall_mem_map]
    simp only [plain_entryPiecesOf, forall_and]
  | array items => simp [pieces_array, NodeReadable, children]
  | paren inner => simp [pieces, NodeReadable, children]

/-- A tree is written in pieces that can be read back exactly if its names are names and its strings
can be quoted. -/
@[simp]
theorem plain_pieces {e : Expr} : Plain e.pieces ↔ e.Readable := by
  induction e using inductionOn with
  | step e ih =>
    rw [plain_pieces_iff, readable_iff]
    exact and_congr_right fun _ => forall₂_congr ih

end Pieces
end Expr
end EdgeQuery
