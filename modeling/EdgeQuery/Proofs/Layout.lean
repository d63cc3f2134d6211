import Mathlib.Data.List.Chain
import EdgeQuery.Proofs.Expr.Valid
import EdgeQuery.Proofs.Statement

/-!
Canonical texts are laid out so that no two neighbours run together. Between any two pieces that
could, a piece stands that keeps them apart: a space, a mark, a bracket or an arrow.
-/

namespace EdgeQuery
namespace Piece

/-- Whether the piece is over, whatever stands behind it. -/
def isOpen : Piece → Bool
  | .space | .lineEnd | .string _ => true
  | .symbol .colon | .symbol .minus | .symbol .less | .symbol .greater | .symbol .slash => false
  | .symbol _ => true
  | _ => false

/-- Whether the piece is over where a separating piece stands behind it. -/
def isSolid : Piece → Bool
  | .symbol .colon | .symbol .minus | .symbol .less | .symbol .greater | .symbol .slash => false
  | .comment _ => false
  | _ => true

/-- Whether the piece keeps apart what is before it and what is behind it. -/
def separates : Piece → Bool
  | .space | .lineEnd => true
  | .symbol .comma | .symbol .semicolon | .symbol .dot | .symbol .colon => true
  | .symbol .doubleColon => true
  | .symbol (.opening _) | .symbol (.closing _) | .symbol (.arrow _) => true
  | _ => false

/-- The second piece, if it can be read, may stand right behind the first. -/
def Adjoins (piece next : Piece) : Prop :=
  next.Readable → piece.Joins next

section Neighbours

variable {piece next : Piece}

theorem stopsAt_of_isOpen (h : piece.isOpen = true) (c : Char) : piece.stopsAt c = true := by
  cases piece with
  | symbol s => cases s <;> first | rfl | cases h
  | space => rfl
  | lineEnd => rfl
  | string content => rfl
  | _ => cases h

theorem isSolid_of_isOpen (h : piece.isOpen = true) : piece.isSolid = true := by
  cases piece with
  | symbol s => cases s <;> first | rfl | cases h
  | _ => first | rfl | cases h

theorem Adjoins.of_isOpen (h : piece.isOpen = true) : piece.Adjoins next :=
  fun _ c _ => stopsAt_of_isOpen h c

theorem stopsAt_of_isSolid (h : piece.isSolid = true) {c : Char} (hc : endsWord c = true) :
    piece.stopsAt c = true := by
  cases piece with
  | symbol s => cases s <;> first | rfl | cases h
  | comment content => cases h
  | space => rfl
  | lineEnd => rfl
  | string content => rfl
  | _ => exact hc

theorem endsWord_of_separates (h : next.separates = true) :
    ∀ c ∈ next.text.toList.head?, endsWord c = true := by
  apply (Option.all_eq_true _ _).mp
  cases next with
  | symbol s =>
    cases s with
    | arrow direction => cases direction <;> decide
    | opening delimiter => cases delimiter <;> decide
    | closing delimiter => cases delimiter <;> decide
    | comma | semicolon | dot | colon | doubleColon => decide
    | _ => cases h
  | space => decide
  | lineEnd => decide
  | _ => cases h

theorem Adjoins.of_isSolid (hpiece : piece.isSolid = true) (hnext : next.separates = true) :
    piece.Adjoins next :=
  fun _ c hc => stopsAt_of_isSolid hpiece (endsWord_of_separates hnext c hc)

/-- An operator is over where a space stands behind it. -/
theorem Adjoins.operator (op : BinaryOp) : op.piece.Adjoins .space := by
  intro _ c hc
  obtain rfl : ' ' = c := Option.some.inj hc
  cases op <;> decide

/-- A colon is not mistaken for two of them in front of a key. -/
theorem Adjoins.colon (key : RecordKey) : (Piece.symbol .colon).Adjoins key.piece := by
  intro hreadable c hc
  suffices c ≠ ':' from bne_iff_ne.mpr this
  rintro rfl
  cases key with
  | raw name =>
    obtain ⟨c, tail, htext, hstart, -⟩ := Lexeme.exists_cons_of_isName hreadable
    have hc : ':' ∈ name.toList.head? := hc
    rw [htext] at hc
    obtain rfl := Option.some.inj hc
    exact absurd hstart (by decide)
  | number value =>
    obtain ⟨c, tail, htext, hdigits, -⟩ := Lexeme.exists_cons_of_toString value
    have hc : ':' ∈ (toString value.toNat).toList.head? := hc
    rw [htext] at hc
    obtain rfl := Option.some.inj hc
    exact absurd (hdigits ':' (by simp)) (by decide)
  | string content =>
    have hquote : quoteFor content = "\"" ∨ quoteFor content = "'" := by
      unfold quoteFor
      split
      · exact .inl rfl
      · exact .inr rfl
    have hc : ':' ∈ (quoteFor content ++ content ++ quoteFor content).toList.head? := hc
    rcases hquote with hquote | hquote <;> rw [hquote] at hc <;> simp at hc
  | «variable» name =>
    have hc : ':' ∈ ("$" ++ name).toList.head? := hc
    simp at hc

end Neighbours

/-- Pieces that can be read do not run together where they may stand side by side. -/
theorem joins_of_adjoins {pieces : List Piece} (h : pieces.IsChain Adjoins)
    (hreadable : ∀ piece ∈ pieces, piece.Readable) : pieces.IsChain Joins :=
  h.imp_of_mem_imp fun _ _ _ hmem hnext => hnext (hreadable _ hmem)

/-- No two neighbours run together, and what separates may be written behind the last piece. -/
def Laid (pieces : List Piece) : Prop :=
  pieces.IsChain Adjoins ∧ ∀ piece ∈ pieces.getLast?, piece.isSolid = true

/-- The pieces may be written behind others that are laid out. -/
def Detached (pieces : List Piece) : Prop :=
  Laid pieces ∧ ∀ piece ∈ pieces.head?, piece.separates = true

section Layout

variable {piece next : Piece} {pieces left right inner : List Piece} {k : Keyword}

theorem Laid.nil : Laid [] := by
  simp [Laid]

theorem Detached.nil : Detached [] := by
  simp [Detached, Laid]

theorem Laid.single (h : piece.isSolid = true) : Laid [piece] := by
  simp [Laid, h]

theorem Laid.append (hleft : Laid left) (hright : Detached right) : Laid (left ++ right) := by
  obtain ⟨⟨hchain, hlast⟩, hhead⟩ := hright
  refine ⟨List.isChain_append.mpr ⟨hleft.1, hchain, ?_⟩, ?_⟩
  · intro p hp q hq
    exact .of_isSolid (hleft.2 p hp) (hhead q hq)
  · intro p hp
    rw [List.getLast?_append] at hp
    cases hright : right.getLast? with
    | none => exact hleft.2 p (by simpa [hright] using hp)
    | some q => exact hlast p (by simpa [hright] using hp)

theorem Detached.append (hleft : Detached left) (hright : Detached right) :
    Detached (left ++ right) := by
  refine ⟨hleft.1.append hright, ?_⟩
  cases left with
  | nil => exact hright.2
  | cons p left => exact hleft.2

/-- What is laid out may be written behind a piece that is over in front of it. -/
theorem Laid.cons (hpiece : piece.isSolid = true) (hnext : ∀ next ∈ pieces.head?, piece.Adjoins next)
    (h : Laid pieces) : Laid (piece :: pieces) := by
  refine ⟨List.isChain_cons.mpr ⟨hnext, h.1⟩, ?_⟩
  intro p hp
  cases pieces with
  | nil =>
    obtain rfl := Option.some.inj hp
    exact hpiece
  | cons next pieces => exact h.2 p (by simpa using hp)

theorem Laid.cons_cons (hnext : piece.Adjoins next) (h : Laid (next :: pieces)) :
    Laid (piece :: next :: pieces) := by
  refine ⟨List.isChain_cons.mpr ⟨?_, h.1⟩, ?_⟩
  · intro other hmem
    obtain rfl := Option.some.inj hmem
    exact hnext
  · intro p hp
    exact h.2 p (by simpa using hp)

theorem Laid.cons_open (hpiece : piece.isOpen = true) (h : Laid pieces) : Laid (piece :: pieces) :=
  .cons (isSolid_of_isOpen hpiece) (fun _ _ => .of_isOpen hpiece) h

theorem Laid.cons_solid (hpiece : piece.isSolid = true) (h : Detached pieces) :
    Laid (piece :: pieces) :=
  .cons hpiece (fun next hmem => .of_isSolid hpiece (h.2 next hmem)) h.1

theorem Detached.cons_open (hpiece : piece.isOpen = true) (hsep : piece.separates = true)
    (h : Laid pieces) : Detached (piece :: pieces) :=
  ⟨.cons_open hpiece h, by simpa using hsep⟩

theorem Detached.space (h : Laid pieces) : Detached (.space :: pieces) :=
  .cons_open rfl rfl h

theorem Detached.flatMap {α : Type} {f : α → List Piece} {xs : List α}
    (h : ∀ x ∈ xs, Detached (f x)) : Detached (xs.flatMap f) := by
  induction xs with
  | nil => exact .nil
  | cons x xs ih =>
    exact (h x (by simp)).append (ih fun y hy => h y (List.mem_cons_of_mem x hy))

theorem Detached.enclosed (delimiter : Delimiter) (h : Laid inner) :
    Detached (enclosed delimiter inner) := by
  have hlast : Detached [.symbol (.closing delimiter)] := .cons_open rfl rfl .nil
  have hinner : Laid (inner ++ [.symbol (.closing delimiter)]) := h.append hlast
  exact .cons_open rfl rfl hinner

theorem Laid.commaList {items : List (List Piece)} (h : ∀ item ∈ items, Laid item) :
    Laid (commaList items) := by
  cases items with
  | nil => exact .nil
  | cons first more =>
    rw [commaList_cons]
    refine (h first (by simp)).append (.flatMap fun item hmem => ?_)
    exact .cons_open rfl rfl (.cons_open rfl (h item (List.mem_cons_of_mem first hmem)))

theorem Laid.dotted {items : List (List Piece)} (h : ∀ item ∈ items, Laid item) :
    Laid (dotted items) := by
  cases items with
  | nil => exact .nil
  | cons first more =>
    rw [dotted_cons]
    refine (h first (by simp)).append (.flatMap fun item hmem => ?_)
    exact .cons_open rfl rfl (h item (List.mem_cons_of_mem first hmem))

theorem Laid.map_commaList {α : Type} {f : α → List Piece} {xs : List α} (h : ∀ x ∈ xs, Laid (f x)) :
    Laid (Piece.commaList (xs.map f)) :=
  .commaList fun item hmem => by
    obtain ⟨x, hx, rfl⟩ := List.mem_map.mp hmem
    exact h x hx

theorem Laid.map_dotted {α : Type} {f : α → List Piece} {xs : List α} (h : ∀ x ∈ xs, Laid (f x)) :
    Laid (Piece.dotted (xs.map f)) :=
  .dotted fun item hmem => by
    obtain ⟨x, hx, rfl⟩ := List.mem_map.mp hmem
    exact h x hx

theorem Laid.after (h : Laid inner) : Laid (after k inner) :=
  .cons_solid rfl (.space h)

theorem Detached.optional {α : Type} {f : α → List Piece} {value : Option α}
    (h : ∀ v ∈ value, Laid (f v)) : Detached (Piece.optional (value.map f)) := by
  cases value with
  | none => exact .nil
  | some v => exact .space (h v rfl)

theorem Detached.flag (written : Bool) : Detached (flag k written) := by
  cases written with
  | false => exact .nil
  | true => exact .space (.single rfl)

theorem Laid.leading (written : Bool) (h : Laid inner) : Laid (leading k written ++ inner) := by
  cases written with
  | false => exact h
  | true => exact .cons_solid rfl (.space h)

theorem Laid.words (ks : List Keyword) : Laid (words ks) := by
  cases ks with
  | nil => exact .nil
  | cons first more =>
    rw [Piece.words, List.map_cons, intercalate_cons_eq_flatMap, List.flatMap_map]
    exact Laid.append (.single rfl) (.flatMap fun k _ => .space (.single rfl))

end Layout
end Piece

open Piece

theorem RecordKey.isSolid_piece (key : RecordKey) : key.piece.isSolid = true := by
  cases key <;> rfl

theorem Identifier.laid (id : Identifier) : Laid id.pieces := by
  cases id with
  | raw name => exact .single rfl
  | dotted names => exact .map_dotted fun name _ => .single rfl
  | record id =>
    have hkey : Laid [.symbol .colon, id.key.piece] :=
      .cons_cons (.colon id.key) (.single id.key.isSolid_piece)
    exact .cons_solid rfl ⟨hkey, by simp [separates]⟩
  | «variable» name => exact .single rfl

theorem EdgePath.detached (path : EdgePath) : Detached path.pieces := by
  obtain ⟨direction, first, second⟩ := path
  have hfirst : Detached (.symbol (.arrow direction) :: first.pieces) :=
    .cons_open rfl rfl first.laid
  cases second with
  | none => exact hfirst.append .nil
  | some target => exact hfirst.append (.cons_open rfl rfl target.laid)

theorem FieldReference.laid (target : FieldReference) : Laid target.pieces := by
  cases target with
  | identifier id => exact id.laid
  | path segments => exact .map_dotted fun segment _ => segment.laid
  | edge origin path =>
    cases origin with
    | none => exact path.detached.1
    | some id => exact id.laid.append path.detached

theorem ObjectKey.laid (key : ObjectKey) : Laid key.pieces := by
  cases key with
  | dotted names => exact .map_dotted fun name _ => .single rfl
  | _ => exact .single rfl

theorem Expr.entry_laid {entry : ObjectKey × Expr} (h : Laid entry.2.pieces) :
    Laid (Expr.entryPiecesOf entry) := by
  have hcolon : (Piece.symbol .colon).Adjoins .space := by
    intro _ c hc
    obtain rfl : ' ' = c := Option.some.inj hc
    decide
  have hvalue : Laid (.symbol .colon :: .space :: entry.2.pieces) :=
    .cons_cons hcolon (.cons_open rfl h)
  exact entry.1.laid.append ⟨hvalue, by simp [separates]⟩

theorem Expr.braced_laid {entries : List (List Piece)} (h : ∀ entry ∈ entries, Laid entry) :
    Laid (Expr.braced entries) := by
  cases entries with
  | nil => exact (Detached.enclosed .brace .nil).1
  | cons first more =>
    have hinner : Laid (.space :: Piece.commaList (first :: more) ++ [.space]) :=
      Laid.append (.cons_open rfl (.commaList h)) (.space .nil)
    exact (Detached.enclosed .brace hinner).1

theorem Expr.grouped_laid (needed : Bool) {inner : List Piece} (h : Laid inner) :
    Laid (Expr.grouped needed inner) := by
  cases needed with
  | false => exact h
  | true => exact (Detached.enclosed .paren h).1

/-- By induction on the expression: each part is laid out, and marks or brackets stand between. -/
theorem Expr.laid (e : Expr) : Laid e.pieces := by
  induction e using Expr.inductionOn with
  | step e ih =>
    have hlist (delimiter : Delimiter) {es : List Expr} (hmem : ∀ x ∈ es, x ∈ e.children) :
        Detached (enclosed delimiter (Piece.commaList (es.map Expr.pieces))) :=
      .enclosed delimiter (.map_commaList fun x hx => ih x (hmem x hx))
    have hcall (function : NamespaceCall Expr)
        (hmem : ∀ x ∈ function.args.getD [], x ∈ e.children) :
        Laid (Expr.callPieces function) := by
      obtain ⟨space, name, args⟩ := function
      have hargs : Detached (args.elim [] fun args =>
          enclosed .paren (Piece.commaList (args.map Expr.pieces))) := by
        cases args with
        | none => exact .nil
        | some args => exact hlist .paren hmem
      rw [Expr.callPieces_eq]
      exact .cons_solid rfl (.cons_open rfl rfl (.cons_solid rfl hargs))
    cases e with
    | literal value => exact .single (by cases value <;> rfl)
    | reference target => exact target.laid
    | «variable» name => exact .single rfl
    | binary left op right =>
      have hleft := Expr.grouped_laid (left.opensLeft op) (ih left (by simp [Expr.children]))
      have hright := Expr.grouped_laid (right.opensRight op) (ih right (by simp [Expr.children]))
      rw [Expr.pieces]
      exact hleft.append (.space (.cons_cons (.operator op) (.cons_open rfl hright)))
    | call callee args =>
      rw [Expr.pieces_call]
      refine Laid.append ?_ (hlist .paren fun x hx => List.mem_append_right _ hx)
      cases callee with
      | identifier id => exact id.laid
      | path segments => exact .map_dotted fun segment _ => segment.laid
      | namespaceCall function => exact hcall function fun x hx => List.mem_append_left _ hx
    | namespaceCall function => exact hcall function fun x hx => hx
    | object entries =>
      rw [Expr.pieces_object]
      refine Expr.braced_laid fun pieces hmem => ?_
      obtain ⟨entry, hentry, rfl⟩ := List.mem_map.mp hmem
      exact Expr.entry_laid (ih entry.2 (List.mem_map_of_mem hentry))
    | array items =>
      rw [Expr.pieces_array]
      exact (hlist .bracket fun x hx => hx).1
    | paren inner =>
      rw [Expr.pieces]
      exact (Detached.enclosed .paren (ih inner (by simp [Expr.children]))).1

theorem Expr.items_laid (es : List Expr) : Laid (Piece.commaList (Expr.itemPieces es)) := by
  rw [Expr.itemPieces_eq]
  exact .map_commaList fun e _ => e.laid

theorem Expr.objectPieces_laid (entries : List (ObjectKey × Expr)) :
    Laid (Expr.objectPieces entries) := by
  rw [Expr.objectPieces, Expr.entryPieces_eq]
  refine Expr.braced_laid fun pieces hmem => ?_
  obtain ⟨entry, -, rfl⟩ := List.mem_map.mp hmem
  exact Expr.entry_laid entry.2.laid

theorem Piece.naming_detached (name : Option Identifier) : Detached (Piece.naming name) :=
  .optional fun id _ => .after id.laid

theorem OmitItem.laid (item : OmitItem) : Laid item.pieces := by
  obtain ⟨field, nested⟩ := item
  rw [OmitItem.pieces_mk]
  refine field.laid.append ?_
  cases nested with
  | none => exact .nil
  | some names =>
    have hnames : Laid (Piece.commaList (names.map fun name => [Piece.word name])) :=
      .map_commaList fun name _ => .single rfl
    exact .cons_open rfl rfl (Detached.enclosed .brace hnames).1

theorem OrderItem.laid (item : OrderItem) : Laid item.pieces := by
  obtain ⟨target, modifier⟩ := item
  refine Laid.append ?_ (.optional fun m _ => .words m.keywords)
  cases target with
  | value e => exact e.laid
  | rand => exact .cons_solid rfl (.enclosed .paren .nil)

theorem FetchItem.laid (item : FetchItem) : Laid item.pieces := by
  cases item with
  | field id => exact id.laid
  | edge path name => exact path.detached.1.append (Piece.naming_detached name)

theorem IndexHint.laid (index : IndexHint) : Laid index.pieces := by
  cases index with
  | noIndex => exact .words _
  | index names => exact .after (.after (.map_commaList fun id _ => id.laid))

theorem Clause.laid (clause : Clause) : Laid clause.pieces := by
  cases clause with
  | condition e => exact .after e.laid
  | split field => exact .after field.laid
  | omission items => exact .after (.map_commaList fun item _ => item.laid)
  | group grouping =>
    cases grouping with
    | all => exact .words _
    | «by» keys => exact .after (.after (Expr.items_laid keys))
  | order items => exact .after (.after (.map_commaList fun item _ => item.laid))
  | limit e => exact .after e.laid
  | start e => exact .after e.laid
  | fetch items => exact .after (.map_commaList fun item _ => item.laid)
  | timeout value => exact .after (.single rfl)
  | parallel => exact .single rfl
  | tempfiles => exact .single rfl
  | explain full => exact .cons_solid rfl (.flag full)
  | hint index => exact index.laid

theorem SelectItem.laid (item : SelectItem) : Laid item.pieces := by
  cases item with
  | all => exact .single rfl
  | value e name => exact e.laid.append (Piece.naming_detached name)

theorem SelectList.laid (list : SelectList) : Laid list.pieces := by
  cases list with
  | wildcard => exact .single rfl
  | items list => exact .map_commaList fun item _ => item.laid

theorem Projection.detached (projection : Projection) : Detached projection.pieces := by
  cases projection with
  | value e name => exact .space (.after (e.laid.append (Piece.naming_detached name)))
  | fields list omitted =>
    exact Detached.append (.optional fun items _ => items.laid)
      (.optional fun items _ => .after (.map_commaList fun item _ => item.laid))

mutual

theorem Select.laid : ∀ query : Select, Laid query.pieces
  | ⟨projection, source, clauses⟩ => by
    have hclauses : Detached (clauses.flatMap fun clause => .space :: clause.pieces) :=
      .flatMap fun clause _ => .space clause.laid
    rw [Select.pieces_mk]
    exact .cons_solid rfl (projection.detached.append (.space ((Source.laid source).append hclauses)))
termination_by structural query => query

theorem Source.laid : ∀ source : Source, Laid source.pieces
  | ⟨only, tables, hint⟩ => by
    rw [Source.pieces]
    exact Laid.append (.after (.leading only (.commaList (SourceTable.list_laid tables))))
      (.optional fun index _ => index.laid)
termination_by structural source => source

theorem SourceTable.laid : ∀ table : SourceTable, Laid table.pieces
  | .reference field => field.laid
  | .subquery query => (Detached.enclosed .paren (Select.laid query)).1
  | .array items => (Detached.enclosed .bracket (Expr.items_laid items)).1
termination_by structural table => table

theorem SourceTable.list_laid : ∀ tables : List SourceTable,
    ∀ pieces ∈ SourceTable.listPieces tables, Laid pieces
  | [], _, hmem => nomatch hmem
  | table :: tables, pieces, hmem => by
    rcases List.mem_cons.mp hmem with rfl | hmem
    · exact SourceTable.laid table
    · exact SourceTable.list_laid tables pieces hmem
termination_by structural tables => tables

end

theorem Assignment.laid (assignment : Assignment) : Laid assignment.pieces := by
  have hequal : Laid (.symbol .equal :: .space :: assignment.value.pieces) :=
    .cons_open rfl (.cons_open rfl assignment.value.laid)
  have hall := assignment.field.laid.append (.space hequal)
  simpa [Assignment.pieces] using hall

theorem Data.laid (data : Data) : Laid data.pieces := by
  cases data with
  | content entries => exact .after (Expr.objectPieces_laid entries)
  | merge entries => exact .after (Expr.objectPieces_laid entries)
  | patch items => exact .after (Detached.enclosed .bracket (Expr.items_laid items)).1
  | set assignments => exact .after (.map_commaList fun assignment _ => assignment.laid)
  | unset assignments => exact .after (.map_commaList fun assignment _ => assignment.laid)

theorem Output.laid (output : Output) : Laid output.pieces := by
  cases output with
  | fields list => exact .after list.laid
  | _ => exact .words _

theorem Output.tail_detached (output : Option Output) (timeout : Option Duration)
    (parallel : Bool) : Detached (Output.tailPieces output timeout parallel) :=
  ((Detached.optional fun output _ => output.laid).append
    (.optional fun _ _ => .after (.single rfl))).append (.flag parallel)

/-- What is written for a statement is laid out. -/
theorem Statement.laid (statement : Statement) : Laid statement.pieces := by
  cases statement with
  | select query => exact query.laid
  | create query =>
    have htargets : Laid (Piece.commaList (query.targets.map Identifier.pieces)) :=
      .map_commaList fun id _ => id.laid
    exact ((Laid.after (.leading query.only htargets)).append (.space query.data.laid)).append
      (Output.tail_detached ..)
  | update query =>
    exact (((Laid.after (.leading query.only (Expr.items_laid query.targets))).append
      (.optional fun data _ => data.laid)).append (.optional fun e _ => .after e.laid)).append
      (Output.tail_detached ..)
  | value e => exact e.laid

end EdgeQuery
