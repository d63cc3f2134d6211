import EdgeQuery.Proofs.Expr.Readable
import EdgeQuery.Proofs.Statement

/-!
Clauses and statements whose names are names and whose strings can be quoted. They are the ones that
are written in pieces that can be read back.
-/

namespace EdgeQuery

open Piece

namespace Piece

section Phrases

variable {keyword : Keyword} {inner : List Piece}

@[simp]
theorem plain_words {keywords : List Keyword} : Plain (words keywords) := by
  rw [words, plain_intercalate (by simp)]
  simp

@[simp]
theorem plain_after : Plain (after keyword inner) ↔ Plain inner := by
  simp [after]

@[simp]
theorem plain_optional {pieces : Option (List Piece)} :
    Plain (optional pieces) ↔ ∀ inner ∈ pieces, Plain inner := by
  cases pieces <;> simp [optional]

@[simp]
theorem plain_flag {written : Bool} : Plain (flag keyword written) := by
  cases written <;> simp [flag]

@[simp]
theorem plain_leading {written : Bool} : Plain (leading keyword written) := by
  cases written <;> simp [leading]

@[simp]
theorem plain_flatMap {α : Type} {items : List α} {make : α → List Piece} :
    Plain (items.flatMap make) ↔ ∀ item ∈ items, Plain (make item) :=
  List.forall_mem_flatMap

@[simp]
theorem plain_naming {name : Option Identifier} :
    Plain (naming name) ↔ ∀ id ∈ name, id.Readable := by
  cases name <;> simp [naming]

@[simp]
theorem plain_timeout {value : Duration} : Plain (timeout value) := by
  simp [timeout]

@[simp]
theorem plain_itemPieces {es : List Expr} :
    (∀ item ∈ Expr.itemPieces es, Plain item) ↔ ∀ e ∈ es, e.Readable := by
  simp [Expr.itemPieces_eq]

@[simp]
theorem plain_arrayPieces {es : List Expr} :
    Plain (Expr.arrayPieces es) ↔ ∀ e ∈ es, e.Readable := by
  simp [Expr.arrayPieces]

@[simp]
theorem plain_objectPieces {entries : List (ObjectKey × Expr)} :
    Plain (Expr.objectPieces entries) ↔
      ∀ entry ∈ entries, entry.1.Readable ∧ entry.2.Readable := by
  rw [Expr.objectPieces, Expr.entryPieces_eq, Expr.plain_braced, List.forall_mem_map]
  simp only [Expr.plain_entryPiecesOf, Expr.plain_pieces]

end Phrases
end Piece

section Clauses

def OmitItem.Readable (item : OmitItem) : Prop :=
  item.field.Readable ∧ ∀ names ∈ item.nested, ∀ name ∈ names, isName name

def OrderTarget.Readable : OrderTarget → Prop
  | .value e => e.Readable
  | .rand => True

def FetchItem.Readable : FetchItem → Prop
  | .field id => id.Readable
  | .edge path name => path.Readable ∧ ∀ id ∈ name, id.Readable

def IndexHint.Readable : IndexHint → Prop
  | .noIndex => True
  | .index names => ∀ id ∈ names, id.Readable

/-- Every name in the clause is a name, and every string can be quoted. -/
def Clause.Readable : Clause → Prop
  | .condition e | .limit e | .start e => e.Readable
  | .split field => field.Readable
  | .omission items => ∀ item ∈ items, item.Readable
  | .group grouping => ∀ key ∈ grouping.keys, key.Readable
  | .order items => ∀ item ∈ items, item.target.Readable
  | .fetch items => ∀ item ∈ items, item.Readable
  | .hint index => index.Readable
  | .timeout _ | .parallel | .tempfiles | .explain _ => True

@[simp]
theorem OmitItem.plain_pieces {item : OmitItem} : Plain item.pieces ↔ item.Readable := by
  obtain ⟨field, nested⟩ := item
  cases nested <;> simp [OmitItem.pieces, OmitItem.Readable]

@[simp]
theorem OmitItem.plain_listPieces {items : List OmitItem} :
    Plain (OmitItem.listPieces items) ↔ ∀ item ∈ items, item.Readable := by
  simp [OmitItem.listPieces]

@[simp]
theorem OrderItem.plain_pieces {item : OrderItem} :
    Plain item.pieces ↔ item.target.Readable := by
  obtain ⟨target, modifier⟩ := item
  cases target <;> simp [OrderItem.pieces, OrderTarget.pieces, OrderTarget.Readable]

@[simp]
theorem FetchItem.plain_pieces {item : FetchItem} : Plain item.pieces ↔ item.Readable := by
  cases item <;> simp [FetchItem.pieces, FetchItem.Readable]

@[simp]
theorem IndexHint.plain_pieces {index : IndexHint} : Plain index.pieces ↔ index.Readable := by
  cases index <;> simp [IndexHint.pieces, IndexHint.Readable]

@[simp]
theorem Clause.plain_pieces {clause : Clause} : Plain clause.pieces ↔ clause.Readable := by
  cases clause with
  | group grouping =>
    cases grouping <;> simp [Clause.pieces, Clause.Readable, Grouping.keys]
  | _ => simp [Clause.pieces, Clause.Readable]

end Clauses

section Statements

def SelectItem.Readable : SelectItem → Prop
  | .all => True
  | .value e name => e.Readable ∧ ∀ id ∈ name, id.Readable

def SelectList.Readable : SelectList → Prop
  | .wildcard => True
  | .items list => ∀ item ∈ list, item.Readable

def Projection.Readable : Projection → Prop
  | .value e name => e.Readable ∧ ∀ id ∈ name, id.Readable
  | .fields list omitted =>
    (∀ items ∈ list, items.Readable) ∧ ∀ items ∈ omitted, ∀ item ∈ items, item.Readable

mutual

/-- Every name in the query is a name, and every string can be quoted. -/
def Select.Readable : Select → Prop
  | ⟨projection, source, clauses⟩ =>
    projection.Readable ∧ Source.Readable source ∧ ∀ clause ∈ clauses, clause.Readable
termination_by structural query => query

def Source.Readable : Source → Prop
  | ⟨_, tables, hint⟩ => SourceTable.ListReadable tables ∧ ∀ index ∈ hint, index.Readable
termination_by structural source => source

def SourceTable.Readable : SourceTable → Prop
  | .reference field => field.Readable
  | .subquery query => Select.Readable query
  | .array items => ∀ item ∈ items, item.Readable
termination_by structural table => table

def SourceTable.ListReadable : List SourceTable → Prop
  | [] => True
  | table :: tables => SourceTable.Readable table ∧ SourceTable.ListReadable tables
termination_by structural tables => tables

end

def Assignment.Readable (assignment : Assignment) : Prop :=
  assignment.field.Readable ∧ assignment.value.Readable

def Data.Readable : Data → Prop
  | .content entries | .merge entries =>
    ∀ entry ∈ entries, entry.1.Readable ∧ entry.2.Readable
  | .patch items => ∀ item ∈ items, item.Readable
  | .set assignments | .unset assignments => ∀ assignment ∈ assignments, assignment.Readable

def Output.Readable : Output → Prop
  | .fields list => list.Readable
  | _ => True

def Create.Readable (query : Create) : Prop :=
  (∀ target ∈ query.targets, target.Readable) ∧ query.data.Readable ∧
    ∀ output ∈ query.output, output.Readable

def Update.Readable (query : Update) : Prop :=
  (∀ target ∈ query.targets, target.Readable) ∧ (∀ data ∈ query.data, data.Readable) ∧
    (∀ e ∈ query.condition, e.Readable) ∧ ∀ output ∈ query.output, output.Readable

/-- Every name in the statement is a name, and every string can be quoted. -/
def Statement.Readable : Statement → Prop
  | .select query => query.Readable
  | .create query => query.Readable
  | .update query => query.Readable
  | .value e => e.Readable

@[simp]
theorem SelectItem.plain_pieces {item : SelectItem} : Plain item.pieces ↔ item.Readable := by
  cases item <;> simp [SelectItem.pieces, SelectItem.Readable]

@[simp]
theorem SelectList.plain_pieces {list : SelectList} : Plain list.pieces ↔ list.Readable := by
  cases list <;> simp [SelectList.pieces, SelectList.Readable]

@[simp]
theorem Projection.plain_pieces {projection : Projection} :
    Plain projection.pieces ↔ projection.Readable := by
  cases projection <;> simp [Projection.pieces, Projection.Readable]

mutual

theorem Select.plain_pieces : ∀ {query : Select}, Plain query.pieces ↔ query.Readable
  | ⟨_, source, _⟩ => by
    have hsource : Plain source.pieces ↔ source.Readable := Source.plain_pieces
    simp [Select.pieces, Select.Readable, hsource]
termination_by structural query => query

theorem Source.plain_pieces : ∀ {source : Source}, Plain source.pieces ↔ source.Readable
  | ⟨_, tables, _⟩ => by
    have htables : (∀ item ∈ SourceTable.listPieces tables, Plain item) ↔
      SourceTable.ListReadable tables := SourceTable.plain_listPieces
    simp [Source.pieces, Source.Readable, htables]
termination_by structural source => source

theorem SourceTable.plain_pieces : ∀ {table : SourceTable}, Plain table.pieces ↔ table.Readable
  | .reference _ => FieldReference.plain_pieces
  | .subquery query => by
    have hquery : Plain query.pieces ↔ query.Readable := Select.plain_pieces
    simp [SourceTable.pieces, SourceTable.Readable, hquery]
  | .array _ => plain_arrayPieces
termination_by structural table => table

theorem SourceTable.plain_listPieces : ∀ {tables : List SourceTable},
    (∀ item ∈ SourceTable.listPieces tables, Plain item) ↔ SourceTable.ListReadable tables
  | [] => by simp [SourceTable.listPieces, SourceTable.ListReadable]
  | table :: tables => by
    have htable : Plain table.pieces ↔ table.Readable := SourceTable.plain_pieces
    have htables : (∀ item ∈ SourceTable.listPieces tables, Plain item) ↔
      SourceTable.ListReadable tables := SourceTable.plain_listPieces
    simp [SourceTable.listPieces, SourceTable.ListReadable, htable, htables]
termination_by structural tables => tables

end

@[simp]
theorem Assignment.plain_pieces {assignment : Assignment} :
    Plain assignment.pieces ↔ assignment.Readable := by
  simp [Assignment.pieces, Assignment.Readable]

@[simp]
theorem Data.plain_pieces {data : Data} : Plain data.pieces ↔ data.Readable := by
  cases data <;> simp [Data.pieces, Data.Readable]

@[simp]
theorem Output.plain_pieces {output : Output} : Plain output.pieces ↔ output.Readable := by
  cases output <;> simp [Output.pieces, Output.Readable]

@[simp]
theorem Output.plain_tailPieces {output : Option Output} {timeout : Option Duration}
    {parallel : Bool} :
    Plain (Output.tailPieces output timeout parallel) ↔ ∀ o ∈ output, o.Readable := by
  simp [Output.tailPieces]

theorem Create.plain_pieces {query : Create} : Plain query.pieces ↔ query.Readable := by
  simp [Create.pieces, Create.Readable]

theorem Update.plain_pieces {query : Update} : Plain query.pieces ↔ query.Readable := by
  simp [Update.pieces, Update.Readable]

/-- A statement is written in pieces that can be read back exactly if its names are names and its
strings can be quoted. -/
theorem Statement.plain_pieces {statement : Statement} :
    Plain statement.pieces ↔ statement.Readable := by
  cases statement with
  | select query => exact Select.plain_pieces
  | create query => exact Create.plain_pieces
  | update query => exact Update.plain_pieces
  | value e => exact Expr.plain_pieces

end Statements
end EdgeQuery
