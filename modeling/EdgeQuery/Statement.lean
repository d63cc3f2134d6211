import EdgeQuery.Clause

/-!
Statements: SELECT, CREATE, UPDATE, and an expression standing alone.
-/

namespace EdgeQuery

inductive SelectItem
  | all
  | value (value : Expr) (name : Option Identifier)
deriving BEq

inductive SelectList
  /-- A star that stands alone. -/
  | wildcard
  | items (items : List SelectItem)
deriving BEq

/-- What a SELECT yields: one value per row, or fields. -/
inductive Projection
  | value (value : Expr) (name : Option Identifier)
  | fields (list : Option SelectList) (omitted : Option (List OmitItem))
deriving BEq

mutual

inductive SourceTable
  | reference (field : FieldReference)
  | subquery (query : Select)
  | array (items : List Expr)

/-- What stands behind FROM. -/
structure Source where
  only : Bool
  tables : List SourceTable
  hint : Option IndexHint

structure Select where
  projection : Projection
  source : Source
  clauses : List Clause

end

structure Assignment where
  field : FieldReference
  value : Expr
deriving BEq

/-- The data of a CREATE or UPDATE. Only an UPDATE merges and patches. -/
inductive Data
  | content (entries : List (ObjectKey × Expr))
  | merge (entries : List (ObjectKey × Expr))
  | patch (items : List Expr)
  | set (assignments : List Assignment)
  | unset (assignments : List Assignment)
deriving BEq

inductive Output
  | before
  | after
  | diff
  | fields (list : SelectList)
deriving BEq

structure Create where
  only : Bool
  targets : List Identifier
  data : Data
  output : Option Output
  timeout : Option Duration
  parallel : Bool
deriving BEq

structure Update where
  only : Bool
  targets : List Expr
  data : Option Data
  condition : Option Expr
  output : Option Output
  timeout : Option Duration
  parallel : Bool
deriving BEq

inductive Statement
  | select (query : Select)
  | create (query : Create)
  | update (query : Update)
  | value (value : Expr)

mutual

/-- Whether two queries are the same. -/
def Select.same : Select → Select → Bool
  | ⟨projection, source, clauses⟩, ⟨projection', source', clauses'⟩ =>
    projection == projection' && Source.same source source' && clauses == clauses'
termination_by structural query => query

def Source.same : Source → Source → Bool
  | ⟨only, tables, hint⟩, ⟨only', tables', hint'⟩ =>
    only == only' && SourceTable.sameList tables tables' && hint == hint'
termination_by structural source => source

def SourceTable.same : SourceTable → SourceTable → Bool
  | .reference a, .reference b => a == b
  | .subquery a, .subquery b => Select.same a b
  | .array a, .array b => a == b
  | _, _ => false
termination_by structural table => table

def SourceTable.sameList : List SourceTable → List SourceTable → Bool
  | [], [] => true
  | a :: as, b :: bs => SourceTable.same a b && SourceTable.sameList as bs
  | _, _ => false
termination_by structural tables => tables

end

instance : BEq Select := ⟨Select.same⟩

instance : BEq Statement where
  beq
    | .select a, .select b => a == b
    | .create a, .create b => a == b
    | .update a, .update b => a == b
    | .value a, .value b => a == b
    | _, _ => false

end EdgeQuery
