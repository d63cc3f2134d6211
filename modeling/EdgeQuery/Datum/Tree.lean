import EdgeQuery.Datum.Token
import EdgeQuery.SourceFile

/-!
Syntax trees as data.
-/

namespace EdgeQuery

def RecordKey.datum : RecordKey → Datum
  | .raw name => .wrapped "Raw" (.string name)
  | .number value => .wrapped "Number" (.number value.toNat)
  | .string content => .wrapped "String" (.string content)
  | .variable name => .wrapped "Variable" (.string name)

def Identifier.datum : Identifier → Datum
  | .raw name => .wrapped "Raw" (.string name)
  | .dotted names => .wrapped "Dotted" (Datum.strings names)
  | .record id =>
    .wrapped "RecordId" (.record "RecordId" [("table", .string id.table), ("key", id.key.datum)])
  | .variable name => .wrapped "Variable" (.string name)

/-- A name given with AS. -/
def Identifier.nameDatum (name : Option Identifier) : Datum :=
  .optional (name.map Identifier.datum)

def Direction.label : Direction → String
  | .out => "Out"
  | .into => "In"

def EdgePath.datum (path : EdgePath) : Datum :=
  .record "EdgePath"
    [("direction", .unit path.direction.label), ("first", path.first.datum),
      ("second", .optional (path.second.map Identifier.datum))]

def FieldReference.datum : FieldReference → Datum
  | .identifier id => .wrapped "Ident" id.datum
  | .path segments => .wrapped "Path" (.list (segments.map Identifier.datum))
  | .edge origin hops =>
    .variant "Edge" [("origin", .optional (origin.map Identifier.datum)), ("path", hops.datum)]

def Literal.datum : Literal → Datum
  | .string content => .wrapped "String" (.string content)
  | .number value => .wrapped "Number" (.number value.toNat)
  | .duration value => .wrapped "Duration" value.datum

def Precedence.label : Precedence → String
  | .or => "Or"
  | .and => "And"
  | .comparison => "Comparison"
  | .additive => "Additive"
  | .multiplicative => "Multiplicative"

def BinaryOp.label : BinaryOp → String
  | .or => "Or" | .and => "And"
  | .equal => "Eq" | .notEqual => "NotEq" | .greater => "Gt" | .less => "Lt"
  | .greaterEqual => "GtEq" | .lessEqual => "LtEq" | .contains => "Contains"
  | .inside => "Inside"
  | .add => "Add" | .sub => "Sub" | .mul => "Mul" | .div => "Div" | .mod => "Mod"

def ObjectKey.datum : ObjectKey → Datum
  | .raw name => .wrapped "Raw" (.string name)
  | .dotted names => .wrapped "Dotted" (Datum.strings names)
  | .string content => .wrapped "String" (.string content)

namespace Expr

mutual

def datum : Expr → Datum
  | .literal value => .wrapped "Literal" value.datum
  | .reference target => .wrapped "Field" target.datum
  | .variable name => .wrapped "Variable" (.string name)
  | .binary left op right =>
    .variant "Binary" [("left", datum left), ("op", .unit op.label), ("right", datum right)]
  | .call callee args =>
    .wrapped "Call"
      (.record "FunctionCall" [("callee", calleeDatum callee), ("args", .list (itemData args))])
  | .namespaceCall function => .wrapped "NamespaceCall" (callDatum function)
  | .object entries =>
    .wrapped "Object" (.record "Object" [("entries", .list (entryData entries))])
  | .array items => .wrapped "Array" (.list (itemData items))
  | .paren inner => .wrapped "Paren" (datum inner)
termination_by structural e => e

def calleeDatum : Callee Expr → Datum
  | .identifier id => .wrapped "Identifier" id.datum
  | .path segments => .wrapped "Path" (.list (segments.map Identifier.datum))
  | .namespaceCall function => .wrapped "Namespace" (callDatum function)
termination_by structural callee => callee

def callDatum : NamespaceCall Expr → Datum
  | ⟨space, function, args⟩ =>
    .record "NamespaceCall"
      [("namespace", .string space), ("function", .string function), ("args", argDatum args)]
termination_by structural call => call

def argDatum : Option (List Expr) → Datum
  | none => .absent
  | some es => .present (.list (itemData es))
termination_by structural es => es

def itemData : List Expr → List Datum
  | [] => []
  | e :: es => datum e :: itemData es
termination_by structural es => es

def entryData : List (ObjectKey × Expr) → List Datum
  | [] => []
  | (key, e) :: es =>
    .record "ObjectEntry" [("key", key.datum), ("value", datum e)] :: entryData es
termination_by structural es => es

end

def objectDatum (entries : List (ObjectKey × Expr)) : Datum :=
  .record "Object" [("entries", .list (entryData entries))]

end Expr

def OrderDirection.label : OrderDirection → String
  | .ascending => "Asc"
  | .descending => "Desc"

def OrderDirection.optionalDatum (direction : Option OrderDirection) : Datum :=
  .optional (direction.map fun d => .unit d.label)

def OrderModifier.datum : OrderModifier → Datum
  | .collate d => .wrapped "Collate" (OrderDirection.optionalDatum d)
  | .numeric d => .wrapped "Numeric" (OrderDirection.optionalDatum d)
  | .direction d => .wrapped "Direction" (.unit d.label)

def OrderTarget.datum : OrderTarget → Datum
  | .value e => .wrapped "Expr" e.datum
  | .rand => .unit "Rand"

def OrderItem.datum (item : OrderItem) : Datum :=
  .record "OrderItem"
    [("target", item.target.datum),
      ("modifier", .optional (item.modifier.map OrderModifier.datum))]

def OmitItem.datum (item : OmitItem) : Datum :=
  .record "OmitItem"
    [("field", item.field.datum), ("destructure", .optional (item.nested.map Datum.strings))]

def OmitItem.listDatum (items : List OmitItem) : Datum :=
  .list (items.map OmitItem.datum)

def Grouping.datum : Grouping → Datum
  | .all => .unit "All"
  | .by keys => .wrapped "Exprs" (.list (Expr.itemData keys))

def FetchItem.datum : FetchItem → Datum
  | .field id => .wrapped "Field" id.datum
  | .edge path name =>
    .variant "Edge" [("path", path.datum), ("alias", Identifier.nameDatum name)]

def IndexHint.datum : IndexHint → Datum
  | .noIndex => .unit "NoIndex"
  | .index names => .wrapped "Index" (.list (names.map Identifier.datum))

def Clause.datum : Clause → Datum
  | .condition e => .wrapped "Where" e.datum
  | .split field => .wrapped "Split" field.datum
  | .omission items => .wrapped "Omit" (OmitItem.listDatum items)
  | .group grouping => .wrapped "Group" grouping.datum
  | .order items => .wrapped "Order" (.list (items.map OrderItem.datum))
  | .limit e => .wrapped "Limit" e.datum
  | .start e => .wrapped "Start" e.datum
  | .fetch items => .wrapped "Fetch" (.list (items.map FetchItem.datum))
  | .timeout value => .wrapped "Timeout" value.datum
  | .parallel => .unit "Parallel"
  | .tempfiles => .unit "Tempfiles"
  | .explain full => .variant "Explain" [("full", .bool full)]
  | .hint index => .wrapped "With" index.datum

/-- The fields of a value with an optional name. -/
def Expr.namedFields (e : Expr) (name : Option Identifier) : List (String × Datum) :=
  [("expr", e.datum), ("alias", Identifier.nameDatum name)]

def SelectItem.datum : SelectItem → Datum
  | .all => .unit "All"
  | .value e name => .variant "Expr" (e.namedFields name)

def SelectList.datum : SelectList → Datum
  | .wildcard => .unit "Wildcard"
  | .items list => .wrapped "Items" (.list (list.map SelectItem.datum))

def Projection.datum : Projection → Datum
  | .value e name => .variant "Value" (e.namedFields name)
  | .fields list omitted =>
    .variant "Fields"
      [("fields", .optional (list.map SelectList.datum)),
        ("omit", .optional (omitted.map OmitItem.listDatum))]

mutual

def Select.datum : Select → Datum
  | ⟨projection, source, clauses⟩ =>
    .record "SelectStatement"
      [("projection", projection.datum), ("from", Source.datum source),
        ("clauses", .list (clauses.map Clause.datum))]
termination_by structural query => query

def Source.datum : Source → Datum
  | ⟨only, tables, hint⟩ =>
    .record "FromClause"
      [("only", .bool only), ("targets", .list (SourceTable.data tables)),
        ("with", .optional (hint.map IndexHint.datum))]
termination_by structural source => source

def SourceTable.datum : SourceTable → Datum
  | .reference field => .wrapped "Field" field.datum
  | .subquery query => .wrapped "Subquery" (Select.datum query)
  | .array items => .wrapped "Array" (.list (Expr.itemData items))
termination_by structural table => table

def SourceTable.data : List SourceTable → List Datum
  | [] => []
  | table :: tables => SourceTable.datum table :: SourceTable.data tables
termination_by structural tables => tables

end

def Assignment.datum (assignment : Assignment) : Datum :=
  .record "Assignment" [("field", assignment.field.datum), ("value", assignment.value.datum)]

def Data.datum : Data → Datum
  | .content entries => .wrapped "Content" (Expr.objectDatum entries)
  | .merge entries => .wrapped "Merge" (Expr.objectDatum entries)
  | .patch items => .wrapped "Patch" (.list (Expr.itemData items))
  | .set assignments => .wrapped "Set" (.list (assignments.map Assignment.datum))
  | .unset assignments => .wrapped "Unset" (.list (assignments.map Assignment.datum))

def Output.datum : Output → Datum
  | .before => .unit "Before"
  | .after => .unit "After"
  | .diff => .unit "Diff"
  | .fields list => .wrapped "Fields" list.datum

/-- The fields at the end of a CREATE or UPDATE. -/
def Output.tailFields (output : Option Output) (timeout : Option Duration) (parallel : Bool) :
    List (String × Datum) :=
  [("output", .optional (output.map Output.datum)),
    ("timeout", .optional (timeout.map Duration.datum)), ("parallel", .bool parallel)]

def Create.datum (query : Create) : Datum :=
  .record "CreateStatement"
    ([("only", .bool query.only), ("targets", .list (query.targets.map Identifier.datum)),
      ("data", query.data.datum)] ++
      Output.tailFields query.output query.timeout query.parallel)

def Update.datum (query : Update) : Datum :=
  .record "UpdateStatement"
    ([("only", .bool query.only), ("targets", .list (Expr.itemData query.targets)),
      ("data", .optional (query.data.map Data.datum)),
      ("where_clause", .optional (query.condition.map Expr.datum))] ++
      Output.tailFields query.output query.timeout query.parallel)

def Statement.datum : Statement → Datum
  | .select query => .wrapped "Select" query.datum
  | .create query => .wrapped "Create" query.datum
  | .update query => .wrapped "Update" query.datum
  | .value e => .wrapped "Expr" e.datum

def SourceItem.datum : SourceItem → Datum
  | .statement s => .wrapped "Statement" s.datum
  | .comment c => .wrapped "Comment" c.datum

def SourceFile.datum (file : SourceFile) : Datum :=
  .record "SourceFile" [("items", .list (file.items.map SourceItem.datum))]

end EdgeQuery
