import EdgeQuery.Clause.Parse
import EdgeQuery.Statement

/-!
Reading statements. As with expressions, the recursion through subqueries is on the number of
nesting levels that are left.
-/

namespace EdgeQuery

open Parse Walk

/-- Reads an entry of a select list. A value that is neither a reference nor a call needs a name. -/
def SelectItem.parse (expression : Parse Expr) : Parse SelectItem := do
  if ← eatSymbol .star then return .all
  else
    let value ← expression
    let name ← Identifier.parseNaming
    if name.isNone && !value.isReferenceOrCall then expected [.keyword .AS]
    else return .value value name

/-- Reads a select list. A star is a list of its own unless a comma follows it. -/
def SelectList.parse (expression : Parse Expr) : Parse SelectList := do
  match ← kind 0, ← kind 1 with
  | .symbol .star, .symbol .comma => return .items (← commaList (SelectItem.parse expression))
  | .symbol .star, _ => advance; return .wildcard
  | _, _ => return .items (← commaList (SelectItem.parse expression))

/-- Whether a SELECT goes on with a list of what it selects. -/
def Parse.atSelectList : Parse Bool :=
  return !(← atKeyword .FROM) && !(← atKeyword .OMIT)

/-- Reads what stands between SELECT and FROM. -/
def Projection.parse (expression : Parse Expr) : Parse Projection := do
  if ← eatKeyword .VALUE then
    let value ← expression
    return .value value (← Identifier.parseNaming)
  else
    let list ← onlyIf atSelectList (SelectList.parse expression)
    let omitted ← onlyIf (eatKeyword .OMIT) (commaList OmitItem.parse)
    return .fields list omitted

/-- Reads a source of rows. -/
def SourceTable.parse (expression : Parse Expr) (subquery : Parse Select) :
    Parse SourceTable := do
  match ← kind 0 with
  | .symbol (.opening .paren) => within .paren do
    if ← atKeyword .SELECT then return .subquery (← subquery)
    else expected [.keyword .SELECT]
  | .symbol (.opening .bracket) => return .array (← Expr.parseItems expression)
  | .symbol (.arrow _) | .identifier _ => return .reference (← FieldReference.parse)
  | _ =>
    expected [.tableName, .symbol (.opening .paren), .symbol (.opening .bracket)]

def Source.parse (expression : Parse Expr) (subquery : Parse Select) : Parse Source := do
  keyword .FROM
  let only ← eatKeyword .ONLY
  let tables ← commaList (SourceTable.parse expression subquery)
  let hint ← onlyIf (atKeyword .WITH) IndexHint.parse
  return ⟨only, tables, hint⟩

namespace Select

/-- Reads a SELECT, given the parsers of its expressions and of its subqueries. -/
def parseWith (expression : Parse Expr) (subquery : Parse Select) : Parse Select := do
  keyword .SELECT
  let projection ← Projection.parse expression
  let source ← Source.parse expression subquery
  let clauses ← repeated (Clause.parse? expression)
  return ⟨projection, source, clauses⟩

/-- Reads a SELECT when the given number of nesting levels is left. A subquery takes one. -/
def parse : (levels : Nat) → Parse Select
  | 0 => parseWith (Expr.parseRanked 0 0) tooDeep
  | levels + 1 => parseWith (Expr.parseRanked (levels + 1) 0) (nested levels (parse levels))

end Select

def Assignment.parse (expression : Parse Expr) : Parse Assignment := do
  let field ← FieldReference.parse
  symbol .equal
  return ⟨field, ← expression⟩

/-- Reads what a RETURN asks for. -/
def Output.parse (expression : Parse Expr) : Parse Output := do
  match ← kind 0 with
  | .keyword .BEFORE => advance; return .before
  | .keyword .AFTER => advance; return .after
  | .keyword .DIFF => advance; return .diff
  | _ => return .fields (← SelectList.parse expression)

/-- Reads RETURN and what it asks for, if it stands here. -/
def Output.parse? (expression : Parse Expr) : Parse (Option Output) :=
  onlyIf (eatKeyword .RETURN) (Output.parse expression)

/-- Reads TIMEOUT and its duration, if it stands here. -/
def Parse.timeout? : Parse (Option Duration) :=
  onlyIf (eatKeyword .TIMEOUT) duration

namespace Create

/-- Reads a table, a record or a variable to create. -/
def parseTarget : Parse Identifier := do
  match ← kind 0 with
  | .variable name => advance; return .variable name
  | .identifier _ => Identifier.parse
  | _ => expected [.identifier, .variable]

def parseData (expression : Parse Expr) : Parse Data := do
  match ← kind 0 with
  | .keyword .CONTENT => advance; return .content (← Expr.parseEntries expression)
  | .keyword .SET => advance; return .set (← commaList (Assignment.parse expression))
  | .keyword .UNSET => advance; return .unset (← commaList (Assignment.parse expression))
  | _ => expected [.keyword .CONTENT, .keyword .SET, .keyword .UNSET]

def parse (expression : Parse Expr) : Parse Create := do
  keyword .CREATE
  let only ← eatKeyword .ONLY
  let targets ← commaList parseTarget
  let data ← parseData expression
  let output ← Output.parse? expression
  let timeout ← timeout?
  return ⟨only, targets, data, output, timeout, ← eatKeyword .PARALLEL⟩

end Create

namespace Update

/-- Reads the items of a patch. -/
def parsePatch (expression : Parse Expr) : Parse (List Expr) := do
  if ← atSymbol (.opening .bracket) then Expr.parseItems expression
  else expected [.symbol (.opening .bracket)]

def parseData? (expression : Parse Expr) : Parse (Option Data) := do
  match ← kind 0 with
  | .keyword .CONTENT => advance; return some (.content (← Expr.parseEntries expression))
  | .keyword .MERGE => advance; return some (.merge (← Expr.parseEntries expression))
  | .keyword .PATCH => advance; return some (.patch (← parsePatch expression))
  | .keyword .SET => advance; return some (.set (← commaList (Assignment.parse expression)))
  | .keyword .UNSET => advance; return some (.unset (← commaList (Assignment.parse expression)))
  | _ => return none

def parse (expression : Parse Expr) : Parse Update := do
  keyword .UPDATE
  let only ← eatKeyword .ONLY
  let targets ← commaList expression
  let data ← parseData? expression
  let condition ← onlyIf (eatKeyword .WHERE) expression
  let output ← Output.parse? expression
  let timeout ← timeout?
  return ⟨only, targets, data, condition, output, timeout, ← eatKeyword .PARALLEL⟩

end Update

namespace Statement

/-- Reads a statement when the given number of nesting levels is left. What begins with none of
the three keywords is an expression. -/
def parseAt (levels : Nat) : Parse Statement := do
  let expression := Expr.parseRanked levels 0
  match ← Parse.kind 0 with
  | .keyword .SELECT => return .select (← Select.parse levels)
  | .keyword .CREATE => return .create (← Create.parse expression)
  | .keyword .UPDATE => return .update (← Update.parse expression)
  | _ => return .value (← expression)

/-- Reads a statement, with the nesting levels that the cursor has left. -/
def parse : Parse Statement := do
  parseAt (← get).levels

/-- Reads a statement that stands by itself, with all nesting levels free and no delimiter open,
and the semicolon behind it if there is one. -/
def parseTerminated : Parse Statement := do
  modify fun cursor => { cursor with levels := cursor.limit, opened := [] }
  let statement ← parse
  let _ ← eatSymbol .semicolon
  return statement

/-- Reads a statement that is all there is. -/
def parseSingle : Parse Statement := do
  let statement ← parseTerminated
  endOfInput
  return statement

end Statement
end EdgeQuery
