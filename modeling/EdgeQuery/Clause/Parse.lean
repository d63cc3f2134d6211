import EdgeQuery.Clause
import EdgeQuery.Expr.Parse

/-!
Reading clauses. Each begins with a keyword of its own, so the clauses of a SELECT are read until
another token stands there. Some keywords may be followed by a word that means nothing: GROUP,
ORDER and LIMIT by BY, START by AT.
-/

namespace EdgeQuery

open Parse Walk

def OmitItem.parse : Parse OmitItem := do
  let field ← FieldReference.parse
  match ← kind 0, ← kind 1 with
  | .symbol .dot, .symbol (.opening .brace) =>
    advance
    return ⟨field, some (← within .brace (commaList identifier))⟩
  | _, _ => return ⟨field, none⟩

def OrderDirection.parse? : Parse (Option OrderDirection) := do
  if ← eatKeyword .ASC then return some .ascending
  else if ← eatKeyword .DESC then return some .descending
  else return none

def OrderModifier.parse? : Parse (Option OrderModifier) := do
  match ← kind 0 with
  | .keyword .COLLATE => advance; return some (.collate (← OrderDirection.parse?))
  | .keyword .NUMERIC => advance; return some (.numeric (← OrderDirection.parse?))
  | _ => return (← OrderDirection.parse?).map .direction

/-- Reads a value to order by, or RAND with its empty parentheses. -/
def OrderTarget.parse (expression : Parse Expr) : Parse OrderTarget := do
  match ← kind 0, ← kind 1 with
  | .keyword .RAND, .symbol (.opening .paren) =>
    advance
    within .paren (pure ())
    return .rand
  | _, _ => return .value (← expression)

def OrderItem.parse (expression : Parse Expr) : Parse OrderItem := do
  let target ← OrderTarget.parse expression
  return ⟨target, ← OrderModifier.parse?⟩

def FetchItem.parse : Parse FetchItem := do
  match (← get).arrow? with
  | none => return .field (← Identifier.parse)
  | some direction =>
    let path ← EdgePath.parse direction
    return .edge path (← Identifier.parseNaming)

/-- Reads WITH and what it says about indexes. -/
def IndexHint.parse : Parse IndexHint := do
  keyword .WITH
  if ← eatKeyword .NOINDEX then return .noIndex
  else if ← eatKeyword .INDEX then return .index (← commaList Identifier.parse)
  else expected [.keyword .NOINDEX, .keyword .INDEX]

def Grouping.parse (expression : Parse Expr) : Parse Grouping := do
  if ← eatKeyword .ALL then return .all else return .by (← commaList expression)

namespace Clause

/-- Reads the word if it stands here, and then what follows. -/
def skipping {α : Type} (filler : Keyword) (inner : Parse α) : Parse α := do
  let _ ← eatKeyword filler
  inner

/-- Reads a clause if one begins here. -/
def parse? (expression : Parse Expr) : Parse (Option Clause) := do
  match ← kind 0 with
  | .keyword .WHERE => advance; return some (.condition (← expression))
  | .keyword .SPLIT => advance; return some (.split (← FieldReference.parse))
  | .keyword .OMIT => advance; return some (.omission (← commaList OmitItem.parse))
  | .keyword .GROUP => advance; return some (.group (← skipping .BY (Grouping.parse expression)))
  | .keyword .ORDER =>
    advance
    return some (.order (← skipping .BY (commaList (OrderItem.parse expression))))
  | .keyword .LIMIT => advance; return some (.limit (← skipping .BY expression))
  | .keyword .START => advance; return some (.start (← skipping .AT expression))
  | .keyword .FETCH => advance; return some (.fetch (← commaList FetchItem.parse))
  | .keyword .TIMEOUT => advance; return some (.timeout (← duration))
  | .keyword .PARALLEL => advance; return some .parallel
  | .keyword .TEMPFILES => advance; return some .tempfiles
  | .keyword .EXPLAIN => advance; return some (.explain (← eatKeyword .FULL))
  | .keyword .WITH => return some (.hint (← IndexHint.parse))
  | _ => return none

end Clause
end EdgeQuery
