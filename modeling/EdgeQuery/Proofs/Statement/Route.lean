import EdgeQuery.Proofs.Expr.Route
import EdgeQuery.Proofs.SourceFile

/-!
The steps of reading clauses and statements. A statement that stands by itself begins with no
delimiter open, so at every cursor on the way those are open that its own tokens leave open.
-/

namespace EdgeQuery

open Cursor Route

section Clauses

def OmitItem.route : Route OmitItem := do
  let field ← FieldReference.route
  match ← kind 0, ← kind 1 with
  | .symbol .dot, .symbol (.opening .brace) =>
    advance
    return ⟨field, some (← within .brace (commaList identifier))⟩
  | _, _ => return ⟨field, none⟩

def OrderDirection.route? : Route (Option OrderDirection) := do
  if ← eatKeyword .ASC then return some .ascending
  else if ← eatKeyword .DESC then return some .descending
  else return none

def OrderModifier.route? : Route (Option OrderModifier) := do
  match ← kind 0 with
  | .keyword .COLLATE => advance; return some (.collate (← OrderDirection.route?))
  | .keyword .NUMERIC => advance; return some (.numeric (← OrderDirection.route?))
  | _ => return (← OrderDirection.route?).map .direction

def OrderTarget.route (expression : Route Expr) : Route OrderTarget := do
  match ← kind 0, ← kind 1 with
  | .keyword .RAND, .symbol (.opening .paren) =>
    advance
    within .paren (pure ())
    return .rand
  | _, _ => return .value (← expression)

def OrderItem.route (expression : Route Expr) : Route OrderItem := do
  let target ← OrderTarget.route expression
  return ⟨target, ← OrderModifier.route?⟩

def FetchItem.route : Route FetchItem := do
  match (← here).arrow? with
  | none => return .field (← Identifier.route)
  | some direction =>
    let path ← EdgePath.route direction
    return .edge path (← Identifier.routeNaming)

def IndexHint.route : Route IndexHint := do
  keyword .WITH
  if ← eatKeyword .NOINDEX then return .noIndex
  else if ← eatKeyword .INDEX then return .index (← commaList Identifier.route)
  else expected [.keyword .NOINDEX, .keyword .INDEX]

def Grouping.route (expression : Route Expr) : Route Grouping := do
  if ← eatKeyword .ALL then return .all else return .by (← commaList expression)

namespace Clause

def routeSkipping {α : Type} (filler : Keyword) (inner : Route α) : Route α := do
  let _ ← eatKeyword filler
  inner

def route? (expression : Route Expr) : Route (Option Clause) := do
  match ← kind 0 with
  | .keyword .WHERE => advance; return some (.condition (← expression))
  | .keyword .SPLIT => advance; return some (.split (← FieldReference.route))
  | .keyword .OMIT => advance; return some (.omission (← commaList OmitItem.route))
  | .keyword .GROUP =>
    advance; return some (.group (← routeSkipping .BY (Grouping.route expression)))
  | .keyword .ORDER =>
    advance
    return some (.order (← routeSkipping .BY (commaList (OrderItem.route expression))))
  | .keyword .LIMIT => advance; return some (.limit (← routeSkipping .BY expression))
  | .keyword .START => advance; return some (.start (← routeSkipping .AT expression))
  | .keyword .FETCH => advance; return some (.fetch (← commaList FetchItem.route))
  | .keyword .TIMEOUT => advance; return some (.timeout (← duration))
  | .keyword .PARALLEL => advance; return some .parallel
  | .keyword .TEMPFILES => advance; return some .tempfiles
  | .keyword .EXPLAIN => advance; return some (.explain (← eatKeyword .FULL))
  | .keyword .WITH => return some (.hint (← IndexHint.route))
  | _ => return none

end Clause

variable {cursor : Cursor}

theorem OmitItem.route_traces : OmitItem.route.Traces OmitItem.parse := by
  intro cursor
  refine (FieldReference.route_traces cursor).bind fun field mid _ => ?_
  refine .ask (Parse.kind_run 0 mid) (.ask (Parse.kind_run 1 mid) ?_)
  by_cases hkinds : mid.kind 0 = .symbol .dot ∧ mid.kind 1 = .symbol (.opening .brace)
  · obtain ⟨hkind, hnext⟩ := hkinds
    have hbrace : mid.advanced.kind 0 = .symbol (.opening .brace) := by
      rw [Cursor.kind, peek_advanced]
      exact hnext
    rw [hkind, hnext]
    refine .advance (hkind ▸ Parse.isFlat_symbol (by simp) (by simp)) ?_
    exact (Follows.within hbrace (identifier_traces.commaList _)).bind
      fun _ later _ => .pure _ later
  · -- with this fact in the context `simp` takes the other branch on both sides
    have hne := not_and.mp hkinds
    simp only
    exact .pure _ mid

theorem OrderDirection.route?_traces : OrderDirection.route?.Traces OrderDirection.parse? := by
  intro cursor
  refine (eatKeyword_traces .ASC cursor).bind fun found mid _ => ?_
  cases found with
  | true => exact .pure _ mid
  | false =>
    refine (eatKeyword_traces .DESC mid).bind fun found mid _ => ?_
    cases found with
    | true => exact .pure _ mid
    | false => exact .pure _ mid

theorem OrderModifier.route?_traces : OrderModifier.route?.Traces OrderModifier.parse? := by
  intro cursor
  have hdirection (cursor : Cursor) := OrderDirection.route?_traces cursor
  refine .ask (Parse.kind_run 0 cursor) ?_
  cases hkind : cursor.kind 0 with
  | keyword k =>
    have hflat := isFlat_of_keyword hkind
    cases k with
    | COLLATE => exact .advance hflat ((hdirection _).bind fun _ later _ => .pure _ later)
    | NUMERIC => exact .advance hflat ((hdirection _).bind fun _ later _ => .pure _ later)
    | _ => exact (hdirection cursor).bind fun _ later _ => .pure _ later
  | _ => exact (hdirection cursor).bind fun _ later _ => .pure _ later

theorem FetchItem.route_traces : FetchItem.route.Traces FetchItem.parse := by
  intro cursor
  refine .here ?_
  cases harrow : cursor.arrow? with
  | none => exact (Identifier.route_traces cursor).bind fun _ later _ => .pure _ later
  | some direction =>
    refine (EdgePath.route_follows (arrow?_eq_some.mp harrow)).bind fun path mid _ => ?_
    exact (Identifier.routeNaming_traces mid).bind fun _ later _ => .pure _ later

theorem IndexHint.route_traces : IndexHint.route.Traces IndexHint.parse := by
  intro cursor
  refine (keyword_traces .WITH cursor).bind fun _ mid _ => ?_
  refine (eatKeyword_traces .NOINDEX mid).bind fun found mid _ => ?_
  cases found with
  | true => exact .pure _ mid
  | false =>
    refine (eatKeyword_traces .INDEX mid).bind fun found mid _ => ?_
    cases found with
    | true => exact (Identifier.route_traces.commaList mid).bind fun _ later _ => .pure _ later
    | false => exact .expected _ mid

section Parts

variable {route : Route Expr} {parser : Parse Expr} (h : route.Traces parser)
include h

theorem OrderTarget.route_traces : (OrderTarget.route route).Traces (OrderTarget.parse parser) := by
  intro cursor
  refine .ask (Parse.kind_run 0 cursor) (.ask (Parse.kind_run 1 cursor) ?_)
  by_cases hkinds : cursor.kind 0 = .keyword .RAND ∧ cursor.kind 1 = .symbol (.opening .paren)
  · obtain ⟨hkind, hnext⟩ := hkinds
    have hparen : cursor.advanced.kind 0 = .symbol (.opening .paren) := by
      rw [Cursor.kind, peek_advanced]
      exact hnext
    rw [hkind, hnext]
    refine .advance (isFlat_of_keyword hkind) ?_
    exact (Follows.within hparen (.pure () _)).bind fun _ later _ => .pure _ later
  · -- with this fact in the context `simp` takes the other branch on both sides
    have hne := not_and.mp hkinds
    simp only
    exact (h cursor).bind fun value later _ => .pure _ later

theorem OrderItem.route_traces : (OrderItem.route route).Traces (OrderItem.parse parser) := by
  intro cursor
  refine (OrderTarget.route_traces h cursor).bind fun target mid _ => ?_
  exact (OrderModifier.route?_traces mid).bind fun _ later _ => .pure _ later

theorem Grouping.route_traces : (Grouping.route route).Traces (Grouping.parse parser) := by
  intro cursor
  refine (eatKeyword_traces .ALL cursor).bind fun found mid _ => ?_
  cases found with
  | true => exact .pure _ mid
  | false => exact (h.commaList mid).bind fun _ later _ => .pure _ later

end Parts

theorem Clause.routeSkipping_traces {α : Type} {route : Route α} {parser : Parse α}
    (filler : Keyword) (h : route.Traces parser) :
    (routeSkipping filler route).Traces (skipping filler parser) :=
  fun cursor => (eatKeyword_traces filler cursor).bind fun _ mid _ => h mid

theorem Clause.route?_traces {route : Route Expr} {parser : Parse Expr} (h : route.Traces parser) :
    (Clause.route? route).Traces (Clause.parse? parser) := by
  intro cursor
  refine .ask (Parse.kind_run 0 cursor) ?_
  cases hkind : cursor.kind 0 with
  | keyword k =>
    have hflat := isFlat_of_keyword hkind
    cases k with
    | WHERE => exact .led hkind (some ∘ Clause.condition) h
    | SPLIT => exact .led hkind (some ∘ Clause.split) FieldReference.route_traces
    | OMIT => exact .led hkind (some ∘ Clause.omission) OmitItem.route_traces.commaList
    | GROUP =>
      exact .led hkind (some ∘ Clause.group)
        (routeSkipping_traces .BY (Grouping.route_traces h))
    | ORDER =>
      exact .led hkind (some ∘ Clause.order)
        (routeSkipping_traces .BY (OrderItem.route_traces h).commaList)
    | LIMIT => exact .led hkind (some ∘ Clause.limit) (routeSkipping_traces .BY h)
    | START => exact .led hkind (some ∘ Clause.start) (routeSkipping_traces .AT h)
    | FETCH => exact .led hkind (some ∘ Clause.fetch) FetchItem.route_traces.commaList
    | TIMEOUT => exact .led hkind (some ∘ Clause.timeout) duration_traces
    | PARALLEL => exact .advance hflat (.pure _ _)
    | TEMPFILES => exact .advance hflat (.pure _ _)
    | EXPLAIN => exact .led hkind (some ∘ Clause.explain) (eatKeyword_traces .FULL)
    | WITH => exact (IndexHint.route_traces cursor).bind fun _ later _ => .pure _ later
    | _ => exact .pure none cursor
  | _ => exact .pure none cursor

end Clauses

section Statements

def SelectItem.route (expression : Route Expr) : Route SelectItem := do
  if ← eatSymbol .star then return .all
  else
    let value ← expression
    let name ← Identifier.routeNaming
    if name.isNone && !value.isReferenceOrCall then expected [.keyword .AS]
    else return .value value name

def SelectList.route (expression : Route Expr) : Route SelectList := do
  match ← kind 0, ← kind 1 with
  | .symbol .star, .symbol .comma => return .items (← commaList (SelectItem.route expression))
  | .symbol .star, _ => advance; return .wildcard
  | _, _ => return .items (← commaList (SelectItem.route expression))

def Route.atSelectList : Route Bool :=
  return !(← atKeyword .FROM) && !(← atKeyword .OMIT)

def Projection.route (expression : Route Expr) : Route Projection := do
  if ← eatKeyword .VALUE then
    let value ← expression
    return .value value (← Identifier.routeNaming)
  else
    let list ← onlyIf atSelectList (SelectList.route expression)
    let omitted ← onlyIf (eatKeyword .OMIT) (commaList OmitItem.route)
    return .fields list omitted

def SourceTable.route (expression : Route Expr) (subquery : Route Select) :
    Route SourceTable := do
  match ← kind 0 with
  | .symbol (.opening .paren) => within .paren do
    if ← atKeyword .SELECT then return .subquery (← subquery)
    else expected [.keyword .SELECT]
  | .symbol (.opening .bracket) => return .array (← Expr.routeItems expression)
  | .symbol (.arrow _) | .identifier _ => return .reference (← FieldReference.route)
  | _ =>
    expected [.tableName, .symbol (.opening .paren), .symbol (.opening .bracket)]

def Source.route (expression : Route Expr) (subquery : Route Select) : Route Source := do
  keyword .FROM
  let only ← eatKeyword .ONLY
  let tables ← commaList (SourceTable.route expression subquery)
  let hint ← onlyIf (atKeyword .WITH) IndexHint.route
  return ⟨only, tables, hint⟩

namespace Select

def routeWith (expression : Route Expr) (subquery : Route Select) : Route Select := do
  keyword .SELECT
  let projection ← Projection.route expression
  let source ← Source.route expression subquery
  let clauses ← repeated (Clause.route? expression)
  return ⟨projection, source, clauses⟩

def route : (levels : Nat) → Route Select
  | 0 => routeWith (Expr.routeRanked 0 0) tooDeep
  | levels + 1 => routeWith (Expr.routeRanked (levels + 1) 0) (nested levels (route levels))

end Select

def Assignment.route (expression : Route Expr) : Route Assignment := do
  let field ← FieldReference.route
  symbol .equal
  return ⟨field, ← expression⟩

def Output.route (expression : Route Expr) : Route Output := do
  match ← kind 0 with
  | .keyword .BEFORE => advance; return .before
  | .keyword .AFTER => advance; return .after
  | .keyword .DIFF => advance; return .diff
  | _ => return .fields (← SelectList.route expression)

def Output.route? (expression : Route Expr) : Route (Option Output) :=
  onlyIf (eatKeyword .RETURN) (Output.route expression)

def Route.timeout? : Route (Option Duration) :=
  onlyIf (eatKeyword .TIMEOUT) duration

namespace Create

def routeTarget : Route Identifier := do
  match ← kind 0 with
  | .variable name => advance; return .variable name
  | .identifier _ => Identifier.route
  | _ => expected [.identifier, .variable]

def routeData (expression : Route Expr) : Route Data := do
  match ← kind 0 with
  | .keyword .CONTENT => advance; return .content (← Expr.routeEntries expression)
  | .keyword .SET => advance; return .set (← commaList (Assignment.route expression))
  | .keyword .UNSET => advance; return .unset (← commaList (Assignment.route expression))
  | _ => expected [.keyword .CONTENT, .keyword .SET, .keyword .UNSET]

def route (expression : Route Expr) : Route Create := do
  keyword .CREATE
  let only ← eatKeyword .ONLY
  let targets ← commaList routeTarget
  let data ← routeData expression
  let output ← Output.route? expression
  let timeout ← timeout?
  return ⟨only, targets, data, output, timeout, ← eatKeyword .PARALLEL⟩

end Create

namespace Update

def routePatch (expression : Route Expr) : Route (List Expr) := do
  if ← atSymbol (.opening .bracket) then Expr.routeItems expression
  else expected [.symbol (.opening .bracket)]

def routeData? (expression : Route Expr) : Route (Option Data) := do
  match ← kind 0 with
  | .keyword .CONTENT => advance; return some (.content (← Expr.routeEntries expression))
  | .keyword .MERGE => advance; return some (.merge (← Expr.routeEntries expression))
  | .keyword .PATCH => advance; return some (.patch (← routePatch expression))
  | .keyword .SET => advance; return some (.set (← commaList (Assignment.route expression)))
  | .keyword .UNSET => advance; return some (.unset (← commaList (Assignment.route expression)))
  | _ => return none

def route (expression : Route Expr) : Route Update := do
  keyword .UPDATE
  let only ← eatKeyword .ONLY
  let targets ← commaList expression
  let data ← routeData? expression
  let condition ← onlyIf (eatKeyword .WHERE) expression
  let output ← Output.route? expression
  let timeout ← timeout?
  return ⟨only, targets, data, condition, output, timeout, ← eatKeyword .PARALLEL⟩

end Update

namespace Statement

def routeAt (levels : Nat) : Route Statement := do
  let expression := Expr.routeRanked levels 0
  match ← Route.kind 0 with
  | .keyword .SELECT => return .select (← Select.route levels)
  | .keyword .CREATE => return .create (← Create.route expression)
  | .keyword .UPDATE => return .update (← Update.route expression)
  | _ => return .value (← expression)

/-- The steps of reading a statement that stands by itself, from where all nesting levels are free
and no delimiter is open. -/
def routeTerminated (levels : Nat) : Route Statement := do
  let statement ← routeAt levels
  let _ ← eatSymbol .semicolon
  return statement

end Statement

section Parts

variable {route : Route Expr} {parser : Parse Expr} (h : route.Traces parser)
include h

theorem SelectItem.route_traces : (SelectItem.route route).Traces (SelectItem.parse parser) := by
  intro cursor
  refine (eatSymbol_traces (Parse.isFlat_symbol (by simp) (by simp)) cursor).bind
    fun found mid _ => ?_
  cases found with
  | true => exact .pure _ mid
  | false =>
    refine (h mid).bind fun value mid _ => ?_
    refine (Identifier.routeNaming_traces mid).bind fun name mid _ => ?_
    split
    · exact .expected _ mid
    · exact .pure _ mid

theorem SelectList.route_traces : (SelectList.route route).Traces (SelectList.parse parser) := by
  intro cursor
  have hitems := ((SelectItem.route_traces h).commaList cursor).bind fun items later _ =>
    Follows.pure (SelectList.items items) later
  refine .ask (Parse.kind_run 0 cursor) (.ask (Parse.kind_run 1 cursor) ?_)
  cases hkind : cursor.kind 0 with
  | symbol s =>
    cases s with
    | star =>
      have hflat : IsFlat (cursor.kind 0) := hkind ▸ Parse.isFlat_symbol (by simp) (by simp)
      cases cursor.kind 1 with
      | symbol s =>
        cases s with
        | comma => exact hitems
        | _ => exact .advance hflat (.pure _ _)
      | _ => exact .advance hflat (.pure _ _)
    | _ => exact hitems
  | _ => exact hitems

theorem Projection.route_traces : (Projection.route route).Traces (Projection.parse parser) := by
  intro cursor
  refine (eatKeyword_traces .VALUE cursor).bind fun found mid _ => ?_
  cases found with
  | true =>
    refine (h mid).bind fun value mid _ => ?_
    exact (Identifier.routeNaming_traces mid).bind fun _ later _ => .pure _ later
  | false =>
    have hlist : Route.atSelectList.Follows Parse.atSelectList mid :=
      .ask (Parse.atKeyword_run .FROM mid) (.ask (Parse.atKeyword_run .OMIT mid) (.pure _ mid))
    refine (Follows.onlyIf hlist fun mid _ => SelectList.route_traces h mid).bind fun _ mid _ => ?_
    exact (Follows.onlyIf (eatKeyword_traces .OMIT mid) fun mid _ =>
      OmitItem.route_traces.commaList mid).bind fun _ later _ => .pure _ later

theorem SourceTable.route_traces {subroute : Route Select} {subquery : Parse Select}
    (hsub : subroute.Traces subquery) :
    (SourceTable.route route subroute).Traces (SourceTable.parse parser subquery) := by
  intro cursor
  refine .ask (Parse.kind_run 0 cursor) ?_
  cases hkind : cursor.kind 0 with
  | symbol s =>
    cases s with
    | opening delimiter =>
      cases delimiter with
      | paren =>
        refine .within hkind (.ask (Parse.atKeyword_run _ _) ?_)
        split
        · exact (hsub _).bind fun _ later _ => .pure _ later
        · exact .expected _ _
      | bracket => exact (Follows.delimitedList hkind h).bind fun _ later _ => .pure _ later
      | brace => exact .expected _ cursor
    | arrow direction =>
      exact (FieldReference.route_traces cursor).bind fun _ later _ => .pure _ later
    | _ => exact .expected _ cursor
  | identifier name =>
    exact (FieldReference.route_traces cursor).bind fun _ later _ => .pure _ later
  | _ => exact .expected _ cursor

theorem Source.route_traces {subroute : Route Select} {subquery : Parse Select}
    (hsub : subroute.Traces subquery) :
    (Source.route route subroute).Traces (Source.parse parser subquery) := by
  intro cursor
  refine (keyword_traces .FROM cursor).bind fun _ mid _ => ?_
  refine (eatKeyword_traces .ONLY mid).bind fun only mid _ => ?_
  refine ((SourceTable.route_traces h hsub).commaList mid).bind fun tables mid _ => ?_
  exact (Follows.onlyIf (ask_follows (Parse.atKeyword_run .WITH mid)) fun mid _ =>
    IndexHint.route_traces mid).bind fun _ later _ => .pure _ later

theorem Select.routeWith_traces {subroute : Route Select} {subquery : Parse Select}
    (hsub : subroute.Traces subquery) :
    (Select.routeWith route subroute).Traces (Select.parseWith parser subquery) := by
  intro cursor
  refine (keyword_traces .SELECT cursor).bind fun _ mid _ => ?_
  refine (Projection.route_traces h mid).bind fun projection mid _ => ?_
  refine (Source.route_traces h hsub mid).bind fun source mid _ => ?_
  exact ((Clause.route?_traces h).repeated mid).bind fun clauses later _ => .pure _ later

theorem Assignment.route_traces : (Assignment.route route).Traces (Assignment.parse parser) := by
  intro cursor
  refine (FieldReference.route_traces cursor).bind fun field mid _ => ?_
  refine (symbol_traces (Parse.isFlat_symbol (by simp) (by simp)) mid).bind fun _ mid _ => ?_
  exact (h mid).bind fun _ later _ => .pure _ later

theorem Output.route?_traces : (Output.route? route).Traces (Output.parse? parser) := by
  refine fun cursor => .onlyIf (eatKeyword_traces .RETURN cursor) fun mid _ => ?_
  have hlist := (SelectList.route_traces h mid).bind fun list later _ =>
    Follows.pure (Output.fields list) later
  refine .ask (Parse.kind_run 0 mid) ?_
  cases hkind : mid.kind 0 with
  | keyword k =>
    have hflat := isFlat_of_keyword hkind
    cases k with
    | BEFORE => exact .advance hflat (.pure _ _)
    | AFTER => exact .advance hflat (.pure _ _)
    | DIFF => exact .advance hflat (.pure _ _)
    | _ => exact hlist
  | _ => exact hlist

omit h in
theorem Route.timeout?_traces : Route.timeout?.Traces Parse.timeout? :=
  fun cursor => .onlyIf (eatKeyword_traces .TIMEOUT cursor) fun mid _ => duration_traces mid

omit h in
theorem Create.routeTarget_traces : Create.routeTarget.Traces Create.parseTarget := by
  intro cursor
  refine .ask (Parse.kind_run 0 cursor) ?_
  cases hkind : cursor.kind 0 with
  | «variable» name => exact .advance (hkind ▸ Parse.isFlat_of_symbol? rfl) (.pure _ _)
  | identifier name => exact Identifier.route_traces cursor
  | _ => exact .expected _ cursor

theorem Create.routeData_traces : (Create.routeData route).Traces (Create.parseData parser) := by
  intro cursor
  have hset := (Assignment.route_traces h).commaList
  refine .ask (Parse.kind_run 0 cursor) ?_
  cases hkind : cursor.kind 0 with
  | keyword k =>
    cases k with
    | CONTENT => exact .led hkind Data.content (Expr.routeEntries_traces h)
    | SET => exact .led hkind Data.set hset
    | UNSET => exact .led hkind Data.unset hset
    | _ => exact .expected _ cursor
  | _ => exact .expected _ cursor

theorem Create.route_traces : (Create.route route).Traces (Create.parse parser) := by
  intro cursor
  refine (keyword_traces .CREATE cursor).bind fun _ mid _ => ?_
  refine (eatKeyword_traces .ONLY mid).bind fun only mid _ => ?_
  refine (Create.routeTarget_traces.commaList mid).bind fun targets mid _ => ?_
  refine (Create.routeData_traces h mid).bind fun data mid _ => ?_
  refine (Output.route?_traces h mid).bind fun output mid _ => ?_
  refine (Route.timeout?_traces mid).bind fun timeout mid _ => ?_
  exact (eatKeyword_traces .PARALLEL mid).bind fun _ later _ => .pure _ later

theorem Update.routePatch_traces : (Update.routePatch route).Traces (Update.parsePatch parser) := by
  intro cursor
  refine .ask (Parse.atSymbol_run _ cursor) ?_
  split
  · next hbracket => exact .delimitedList (Parse.atSymbol_iff.mp hbracket) h
  · exact .expected _ cursor

theorem Update.routeData?_traces :
    (Update.routeData? route).Traces (Update.parseData? parser) := by
  intro cursor
  have hentries := Expr.routeEntries_traces h
  have hset := (Assignment.route_traces h).commaList
  refine .ask (Parse.kind_run 0 cursor) ?_
  cases hkind : cursor.kind 0 with
  | keyword k =>
    cases k with
    | CONTENT => exact .led hkind (some ∘ Data.content) hentries
    | MERGE => exact .led hkind (some ∘ Data.merge) hentries
    | PATCH => exact .led hkind (some ∘ Data.patch) (Update.routePatch_traces h)
    | SET => exact .led hkind (some ∘ Data.set) hset
    | UNSET => exact .led hkind (some ∘ Data.unset) hset
    | _ => exact .pure none cursor
  | _ => exact .pure none cursor

theorem Update.route_traces : (Update.route route).Traces (Update.parse parser) := by
  intro cursor
  refine (keyword_traces .UPDATE cursor).bind fun _ mid _ => ?_
  refine (eatKeyword_traces .ONLY mid).bind fun only mid _ => ?_
  refine (h.commaList mid).bind fun targets mid _ => ?_
  refine (Update.routeData?_traces h mid).bind fun data mid _ => ?_
  refine (Follows.onlyIf (eatKeyword_traces .WHERE mid) fun mid _ => h mid).bind
    fun condition mid _ => ?_
  refine (Output.route?_traces h mid).bind fun output mid _ => ?_
  refine (Route.timeout?_traces mid).bind fun timeout mid _ => ?_
  exact (eatKeyword_traces .PARALLEL mid).bind fun _ later _ => .pure _ later

end Parts

theorem Select.route_traces (levels : Nat) :
    (Select.route levels).Traces (Select.parse levels) := by
  induction levels with
  | zero => exact Select.routeWith_traces ((Expr.routes_trace 0).1 0) .tooDeep
  | succ levels ih =>
    exact Select.routeWith_traces ((Expr.routes_trace (levels + 1)).1 0) fun cursor =>
      .nested (ih _)

theorem Statement.routeAt_traces (levels : Nat) :
    (Statement.routeAt levels).Traces (Statement.parseAt levels) := by
  intro cursor
  have hexpression := (Expr.routes_trace levels).1 0
  have hvalue := (hexpression cursor).bind fun e later _ => Follows.pure (Statement.value e) later
  refine .ask (Parse.kind_run 0 cursor) ?_
  cases hkind : cursor.kind 0 with
  | keyword k =>
    cases k with
    | SELECT => exact (Select.route_traces levels cursor).bind fun _ later _ => .pure _ later
    | CREATE => exact (Create.route_traces hexpression cursor).bind fun _ later _ => .pure _ later
    | UPDATE => exact (Update.route_traces hexpression cursor).bind fun _ later _ => .pure _ later
    | _ => exact hvalue
  | _ => exact hvalue

/-- From where it begins, the route leads to what reading the statement comes to. -/
theorem Statement.routeTerminated_follows (cursor : Cursor) :
    (routeTerminated cursor.limit).Follows
      (parseAt cursor.limit >>= fun statement => Parse.eatSymbol .semicolon >>= fun _ =>
        pure statement) (start cursor) := by
  refine (routeAt_traces cursor.limit _).bind fun statement mid _ => ?_
  have hflat : IsFlat (.symbol .semicolon) := Parse.isFlat_symbol (by simp) (by simp)
  exact (eatSymbol_traces hflat mid).bind fun _ later _ => .pure statement later

/-- The parenthesis is noted as open until it is closed, the bracket to the end of the text. -/
example :
    let bracket := (Delimiter.bracket, ⟨0, 1⟩)
    let paren := (Delimiter.paren, ⟨1, 2⟩)
    ((Statement.routeTerminated 4).visits (Cursor.ofText "[(a)" .strict 4)).map (·.opened) =
      [[], [], [bracket], [bracket], [paren, bracket], [paren, bracket], [paren, bracket],
        [paren, bracket], [bracket], [bracket]] := by
  cbv

end Statements
end EdgeQuery
