import EdgeQuery.Proofs.Expr.Sound
import EdgeQuery.Proofs.Parse.Route

/-!
The steps of reading references and expressions. The routes of the parts of an expression take the
route of whole expressions as an argument, as the parsers do.
-/

namespace EdgeQuery

open Cursor Route

section References

def RecordKey.route? : Route (Option RecordKey) := do
  let cursor ← here
  if cursor.atSymbol .colon then
    match RecordKey.ofToken? (cursor.peek 1) with
    | some key => advance; advance; return some key
    | none => return none
  else return none

def Route.nextName? : Route (Option String) := do
  if (← here).atChainDot then advance; return some (← name) else return none

namespace Identifier

def routeKey (name : String) : Route Identifier := do
  match ← RecordKey.route? with
  | some key => return .record ⟨name, key⟩
  | none => return .raw name

def route : Route Identifier := do
  let name ← identifier
  match ← RecordKey.route? with
  | some key => return .record ⟨name, key⟩
  | none => return .ofNames name (← repeated nextName?)

def routeSegment? : Route (Option Identifier) := do
  match ← nextName? with
  | some name => return some (← routeKey name)
  | none => return none

def routeNaming : Route (Option Identifier) :=
  onlyIf (eatKeyword .AS) route

end Identifier

def EdgePath.route (direction : Direction) : Route EdgePath := do
  advance
  let first ← Identifier.route
  let second ← onlyIf (eatSymbol (.arrow direction)) Identifier.route
  if (← here).arrow?.isSome then expected [.endOfEdgePath]
  else return ⟨direction, first, second⟩

namespace FieldReference

def routeChain : Route FieldReference := do
  let first ← Identifier.routeKey (← Route.identifier)
  let more ← repeated Identifier.routeSegment?
  match Identifier.ofSegments? first more with
  | none => return .path (first :: more)
  | some origin =>
    match (← here).arrow? with
    | some direction => return .edge (some origin) (← EdgePath.route direction)
    | none => return .identifier origin

def route : Route FieldReference := do
  match ← kind 0 with
  | .symbol (.arrow direction) => return .edge none (← EdgePath.route direction)
  | .identifier _ => routeChain
  | _ => expected [.identifier, .symbol (.arrow .out), .symbol (.arrow .into)]

end FieldReference

variable {cursor : Cursor}

theorem RecordKey.route?_traces : RecordKey.route?.Traces RecordKey.parse? := by
  intro cursor
  refine .here ?_
  split
  · next hcolon =>
    have hkind := Parse.atSymbol_iff.mp hcolon
    cases hkey : RecordKey.ofToken? (cursor.peek 1) with
    | none => exact .pure none cursor
    | some key =>
      have hflat : IsFlat (cursor.advanced.kind 0) := by
        rw [Cursor.kind, peek_advanced]
        exact (RecordKey.spelledBy_of_ofToken? hkey).2.1
      exact .advance (hkind ▸ Parse.isFlat_symbol (by simp) (by simp))
        (.advance hflat (.pure (some key) _))
  · exact .pure none cursor

theorem Route.nextName?_traces : Route.nextName?.Traces Parse.nextName? := by
  intro cursor
  refine .here ?_
  split
  · next hdot =>
    have hkind := Parse.atSymbol_iff.mp (Bool.and_eq_true_iff.mp hdot).1
    exact .advance (hkind ▸ Parse.isFlat_symbol (by simp) (by simp))
      ((name_traces _).bind fun name mid _ => .pure (some name) mid)
  · exact .pure none cursor

theorem Identifier.routeKey_traces (name : String) :
    (Identifier.routeKey name).Traces (Identifier.parseKey name) := by
  intro cursor
  refine (RecordKey.route?_traces cursor).bind fun key mid _ => ?_
  cases key with
  | some key => exact .pure _ mid
  | none => exact .pure _ mid

theorem Identifier.route_traces : Identifier.route.Traces Identifier.parse := by
  intro cursor
  refine (identifier_traces cursor).bind fun name mid _ => ?_
  refine (RecordKey.route?_traces mid).bind fun key mid _ => ?_
  cases key with
  | some key => exact .pure _ mid
  | none =>
    exact (Route.nextName?_traces.repeated mid).bind fun names later _ => .pure _ later

theorem Identifier.routeSegment?_traces :
    Identifier.routeSegment?.Traces Identifier.nextSegment? := by
  intro cursor
  refine (Route.nextName?_traces cursor).bind fun name mid _ => ?_
  cases name with
  | some name => exact (routeKey_traces name mid).bind fun key later _ => .pure (some key) later
  | none => exact .pure none mid

theorem Identifier.routeNaming_traces : Identifier.routeNaming.Traces Identifier.parseNaming :=
  fun cursor => .onlyIf (eatKeyword_traces .AS cursor) fun mid _ => route_traces mid

theorem EdgePath.route_follows {direction : Direction}
    (h : cursor.kind 0 = .symbol (.arrow direction)) :
    (EdgePath.route direction).Follows (EdgePath.parse direction) cursor := by
  have hflat : IsFlat (.symbol (.arrow direction)) := Parse.isFlat_symbol (by simp) (by simp)
  refine .advance (h ▸ hflat) ?_
  refine (Identifier.route_traces _).bind fun first mid _ => ?_
  refine (Follows.onlyIf (eatSymbol_traces hflat mid) fun mid _ =>
    Identifier.route_traces mid).bind fun second mid _ => .here ?_
  split
  · exact .expected _ mid
  · exact .pure _ mid

theorem FieldReference.routeChain_traces :
    FieldReference.routeChain.Traces FieldReference.parseChain := by
  intro cursor
  refine (identifier_traces cursor).bind fun name mid _ => ?_
  refine (Identifier.routeKey_traces name mid).bind fun first mid _ => ?_
  refine (Identifier.routeSegment?_traces.repeated mid).bind fun more mid _ => ?_
  cases Identifier.ofSegments? first more with
  | none => exact .pure _ mid
  | some origin =>
    refine .here ?_
    cases harrow : mid.arrow? with
    | some direction =>
      exact (EdgePath.route_follows (arrow?_eq_some.mp harrow)).bind fun path later _ =>
        .pure _ later
    | none => exact .pure _ mid

theorem FieldReference.route_traces : FieldReference.route.Traces FieldReference.parse := by
  intro cursor
  refine .ask (Parse.kind_run 0 cursor) ?_
  cases hkind : cursor.kind 0 with
  | identifier name => exact routeChain_traces cursor
  | symbol s =>
    cases s with
    | arrow direction =>
      exact (EdgePath.route_follows hkind).bind fun path later _ => .pure _ later
    | _ => exact .expected _ cursor
  | _ => exact .expected _ cursor

end References

section Expressions

def ObjectKey.route : Route ObjectKey := do
  match ← kind 0 with
  | .string content => advance; return .string content
  | _ =>
    match (← here).name? 0 with
    | none => expected [.objectKey]
    | some name =>
      advance
      let more ← repeated nextName?
      return if more.isEmpty then .raw name else .dotted (name :: more)

namespace Expr

def routeArguments (expression : Route Expr) : Route (List Expr) :=
  delimitedList .paren expression

def routeItems (expression : Route Expr) : Route (List Expr) :=
  delimitedList .bracket expression

def routeEntry (expression : Route Expr) : Route (ObjectKey × Expr) := do
  let key ← ObjectKey.route
  symbol .colon
  return (key, ← expression)

def routeEntries (expression : Route Expr) : Route (List (ObjectKey × Expr)) := do
  if ← atSymbol (.opening .brace) then delimitedList .brace (routeEntry expression)
  else expected [.symbol (.opening .brace)]

def routeNamespaceCall (expression : Route Expr) : Route Expr := do
  let space ← identifier
  symbol .doubleColon
  let function ← identifier
  let args ← onlyIf (atSymbol (.opening .paren)) (routeArguments expression)
  if ← atSymbol (.opening .paren) then
    return .call (.namespaceCall ⟨space, function, args⟩) (← routeArguments expression)
  else return .namespaceCall ⟨space, function, args⟩

def routeReference (expression : Route Expr) : Route Expr := do
  let target ← FieldReference.route
  if ← atSymbol (.opening .paren) then
    match target with
    | .identifier id => return .call (.identifier id) (← routeArguments expression)
    | .path segments => return .call (.path segments) (← routeArguments expression)
    | .edge _ _ => return .reference target
  else return .reference target

def routeEnclosed (expression : Route Expr) : Delimiter → Route Expr
  | .paren => return .paren (← within .paren expression)
  | .bracket => return .array (← routeItems expression)
  | .brace => return .object (← routeEntries expression)

def routePrimary (expression : Route Expr) : Route Expr := do
  match ← kind 0 with
  | .number value => advance; return .literal (.number value)
  | .duration value => advance; return .literal (.duration value)
  | .string content => advance; return .literal (.string content)
  | .variable name => advance; return .variable name
  | .symbol (.opening delimiter) => routeEnclosed expression delimiter
  | .symbol (.arrow _) => routeReference expression
  | .identifier _ =>
    match ← kind 1 with
    | .symbol .doubleColon => routeNamespaceCall expression
    | _ => routeReference expression
  | _ => expected [.expression]

def operatorAhead? (least : Nat) : Route (Option (BinaryOp × Nat)) := do
  return BinaryOp.bound? least (← kind 0)

mutual

def routeRanked : (levels : Nat) → (least : Nat) → Route Expr
  | 0, _ => tooDeep
  | levels + 1, least => nested levels do
    let left ← routePrimary (routeRanked levels 0)
    routeOperators levels least left
termination_by structural levels => levels

def routeOperators : (levels : Nat) → (least : Nat) → (left : Expr) → Route Expr
  | 0, least, left => do
    match ← operatorAhead? least with
    | some _ => tooDeep
    | none => return left
  | levels + 1, least, left => do
    match ← operatorAhead? least with
    | some (op, power) => nested levels do
      advance
      let right ← routeRanked levels power
      routeOperators levels least (.binary left op right)
    | none => return left
termination_by structural levels => levels

end

end Expr

variable {cursor : Cursor}

theorem ObjectKey.route_traces : ObjectKey.route.Traces ObjectKey.parse := by
  intro cursor
  refine .ask (Parse.kind_run 0 cursor) ?_
  cases hkind : cursor.kind 0 with
  | string content => exact .advance (hkind ▸ Parse.isFlat_of_symbol? rfl) (.pure _ _)
  | _ =>
    refine .here ?_
    cases hname : cursor.name? 0 with
    | none => exact .expected _ cursor
    | some name =>
      exact .advance (Parse.isFlat_of_name? hname).1
        ((Route.nextName?_traces.repeated _).bind fun more later _ => .pure _ later)

namespace Expr

variable {route : Route Expr} {parser : Parse Expr} (h : route.Traces parser)
include h

theorem routeEntry_traces : (routeEntry route).Traces (parseEntry parser) := by
  intro cursor
  refine (ObjectKey.route_traces cursor).bind fun key mid _ => ?_
  refine (symbol_traces (Parse.isFlat_symbol (by simp) (by simp)) mid).bind fun _ mid _ => ?_
  exact (h mid).bind fun value later _ => .pure (key, value) later

theorem routeEntries_traces : (routeEntries route).Traces (parseEntries parser) := by
  intro cursor
  refine .ask (Parse.atSymbol_run _ cursor) ?_
  split
  · next hbrace =>
    exact .delimitedList (Parse.atSymbol_iff.mp hbrace) (routeEntry_traces h)
  · exact .expected _ cursor

theorem routeNamespaceCall_traces :
    (routeNamespaceCall route).Traces (parseNamespaceCall parser) := by
  intro cursor
  refine (identifier_traces cursor).bind fun space mid _ => ?_
  refine (symbol_traces (Parse.isFlat_symbol (by simp) (by simp)) mid).bind fun _ mid _ => ?_
  refine (identifier_traces mid).bind fun function mid _ => ?_
  have hargs : (Route.onlyIf (atSymbol (.opening .paren)) (routeArguments route)).Follows
      (Parse.onlyIf (Parse.atSymbol (.opening .paren)) (parseArguments parser)) mid := by
    refine .ask (Parse.atSymbol_run _ mid) ?_
    split
    · next hparen =>
      exact (Follows.delimitedList (Parse.atSymbol_iff.mp hparen) h).bind fun args later _ =>
        .pure (some args) later
    · exact .pure none mid
  refine hargs.bind fun args mid _ => .ask (Parse.atSymbol_run _ mid) ?_
  split
  · next hparen =>
    exact (Follows.delimitedList (Parse.atSymbol_iff.mp hparen) h).bind fun outer later _ =>
      .pure _ later
  · exact .pure _ mid

theorem routeReference_traces : (routeReference route).Traces (parseReference parser) := by
  intro cursor
  refine (FieldReference.route_traces cursor).bind fun target mid _ => ?_
  refine .ask (Parse.atSymbol_run _ mid) ?_
  split
  · next hparen =>
    have hargs := Follows.delimitedList (Parse.atSymbol_iff.mp hparen) h
    cases target with
    | identifier id => exact hargs.bind fun args later _ => .pure _ later
    | path segments => exact hargs.bind fun args later _ => .pure _ later
    | edge origin path => exact .pure _ mid
  · exact .pure _ mid

theorem routeEnclosed_follows {delimiter : Delimiter}
    (hkind : cursor.kind 0 = .symbol (.opening delimiter)) :
    (routeEnclosed route delimiter).Follows (parseEnclosed parser delimiter) cursor := by
  cases delimiter with
  | paren => exact (Follows.within hkind (h _)).bind fun e later _ => .pure _ later
  | bracket => exact (Follows.delimitedList hkind h).bind fun items later _ => .pure _ later
  | brace => exact (routeEntries_traces h cursor).bind fun entries later _ => .pure _ later

theorem routePrimary_traces : (routePrimary route).Traces (parsePrimary parser) := by
  intro cursor
  refine .ask (Parse.kind_run 0 cursor) ?_
  cases hkind : cursor.kind 0 with
  | number value => exact .advance (hkind ▸ Parse.isFlat_of_symbol? rfl) (.pure _ _)
  | duration value => exact .advance (hkind ▸ Parse.isFlat_of_symbol? rfl) (.pure _ _)
  | string content => exact .advance (hkind ▸ Parse.isFlat_of_symbol? rfl) (.pure _ _)
  | «variable» name => exact .advance (hkind ▸ Parse.isFlat_of_symbol? rfl) (.pure _ _)
  | symbol s =>
    cases s with
    | opening delimiter => exact routeEnclosed_follows h hkind
    | arrow direction => exact routeReference_traces h cursor
    | _ => exact .expected _ cursor
  | identifier name =>
    refine .ask (Parse.kind_run 1 cursor) ?_
    cases cursor.kind 1 with
    | symbol s =>
      cases s with
      | doubleColon => exact routeNamespaceCall_traces h cursor
      | _ => exact routeReference_traces h cursor
    | _ => exact routeReference_traces h cursor
  | _ => exact .expected _ cursor

end Expr

theorem Expr.operatorAhead?_traces (least : Nat) :
    (operatorAhead? least).Traces (operator? least) :=
  fun cursor => .ask (Parse.kind_run 0 cursor) (.pure _ cursor)

/-- If there is an operator, it is no delimiter. -/
theorem Route.Follows.operator {least : Nat} {next : Option (BinaryOp × Nat) → Route Expr}
    {next' : Option (BinaryOp × Nat) → Parse Expr}
    (hsome : ∀ bound, IsFlat (cursor.kind 0) →
      (next (some bound)).Follows (next' (some bound)) cursor)
    (hnone : (next none).Follows (next' none) cursor) :
    (Expr.operatorAhead? least >>= next).Follows (Expr.operator? least >>= next') cursor := by
  refine (Expr.operatorAhead?_traces least cursor).bind fun found mid hrun => ?_
  rcases Expr.operator_cases least cursor with hends | ⟨op, power, hop, hbound⟩
  · cases hends.symm.trans hrun
    exact hnone
  · cases hbound.symm.trans hrun
    exact hsome (op, power) (BinaryOp.isFlat_of_ofToken? hop).1

/-- The induction is on the levels, for both parsers at once. -/
theorem Expr.routes_trace (levels : Nat) :
    (∀ least, (routeRanked levels least).Traces (parseRanked levels least)) ∧
      ∀ least left,
        (routeOperators levels least left).Traces (parseOperators levels least left) := by
  induction levels with
  | zero =>
    refine ⟨fun least cursor => ?_, fun least left cursor => ?_⟩
    · rw [routeRanked, parseRanked]
      exact .tooDeep cursor
    · rw [routeOperators, parseOperators]
      exact .operator (fun bound _ => .tooDeep cursor) (.pure left cursor)
  | succ levels ih =>
    refine ⟨fun least cursor => ?_, fun least left cursor => ?_⟩
    · rw [routeRanked, parseRanked]
      exact .nested ((routePrimary_traces (ih.1 0) _).bind fun left mid _ => ih.2 least left mid)
    · rw [routeOperators, parseOperators]
      refine .operator (fun bound hflat => .nested ?_) (.pure left cursor)
      exact .advance hflat ((ih.1 _ _).bind fun right mid _ => ih.2 least _ mid)

end Expressions
end EdgeQuery
