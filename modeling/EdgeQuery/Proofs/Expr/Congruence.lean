import EdgeQuery.Proofs.Expr.Route
import EdgeQuery.Proofs.Parse.Congruence

/-!
Routes of references and of the parts of expressions side by side. Those of the parts are related
whenever the routes of whole expressions are that they are given.
-/

namespace EdgeQuery

open Cursor Route Congruence

namespace Cursor.SameAhead

variable {cursor other : Cursor}

theorem atChainDot_eq (h : cursor.SameAhead other) : cursor.atChainDot = other.atChainDot := by
  rw [atChainDot, atChainDot, h.atSymbol_eq, h.name?_eq]

theorem arrow?_eq (h : cursor.SameAhead other) : cursor.arrow? = other.arrow? := by
  rw [arrow?, arrow?, h.kind_eq]

end Cursor.SameAhead

section References

variable (like : Congruence)

theorem RecordKey.route?_alike : like.Rel RecordKey.route? RecordKey.route? := by
  refine like.here fun cursor cursor' h => ?_
  rw [h.atSymbol_eq, h.peek_eq]
  refine ite _ ?_ (like.done none)
  cases RecordKey.ofToken? (cursor'.peek 1) with
  | some key => exact behind (behind (like.done (some key)))
  | none => exact like.done none

theorem Route.nextName?_alike : like.Rel nextName? nextName? := by
  refine like.here fun cursor cursor' h => ?_
  rw [h.atChainDot_eq]
  exact ite _ (behind (wrap like.name some)) (like.done none)

theorem Identifier.routeKey_alike (name : String) : like.Rel (routeKey name) (routeKey name) := by
  refine like.bind (RecordKey.route?_alike like) fun key => ?_
  cases key with
  | some key => exact like.done _
  | none => exact like.done _

theorem Identifier.route_alike : like.Rel route route := by
  refine like.bind like.identifier fun name => like.bind (RecordKey.route?_alike like) fun key => ?_
  cases key with
  | some key => exact like.done _
  | none => exact wrap (repeated (nextName?_alike like)) (Identifier.ofNames name)

theorem Identifier.routeSegment?_alike : like.Rel routeSegment? routeSegment? := by
  refine like.bind (nextName?_alike like) fun name => ?_
  cases name with
  | some name => exact wrap (routeKey_alike like name) some
  | none => exact like.done none

theorem Identifier.routeNaming_alike : like.Rel routeNaming routeNaming :=
  onlyIf (like.eatKeyword .AS) (route_alike like)

theorem EdgePath.route_alike (direction : Direction) :
    like.Rel (route direction) (route direction) := by
  have hend := Identifier.route_alike like
  refine behind (like.bind hend fun first => ?_)
  refine like.bind (onlyIf (like.eatSymbol _) hend) fun second => ?_
  refine like.here fun cursor cursor' h => ?_
  rw [h.arrow?_eq]
  exact ite _ (like.fault _) (like.done _)

theorem FieldReference.routeChain_alike : like.Rel routeChain routeChain := by
  refine like.bind like.identifier fun name => ?_
  refine like.bind (Identifier.routeKey_alike like name) fun first => ?_
  refine like.bind (repeated (Identifier.routeSegment?_alike like)) fun more => ?_
  cases Identifier.ofSegments? first more with
  | none => exact like.done _
  | some origin =>
    refine like.here fun cursor cursor' h => ?_
    rw [h.arrow?_eq]
    cases cursor'.arrow? with
    | some direction => exact wrap (EdgePath.route_alike like direction) (edge (some origin))
    | none => exact like.done _

theorem FieldReference.route_alike : like.Rel route route := by
  refine like.bind (like.kind 0) fun kind => ?_
  split
  · next direction => exact wrap (EdgePath.route_alike like direction) (edge none)
  · exact routeChain_alike like
  · exact like.fault _

theorem ObjectKey.route_alike : like.Rel route route := by
  refine like.bind (like.kind 0) fun kind => ?_
  split
  · exact behind (like.done _)
  · refine like.here fun cursor cursor' h => ?_
    rw [h.name?_eq]
    cases cursor'.name? 0 with
    | none => exact like.fault _
    | some name => exact behind (wrap (repeated (nextName?_alike like)) _)

end References

namespace Expr

section Parts

variable {like : Congruence} {route route' : Route Expr} (h : like.Rel route route')
include h

theorem routeEntry_alike : like.Rel (routeEntry route) (routeEntry route') :=
  like.bind (ObjectKey.route_alike like) fun key => like.bind (like.symbol .colon) fun _ =>
    wrap h (key, ·)

theorem routeEntries_alike : like.Rel (routeEntries route) (routeEntries route') :=
  like.bind (like.atSymbol _) fun _ =>
    ite _ (delimitedList .brace (routeEntry_alike h)) (like.fault _)

theorem routeNamespaceCall_alike :
    like.Rel (routeNamespaceCall route) (routeNamespaceCall route') := by
  have hargs := delimitedList .paren h
  refine like.bind like.identifier fun space => like.bind (like.symbol .doubleColon) fun _ => ?_
  refine like.bind like.identifier fun function => ?_
  refine like.bind (onlyIf (like.atSymbol _) hargs) fun args => ?_
  exact like.bind (like.atSymbol _) fun _ => ite _ (wrap hargs _) (like.done _)

theorem routeReference_alike : like.Rel (routeReference route) (routeReference route') := by
  have hargs := delimitedList .paren h
  refine like.bind (FieldReference.route_alike like) fun target => ?_
  refine like.bind (like.atSymbol _) fun _ => ite _ ?_ (like.done _)
  cases target with
  | identifier id => exact wrap hargs (Expr.call (.identifier id))
  | path segments => exact wrap hargs (Expr.call (.path segments))
  | edge origin path => exact like.done _

theorem routeEnclosed_alike (delimiter : Delimiter) :
    like.Rel (routeEnclosed route delimiter) (routeEnclosed route' delimiter) := by
  cases delimiter with
  | paren => exact wrap (within .paren h) Expr.paren
  | bracket => exact wrap (delimitedList .bracket h) Expr.array
  | brace => exact wrap (routeEntries_alike h) Expr.object

theorem routePrimary_alike : like.Rel (routePrimary route) (routePrimary route') := by
  refine like.bind (like.kind 0) fun kind => ?_
  split
  · exact behind (like.done _)
  · exact behind (like.done _)
  · exact behind (like.done _)
  · exact behind (like.done _)
  · exact routeEnclosed_alike h _
  · exact routeReference_alike h
  · refine like.bind (like.kind 1) fun next => ?_
    split
    · exact routeNamespaceCall_alike h
    · exact routeReference_alike h
  · exact like.fault _

end Parts

theorem operatorAhead?_alike (like : Congruence) (least : Nat) :
    like.Rel (operatorAhead? least) (operatorAhead? least) :=
  like.bind (like.kind 0) fun _ => like.done _

end Expr
end EdgeQuery
