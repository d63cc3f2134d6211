import EdgeQuery.Proofs.Expr.Congruence
import EdgeQuery.Proofs.Statement.Route

/-!
Routes of clauses and statements side by side. They are related whenever the routes of expressions
and of subqueries are that they are given.
-/

namespace EdgeQuery

open Cursor Route Congruence

section Parts

variable (like : Congruence)

theorem OmitItem.route_alike : like.Rel route route := by
  refine like.bind (FieldReference.route_alike like) fun field => ?_
  refine like.bind (like.kind 0) fun first => like.bind (like.kind 1) fun second => ?_
  split
  · exact behind (wrap (within .brace (commaList like.identifier)) _)
  · exact like.done _

theorem OrderDirection.route?_alike : like.Rel route? route? :=
  like.bind (like.eatKeyword .ASC) fun _ => ite _ (like.done _) <|
    like.bind (like.eatKeyword .DESC) fun _ => ite _ (like.done _) (like.done _)

theorem OrderModifier.route?_alike : like.Rel route? route? := by
  have hdirection := OrderDirection.route?_alike like
  refine like.bind (like.kind 0) fun kind => ?_
  split
  · exact behind (wrap hdirection _)
  · exact behind (wrap hdirection _)
  · exact wrap hdirection _

theorem FetchItem.route_alike : like.Rel route route := by
  refine like.here fun cursor cursor' h => ?_
  rw [h.arrow?_eq]
  cases cursor'.arrow? with
  | none => exact wrap (Identifier.route_alike like) FetchItem.field
  | some direction =>
    exact like.bind (EdgePath.route_alike like direction) fun path =>
      wrap (Identifier.routeNaming_alike like) (FetchItem.edge path)

theorem IndexHint.route_alike : like.Rel route route :=
  like.bind (like.keyword .WITH) fun _ =>
    like.bind (like.eatKeyword .NOINDEX) fun _ => ite _ (like.done _) <|
      like.bind (like.eatKeyword .INDEX) fun _ =>
        ite _ (wrap (commaList (Identifier.route_alike like)) IndexHint.index) (like.fault _)

theorem Route.timeout?_alike : like.Rel timeout? timeout? :=
  Congruence.onlyIf (like.eatKeyword .TIMEOUT) like.duration

theorem Create.routeTarget_alike : like.Rel routeTarget routeTarget := by
  refine like.bind (like.kind 0) fun kind => ?_
  split
  · exact behind (like.done _)
  · exact Identifier.route_alike like
  · exact like.fault _

theorem Route.atSelectList_alike : like.Rel atSelectList atSelectList :=
  like.bind (like.atKeyword .FROM) fun _ => wrap (like.atKeyword .OMIT) _

end Parts

section Expressions

variable {like : Congruence} {route route' : Route Expr} (h : like.Rel route route')
include h

theorem OrderTarget.route_alike :
    like.Rel (OrderTarget.route route) (OrderTarget.route route') := by
  refine like.bind (like.kind 0) fun first => like.bind (like.kind 1) fun second => ?_
  split
  · exact behind (wrap (within .paren (like.done ())) _)
  · exact wrap h _

theorem OrderItem.route_alike : like.Rel (OrderItem.route route) (OrderItem.route route') :=
  like.bind (OrderTarget.route_alike h) fun _ => wrap (OrderModifier.route?_alike like) _

theorem Grouping.route_alike : like.Rel (Grouping.route route) (Grouping.route route') :=
  like.bind (like.eatKeyword .ALL) fun _ => ite _ (like.done _) (wrap (commaList h) _)

omit h in
theorem Clause.routeSkipping_alike {α : Type} {inner inner' : Route α} (filler : Keyword)
    (h : like.Rel inner inner') :
    like.Rel (routeSkipping filler inner) (routeSkipping filler inner') :=
  like.bind (like.eatKeyword filler) fun _ => h

theorem Clause.route?_alike : like.Rel (route? route) (route? route') := by
  refine like.bind (like.kind 0) fun kind => ?_
  split
  · exact behind (wrap h _)
  · exact behind (wrap (FieldReference.route_alike like) _)
  · exact behind (wrap (commaList (OmitItem.route_alike like)) _)
  · exact behind (wrap (routeSkipping_alike .BY (Grouping.route_alike h)) _)
  · exact behind (wrap (routeSkipping_alike .BY (commaList (OrderItem.route_alike h))) _)
  · exact behind (wrap (routeSkipping_alike .BY h) _)
  · exact behind (wrap (routeSkipping_alike .AT h) _)
  · exact behind (wrap (commaList (FetchItem.route_alike like)) _)
  · exact behind (wrap like.duration _)
  · exact behind (like.done _)
  · exact behind (like.done _)
  · exact behind (wrap (like.eatKeyword .FULL) _)
  · exact wrap (IndexHint.route_alike like) _
  · exact like.done none

theorem SelectItem.route_alike : like.Rel (SelectItem.route route) (SelectItem.route route') :=
  like.bind (like.eatSymbol .star) fun _ => ite _ (like.done _) <|
    like.bind h fun _ => like.bind (Identifier.routeNaming_alike like) fun _ =>
      ite _ (like.fault _) (like.done _)

theorem SelectList.route_alike : like.Rel (SelectList.route route) (SelectList.route route') := by
  have hitems := commaList (SelectItem.route_alike h)
  refine like.bind (like.kind 0) fun first => like.bind (like.kind 1) fun second => ?_
  split
  · exact wrap hitems _
  · exact behind (like.done _)
  · exact wrap hitems _

theorem Projection.route_alike : like.Rel (Projection.route route) (Projection.route route') := by
  refine like.bind (like.eatKeyword .VALUE) fun _ => ite _ ?_ ?_
  · exact like.bind h fun value => wrap (Identifier.routeNaming_alike like) _
  · exact like.bind (onlyIf (atSelectList_alike like) (SelectList.route_alike h)) fun list =>
      wrap (onlyIf (like.eatKeyword .OMIT) (commaList (OmitItem.route_alike like))) _

theorem Assignment.route_alike : like.Rel (Assignment.route route) (Assignment.route route') :=
  like.bind (FieldReference.route_alike like) fun _ => like.bind (like.symbol .equal) fun _ =>
    wrap h _

theorem Output.route?_alike : like.Rel (Output.route? route) (Output.route? route') := by
  refine onlyIf (like.eatKeyword .RETURN) (like.bind (like.kind 0) fun kind => ?_)
  split
  · exact behind (like.done _)
  · exact behind (like.done _)
  · exact behind (like.done _)
  · exact wrap (SelectList.route_alike h) _

theorem Create.routeData_alike : like.Rel (routeData route) (routeData route') := by
  have hset := commaList (Assignment.route_alike h)
  refine like.bind (like.kind 0) fun kind => ?_
  split
  · exact behind (wrap (Expr.routeEntries_alike h) _)
  · exact behind (wrap hset _)
  · exact behind (wrap hset _)
  · exact like.fault _

theorem Create.route_alike : like.Rel (Create.route route) (Create.route route') :=
  like.bind (like.keyword .CREATE) fun _ => like.bind (like.eatKeyword .ONLY) fun _ =>
    like.bind (commaList (routeTarget_alike like)) fun _ => like.bind (routeData_alike h) fun _ =>
      like.bind (Output.route?_alike h) fun _ => like.bind (timeout?_alike like) fun _ =>
        wrap (like.eatKeyword .PARALLEL) _

theorem Update.routePatch_alike : like.Rel (routePatch route) (routePatch route') :=
  like.bind (like.atSymbol _) fun _ => ite _ (delimitedList .bracket h) (like.fault _)

theorem Update.routeData?_alike : like.Rel (routeData? route) (routeData? route') := by
  have hentries := Expr.routeEntries_alike h
  have hset := commaList (Assignment.route_alike h)
  refine like.bind (like.kind 0) fun kind => ?_
  split
  · exact behind (wrap hentries _)
  · exact behind (wrap hentries _)
  · exact behind (wrap (routePatch_alike h) _)
  · exact behind (wrap hset _)
  · exact behind (wrap hset _)
  · exact like.done none

theorem Update.route_alike : like.Rel (Update.route route) (Update.route route') :=
  like.bind (like.keyword .UPDATE) fun _ => like.bind (like.eatKeyword .ONLY) fun _ =>
    like.bind (commaList h) fun _ => like.bind (routeData?_alike h) fun _ =>
      like.bind (onlyIf (like.eatKeyword .WHERE) h) fun _ =>
        like.bind (Output.route?_alike h) fun _ => like.bind (timeout?_alike like) fun _ =>
          wrap (like.eatKeyword .PARALLEL) _

variable {subroute subroute' : Route Select} (hsub : like.Rel subroute subroute')
include hsub

theorem SourceTable.route_alike :
    like.Rel (SourceTable.route route subroute) (SourceTable.route route' subroute') := by
  refine like.bind (like.kind 0) fun kind => ?_
  split
  · refine within .paren (like.bind (like.atKeyword .SELECT) fun _ => ?_)
    exact ite _ (wrap hsub _) (like.fault _)
  · exact wrap (delimitedList .bracket h) _
  · exact wrap (FieldReference.route_alike like) _
  · exact wrap (FieldReference.route_alike like) _
  · exact like.fault _

theorem Source.route_alike :
    like.Rel (Source.route route subroute) (Source.route route' subroute') :=
  like.bind (like.keyword .FROM) fun _ => like.bind (like.eatKeyword .ONLY) fun _ =>
    like.bind (commaList (SourceTable.route_alike h hsub)) fun _ =>
      wrap (onlyIf (like.atKeyword .WITH) (IndexHint.route_alike like)) _

theorem Select.routeWith_alike :
    like.Rel (routeWith route subroute) (routeWith route' subroute') :=
  like.bind (like.keyword .SELECT) fun _ => like.bind (Projection.route_alike h) fun _ =>
    like.bind (Source.route_alike h hsub) fun _ => wrap (repeated (Clause.route?_alike h)) _

end Expressions

theorem Statement.routeAt_alike {like : Congruence} {levels levels' : Nat}
    (hexpression : like.Rel (Expr.routeRanked levels 0) (Expr.routeRanked levels' 0))
    (hselect : like.Rel (Select.route levels) (Select.route levels')) :
    like.Rel (routeAt levels) (routeAt levels') := by
  refine like.bind (like.kind 0) fun kind => ?_
  split
  · exact Congruence.wrap hselect _
  · exact Congruence.wrap (Create.route_alike hexpression) _
  · exact Congruence.wrap (Update.route_alike hexpression) _
  · exact Congruence.wrap hexpression _

end EdgeQuery
