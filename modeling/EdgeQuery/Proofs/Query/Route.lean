import EdgeQuery.Proofs.Statement.Route

/-!
The steps of reading an expression or a statement that is all there is, and of reading one where the
cursor stands, with the nesting levels that it has left.
-/

namespace EdgeQuery

open Cursor Route

def Route.endOfInput : Route Unit := do
  if ← ask (·.atEnd) then return else expected [.endOfInput]

def Expr.routeSingle (levels : Nat) : Route Expr := do
  let e ← routeRanked levels 0
  endOfInput
  return e

def Statement.routeSingle (levels : Nat) : Route Statement := do
  let statement ← routeTerminated levels
  endOfInput
  return statement

variable {cursor : Cursor}

theorem Route.endOfInput_traces : endOfInput.Traces Parse.endOfInput := by
  intro cursor
  have hlook : (MonadState.get >>= fun cursor => pure cursor.atEnd : Parse Bool) cursor =
    .ok cursor.atEnd cursor := rfl
  have hend : (Route.ask (·.atEnd) >>= fun found =>
      if found then pure () else expected [.endOfInput]).Follows
      ((MonadState.get >>= fun cursor => pure cursor.atEnd : Parse Bool) >>= fun found =>
        if found then pure () else Parse.expected [.endOfInput]) cursor := by
    refine .ask hlook ?_
    split
    · exact .pure () cursor
    · exact .expected _ cursor
  exact ⟨hend.walk_eq, hend.tallies, hend.opened_eq⟩

theorem Expr.routeRanked_follows (cursor : Cursor) :
    (routeRanked cursor.levels 0).Follows Expr.parse cursor := by
  have hfollows := (routes_trace cursor.levels).1 0 cursor
  exact ⟨hfollows.walk_eq, hfollows.tallies, hfollows.opened_eq⟩

theorem Expr.routeSingle_follows (cursor : Cursor) :
    (routeSingle cursor.levels).Follows Expr.parseSingle cursor :=
  (routeRanked_follows cursor).bind fun e mid _ =>
    (endOfInput_traces mid).bind fun _ later _ => .pure e later

theorem Statement.routeAt_follows (cursor : Cursor) :
    (routeAt cursor.levels).Follows Statement.parse cursor := by
  have hfollows := routeAt_traces cursor.levels cursor
  exact ⟨hfollows.walk_eq, hfollows.tallies, hfollows.opened_eq⟩

/-- Whatever is left over from an earlier statement is forgotten first. -/
theorem Statement.routeSingle_follows (cursor : Cursor) :
    (routeSingle cursor.limit).Follows
      ((parseAt cursor.limit >>= fun statement => Parse.eatSymbol .semicolon >>= fun _ =>
        pure statement) >>= fun statement => Parse.endOfInput >>= fun _ => pure statement)
      (start cursor) :=
  (routeTerminated_follows cursor).bind fun statement mid _ =>
    (endOfInput_traces mid).bind fun _ later _ => .pure statement later

end EdgeQuery
