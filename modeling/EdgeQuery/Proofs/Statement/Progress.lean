import EdgeQuery.Proofs.Statement.Depth

/-!
What a parser leaves behind. On every way, tokens are passed and nothing else is lost; and whatever
is read as an expression or a statement has a token at least. Nothing is asked of the tokens.
-/

namespace EdgeQuery

open Cursor Route

/-- The later cursor has left a token behind, and maybe more of them and some comments. -/
def Cursor.Consumes (cursor later : Cursor) : Prop :=
  ∃ tokens comments, tokens ≠ [] ∧ cursor.Leaves tokens comments later

section Places

variable {cursor mid later : Cursor} {tokens : List Token} {comments : List Comment}

theorem Cursor.Consumes.length_lt (h : cursor.Consumes later) :
    later.ahead.length < cursor.ahead.length := by
  obtain ⟨tokens, comments, hne, hleaves⟩ := h
  have hpos := List.length_pos_iff.mpr hne
  rw [hleaves.ahead_eq, List.length_append]
  omega

theorem Cursor.Leaves.consumes (h : cursor.Leaves tokens comments later)
    (hlength : later.ahead.length < cursor.ahead.length) : cursor.Consumes later := by
  refine ⟨tokens, comments, ?_, h⟩
  rintro rfl
  exact absurd (congrArg List.length h.ahead_eq) (Nat.ne_of_gt hlength)

theorem Move.apply_skips (move : Move) (cursor : Cursor) :
    ∃ tokens, cursor.Skips tokens (move.apply cursor) := by
  obtain ⟨tokens, hskips⟩ := SourceFile.advanced_skips cursor
  cases move with
  | level levels => exact ⟨[], ⟨rfl, rfl, rfl, rfl⟩, rfl⟩
  | _ =>
    exact ⟨tokens, ⟨hskips.ahead_eq, hskips.comments_eq, hskips.limit_eq, hskips.size_eq⟩,
      hskips.behind_eq⟩

/-- On the way, tokens are left behind and nothing else. The induction is on the steps. -/
theorem Route.visits_skips {α : Type} {route : Route α} (h : later ∈ route.visits cursor) :
    ∃ tokens, cursor.Skips tokens later := by
  induction route generalizing cursor with
  | look next ih => exact ih cursor h
  | step move next ih =>
    rcases List.mem_cons.mp h with rfl | h
    · exact ⟨[], .refl _⟩
    · obtain ⟨front, hfront⟩ := move.apply_skips cursor
      obtain ⟨back, hback⟩ := ih h
      exact ⟨front ++ back, hfront.trans hback⟩
  | _ =>
    rw [List.mem_singleton.mp h]
    exact ⟨[], .refl cursor⟩

theorem Route.Advances.consumes {α : Type} {route : Route α} (h : route.Advances cursor)
    {value : α} (hrun : route.walk cursor = .ok value later) : cursor.Consumes later := by
  obtain ⟨tokens, hskips⟩ := visits_skips (last_mem_visits (.inl ⟨value, hrun⟩))
  exact hskips.toLeaves.consumes (h value later hrun)

end Places

section Statements

variable {cursor later : Cursor}

theorem Expr.routeRanked_advances (levels least : Nat) (cursor : Cursor) :
    (routeRanked levels least).Advances cursor := by
  cases levels with
  | zero => exact nofun
  | succ levels =>
    rw [routeRanked]
    exact (Opens.nested ((routePrimary_opens (deep_zero _)).bind fun _ => deep_zero _)).advances

theorem Select.route_advances (levels : Nat) (cursor : Cursor) :
    (Select.route levels).Advances cursor := by
  cases levels <;> exact (keyword_advances .SELECT cursor).bind _

theorem Statement.routeAt_advances (levels : Nat) (cursor : Cursor) :
    (routeAt levels).Advances cursor := by
  have hvalue := (Expr.routeRanked_advances levels 0 cursor).bind fun e => pure (value e)
  refine .ask ?_
  split
  · exact (Select.route_advances levels cursor).bind _
  · exact ((keyword_advances .CREATE cursor).bind _).bind _
  · exact ((keyword_advances .UPDATE cursor).bind _).bind _
  · exact hvalue

/-- The walk of a statement that stands by itself, from where all levels are free. -/
theorem Statement.routeTerminated_walk (cursor : Cursor) :
    (routeTerminated cursor.limit).walk (start cursor) = parseTerminated cursor := by
  rw [parseTerminated_run]
  exact (routeTerminated_follows cursor).walk_eq

theorem Statement.parseTerminated_consumes {statement : Statement}
    (h : parseTerminated cursor = .ok statement later) : cursor.Consumes later := by
  have hadvances := (routeAt_advances cursor.limit (start cursor)).bind fun statement =>
    eatSymbol .semicolon >>= fun _ => pure statement
  obtain ⟨tokens, comments, hne, hleaves⟩ :=
    Advances.consumes hadvances ((routeTerminated_walk cursor).trans h)
  exact ⟨tokens, comments, hne, hleaves.ahead_eq, hleaves.comments_eq, hleaves.limit_eq,
    hleaves.size_eq⟩

theorem Statement.parseTerminated_error_skips {error : SyntaxError}
    (h : parseTerminated cursor = .error error later) : ∃ tokens, cursor.Skips tokens later := by
  obtain ⟨tokens, hskips⟩ :=
    visits_skips (last_mem_visits (.inr ⟨error, (routeTerminated_walk cursor).trans h⟩))
  exact ⟨tokens, Skips.of_start hskips⟩

end Statements
end EdgeQuery
