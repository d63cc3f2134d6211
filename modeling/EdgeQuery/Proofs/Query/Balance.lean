import Mathlib
import EdgeQuery.Proofs.Query.Route
import EdgeQuery.Proofs.Statement.Progress
import EdgeQuery.Proofs.Statement.Unrolled

/-!
What reading an expression or a statement does to the state that it begins in, whatever is open in
it and however many levels it is in. A parse that succeeds has changed nothing but the place. One
that fails has gone forward only, and closed and left only what it has opened and entered itself.
On the way there are never more levels than the limit.
-/

namespace EdgeQuery

open Cursor Route

section Places

variable {cursor later : Cursor} {tokens : List Token} {α : Type} {route : Route α}

/-- Only the place is another. -/
theorem Cursor.Skips.passes (h : cursor.Skips tokens later)
    (hlevels : later.levels = cursor.levels) (hopened : later.opened = cursor.opened) :
    cursor.Passes tokens later := by
  refine ⟨h.ahead_eq, ?_⟩
  have hcomments : cursor.comments = later.comments := h.comments_eq
  rw [Cursor.past, hcomments, ← h.size_eq, ← h.limit_eq, ← hlevels, ← hopened]
  exact congrArg (Cursor.mk later.ahead later.size · later.comments later.limit later.levels
    later.opened) h.behind_eq

/-- A route that looks at what is ahead only comes as far from cursors with the same ahead. -/
theorem Route.place_sameAhead {other : Cursor} (h : shortened.Rel route route)
    (hsame : cursor.SameAhead other) :
    (Parse.place (route.walk cursor)).SameAhead (Parse.place (route.walk other)) := by
  have hsuffix {left right : Cursor} (hsame : left.SameAhead right) :
      (Parse.place (route.walk right)).ahead <:+ (Parse.place (route.walk left)).ahead := by
    have hshort := h left right hsame
    generalize route.walk left = result at hshort ⊢
    generalize route.walk right = result' at hshort ⊢
    cases hshort with
    | ok hlater => exact hlater.ahead_eq ▸ List.suffix_refl _
    | fault hlater => exact hlater.ahead_eq ▸ List.suffix_refl _
    | tooDeep hlater => exact hlater
  refine ⟨?_, ?_⟩
  · have hforth := hsuffix hsame
    have hback := hsuffix hsame.symm
    exact (hback.eq_of_length (Nat.le_antisymm hback.length_le hforth.length_le))
  · rw [place_size, place_size, hsame.size_eq]

/-- Whatever is open beforehand is still open at the end. -/
theorem Route.Traces.opened_suffix {parser : Parse α} (h : route.Traces parser)
    (hsame : shortened.Rel route route) (cursor : Cursor) :
    cursor.opened <:+ (Parse.place (route.walk cursor)).opened := by
  let bare : Cursor := { cursor with opened := [] }
  have hbare : cursor.SameAhead bare := ⟨rfl, rfl⟩
  have hopened := tallies_outer ((h cursor).tallies _ (place_mem_visits route cursor))
    ((h bare).tallies _ (place_mem_visits route bare)) hbare (place_sameAhead hsame hbare) rfl
  exact ⟨_, hopened.symm⟩

end Places

/-- The parser whose steps the route takes leaves the state balanced. The state counts upward, so
its levels are those that it is in. -/
structure Route.Balanced {α : Type} (route : Route α) (parser : Parse α) (state : Cursor) :
    Prop where
  /-- Levels that are entered and left one by one come to the same as levels that are set. -/
  walk_eq : route.walk state = Parse.countedUp (parser state.countedUp)
  /-- The levels and the open delimiters are what they were, as are the comments; a token at least
  has been passed. -/
  ok : ∀ value later, route.walk state = .ok value later →
    ∃ tokens, tokens ≠ [] ∧ state.Passes tokens later
  error : ∀ error later, route.walk state = .error error later →
    (∃ tokens, state.Skips tokens later) ∧ state.opened <:+ later.opened ∧
      state.levels ≤ later.levels
  visits : ∀ visited ∈ route.visits state,
    (∃ tokens, state.Skips tokens visited) ∧ state.levels ≤ visited.levels ∧
      visited.levels ≤ visited.limit

theorem Cursor.countedUp_countedUp {cursor : Cursor} (h : cursor.levels ≤ cursor.limit) :
    cursor.countedUp.countedUp = cursor := by
  show { cursor with levels := cursor.limit - (cursor.limit - cursor.levels) } = cursor
  rw [Nat.sub_sub_self h]

/-- A parser is balanced if it goes back to the levels that it sets and passes a token. -/
theorem Route.Counts.balanced {α : Type} {unrolled route : Route α} {parser : Parse α}
    {state : Cursor} (hdepth : state.levels ≤ state.limit)
    (hcounts : unrolled.Counts route state.countedUp)
    (hfollows : route.Follows parser state.countedUp)
    (hadvances : route.Advances state.countedUp)
    (hsuffix : state.countedUp.opened <:+ (Parse.place (route.walk state.countedUp)).opened) :
    unrolled.Balanced parser state := by
  obtain ⟨hwalk, hrestores, hvisits⟩ := hcounts
  rw [countedUp_countedUp hdepth] at hwalk hvisits
  have hlevels : state.limit - (state.limit - state.levels) = state.levels :=
    Nat.sub_sub_self hdepth
  have hon : ∀ visited ∈ unrolled.visits state, (∃ tokens, state.Skips tokens visited) ∧
      state.levels ≤ visited.levels ∧ visited.levels ≤ visited.limit := by
    intro visited hmem
    obtain ⟨hlow, hhigh, hlimit⟩ := hvisits visited hmem
    exact ⟨visits_skips hmem, hlevels ▸ hlow, hlimit ▸ hhigh⟩
  refine ⟨hwalk.trans (congrArg _ hfollows.walk_eq), ?_, ?_, hon⟩
  · intro value later hrun
    obtain ⟨tokens, hskips⟩ := (hon later (last_mem_visits (.inl ⟨value, hrun⟩))).1
    cases hplain : route.walk state.countedUp with
    | error error mid =>
      rw [hplain] at hwalk
      cases hwalk.symm.trans hrun
    | ok value' mid =>
      rw [hplain] at hwalk
      cases hwalk.symm.trans hrun
      obtain ⟨hmid, hmidLimit⟩ := hrestores _ mid hplain
      have hopened := hfollows.opened_eq _ mid (hfollows.walk_eq.symm.trans hplain)
      have hcount : mid.limit - mid.levels = state.levels := by
        rw [hmid, hmidLimit]
        exact hlevels
      refine ⟨tokens, ?_, hskips.passes hcount hopened⟩
      rintro rfl
      have hlength := hadvances _ mid hplain
      exact absurd (congrArg List.length hskips.ahead_eq) (Nat.ne_of_gt hlength)
  · intro error later hrun
    obtain ⟨hskips, hlow, -⟩ := hon later (last_mem_visits (.inr ⟨error, hrun⟩))
    refine ⟨hskips, ?_, hlow⟩
    cases hplain : route.walk state.countedUp with
    | ok value mid =>
      rw [hplain] at hwalk
      cases hwalk.symm.trans hrun
    | error error' mid =>
      rw [hplain] at hwalk hsuffix
      cases hwalk.symm.trans hrun
      exact hsuffix

/-- Reads an opening delimiter, which stands here, and what is inside, up to and with the closing
delimiter. What is noted as open is forgotten only if it is what has been opened here. -/
def Parse.withinChecked {α : Type} (delimiter : Delimiter) (inner : Parse α) : Parse α := do
  let start := (← get).current.span
  modify fun cursor =>
    { cursor.advanced with opened := (delimiter, cursor.current.span) :: cursor.opened }
  let value ← inner
  symbol (.closing delimiter)
  modify fun cursor =>
    if cursor.opened.head?.any (·.2 = start) then { cursor with opened := cursor.opened.tail }
    else cursor
  return value

/-- The check never fails, since what is inside has closed what it has opened. -/
theorem Route.Traces.withinChecked_eq {α : Type} {route : Route α} {parser : Parse α}
    (h : route.Traces parser) (delimiter : Delimiter) :
    Parse.withinChecked delimiter parser = Parse.within delimiter parser := by
  funext cursor
  show (parser >>= fun value => Parse.symbol (.closing delimiter) >>= fun _ =>
    (modify fun mid : Cursor => if mid.opened.head?.any (·.2 = cursor.current.span) then
      { mid with opened := mid.opened.tail } else mid) >>= fun _ => (pure value : Parse α))
      (cursor.entered delimiter) = _
  rw [Parse.within, Parse.bind_of_ok (Parse.within_start delimiter cursor)]
  cases hrun : parser (cursor.entered delimiter) with
  | error error mid => rw [Parse.bind_of_error hrun, Parse.bind_of_error hrun]
  | ok value mid =>
    rw [Parse.bind_of_ok hrun, Parse.bind_of_ok hrun]
    by_cases hclosing : mid.kind 0 = .symbol (.closing delimiter)
    · have hopened : mid.advanced.opened = (delimiter, cursor.current.span) :: cursor.opened := by
        rw [advanced_opened]
        exact (h (cursor.entered delimiter)).opened_eq value mid hrun
      rw [Parse.bind_of_ok (Parse.symbol_ok hclosing), Parse.bind_of_ok (Parse.symbol_ok hclosing)]
      show EStateM.Result.ok value (if mid.advanced.opened.head?.any (·.2 = cursor.current.span)
        then { mid.advanced with opened := mid.advanced.opened.tail } else mid.advanced) = _
      rw [if_pos (by rw [hopened]; simp)]
      rfl
    · rw [Parse.bind_of_error (Parse.symbol_error hclosing),
        Parse.bind_of_error (Parse.symbol_error hclosing)]

/-- An expression and a statement are read with a balanced state, whatever state they begin in, and
a delimiter that is closed is always the one that has been opened. -/
theorem state_balanced (beyond : Beyond) {calls : Nat} {state : Cursor}
    (hdepth : state.levels ≤ state.limit) (hcalls : state.limit < state.levels + calls) :
    (Expr.routeUnrolled beyond.expression calls 0).Balanced Expr.parse state ∧
      (Statement.routeUnrolled beyond calls).Balanced Statement.parse state ∧
      ∀ {α : Type} {route : Route α} {parser : Parse α}, route.Traces parser →
        ∀ delimiter, Parse.withinChecked delimiter parser = Parse.within delimiter parser := by
  have hlevels : state.countedUp.levels < calls := by
    show state.limit - state.levels < calls
    omega
  have hle : state.countedUp.levels ≤ state.countedUp.limit := Nat.sub_le _ _
  refine ⟨?_, ?_, fun htraces => htraces.withinChecked_eq⟩
  · have hcounts := (Expr.unrolled_counts beyond.expression _ hle hlevels).1 0 _ rfl rfl
    refine hcounts.balanced hdepth (Expr.routeRanked_follows _)
      (Expr.routeRanked_advances _ 0 _) ?_
    exact ((Expr.routes_trace _).1 0).opened_suffix
      ((Expr.routes_shortened _ (Nat.le_refl _)).1 0) _
  · have hcounts := Statement.unrolled_counts beyond hle hlevels _ rfl rfl
    refine hcounts.balanced hdepth (Statement.routeAt_follows _) (Statement.routeAt_advances _ _) ?_
    exact (Statement.routeAt_traces _).opened_suffix
      (Statement.routeAt_shortened (Nat.le_refl _)) _

/-- Behind a bracket and one level deep, five levels are just enough for the sum. The second text
ends within both delimiters, four levels deeper. -/
theorem state_balanced_sum :
    let beyond : Beyond := ⟨fun _ => .fault [], .fault []⟩
    let behind (text : String) : Cursor :=
      { (Cursor.ofText text .strict 5).entered .bracket with levels := 1 }
    let route := Expr.routeUnrolled beyond.expression 5 0
    let sum := behind "[(1 + 2)]"
    let unclosed := behind "[(1 + "
    (∃ later, route.walk sum =
        .ok (.paren (.binary (.literal (.number 1)) .add (.literal (.number 2)))) later ∧
      later.levels = 1 ∧ later.opened = [(.bracket, ⟨0, 1⟩)]) ∧
    (∃ later, route.walk unclosed =
        .error (.unterminated (.delimited .paren) ⟨1, 2⟩) later ∧
      later.levels = 5 ∧ later.opened = [(.paren, ⟨1, 2⟩), (.bracket, ⟨0, 1⟩)]) ∧
    sum.levels ≤ sum.limit ∧ sum.limit < sum.levels + 5 ∧ route.Balanced Expr.parse sum ∧
      (Statement.routeUnrolled beyond 5).Balanced Statement.parse sum := by
  intro beyond behind route sum unclosed
  have hdepth : sum.levels ≤ sum.limit := by cbv
  have hcalls : sum.limit < sum.levels + 5 := by cbv
  have hbalanced := state_balanced beyond hdepth hcalls
  refine ⟨⟨_, by cbv, by cbv, by cbv⟩, ⟨_, by cbv, by cbv, by cbv⟩, hdepth, hcalls, hbalanced.1,
    hbalanced.2.1⟩

end EdgeQuery
