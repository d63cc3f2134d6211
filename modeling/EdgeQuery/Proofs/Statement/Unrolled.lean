import EdgeQuery.Proofs.Statement.Depth

/-!
Parsers that enter the nesting levels one by one and leave them one by one. Such a parser counts the
levels that it is in, and its recursion is on nothing: it is unrolled for some calls, with anything
at all beyond them. If there are more calls than levels left, what is beyond is never reached, and
the parser takes the steps of the one whose recursion is on the levels that are left.
-/

namespace EdgeQuery

open Cursor Route

namespace Cursor

/-- The cursor that counts upward: where others have the number of levels left, it has the number of
levels that it is in. -/
def countedUp (cursor : Cursor) : Cursor :=
  { cursor with levels := cursor.limit - cursor.levels }

theorem countedUp_sameAhead (cursor : Cursor) : cursor.countedUp.SameAhead cursor :=
  ⟨rfl, rfl⟩

theorem countedUp_levels (cursor : Cursor) :
    cursor.limit - cursor.levels ≤ cursor.countedUp.levels ∧
      cursor.countedUp.levels ≤ cursor.limit ∧ cursor.countedUp.limit = cursor.limit :=
  ⟨Nat.le_refl _, Nat.sub_le _ _, rfl⟩

theorem advanced_countedUp (cursor : Cursor) :
    cursor.countedUp.advanced = cursor.advanced.countedUp ∧
      cursor.advanced.levels = cursor.levels ∧ cursor.advanced.limit = cursor.limit := by
  cases hahead : cursor.ahead with
  | nil =>
    have hcounted : cursor.countedUp.advanced = cursor.countedUp := by
      rw [advanced, show cursor.countedUp.ahead = [] from hahead]
    have hstays : cursor.advanced = cursor := by rw [advanced, hahead]
    rw [hcounted, hstays]
    exact ⟨rfl, rfl, rfl⟩
  | cons token rest =>
    rw [advanced_of_ahead hahead, advanced_of_ahead (show cursor.countedUp.ahead = _ from hahead)]
    exact ⟨rfl, rfl, rfl⟩

end Cursor

/-- The result with the levels counted upward. -/
def Parse.countedUp {α : Type} :
    EStateM.Result SyntaxError Cursor α → EStateM.Result SyntaxError Cursor α
  | .ok value later => .ok value later.countedUp
  | .error error later => .error error later.countedUp

namespace Route

variable {α β γ : Type}

theorem bind_done (route : Route α) : route.bind done = route := by
  induction route with
  | look next ih => exact congrArg look (funext ih)
  | step move next ih => exact congrArg (step move) ih
  | _ => rfl

theorem bind_bind (route : Route α) (next : α → Route β) (more : β → Route γ) :
    (route.bind next).bind more = route.bind fun value => (next value).bind more := by
  induction route with
  | look next ih => exact congrArg look (funext ih)
  | step move next ih => exact congrArg (step move) ih
  | _ => rfl

instance : LawfulMonad Route :=
  .mk' Route bind_done (fun _ _ => rfl) bind_bind

/-- Enters a level, unless the cursor is in as many as there are. -/
def enterLevel : Route Unit :=
  look fun cursor =>
    if cursor.limit ≤ cursor.levels then tooDeep else take (.level (cursor.levels + 1))

/-- Leaves a level, if the cursor is in any. -/
def leaveLevel : Route Unit :=
  look fun cursor => take (.level (cursor.levels - 1))

def leaveLevels : Nat → Route Unit
  | 0 => return
  | n + 1 => do
    leaveLevels n
    leaveLevel

/-- A part that is a level deeper. -/
def inLevel (inner : Route α) : Route α := do
  enterLevel
  let value ← inner
  leaveLevel
  return value

end Route

namespace Expr

/-- The operator that stands here, with its right operand, if it binds with at least the given
power. The level that it takes is not left. -/
def routeOperation? (operand : Nat → Route Expr) (least : Nat) :
    Route (Option (BinaryOp × Expr)) := do
  match ← operatorAhead? least with
  | some (op, power) =>
    enterLevel
    advance
    return some (op, ← operand power)
  | none => return none

/-- One call. The levels of all the operators are left at its end. -/
def routeCall (call : Nat → Route Expr) (least : Nat) : Route Expr := do
  enterLevel
  let left ← routePrimary (call 0)
  let operations ← repeated (routeOperation? call least)
  leaveLevels (operations.length + 1)
  return ofChain left operations

/-- The recursion unrolled for so many calls, with anything beyond them. -/
def routeUnrolled (beyond : Nat → Route Expr) : (calls : Nat) → (least : Nat) → Route Expr
  | 0 => beyond
  | calls + 1 => routeCall (routeUnrolled beyond calls)

end Expr

/-- What stands beyond the calls. -/
structure Route.Beyond where
  expression : Nat → Route Expr
  query : Route Select

def Select.routeUnrolled (beyond : Beyond) : (calls : Nat) → Route Select
  | 0 => beyond.query
  | calls + 1 => routeWith (Expr.routeUnrolled beyond.expression (calls + 1) 0)
      (inLevel (routeUnrolled beyond calls))

def Statement.routeUnrolled (beyond : Beyond) (calls : Nat) : Route Statement := do
  let expression := Expr.routeUnrolled beyond.expression calls 0
  match ← Route.kind 0 with
  | .keyword .SELECT => return .select (← Select.routeUnrolled beyond calls)
  | .keyword .CREATE => return .create (← Create.route expression)
  | .keyword .UPDATE => return .update (← Update.route expression)
  | _ => return .value (← expression)

namespace Route

/-- The first route, which counts upward, comes to what the second one comes to. On the way it is in
no fewer levels than at the beginning and in no more than there are. -/
structure Counts {α : Type} (unrolled route : Route α) (cursor : Cursor) : Prop where
  walk_eq : unrolled.walk cursor.countedUp = Parse.countedUp (route.walk cursor)
  restores : ∀ value later, route.walk cursor = .ok value later →
    later.levels = cursor.levels ∧ later.limit = cursor.limit
  visits : ∀ visited ∈ unrolled.visits cursor.countedUp,
    cursor.limit - cursor.levels ≤ visited.levels ∧ visited.levels ≤ cursor.limit ∧
      visited.limit = cursor.limit

section Rules

variable {α β : Type} {unrolled route : Route α} {next next' : α → Route β} {cursor : Cursor}

theorem Counts.of_done (value : α) : (done value).Counts (done value) cursor where
  walk_eq := rfl
  restores := by
    rintro _ _ ⟨⟩
    exact ⟨rfl, rfl⟩
  visits := by
    intro visited hmem
    rw [List.mem_singleton.mp hmem]
    exact countedUp_levels cursor

theorem Counts.of_fault (choices : List Expectation) :
    (fault choices : Route α).Counts (fault choices) cursor where
  walk_eq := rfl
  restores := nofun
  visits := by
    intro visited hmem
    rw [List.mem_singleton.mp hmem]
    exact countedUp_levels cursor

theorem Counts.exists_walk {value : α} {mid : Cursor} (h : unrolled.Counts route cursor)
    (hrun : unrolled.walk cursor.countedUp = .ok value mid) :
    ∃ mid', route.walk cursor = .ok value mid' ∧ mid = mid'.countedUp := by
  rw [h.walk_eq] at hrun
  cases hroute : route.walk cursor with
  | ok value' mid' =>
    rw [hroute] at hrun
    cases hrun
    exact ⟨mid', rfl, rfl⟩
  | error error mid' =>
    rw [hroute] at hrun
    cases hrun

theorem Counts.bind (h : unrolled.Counts route cursor)
    (hnext : ∀ value mid, route.walk cursor = .ok value mid →
      mid.levels = cursor.levels → mid.limit = cursor.limit →
      (next value).Counts (next' value) mid) :
    (unrolled >>= next).Counts (route >>= next') cursor where
  walk_eq := by
    rw [walk_bind, walk_bind]
    have hwalk := h.walk_eq
    cases hrun : route.walk cursor with
    | ok value mid =>
      rw [hrun] at hwalk
      obtain ⟨hlevels, hlimit⟩ := h.restores value mid hrun
      rw [Parse.bind_of_ok hwalk, Parse.bind_of_ok hrun]
      exact (hnext value mid hrun hlevels hlimit).walk_eq
    | error error mid =>
      rw [hrun] at hwalk
      rw [Parse.bind_of_error hwalk, Parse.bind_of_error hrun]
      rfl
  restores := by
    intro result later hrun
    rw [walk_bind] at hrun
    obtain ⟨value, mid, hfirst, hmore⟩ := Parse.bind_ok hrun
    obtain ⟨hlevels, hlimit⟩ := h.restores value mid hfirst
    obtain ⟨hlevels', hlimit'⟩ :=
      (hnext value mid hfirst hlevels hlimit).restores result later hmore
    exact ⟨hlevels'.trans hlevels, hlimit'.trans hlimit⟩
  visits := by
    intro visited hmem
    rcases visits_bind hmem with hmem | ⟨value, mid, hwalk, hmem⟩
    · exact h.visits visited hmem
    · obtain ⟨mid', hrun, rfl⟩ := h.exists_walk hwalk
      obtain ⟨hlevels, hlimit⟩ := h.restores value mid' hrun
      have hvisited := (hnext value mid' hrun hlevels hlimit).visits visited hmem
      rwa [hlevels, hlimit] at hvisited

/-- A move that leaves the levels as they are. -/
theorem Counts.of_take {move : Move}
    (hcounted : move.apply cursor.countedUp = (move.apply cursor).countedUp)
    (hlevels : (move.apply cursor).levels = cursor.levels)
    (hlimit : (move.apply cursor).limit = cursor.limit) :
    (take move).Counts (take move) cursor where
  walk_eq := congrArg (EStateM.Result.ok ()) hcounted
  restores := by
    rintro _ _ ⟨⟩
    exact ⟨hlevels, hlimit⟩
  visits := by
    intro visited hmem
    rcases List.mem_cons.mp hmem with rfl | hmem
    · exact countedUp_levels cursor
    · rw [List.mem_singleton.mp hmem, hcounted]
      have hbounds := countedUp_levels (move.apply cursor)
      rwa [hlevels, hlimit] at hbounds

/-- Where there are no more levels, none is entered. -/
theorem Counts.tooDeep (h : cursor.levels = 0) :
    (enterLevel >>= fun _ => unrolled).Counts Route.tooDeep cursor := by
  have hroute : (if cursor.countedUp.limit ≤ cursor.countedUp.levels then Route.tooDeep
      else take (.level (cursor.countedUp.levels + 1)) : Route Unit) = .tooDeep := by
    refine if_pos ?_
    show cursor.limit ≤ cursor.limit - cursor.levels
    omega
  refine ⟨?_, nofun, fun visited hmem => ?_⟩
  · show ((if _ then _ else _ : Route Unit).bind fun _ => unrolled).walk cursor.countedUp = _
    rw [hroute]
    rfl
  · change visited ∈ ((if _ then _ else _ : Route Unit).bind fun _ => unrolled).visits
      cursor.countedUp at hmem
    rw [hroute] at hmem
    rw [List.mem_singleton.mp hmem]
    exact countedUp_levels cursor

section Level

variable {levels : Nat} (hlevels : cursor.levels = levels + 1)
  (hlimit : cursor.levels ≤ cursor.limit)
include hlevels hlimit

theorem enterLevel_enters :
    (enterLevel >>= fun _ => unrolled).walk cursor.countedUp =
        unrolled.walk { cursor with levels := levels }.countedUp ∧
      (enterLevel >>= fun _ => unrolled).visits cursor.countedUp =
        cursor.countedUp :: unrolled.visits { cursor with levels := levels }.countedUp := by
  have hcount : cursor.limit - cursor.levels + 1 = cursor.limit - levels := by omega
  have hroute : (if cursor.countedUp.limit ≤ cursor.countedUp.levels then Route.tooDeep
      else take (.level (cursor.countedUp.levels + 1)) : Route Unit) =
      take (.level (cursor.limit - levels)) := by
    rw [if_neg, show cursor.countedUp.levels + 1 = cursor.limit - levels from hcount]
    show ¬ cursor.limit ≤ cursor.limit - cursor.levels
    omega
  constructor
  · show ((if _ then _ else _ : Route Unit).bind fun _ => unrolled).walk cursor.countedUp = _
    rw [hroute]
    rfl
  · show ((if _ then _ else _ : Route Unit).bind fun _ => unrolled).visits cursor.countedUp = _
    rw [hroute]
    rfl

/-- A part that enters a level and leaves it again counts what a part does that sets the levels. -/
theorem Counts.inLevel (h : unrolled.Counts route { cursor with levels := levels }) :
    (Route.inLevel unrolled).Counts (nested levels route) cursor where
  walk_eq := by
    show (enterLevel >>= fun _ => unrolled >>= fun value => leaveLevel >>= fun _ =>
      (pure value : Route α)).walk cursor.countedUp = Parse.countedUp ((route >>= fun value =>
        take (.level (levels + 1)) >>= fun _ => (pure value : Route α)).walk
          { cursor with levels := levels })
    rw [(enterLevel_enters hlevels hlimit).1, walk_bind, walk_bind]
    have hwalk := h.walk_eq
    cases hrun : route.walk { cursor with levels := levels } with
    | ok value mid =>
      rw [hrun] at hwalk
      rw [Parse.bind_of_ok hwalk, Parse.bind_of_ok hrun]
      have hmid : mid.levels = levels := (h.restores value mid hrun).1
      show EStateM.Result.ok value { mid with levels := mid.limit - mid.levels - 1 } =
        .ok value { mid with levels := mid.limit - (levels + 1) }
      rw [hmid, Nat.sub_sub]
    | error error mid =>
      rw [hrun] at hwalk
      rw [Parse.bind_of_error hwalk, Parse.bind_of_error hrun]
      rfl
  restores := by
    intro value later hrun
    change (route >>= fun value => take (.level (levels + 1)) >>= fun _ =>
      (pure value : Route α)).walk { cursor with levels := levels } = _ at hrun
    rw [walk_bind] at hrun
    obtain ⟨value', mid, hfirst, hmore⟩ := Parse.bind_ok hrun
    cases hmore
    exact ⟨hlevels.symm, (h.restores _ mid hfirst).2⟩
  visits := by
    intro visited hmem
    change visited ∈ (enterLevel >>= fun _ => unrolled >>= fun value => leaveLevel >>= fun _ =>
      (pure value : Route α)).visits cursor.countedUp at hmem
    rw [(enterLevel_enters hlevels hlimit).2] at hmem
    have hbounds {later : Cursor} (hlater : cursor.limit - levels ≤ later.levels ∧
        later.levels ≤ cursor.limit ∧ later.limit = cursor.limit) :
        cursor.limit - cursor.levels ≤ later.levels ∧ later.levels ≤ cursor.limit ∧
          later.limit = cursor.limit := ⟨by omega, hlater.2⟩
    rcases List.mem_cons.mp hmem with rfl | hmem
    · exact countedUp_levels cursor
    rcases visits_bind hmem with hmem | ⟨value, mid, hwalk, hmem⟩
    · exact hbounds (h.visits visited hmem)
    obtain ⟨mid', hrun, rfl⟩ := h.exists_walk hwalk
    obtain ⟨hmid, hmidLimit⟩ := h.restores value mid' hrun
    have hmid : mid'.levels = levels := hmid
    have hmidLimit : mid'.limit = cursor.limit := hmidLimit
    rcases List.mem_cons.mp hmem with rfl | hmem
    · have hcounted := countedUp_levels mid'
      rw [hmid, hmidLimit] at hcounted
      exact hbounds hcounted
    · rw [List.mem_singleton.mp hmem]
      show cursor.limit - cursor.levels ≤ mid'.limit - mid'.levels - 1 ∧
        mid'.limit - mid'.levels - 1 ≤ cursor.limit ∧ mid'.limit = cursor.limit
      omega

end Level

/-- What is put together from routes that count what the others set, where `levels` are left. -/
def counting (levels limit : Nat) : Congruence where
  Rel unrolled route := ∀ cursor : Cursor, cursor.levels = levels → cursor.limit = limit →
    unrolled.Counts route cursor
  done value _ _ _ := .of_done value
  fault choices _ _ _ := .of_fault choices
  look hnext cursor hlevels hlimit :=
    have h := hnext cursor.countedUp cursor cursor.countedUp_sameAhead cursor hlevels hlimit
    ⟨h.walk_eq, h.restores, h.visits⟩
  bind h hnext cursor hlevels hlimit :=
    (h cursor hlevels hlimit).bind fun value mid _ hmid hmidLimit =>
      hnext value mid (hmid.trans hlevels) (hmidLimit.trans hlimit)
  advance cursor _ _ :=
    have h := cursor.advanced_countedUp
    .of_take h.1 h.2.1 h.2.2
  enter delimiter cursor _ _ :=
    have h := cursor.advanced_countedUp
    .of_take (by simp only [Move.apply, Cursor.entered, h.1]; rfl) h.2.1 h.2.2
  leave cursor _ _ :=
    have h := cursor.advanced_countedUp
    .of_take (by simp only [Move.apply, h.1]; rfl) h.2.1 h.2.2

end Rules
end Route

namespace Expr

/-- The operators that follow an operand, at most as many as there are rounds, and then as many
levels left as have been entered for them. -/
def routeOperations (call : Nat → Route Expr) (least rounds : Nat) (left : Expr) : Route Expr := do
  let operations ← repeatUpTo (routeOperation? call least) rounds
  leaveLevels operations.length
  return ofChain left operations

variable {call : Nat → Route Expr} {least rounds : Nat} {left : Expr}

theorem routeCall_eq : routeCall call least = inLevel (do
    let left ← routePrimary (call 0)
    let cursor ← here
    routeOperations call least cursor.ahead.length left) := by
  simp only [routeCall, inLevel, routeOperations, Route.repeated, leaveLevels, bind_assoc,
    pure_bind]

theorem routeOperations_succ : routeOperations call least (rounds + 1) left = (do
    match ← operatorAhead? least with
    | some (op, power) => inLevel do
      advance
      let right ← call power
      routeOperations call least rounds (.binary left op right)
    | none => return left) := by
  simp only [routeOperations, routeOperation?, Route.repeatUpTo, bind_assoc]
  congr 1
  funext found
  cases found with
  | none => rfl
  | some bound =>
    simp only [inLevel, leaveLevels, bind_assoc, pure_bind, List.length_cons]
    rfl

section Operators

variable {levels limit : Nat} {cursor : Cursor}

theorem operators_count_end (hend : cursor.ahead = []) :
    (routeOperations call least 0 left).Counts (routeOperators levels least left) cursor := by
  have hkind : cursor.kind 0 = .endOfInput := by
    rw [Cursor.kind, peek, hend]
    rfl
  have hnone : (operatorAhead? least).walk cursor = .ok none cursor := by
    rw [(operatorAhead?_traces least cursor).walk_eq, operator?_run, hkind]
    rfl
  have hwalk : (routeOperators levels least left).walk cursor = .ok left cursor := by
    cases levels <;> rw [routeOperators, walk_bind, Parse.bind_of_ok hnone] <;> rfl
  refine ⟨?_, fun value later hrun => ?_, (Counts.of_done left).visits⟩
  · rw [hwalk]
    rfl
  · cases hwalk.symm.trans hrun
    exact ⟨rfl, rfl⟩

theorem operator_counts {next next' : Option (BinaryOp × Nat) → Route Expr}
    (hsome : ∀ bound, cursor.ahead ≠ [] → (next (some bound)).Counts (next' (some bound)) cursor)
    (hnone : (next none).Counts (next' none) cursor) :
    (operatorAhead? least >>= next).Counts (operatorAhead? least >>= next') cursor := by
  have hahead := (operatorAhead?_traces least cursor).walk_eq
  refine (operatorAhead?_alike (counting _ _) least cursor rfl rfl).bind
    fun found mid hrun _ _ => ?_
  rcases operator_cases least cursor with hends | ⟨op, power, hop, hbound⟩
  · cases (hahead.trans hends).symm.trans hrun
    exact hnone
  · cases (hahead.trans hbound).symm.trans hrun
    exact hsome (op, power) (ahead_ne_nil (BinaryOp.isFlat_of_ofToken? hop).2)

/-- The loop over the operators, with as many rounds as there are tokens at least, counts what the
recursion over them sets. -/
def OperatorsCount (call : Nat → Route Expr) (levels limit : Nat) : Prop :=
  ∀ least rounds left (cursor : Cursor), cursor.levels = levels → cursor.limit = limit →
    cursor.ahead.length ≤ rounds →
    (routeOperations call least rounds left).Counts (routeOperators levels least left) cursor

theorem operatorsCount_zero : OperatorsCount call 0 limit := by
  intro least rounds left cursor hlevels hlimit hrounds
  cases rounds with
  | zero => exact operators_count_end (List.length_eq_zero_iff.mp (Nat.le_zero.mp hrounds))
  | succ rounds =>
    rw [routeOperators, routeOperations_succ]
    exact operator_counts (fun bound _ => .tooDeep hlevels) (.of_done left)

theorem operatorsCount_succ
    (hcall : ∀ least, (counting levels limit).Rel (call least) (routeRanked levels least))
    (hoperators : OperatorsCount call levels limit) (hlimit : levels < limit) :
    OperatorsCount call (levels + 1) limit := by
  intro least rounds left cursor hlevels hcursor hrounds
  cases rounds with
  | zero => exact operators_count_end (List.length_eq_zero_iff.mp (Nat.le_zero.mp hrounds))
  | succ rounds =>
    rw [routeOperators, routeOperations_succ]
    refine operator_counts (fun bound hne => .inLevel hlevels (by omega) ?_) (.of_done left)
    let entered : Cursor := { cursor with levels := levels }
    have hadvance := (counting levels limit).advance entered rfl hcursor
    refine hadvance.bind fun _ mid hrun hmid hmidLimit => ?_
    have hmid : mid.levels = levels := hmid
    have hmidLimit : mid.limit = limit := hmidLimit.trans hcursor
    have hadvances : Route.advance.Advances entered := advance_advances hne
    have hlength : mid.ahead.length < cursor.ahead.length := hadvances _ mid hrun
    refine (hcall _ mid hmid hmidLimit).bind fun right later hright hlater hlaterLimit => ?_
    have hpassed := length_le_of_ok hright
    exact hoperators least rounds _ later (hlater.trans hmid) (hlaterLimit.trans hmidLimit)
      (by omega)

theorem call_counts_zero : (counting 0 limit).Rel (routeCall call least) (routeRanked 0 least) := by
  intro cursor hlevels hlimit
  rw [routeRanked, routeCall_eq]
  exact .tooDeep hlevels

theorem call_counts_succ
    (hcall : ∀ least, (counting levels limit).Rel (call least) (routeRanked levels least))
    (hoperators : OperatorsCount call levels limit) (hlimit : levels < limit) :
    (counting (levels + 1) limit).Rel (routeCall call least) (routeRanked (levels + 1) least) := by
  intro cursor hlevels hcursor
  rw [routeRanked, routeCall_eq]
  refine .inLevel hlevels (by omega) ?_
  let entered : Cursor := { cursor with levels := levels }
  refine (routePrimary_alike (hcall 0) entered rfl hcursor).bind fun left mid _ hmid hmidLimit => ?_
  have hloop := hoperators least _ left mid hmid (hmidLimit.trans hcursor) (Nat.le_refl _)
  exact ⟨hloop.walk_eq, hloop.restores, hloop.visits⟩

end Operators

/-- The induction is on the levels, for operands and operators at once. -/
theorem unrolled_counts {limit : Nat} (beyond : Nat → Route Expr) (levels : Nat)
    (hlimit : levels ≤ limit) {calls : Nat} (hcalls : levels < calls) :
    (∀ least, (counting levels limit).Rel (routeUnrolled beyond calls least)
      (routeRanked levels least)) ∧ OperatorsCount (routeUnrolled beyond calls) levels limit := by
  induction levels generalizing calls with
  | zero =>
    obtain ⟨below, rfl⟩ : ∃ below, calls = below + 1 := ⟨calls - 1, by omega⟩
    exact ⟨fun least => call_counts_zero, operatorsCount_zero⟩
  | succ levels ih =>
    obtain ⟨below, rfl⟩ : ∃ below, calls = below + 1 := ⟨calls - 1, by omega⟩
    obtain ⟨hcall, hoperators⟩ := ih (by omega) (Nat.lt_of_succ_lt_succ hcalls)
    obtain ⟨hdeeper, hmore⟩ := ih (by omega) (Nat.lt_of_succ_lt hcalls)
    exact ⟨fun least => call_counts_succ hcall hoperators hlimit,
      operatorsCount_succ hdeeper hmore hlimit⟩

end Expr

theorem Select.unrolled_counts {limit : Nat} (beyond : Beyond) (levels : Nat)
    (hlimit : levels ≤ limit) {calls : Nat} (hcalls : levels < calls) :
    (counting levels limit).Rel (Select.routeUnrolled beyond calls) (Select.route levels) := by
  induction levels generalizing calls with
  | zero =>
    obtain ⟨below, rfl⟩ : ∃ below, calls = below + 1 := ⟨calls - 1, by omega⟩
    refine routeWith_alike ((Expr.unrolled_counts _ 0 hlimit hcalls).1 0) fun cursor hlevels _ => ?_
    exact .tooDeep hlevels
  | succ levels ih =>
    obtain ⟨below, rfl⟩ : ∃ below, calls = below + 1 := ⟨calls - 1, by omega⟩
    refine routeWith_alike ((Expr.unrolled_counts _ (levels + 1) hlimit hcalls).1 0)
      fun cursor hlevels hcursor => ?_
    have hbelow := ih (Nat.le_of_succ_le hlimit) (Nat.lt_of_succ_lt_succ hcalls)
    exact .inLevel hlevels (by omega) (hbelow _ rfl hcursor)

theorem Statement.unrolled_counts {limit : Nat} (beyond : Beyond) {levels : Nat}
    (hlimit : levels ≤ limit) {calls : Nat} (hcalls : levels < calls) :
    (counting levels limit).Rel (Statement.routeUnrolled beyond calls)
      (Statement.routeAt levels) := by
  have hexpression := (Expr.unrolled_counts beyond.expression levels hlimit hcalls).1 0
  refine (counting levels limit).bind ((counting levels limit).kind 0) fun kind => ?_
  have hvalue := Congruence.wrap hexpression Statement.value
  cases kind with
  | keyword k =>
    cases k with
    | SELECT => exact Congruence.wrap (Select.unrolled_counts beyond levels hlimit hcalls) select
    | CREATE => exact Congruence.wrap (Create.route_alike hexpression) create
    | UPDATE => exact Congruence.wrap (Update.route_alike hexpression) update
    | _ => exact hvalue
  | _ => exact hvalue

end EdgeQuery
