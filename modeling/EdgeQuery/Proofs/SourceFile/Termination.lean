import Mathlib
import EdgeQuery.Proofs.Query.Route
import EdgeQuery.Proofs.SourceFile.Rounds
import EdgeQuery.Proofs.Statement.Unrolled

/-!
Reading comes to an end, whatever the tokens are. The loops need no bound on their rounds, since
each round that yields something passes a token; the recursion needs none on its calls, since there
are more calls than levels left only where it has ended. So a file is read to the end, with a
statement or a fault for some token each.
-/

namespace EdgeQuery

open Cursor

namespace Walk

variable {ε α : Type} {item? : Walk ε (Option α)} {cursor : Cursor}

/-- The value comes before those that the result has. -/
def prepend (value : α) :
    EStateM.Result ε Cursor (List α) → EStateM.Result ε Cursor (List α)
  | .ok values later => .ok (value :: values) later
  | .error error later => .error error later

/-- What a loop without any bound on its rounds comes to. It ends with the first round that yields
nothing or fails; each round before has passed a token. -/
inductive Loops (item? : Walk ε (Option α)) :
    Cursor → EStateM.Result ε Cursor (List α) → Prop
  | stops {cursor later : Cursor} (hround : item? cursor = .ok none later) :
    Loops item? cursor (.ok [] later)
  | fails {cursor later : Cursor} {error : ε} (hround : item? cursor = .error error later) :
    Loops item? cursor (.error error later)
  | goesOn {cursor mid : Cursor} {value : α} {result : EStateM.Result ε Cursor (List α)}
    (hround : item? cursor = .ok (some value) mid) (hconsumes : cursor.Consumes mid)
    (hrest : Loops item? mid result) : Loops item? cursor (prepend value result)

/-- With as many rounds as there are tokens, a loop comes to what it comes to without a bound. The
induction is on the rounds. -/
theorem Loops.of_rounds
    (hstops : ∀ cursor : Cursor, cursor.ahead = [] → item? cursor = .ok none cursor)
    (hconsumes : ∀ cursor value later, item? cursor = .ok (some value) later →
      cursor.Consumes later) {rounds : Nat} (h : cursor.ahead.length ≤ rounds) :
    Loops item? cursor (repeatUpTo item? rounds cursor) := by
  induction rounds generalizing cursor with
  | zero => exact .stops (hstops cursor (List.length_eq_zero_iff.mp (Nat.le_zero.mp h)))
  | succ rounds ih =>
    rw [repeatUpTo]
    cases hround : item? cursor with
    | error error later =>
      rw [Parse.bind_of_error hround]
      exact .fails hround
    | ok found mid =>
      rw [Parse.bind_of_ok hround]
      cases found with
      | none => exact .stops hround
      | some value =>
        have hmid := hconsumes cursor value mid hround
        have hlength := hmid.length_lt
        have hprepend : (repeatUpTo item? rounds >>= fun values => pure (value :: values)) mid =
            prepend value (repeatUpTo item? rounds mid) := by
          cases hrest : repeatUpTo item? rounds mid with
          | ok values later => rw [Parse.bind_of_ok hrest]; rfl
          | error error later => rw [Parse.bind_of_error hrest]; rfl
        show Loops item? cursor
          ((repeatUpTo item? rounds >>= fun values => pure (value :: values)) mid)
        rw [hprepend]
        exact .goesOn hround hmid (ih (by omega))

theorem Loops.repeated
    (hstops : ∀ cursor : Cursor, cursor.ahead = [] → item? cursor = .ok none cursor)
    (hconsumes : ∀ cursor value later, item? cursor = .ok (some value) later →
      cursor.Consumes later) (cursor : Cursor) :
    Loops item? cursor (Walk.repeated item? cursor) :=
  .of_rounds hstops hconsumes (Nat.le_refl _)

end Walk

namespace Route

variable {α β : Type} {route : Route (Option α)} {cursor : Cursor}

/-- From the cursor, the route yields nothing at once, unless it passes a token. -/
def Optional (route : Route (Option α)) (cursor : Cursor) : Prop :=
  route.walk cursor = .ok none cursor ∨ cursor.ahead ≠ [] ∧ route.Advances cursor

theorem Optional.ask {γ : Type} {question : Cursor → γ} {next : γ → Route (Option α)}
    (h : (next (question cursor)).Optional cursor) :
    (Route.ask question >>= next).Optional cursor :=
  h

/-- What is led by a token. -/
theorem Optional.advance {next : Unit → Route (Option α)} (hne : cursor.ahead ≠ []) :
    (Route.advance >>= next).Optional cursor :=
  .inr ⟨hne, (advance_advances hne).bind next⟩

theorem Optional.nothing (cursor : Cursor) : (pure none : Route (Option α)).Optional cursor :=
  .inl rfl

theorem Optional.bind {next : Option α → Route (Option β)} (h : route.Optional cursor)
    (hnone : next none = pure none) : (route >>= next).Optional cursor := by
  rcases h with h | ⟨hne, hadvances⟩
  · refine .inl ?_
    rw [walk_bind, Parse.bind_of_ok h, hnone]
    rfl
  · exact .inr ⟨hne, hadvances.bind next⟩

theorem Optional.loops {parser : Parse (Option α)} (h : ∀ cursor, route.Optional cursor)
    (hwalk : ∀ cursor, route.walk cursor = parser cursor) (cursor : Cursor) :
    Walk.Loops parser cursor (Walk.repeated parser cursor) := by
  obtain rfl : route.walk = parser := funext hwalk
  refine .repeated (fun cursor hend => ?_) (fun cursor value later hrun => ?_) cursor
  · exact (h cursor).resolve_right fun hother => hother.1 hend
  · rcases h cursor with hnone | ⟨-, hadvances⟩
    · cases hnone.symm.trans hrun
    · exact hadvances.consumes hrun

theorem comma_optional (item : Route α) (cursor : Cursor) :
    (onlyIf (eatSymbol .comma) item).Optional cursor := by
  have hflat : IsFlat (.symbol .comma) := Parse.isFlat_symbol (by simp) (by simp)
  have hwalk := (eatSymbol_traces hflat cursor).walk_eq
  by_cases hkind : cursor.kind 0 = .symbol .comma
  · have hne : cursor.ahead ≠ [] := ahead_ne_nil (by rw [hkind]; nofun)
    have hadvances : (eatSymbol .comma).Advances cursor := by
      intro found later hrun
      cases (hwalk.trans (Parse.eatSymbol_true hkind)).symm.trans hrun
      exact advanced_length_lt hne
    exact .inr ⟨hne, hadvances.bind _⟩
  · refine .inl ?_
    rw [onlyIf, walk_bind, Parse.bind_of_ok (hwalk.trans (Parse.eatSymbol_false hkind))]
    rfl

theorem nextName?_optional (cursor : Cursor) : nextName?.Optional cursor := by
  refine .ask ?_
  split
  · next hdot =>
    have hkind : cursor.kind 0 = .symbol .dot :=
      Parse.atSymbol_iff.mp (Bool.and_eq_true_iff.mp hdot).1
    exact .advance (ahead_ne_nil (by rw [hkind]; nofun))
  · exact .nothing cursor

theorem segment_optional (cursor : Cursor) : Identifier.routeSegment?.Optional cursor :=
  Optional.bind (nextName?_optional cursor) rfl

theorem clause_optional (expression : Route Expr) (cursor : Cursor) :
    (Clause.route? expression).Optional cursor := by
  refine .ask ?_
  cases hkind : cursor.kind 0 with
  | keyword k =>
    have hne : cursor.ahead ≠ [] := ahead_ne_nil (by rw [hkind]; nofun)
    cases k with
    | WITH => exact .inr ⟨hne, ((keyword_advances .WITH cursor).bind _).bind _⟩
    | WHERE | SPLIT | OMIT | GROUP | ORDER | LIMIT | START | FETCH | TIMEOUT | PARALLEL
    | TEMPFILES | EXPLAIN => exact .advance hne
    | _ => exact .nothing cursor
  | _ => exact .nothing cursor

/-- A level that is entered is no token passed. -/
theorem enterLevel_advances {next : Unit → Route β}
    (h : ∀ levels, (next ()).Advances { cursor with levels := levels }) :
    (enterLevel >>= next).Advances cursor := by
  intro value later hrun
  change ((if _ then _ else _ : Route Unit).bind next).walk cursor = _ at hrun
  split at hrun
  · cases hrun
  · exact h (cursor.levels + 1) value later hrun

theorem operation_optional (operand : Nat → Route Expr) (least : Nat) (cursor : Cursor) :
    (Expr.routeOperation? operand least).Optional cursor := by
  have hahead := (Expr.operatorAhead?_traces least cursor).walk_eq
  rw [Optional, Expr.routeOperation?, walk_bind]
  rcases Expr.operator_cases least cursor with hends | ⟨op, power, hop, hbound⟩
  · refine .inl ?_
    rw [Parse.bind_of_ok (hahead.trans hends)]
    rfl
  · have hne : cursor.ahead ≠ [] := ahead_ne_nil (BinaryOp.isFlat_of_ofToken? hop).2
    refine .inr ⟨hne, fun value later hrun => ?_⟩
    rw [walk_bind, Parse.bind_of_ok (hahead.trans hbound)] at hrun
    refine enterLevel_advances (fun levels => ?_) value later hrun
    have hadvances : Route.advance.Advances { cursor with levels := levels } :=
      advance_advances hne
    exact hadvances.bind _

end Route

/-- The bodies of the loops that a parser runs, each of which goes on as long as it yields
something: a comma and an item, a dot and a name, a dot and a segment, a clause, an operator and its
operand. -/
inductive Parse.LoopBody : {α : Type} → Parse (Option α) → Prop
  | comma {α : Type} {route : Route α} {item : Parse α} (h : route.Traces item) :
    LoopBody (onlyIf (eatSymbol .comma) item)
  | name : LoopBody nextName?
  | segment : LoopBody Identifier.nextSegment?
  | clause {route : Route Expr} {expression : Parse Expr} (h : route.Traces expression) :
    LoopBody (Clause.parse? expression)
  | operation (operand : Nat → Route Expr) (least : Nat) :
    LoopBody (Expr.routeOperation? operand least).walk

theorem Parse.LoopBody.loops {α : Type} {body : Parse (Option α)} (h : LoopBody body)
    (cursor : Cursor) : Walk.Loops body cursor (Walk.repeated body cursor) := by
  cases h with
  | @comma _ route item h =>
    exact Route.Optional.loops (Route.comma_optional route)
      (fun mid => (h.comma mid).walk_eq) cursor
  | name =>
    exact Route.Optional.loops Route.nextName?_optional
      (fun mid => (Route.nextName?_traces mid).walk_eq) cursor
  | segment =>
    exact Route.Optional.loops Route.segment_optional
      (fun mid => (Identifier.routeSegment?_traces mid).walk_eq) cursor
  | @clause route expression h =>
    exact Route.Optional.loops (Route.clause_optional route)
      (fun mid => (Clause.route?_traces h mid).walk_eq) cursor
  | operation operand least =>
    exact Route.Optional.loops (Route.operation_optional operand least) (fun _ => rfl) cursor

namespace SourceFile

open Parse Walk

section Rounds

variable {ε α : Type} {round : Walk ε α} {cursor later : Cursor} {values : List α}

theorem rounds_loop
    (hround : ∀ cursor value later, cursor.ahead ≠ [] → round cursor = .ok value later →
      cursor.Consumes later) (cursor : Cursor) :
    Loops (round? round) cursor (repeated (round? round) cursor) := by
  refine .repeated (fun cursor hend => round?_of_atEnd ?_)
    (fun cursor value later hrun => ?_) cursor
  · rw [Cursor.atEnd, hend]
    rfl
  · obtain ⟨hne, hfirst⟩ := round?_eq_some hrun
    exact hround cursor value later hne hfirst

/-- The rounds end where no token is left, and there have not been more of them than tokens. -/
theorem rounds_end (h : Loops (round? round) cursor (.ok values later)) :
    later.ahead = [] ∧ values.length ≤ cursor.ahead.length ∧
      ∀ value ∈ values, ∃ before behind, round before = .ok value behind := by
  generalize hresult : (EStateM.Result.ok values later : EStateM.Result ε Cursor _) = result at h
  induction h generalizing values later with
  | stops hround =>
    cases hresult
    obtain ⟨hend, rfl⟩ := round?_eq_none hround
    exact ⟨hend, Nat.zero_le _, nofun⟩
  | fails hround => cases hresult
  | @goesOn cursor mid value result hround hconsumes hrest ih =>
    cases result with
    | error error last => cases hresult
    | ok more last =>
      cases hresult
      obtain ⟨hend, hlength, hrounds⟩ := ih rfl
      have hpassed := hconsumes.length_lt
      have hfirst := (round?_eq_some hround).2
      refine ⟨hend, ?_, List.forall_mem_cons.mpr ⟨⟨cursor, mid, hfirst⟩, hrounds⟩⟩
      rw [List.length_cons]
      omega

end Rounds

section Recovery

variable {cursor later : Cursor} {group : List SourceItem × List SyntaxError}

/-- What a group is counted as: its statements and its faults. -/
def yields (group : List SourceItem × List SyntaxError) : Nat :=
  (group.1.filterMap SourceItem.statement?).length + group.2.length

theorem recoverGroup_yields (h : recoverGroup cursor = .ok group later) : yields group = 1 := by
  cases hparse : Statement.parseTerminated cursor.atStatement with
  | ok statement mid =>
    cases (recoverGroup_of_ok hparse).symm.trans h
    simp [yields, leading, statements_commentsUpTo, SourceItem.statement?]
  | error error mid =>
    cases (recoverGroup_of_error hparse).symm.trans h
    simp [yields, leading, statements_commentsUpTo]

theorem yields_groups {groups : List (List SourceItem × List SyntaxError)}
    (h : ∀ group ∈ groups, yields group = 1) :
    yields (groups.flatMap (·.1), groups.flatMap (·.2)) = groups.length := by
  induction groups with
  | nil => rfl
  | cons group groups ih =>
    obtain ⟨hgroup, hgroups⟩ := List.forall_mem_cons.mp h
    have hrest := ih hgroups
    simp only [yields, List.flatMap_cons, List.filterMap_append, List.length_append,
      List.length_cons] at hgroup hrest ⊢
    omega

theorem recover_end (cursor : Cursor) :
    (recover.outcome cursor).2.ahead = [] ∧
      (recover.outcome cursor).1.1.statements.length + (recover.outcome cursor).1.2.length ≤
        cursor.ahead.length := by
  have hloop := run_eq_outcome (repeated (round? recoverGroup)) cursor
  have hrounds := rounds_loop (fun _ _ _ => recoverGroup_consumes) cursor
  generalize (repeated (round? recoverGroup)).outcome cursor = outcome at hloop
  obtain ⟨groups, mid⟩ := outcome
  rw [hloop] at hrounds
  obtain ⟨hend, hlength, hgroups⟩ := rounds_end hrounds
  have hrun : recover cursor = .ok (⟨groups.flatMap (·.1) ++ mid.leading⟩, groups.flatMap (·.2))
      mid.atStatement := by
    rw [recover, bind_of_ok (rounds_of_ok hloop)]
    rfl
  have hcount := yields_groups fun group hmem => by
    obtain ⟨before, behind, hrun⟩ := hgroups group hmem
    exact recoverGroup_yields hrun
  rw [outcome_of_ok hrun]
  refine ⟨hend, ?_⟩
  rw [statements, List.filterMap_append, leading, statements_commentsUpTo, List.append_nil]
  exact hcount.trans_le hlength

end Recovery
end SourceFile

/-- Reading comes to an end, whatever the tokens are. Of the recursion no more calls are nested than
levels are left and one more; every round of a loop passes a token unless it is the last; so does
every round of reading a file, also past a fault; and reading past the faults comes to the end, with
no more statements and faults than there are tokens. -/
theorem parsing_terminates :
    (∀ (beyond : Route.Beyond) (calls : Nat) (cursor : Cursor), cursor.levels ≤ cursor.limit →
      cursor.levels < calls →
      (Expr.routeUnrolled beyond.expression calls 0).walk cursor.countedUp =
          Parse.countedUp (Expr.parse cursor) ∧
        (Statement.routeUnrolled beyond calls).walk cursor.countedUp =
          Parse.countedUp (Statement.parse cursor)) ∧
    (∀ {α : Type} {body : Parse (Option α)}, Parse.LoopBody body → ∀ cursor,
      Walk.Loops body cursor (Walk.repeated body cursor)) ∧
    (∀ cursor, Walk.Loops (SourceFile.round? SourceFile.parseGroup) cursor
      (Walk.repeated (SourceFile.round? SourceFile.parseGroup) cursor)) ∧
    (∀ cursor, Walk.Loops (SourceFile.round? SourceFile.recoverGroup) cursor
      (Walk.repeated (SourceFile.round? SourceFile.recoverGroup) cursor)) ∧
    ∀ cursor, (SourceFile.recover.outcome cursor).2.ahead = [] ∧
      (SourceFile.recover.outcome cursor).1.1.statements.length +
        (SourceFile.recover.outcome cursor).1.2.length ≤ cursor.ahead.length := by
  refine ⟨fun beyond calls cursor hlimit hcalls => ⟨?_, ?_⟩, fun hbody => hbody.loops,
    SourceFile.rounds_loop fun _ _ _ => SourceFile.parseGroup_consumes,
    SourceFile.rounds_loop fun _ _ _ => SourceFile.recoverGroup_consumes, SourceFile.recover_end⟩
  · have hcounts := (Expr.unrolled_counts beyond.expression _ hlimit hcalls).1 0 cursor rfl rfl
    exact hcounts.walk_eq.trans (congrArg _ (Expr.routeRanked_follows cursor).walk_eq)
  · have hcounts := Statement.unrolled_counts beyond hlimit hcalls cursor rfl rfl
    exact hcounts.walk_eq.trans (congrArg _ (Statement.routeAt_follows cursor).walk_eq)

/-- Of the four tokens one is a statement and one a fault, which is passed with the number behind
it. The second text is a loop of two rounds. -/
theorem parsing_terminates_stray :
    let beyond : Route.Beyond := ⟨fun _ => .fault [], .fault []⟩
    let stray := Cursor.ofText "1; ) 2" .strict 4
    let names := Cursor.ofText ".b.c" .strict 4
    stray.levels ≤ stray.limit ∧ stray.levels < 5 ∧
      (Statement.routeUnrolled beyond 5).walk stray.countedUp =
        Parse.countedUp (Statement.parse stray) ∧
      stray.ahead.length = 4 ∧ (SourceFile.recover.outcome stray).2.ahead = [] ∧
      (SourceFile.recover.outcome stray).1.1.statements.length = 1 ∧
      (SourceFile.recover.outcome stray).1.2 =
        [.unexpected [.expression] (.symbol (.closing .paren)) ⟨3, 4⟩] ∧
      Parse.LoopBody Parse.nextName? ∧
      (∃ later, Walk.repeated Parse.nextName? names = .ok ["b", "c"] later) ∧
      Walk.Loops Parse.nextName? names (Walk.repeated Parse.nextName? names) := by
  intro beyond stray names
  obtain ⟨hrecursion, hloops, -, -, hend⟩ := parsing_terminates
  have hlimit : stray.levels ≤ stray.limit := Nat.le_refl 4
  have hcalls : stray.levels < 5 := Nat.lt_succ_self 4
  exact ⟨hlimit, hcalls, (hrecursion beyond 5 stray hlimit hcalls).2, by cbv, (hend stray).1,
    by cbv, by cbv, .name, ⟨_, by cbv⟩, hloops .name names⟩

end EdgeQuery
