import EdgeQuery.Proofs.Parse.Depth
import EdgeQuery.Proofs.Statement.Congruence

/-!
Expressions and statements that run out of nesting levels. Every level is entered behind a token: a
delimiter, or an operand and its operator. So as many levels as there are tokens are never too few.
-/

namespace EdgeQuery

open Cursor Route

section Operands

variable {cursor : Cursor} {n : Nat}

theorem EdgePath.route_advances {direction : Direction}
    (h : cursor.kind 0 = .symbol (.arrow direction)) :
    (EdgePath.route direction).Advances cursor :=
  (advance_advances (ahead_ne_nil (by rw [h]; nofun))).bind _

theorem FieldReference.route_opens : FieldReference.route.Opens n cursor := by
  refine .of_deep (.ask ?_) (FieldReference.route_alike (deep (n + 1)))
  split
  · next direction hkind => exact (EdgePath.route_advances hkind).bind _
  · exact (identifier_advances cursor).bind _
  · exact .fault _

namespace Expr

variable {route : Route Expr} (h : route.Deep n)
include h

theorem routeNamespaceCall_opens : (routeNamespaceCall route).Opens n cursor := by
  have hidentifier := Opens.of_deep (identifier_advances cursor) (deep (n + 1)).identifier
  have hargs : (deep n).Rel (routeArguments route) (routeArguments route) :=
    Congruence.delimitedList .paren h
  refine hidentifier.bind fun space => deep_iff_alike.mpr ?_
  refine (deep n).bind ((deep n).symbol .doubleColon) fun _ => ?_
  refine (deep n).bind (deep n).identifier fun function => ?_
  refine (deep n).bind (Congruence.onlyIf ((deep n).atSymbol _) hargs) fun args => ?_
  exact (deep n).bind ((deep n).atSymbol _) fun _ =>
    Congruence.ite _ (Congruence.wrap hargs _) ((deep n).done _)

theorem routeReference_opens : (routeReference route).Opens n cursor := by
  have hargs : (deep n).Rel (routeArguments route) (routeArguments route) :=
    Congruence.delimitedList .paren h
  refine FieldReference.route_opens.bind fun target => deep_iff_alike.mpr ?_
  refine (deep n).bind ((deep n).atSymbol _) fun _ => Congruence.ite _ ?_ ((deep n).done _)
  cases target with
  | identifier id => exact Congruence.wrap hargs (Expr.call (.identifier id))
  | path segments => exact Congruence.wrap hargs (Expr.call (.path segments))
  | edge origin path => exact (deep n).done _

theorem routeEnclosed_opens {delimiter : Delimiter}
    (hkind : cursor.kind 0 = .symbol (.opening delimiter)) :
    (routeEnclosed route delimiter).Opens n cursor := by
  have hne : cursor.ahead ≠ [] := ahead_ne_nil (by rw [hkind]; nofun)
  cases delimiter with
  | paren => exact (Opens.within hne h).bind fun e => deep_done (Expr.paren e)
  | bracket => exact (Opens.delimitedList hne h).bind fun items => deep_done (Expr.array items)
  | brace =>
    have hentry : (routeEntry route).Deep n := routeEntry_alike (deep_iff_alike.mp h)
    have hentries : (routeEntries route).Opens n cursor := by
      refine .ask ?_
      split
      · exact .delimitedList hne hentry
      · exact .fault _
    exact hentries.bind fun entries => deep_done (Expr.object entries)

/-- Before anything is nested in an operand, a token of it is passed. -/
theorem routePrimary_opens : (routePrimary route).Opens n cursor := by
  have hliteral (e : Expr) (hkind : cursor.kind 0 ≠ .endOfInput) :
      (Route.advance >>= fun _ => (pure e : Route Expr)).Opens n cursor :=
    (Opens.of_deep (advance_advances (ahead_ne_nil hkind)) (deep_take _)).bind fun _ =>
      deep_done e
  refine .ask ?_
  split
  · next hkind => exact hliteral _ (by rw [hkind]; nofun)
  · next hkind => exact hliteral _ (by rw [hkind]; nofun)
  · next hkind => exact hliteral _ (by rw [hkind]; nofun)
  · next hkind => exact hliteral _ (by rw [hkind]; nofun)
  · next hkind => exact routeEnclosed_opens h hkind
  · exact routeReference_opens h
  · refine .ask ?_
    split
    · exact routeNamespaceCall_opens h
    · exact routeReference_opens h
  · exact .fault _

end Expr
end Operands

namespace Expr

/-- The induction is on the levels, for operands and operators at once. -/
theorem routes_deep (levels : Nat) :
    (∀ least, (routeRanked levels least).Deep levels) ∧
      ∀ least left, (routeOperators levels least left).Deep levels := by
  induction levels with
  | zero => exact ⟨fun _ => deep_zero _, fun _ _ => deep_zero _⟩
  | succ levels ih =>
    obtain ⟨hranked, hoperators⟩ := ih
    refine ⟨fun least => deep_of_opens fun cursor => ?_, fun least left => ?_⟩
    · rw [routeRanked]
      exact .nested ((routePrimary_opens (hranked 0)).bind fun left => hoperators least left)
    · intro cursor span later hrun
      rw [routeOperators, walk_bind] at hrun
      have hahead := (operatorAhead?_traces least cursor).walk_eq
      rcases operator_cases least cursor with hends | ⟨op, power, hop, hbound⟩
      · rw [Parse.bind_of_ok (hahead.trans hends)] at hrun
        cases hrun
      · rw [Parse.bind_of_ok (hahead.trans hbound)] at hrun
        have hne : cursor.ahead ≠ [] := ahead_ne_nil (BinaryOp.isFlat_of_ofToken? hop).2
        have hpass : Route.advance.Opens levels { cursor with levels := levels } :=
          .of_deep (advance_advances hne) (deep_take _)
        have hopens := hpass.bind fun _ => Deep.bind (hranked power) fun right =>
          hoperators least (.binary left op right)
        exact hopens.nested.tooDeep span later hrun

/-- More levels make no difference but where there are too few. The induction is on the fewer ones,
for operands and operators at once. -/
theorem routes_shortened (levels : Nat) : ∀ {more : Nat}, levels ≤ more →
    (∀ least, shortened.Rel (routeRanked levels least) (routeRanked more least)) ∧
      ∀ least left,
        shortened.Rel (routeOperators levels least left) (routeOperators more least left) := by
  induction levels with
  | zero =>
    intro more _
    refine ⟨fun least => ?_, fun least left => ?_⟩
    · rw [routeRanked]
      exact shortened_tooDeep _
    · rw [routeOperators]
      cases more
      all_goals
        rw [routeOperators]
        refine shortened.bind (operatorAhead?_alike _ least) fun found => ?_
        cases found with
        | some bound => exact shortened_tooDeep _
        | none => exact shortened.done left
  | succ levels ih =>
    intro more hle
    obtain ⟨more, rfl⟩ : ∃ below, more = below + 1 := ⟨more - 1, by omega⟩
    obtain ⟨hranked, hoperators⟩ := ih (Nat.le_of_succ_le_succ hle)
    refine ⟨fun least => ?_, fun least left => ?_⟩
    · rw [routeRanked, routeRanked]
      refine shortened_nested (shortened.bind (routePrimary_alike (hranked 0)) fun left => ?_)
      exact hoperators least left
    · rw [routeOperators, routeOperators]
      refine shortened.bind (operatorAhead?_alike _ least) fun found => ?_
      cases found with
      | some bound =>
        refine shortened_nested (Congruence.behind (shortened.bind (hranked _) fun right => ?_))
        exact hoperators least (.binary left bound.1 right)
      | none => exact shortened.done left

end Expr

namespace Select

/-- The keyword is passed before anything is nested in a query. -/
theorem routeWith_deep {expression : Route Expr} {subquery : Route Select} {n : Nat}
    (h : expression.Deep n) (hsub : subquery.Deep n) :
    (routeWith expression subquery).Deep (n + 1) := by
  have hexpression := deep_iff_alike.mp h
  refine deep_of_opens fun cursor => ?_
  have hkeyword := Opens.of_deep (keyword_advances .SELECT cursor) ((deep (n + 1)).keyword .SELECT)
  refine hkeyword.bind fun _ => deep_iff_alike.mpr ?_
  refine (deep n).bind (Projection.route_alike hexpression) fun projection => ?_
  refine (deep n).bind (Source.route_alike hexpression (deep_iff_alike.mp hsub)) fun source => ?_
  exact Congruence.wrap (Congruence.repeated (Clause.route?_alike hexpression)) _

theorem route_deep (levels : Nat) : (Select.route levels).Deep levels := by
  induction levels with
  | zero => exact deep_zero _
  | succ levels ih =>
    have hexpression := ((Expr.routes_deep (levels + 1)).1 0).mono (Nat.le_succ levels)
    exact routeWith_deep hexpression ih.nested

end Select

theorem Select.route_shortened (levels : Nat) : ∀ {more : Nat}, levels ≤ more →
    shortened.Rel (Select.route levels) (Select.route more) := by
  induction levels with
  | zero =>
    intro more hle
    have hexpression := (Expr.routes_shortened 0 hle).1 0
    cases more <;> exact routeWith_alike hexpression (shortened_tooDeep _)
  | succ levels ih =>
    intro more hle
    have hexpression := (Expr.routes_shortened (levels + 1) hle).1 0
    obtain ⟨more, rfl⟩ : ∃ below, more = below + 1 := ⟨more - 1, by omega⟩
    exact routeWith_alike hexpression (shortened_nested (ih (Nat.le_of_succ_le_succ hle)))

theorem Statement.routeAt_deep (levels : Nat) : (routeAt levels).Deep levels :=
  routeAt_alike (deep_iff_alike.mp ((Expr.routes_deep levels).1 0))
    (deep_iff_alike.mp (Select.route_deep levels))

theorem Statement.routeAt_shortened {levels more : Nat} (h : levels ≤ more) :
    shortened.Rel (routeAt levels) (routeAt more) :=
  routeAt_alike ((Expr.routes_shortened levels h).1 0) (Select.route_shortened levels h)

end EdgeQuery
