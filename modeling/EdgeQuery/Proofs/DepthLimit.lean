import Mathlib
import EdgeQuery.Proofs.Query.Route
import EdgeQuery.Proofs.Statement.Depth
import EdgeQuery.Proofs.Statement.Levels

/-!
What the limit on nesting does to reading. A parser with more nesting levels than there are tokens
never runs out of them. Under a limit, a parser comes to what that parser comes to, as far as it
gets, and it gets to the end exactly if the tree takes no more levels than the limit.
-/

namespace EdgeQuery

open Cursor Parse Route

section Alike

variable {like : Congruence}

theorem Route.endOfInput_alike (like : Congruence) : like.Rel endOfInput endOfInput := by
  refine like.bind (like.ask fun cursor cursor' h => ?_) fun found =>
    Congruence.ite _ (like.done ()) (like.fault _)
  rw [atEnd, atEnd, h.ahead_eq]

theorem Expr.routeSingle_alike {levels levels' : Nat}
    (h : like.Rel (routeRanked levels 0) (routeRanked levels' 0)) :
    like.Rel (routeSingle levels) (routeSingle levels') :=
  like.bind h fun e => Congruence.wrap (endOfInput_alike like) fun _ => e

theorem Statement.routeSingle_alike {levels levels' : Nat}
    (h : like.Rel (routeAt levels) (routeAt levels')) :
    like.Rel (routeSingle levels) (routeSingle levels') :=
  like.bind (like.bind h fun s => Congruence.wrap (like.eatSymbol .semicolon) fun _ => s) fun s =>
    Congruence.wrap (endOfInput_alike like) fun _ => s

end Alike

/-- How reading a text fares under a limit on nesting, compared with reading it with so many levels
that none is ever missing. -/
structure Parse.Limited {α : Type} (parser : Parse α) (levels : α → Nat) (text : String)
    (dialect : Dialect) (limit free : Nat) : Prop where
  free_ne_tooDeep : ∀ span, parser.run text dialect free ≠ .error (.tooDeep span)
  run_eq : (∀ span, parser.run text dialect limit ≠ .error (.tooDeep span)) →
    parser.run text dialect limit = parser.run text dialect free
  /-- The free parser finds no fault before the token at which there was no level left. -/
  tooDeep : ∀ span later,
    parser (Cursor.ofText text dialect limit) = .error (.tooDeep span) later →
    span = later.current.span ∧
      ∀ error last, parser (Cursor.ofText text dialect free) = .error error last →
        last.ahead <:+ later.ahead
  exact : ∀ tree, parser.run text dialect free = .ok tree →
    (levels tree ≤ limit → parser.run text dialect limit = .ok tree) ∧
      (limit < levels tree → ∃ span, parser.run text dialect limit = .error (.tooDeep span))

namespace Parse

section Limited

variable {α : Type} {parser : Parse α} {route : Nat → Route α} {levels : α → Nat} {text : String}
  {dialect : Dialect} {limit free : Nat}

/-- With delimiters noted as open alike, the same has come of both parses. -/
theorem run_eq_of_compared
    (h : Compared [] (parser (Cursor.ofText text dialect limit))
      (parser (Cursor.ofText text dialect free)))
    (hlevels : ∀ span, parser.run text dialect limit ≠ .error (.tooDeep span)) :
    parser.run text dialect limit = parser.run text dialect free := by
  unfold run at hlevels ⊢
  generalize parser (Cursor.ofText text dialect limit) = result at *
  generalize parser (Cursor.ofText text dialect free) = result' at *
  cases h with
  | ok hsame => rfl
  | @fault choices left right hsame hopened =>
    rw [List.append_nil] at hopened
    have hfault : left.fault choices = right.fault choices := by
      rw [Cursor.fault, Cursor.fault, hsame.current_eq, hopened]
    exact congrArg Except.error hfault
  | tooDeep hsuffix => exact absurd rfl (hlevels _)

theorem Limited.of_routes
    (hfollows : ∀ limit, (route limit).Follows parser (Cursor.ofText text dialect limit))
    (hdeep : ∀ limit, (route limit).Deep limit)
    (hshort : ∀ {limit free}, limit ≤ free → shortened.Rel (route limit) (route free))
    (hexact : ∀ {limit tree}, parser.run text dialect free = .ok tree →
      (parser.run text dialect limit = .ok tree ↔ levels tree ≤ limit))
    (hfree : (Scanner.ofText text dialect).tokens.1.length ≤ free) :
    parser.Limited levels text dialect limit free := by
  have hcompared {limit free : Nat} (hle : limit ≤ free) :
      Compared [] (parser (Cursor.ofText text dialect limit))
        (parser (Cursor.ofText text dialect free)) :=
    (hfollows limit).compared (hfollows free) (hshort hle) ⟨rfl, rfl⟩ rfl
  have hnever : ∀ span, parser.run text dialect free ≠ .error (.tooDeep span) := by
    intro span hrun
    obtain ⟨later, hrun⟩ := run_eq_error.mp hrun
    rw [tokens_ofText text dialect free, List.length_append] at hfree
    have hpassed := hdeep free _ span later ((hfollows free).walk_eq.trans hrun)
    have hmark : [Token.atEnd (Cursor.ofText text dialect free).size].length = 1 := rfl
    omega
  have hrun : (∀ span, parser.run text dialect limit ≠ .error (.tooDeep span)) →
      parser.run text dialect limit = parser.run text dialect free := by
    intro hlevels
    rcases Nat.le_total limit free with hle | hle
    · exact run_eq_of_compared (hcompared hle) hlevels
    · exact (run_eq_of_compared (hcompared hle) hnever).symm
  refine ⟨hnever, hrun, ?_, ?_⟩
  · intro span later hdeep
    rcases Nat.le_total limit free with hle | hle
    · have hresults := hcompared hle
      rw [hdeep] at hresults
      obtain ⟨hspan, hsuffix⟩ := hresults.of_tooDeep
      refine ⟨hspan, fun error last hfault => ?_⟩
      rw [hfault] at hsuffix
      exact hsuffix
    · have hsame := run_eq_of_compared (hcompared hle) hnever
      exact absurd (hsame.trans (run_eq_error.mpr ⟨later, hdeep⟩)) (hnever span)
  · intro tree hread
    refine ⟨(hexact hread).mpr, fun hlt => ?_⟩
    by_contra hlevels
    have hsame := (hrun (not_exists.mp hlevels)).trans hread
    exact absurd ((hexact hread).mp hsame) (Nat.not_le.mpr hlt)

end Limited
end Parse

/-- The limit on nesting is transparent and exact, for expressions and for statements, whatever it
is. -/
theorem depth_limit_exact (text : String) (dialect : Dialect) (limit free : Nat)
    (hfree : (Scanner.ofText text dialect).tokens.1.length ≤ free) :
    Expr.parseSingle.Limited Expr.levels text dialect limit free ∧
      Statement.parseSingle.Limited Statement.levels text dialect limit free := by
  constructor
  · have hfollows (limit : Nat) :
        (Expr.routeSingle limit).Follows Expr.parseSingle (Cursor.ofText text dialect limit) :=
      Expr.routeSingle_follows (Cursor.ofText text dialect limit)
    refine .of_routes hfollows (fun limit => ?_) (fun hle => ?_) (fun hread => ?_) hfree
    · exact Expr.routeSingle_alike (deep_iff_alike.mp ((Expr.routes_deep limit).1 0))
    · exact Expr.routeSingle_alike ((Expr.routes_shortened _ hle).1 0)
    · obtain ⟨hspells, hfits⟩ := Expr.parseSingle_run_iff.mp hread
      rw [Expr.parseSingle_run_iff]
      exact ⟨fun h => h.2.2, fun hle => ⟨hspells, hfits.1, hle⟩⟩
  · have hfollows (limit : Nat) :
        (Statement.routeSingle limit).Follows Statement.parseSingle
          (Cursor.ofText text dialect limit) := by
      have hstart := Statement.routeSingle_follows (Cursor.ofText text dialect limit)
      exact ⟨hstart.walk_eq, hstart.tallies, hstart.opened_eq⟩
    refine .of_routes hfollows (fun limit => ?_) (fun hle => ?_) (fun hread => ?_) hfree
    · exact Statement.routeSingle_alike (deep_iff_alike.mp (Statement.routeAt_deep limit))
    · exact Statement.routeSingle_alike (Statement.routeAt_shortened hle)
    · obtain ⟨hfits, hspells⟩ := Statement.parseSingle_run_iff.mp hread
      rw [Statement.parseSingle_run_iff, ← hfits.iff_levels_le]
      exact ⟨fun h => h.1, fun h => ⟨h, hspells⟩⟩

set_option maxRecDepth 8192 in
/-- Three levels are needed, so with two of them the number is one too deep. -/
theorem depth_limit_exact_nested :
    (Scanner.ofText "[(1)] + 2" .strict).tokens.1.length ≤ 8 ∧
      Expr.parseSingle.run "[(1)] + 2" .strict 2 = .error (.tooDeep ⟨2, 3⟩) ∧
      Expr.parseSingle.run "[(1)] + 2" .strict 8 =
        .ok (.binary (.array [.paren .one]) .add (.literal (.number 2))) ∧
      Expr.parseSingle.Limited Expr.levels "[(1)] + 2" .strict 2 8 ∧
      Statement.parseSingle.Limited Statement.levels "[(1)] + 2" .strict 2 8 := by
  have hfree : (Scanner.ofText "[(1)] + 2" .strict).tokens.1.length ≤ 8 := by cbv
  have hdeep : Expr.parseSingle.run "[(1)] + 2" .strict 2 = .error (.tooDeep ⟨2, 3⟩) := by cbv
  have hread : Expr.parseSingle.run "[(1)] + 2" .strict 8 =
    .ok (.binary (.array [.paren .one]) .add (.literal (.number 2))) := by cbv
  exact ⟨hfree, hdeep, hread, depth_limit_exact _ _ 2 8 hfree⟩

end EdgeQuery
