import EdgeQuery.Proofs.WellFormed

/-!
What holds of a cursor from one request to the next. What reading a statement keeps, and what does
not depend on comments, is kept by reading files, too.
-/

namespace EdgeQuery

open Cursor Parse Walk

/-- If the first condition holds of the cursor that a walk begins with, it holds of the one that it
succeeds with, and the second one of the one that it fails with. -/
def Walk.Preserves {ε α : Type} (walk : Walk ε α) (good bad : Cursor → Prop) : Prop :=
  ∀ cursor, good cursor →
    match walk cursor with
    | .ok _ later => good later
    | .error _ later => bad later

namespace Walk

variable {ε α β : Type} {walk : Walk ε α} {next : α → Walk ε β} {good bad : Cursor → Prop}

theorem Preserves.of_runs
    (hok : ∀ cursor value later, good cursor → walk cursor = .ok value later → good later)
    (herror : ∀ cursor error later, good cursor → walk cursor = .error error later → bad later) :
    walk.Preserves good bad := by
  intro cursor hgood
  cases hrun : walk cursor with
  | ok value later => exact hok cursor value later hgood hrun
  | error error later => exact herror cursor error later hgood hrun

theorem Preserves.of_ok {cursor later : Cursor} {value : α} (h : walk.Preserves good bad)
    (hgood : good cursor) (hrun : walk cursor = .ok value later) : good later := by
  have hlater := h cursor hgood
  rwa [hrun] at hlater

theorem Preserves.of_error {cursor later : Cursor} {error : ε} (h : walk.Preserves good bad)
    (hgood : good cursor) (hrun : walk cursor = .error error later) : bad later := by
  have hlater := h cursor hgood
  rwa [hrun] at hlater

theorem Preserves.pure (value : α) : (Pure.pure value : Walk ε α).Preserves good bad :=
  fun _ hgood => hgood

theorem Preserves.bind (h : walk.Preserves good bad)
    (hnext : ∀ value, (next value).Preserves good bad) : (walk >>= next).Preserves good bad := by
  intro cursor hgood
  cases hrun : walk cursor with
  | ok value mid =>
    rw [bind_of_ok hrun]
    exact hnext value mid (h.of_ok hgood hrun)
  | error error mid =>
    rw [bind_of_error hrun]
    exact h.of_error hgood hrun

theorem Preserves.get {next : Cursor → Walk ε β} (h : ∀ cursor, (next cursor).Preserves good bad) :
    (MonadState.get >>= next).Preserves good bad :=
  fun cursor hgood => h cursor cursor hgood

/-- The rounds of a loop. The induction is on their number. -/
theorem Preserves.repeatUpTo {item? : Walk ε (Option α)} (h : item?.Preserves good bad)
    (rounds : Nat) : (Walk.repeatUpTo item? rounds).Preserves good bad := by
  induction rounds with
  | zero => exact .pure []
  | succ rounds ih =>
    refine h.bind fun value => ?_
    cases value with
    | none => exact .pure []
    | some value => exact ih.bind fun values => .pure (value :: values)

variable (hcomments : ∀ cursor comments, comments <:+ cursor.comments → good cursor →
  good { cursor with comments := comments })
include hcomments

theorem comments_preserve :
    (commentsHere : Walk ε (List SourceItem)).Preserves good bad ∧
      (commentsBehind : Walk ε (List SourceItem)).Preserves good bad :=
  ⟨fun cursor hgood => hcomments cursor _ (List.dropWhile_suffix _) hgood,
    fun cursor hgood => hcomments cursor _ (List.dropWhile_suffix _) hgood⟩

theorem Preserves.rounds (h : walk.Preserves good bad) : (rounds walk).Preserves good bad := by
  have hround : (SourceFile.round? walk).Preserves good bad := by
    refine .get fun cursor => ?_
    split
    · exact .pure none
    · exact h.bind fun value => .pure (some value)
  rw [SourceFile.rounds_eq]
  refine Preserves.bind (.get fun cursor => hround.repeatUpTo cursor.ahead.length) fun values => ?_
  exact (comments_preserve hcomments).1.bind fun last => .pure (values, last)

end Walk

namespace SourceFile

variable {good bad : Cursor → Prop}
  (hcomments : ∀ cursor comments, comments <:+ cursor.comments → good cursor →
    good { cursor with comments := comments })
include hcomments

theorem parse_preserves (h : Statement.parseTerminated.Preserves good bad) :
    parse.Preserves good bad := by
  have hgroup : parseGroup.Preserves good bad :=
    (comments_preserve hcomments).1.bind fun leading => h.bind fun statement =>
      (comments_preserve hcomments).2.bind fun trailing => .pure _
  exact (hgroup.rounds hcomments).bind fun groups => .pure _

/-- A fault is passed over, so what holds after it has to hold as well. -/
theorem recover_preserves (h : Statement.parseTerminated.Preserves good good)
    (hsynchronized : ∀ cursor remaining, good cursor → good (cursor.synchronized remaining)) :
    recover.Preserves good bad := by
  have hattempt : (attempt Statement.parseTerminated).Preserves good bad := by
    intro cursor hgood
    rw [attempt]
    cases hrun : Statement.parseTerminated cursor with
    | ok statement later => exact h.of_ok hgood hrun
    | error error later => exact h.of_error hgood hrun
  have hgroup : recoverGroup.Preserves good bad := by
    refine (comments_preserve hcomments).1.bind fun leading => .get fun cursor => ?_
    refine hattempt.bind fun outcome => ?_
    cases outcome with
    | ok statement => exact (comments_preserve hcomments).2.bind fun trailing => .pure _
    | error error =>
      have hmodify : (modify (Cursor.synchronized · cursor.ahead.length) :
          Walk Empty PUnit).Preserves good bad := fun mid hgood => hsynchronized mid _ hgood
      exact hmodify.bind fun _ => .pure _
  exact (hgroup.rounds hcomments).bind fun groups => .pure _

end SourceFile

/-- What every request keeps. -/
theorem Request.after_preserves {good : Cursor → Prop}
    (hexpression : Expr.parse.Preserves good good)
    (hstatement : Statement.parse.Preserves good good)
    (hterminated : Statement.parseTerminated.Preserves good good)
    (hcomments : ∀ cursor comments, comments <:+ cursor.comments → good cursor →
      good { cursor with comments := comments })
    (hsynchronized : ∀ cursor remaining, good cursor → good (cursor.synchronized remaining))
    (request : Request) {cursor : Cursor} (h : good cursor) : good (request.answer cursor).2 := by
  have hanswer {ε α : Type} {walk : Walk ε α} (hwalk : walk.Preserves good good)
      (trees : α → List Statement) : good (walk.answer trees cursor).2 := by
    unfold Walk.answer
    cases hrun : walk cursor with
    | ok value later => exact hwalk.of_ok h hrun
    | error error later => exact hwalk.of_error h hrun
  have hend : endOfInput.Preserves good good := by
    refine .get fun cursor => ?_
    split
    · exact .pure ()
    · exact fun _ hgood => hgood
  cases request with
  | expression => exact hanswer hexpression _
  | statement => exact hanswer hstatement _
  | single => exact hanswer (hterminated.bind fun s => hend.bind fun _ => .pure s) _
  | file => exact hanswer (SourceFile.parse_preserves hcomments hterminated) _
  | recovery =>
    exact hanswer (SourceFile.recover_preserves hcomments hterminated hsynchronized) _

end EdgeQuery
