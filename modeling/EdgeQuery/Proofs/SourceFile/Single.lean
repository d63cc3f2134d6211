import Mathlib
import EdgeQuery.Proofs.Limits
import EdgeQuery.Proofs.SourceFile.Rounds
import EdgeQuery.Proofs.Statement.Lockstep

/-!
Texts that hold one statement. A text is read as a single statement exactly if it is read as a file
with this statement and no other, and a fault in the first statement is the same for both readers.
It is read as an expression exactly if it is read as a statement that is this expression, unless a
semicolon ends it.
-/

namespace EdgeQuery

open Cursor Parse Walk

namespace Statement

section Comments

variable {cursor : Cursor} {s : Statement} {error : SyntaxError}

/-- The comments that are still to be placed make no difference to a statement. -/
theorem parseTerminated_comments (cursor : Cursor) (comments : List Comment) :
    (∃ s later last, parseTerminated cursor = .ok s later ∧
      parseTerminated { cursor with comments := comments } = .ok s last ∧
      last.ahead = later.ahead) ∨
    ∃ error later last, parseTerminated cursor = .error error later ∧
      parseTerminated { cursor with comments := comments } = .error error last := by
  let other : Cursor := { cursor with comments := comments }
  have hcursors : (Likeness.itself [] False).Cursors cursor.ahead.length (start cursor)
      (start other) :=
    ⟨⟨cursor.ahead, Likeness.forall₂_itself _, (List.append_nil _).symm⟩, .inl ⟨rfl, rfl⟩, .nil,
      rfl, Nat.le_refl _⟩
  have hagree := Likeness.steps_parseAt (.refl cursor.limit) _ _ _ hcursors
  rw [parseTerminated_run, parseTerminated_run]
  generalize hrun : parseAt cursor.limit (start cursor) = result,
    hrun' : parseAt cursor.limit (start other) = result' at hagree
  cases hagree with
  | @ok s mid mid' hmid =>
    have hahead : mid'.ahead = mid.ahead := by
      obtain ⟨front, hfront, hright⟩ := hmid.ahead
      have hsame : mid.ahead = front := List.forall₂_eq_eq_eq ▸
        hfront.imp fun _ _ => Likeness.eq_of_itself_tokens
      rw [hright, hsame]
      exact List.append_nil front
    rw [bind_of_ok hrun, bind_of_ok hrun']
    by_cases hkind : mid.kind 0 = .symbol .semicolon
    · obtain ⟨token, rest, htoken, -⟩ := exists_ahead hkind (by simp)
      rw [bind_of_ok (eatSymbol_true hkind), bind_of_ok (eatSymbol_true (hmid.kind_eq.trans hkind))]
      refine .inl ⟨s, _, _, rfl, rfl, ?_⟩
      rw [advanced_of_ahead htoken, advanced_of_ahead (hahead.trans htoken)]
    · rw [bind_of_ok (eatSymbol_false hkind), bind_of_ok (eatSymbol_false (hmid.kind_eq ▸ hkind))]
      exact .inl ⟨s, _, _, rfl, rfl, hahead⟩
  | error herrors _ =>
    rw [bind_of_error hrun, bind_of_error hrun', Likeness.eq_of_itself_errors herrors]
    exact .inr ⟨_, _, _, rfl, rfl⟩
  | tooDeep hfewer => exact hfewer.elim

theorem parseTerminated_atStatement_ok :
    parseTerminated.ReadsAll cursor.atStatement s ↔ parseTerminated.ReadsAll cursor s := by
  rcases parseTerminated_comments cursor cursor.atStatement.comments with
    ⟨s', later, last, hrun, hrun', hahead⟩ | ⟨error, later, last, hrun, hrun'⟩
  · have hrun' : parseTerminated cursor.atStatement = .ok s' last := hrun'
    rw [ReadsAll, ReadsAll, hrun, hrun']
    constructor
    · rintro ⟨_, ⟨⟩, hend⟩
      exact ⟨later, rfl, hahead ▸ hend⟩
    · rintro ⟨_, ⟨⟩, hend⟩
      exact ⟨last, rfl, hahead ▸ hend⟩
  · have hrun' : parseTerminated cursor.atStatement = .error error last := hrun'
    rw [ReadsAll, ReadsAll, hrun, hrun']
    simp

theorem parseTerminated_atStatement_error {last : Cursor}
    (h : parseTerminated cursor.atStatement = .error error last) :
    ∃ later, parseTerminated cursor = .error error later := by
  rcases parseTerminated_comments cursor cursor.atStatement.comments with
    ⟨s, _, _, -, hrun, -⟩ | ⟨_, later, _, hrun, hrun'⟩
  · cases h.symm.trans hrun
  · cases h.symm.trans hrun'
    exact ⟨later, hrun⟩

theorem parseSingle_run_of_error {text : String} {dialect : Dialect} {limit : Nat} {later : Cursor}
    (h : parseTerminated (Cursor.ofText text dialect limit) = .error error later) :
    parseSingle.run text dialect limit = .error error := by
  refine run_eq_error.mpr ⟨later, ?_⟩
  rw [parseSingle, bind_of_error h]

end Comments
end Statement

namespace SourceFile

section Statements

variable {dialect : Dialect} {limit : Nat} {cursor mid : Cursor} {s : Statement}
  {error : SyntaxError}

/-- The statements that are found from the cursor on. -/
def statementsFrom (cursor : Cursor) : List Statement :=
  cursor.recovered.1.filterMap SourceItem.statement?

/-- The first statement is found, and then those behind it. -/
theorem recovered_of_terminated (h : cursor.Between dialect limit) (hne : cursor.ahead ≠ [])
    (hrun : Statement.parseTerminated cursor.atStatement = .ok s mid) :
    statementsFrom cursor = s :: statementsFrom (mid.droppingUpTo mid.behind) ∧
      cursor.recovered.2 = (mid.droppingUpTo mid.behind).recovered.2 := by
  rw [statementsFrom, recovered_of_group h hne (recoverGroup_of_ok hrun)]
  refine ⟨?_, rfl⟩
  simp only [List.filterMap_append, List.filterMap_cons, SourceItem.statement?, leading,
    statements_commentsUpTo, List.nil_append]
  rfl

theorem recovered_of_fault (h : cursor.Between dialect limit) (hne : cursor.ahead ≠ [])
    (hrun : Statement.parseTerminated cursor.atStatement = .error error mid) :
    cursor.recovered.2.head? = some error := by
  rw [recovered_of_group h hne (recoverGroup_of_error hrun)]
  rfl

theorem statementsFrom_of_atEnd (h : cursor.ahead = []) :
    statementsFrom cursor = [] ∧ cursor.recovered.2 = [] := by
  rw [statementsFrom, recovered_of_atEnd h]
  exact ⟨statements_commentsUpTo cursor _, rfl⟩

/-- Where there are tokens, there is a statement or a fault. -/
theorem ahead_eq_nil_of_statementsFrom (h : cursor.Between dialect limit)
    (hnone : statementsFrom cursor = []) (hclean : cursor.recovered.2 = []) :
    cursor.ahead = [] := by
  by_contra hne
  cases hrun : Statement.parseTerminated cursor.atStatement with
  | ok s mid =>
    rw [(recovered_of_terminated h hne hrun).1] at hnone
    cases hnone
  | error error mid =>
    have hfirst := recovered_of_fault h hne hrun
    rw [hclean] at hfirst
    cases hfirst

/-- One statement is found, and no fault, exactly if the tokens end with the first statement. -/
theorem statementsFrom_eq_single_iff (h : cursor.Between dialect limit) :
    (statementsFrom cursor = [s] ∧ cursor.recovered.2 = []) ↔
      Statement.parseTerminated.ReadsAll cursor s := by
  have hstart := h.droppingUpTo cursor.current.span.start
  rw [← Statement.parseTerminated_atStatement_ok]
  constructor
  · rintro ⟨hsingle, hclean⟩
    have hne : cursor.ahead ≠ [] := by
      intro hnil
      rw [(statementsFrom_of_atEnd hnil).1] at hsingle
      cases hsingle
    cases hrun : Statement.parseTerminated cursor.atStatement with
    | ok s' mid =>
      obtain ⟨hfirst, hrest⟩ := recovered_of_terminated h hne hrun
      obtain ⟨rfl, hnone⟩ := List.cons.inj (hfirst.symm.trans hsingle)
      obtain ⟨tokens, hskips, -⟩ := Statement.parseTerminated_skips_of_ok hstart hrun
      have hmid := (hstart.leaves hskips.toLeaves).droppingUpTo mid.behind
      have hend : (mid.droppingUpTo mid.behind).ahead = [] :=
        ahead_eq_nil_of_statementsFrom hmid hnone (hrest.symm.trans hclean)
      exact ⟨mid, hrun, hend⟩
    | error error mid =>
      have hfirst := recovered_of_fault h hne hrun
      rw [hclean] at hfirst
      cases hfirst
  · rintro ⟨later, hrun, hend⟩
    obtain ⟨tokens, hskips, htokens, -⟩ := Statement.parseTerminated_skips_of_ok hstart hrun
    have hne : cursor.ahead ≠ [] := by
      have hahead : cursor.ahead = tokens ++ later.ahead := hskips.ahead_eq
      rw [hahead]
      exact List.append_ne_nil_of_left_ne_nil htokens _
    obtain ⟨hfirst, hrest⟩ := recovered_of_terminated h hne hrun
    obtain ⟨hnone, hclean⟩ := statementsFrom_of_atEnd
      (show (later.droppingUpTo later.behind).ahead = [] from hend)
    rw [hfirst, hrest, hnone, hclean]
    exact ⟨rfl, rfl⟩

theorem ofText_eq_ok_iff {text : String} {file : SourceFile} :
    ofText text dialect = .ok file ↔
      (Cursor.ofText text dialect nestingLimit).recovered = (file.items, []) := by
  rw [ofText_eq_upToFault, upToFault_eq_ok, recovered, recoverText, Prod.ext_iff]
  refine and_congr_left' ⟨?_, ?_⟩
  · rintro rfl
    rfl
  · intro hitems
    exact congrArg SourceFile.mk hitems

/-- The first statement is the whole text exactly if the file has no other one. -/
theorem ofText_single_iff {text : String} :
    Statement.ofText text dialect = .ok s ↔
      ∃ file, ofText text dialect = .ok file ∧ file.statements = [s] := by
  rw [Statement.ofText, Statement.parseSingle, single_run_eq_ok,
    ← statementsFrom_eq_single_iff (ofText_between text dialect nestingLimit)]
  constructor
  · rintro ⟨hsingle, hclean⟩
    exact ⟨⟨_⟩, ofText_eq_ok_iff.mpr (Prod.ext rfl hclean), hsingle⟩
  · rintro ⟨file, hfile, hsingle⟩
    have hrecovered := ofText_eq_ok_iff.mp hfile
    rw [statementsFrom, hrecovered]
    exact ⟨hsingle, rfl⟩

/-- A fault in the first statement of a file is the one that reading a single statement finds. -/
theorem ofText_first_fault {text : String} {other : SyntaxError} {later : Cursor}
    (h : ofText text dialect = .error error)
    (hfirst : parseGroup (Cursor.ofText text dialect nestingLimit) = .error other later) :
    Statement.ofText text dialect = .error error := by
  have hbetween := ofText_between text dialect nestingLimit
  have hfaults : (Cursor.ofText text dialect nestingLimit).recovered.2.head? = some error := by
    rw [ofText_eq_upToFault, upToFault_eq_error] at h
    exact h
  have hne : (Cursor.ofText text dialect nestingLimit).ahead ≠ [] := by
    intro hnil
    rw [(statementsFrom_of_atEnd hnil).2] at hfaults
    cases hfaults
  cases hrun :
    Statement.parseTerminated (Cursor.ofText text dialect nestingLimit).atStatement with
  | ok s mid =>
    rw [parseGroup_of_ok hrun] at hfirst
    cases hfirst
  | error error' mid =>
    obtain rfl := Option.some.inj ((recovered_of_fault hbetween hne hrun).symm.trans hfaults)
    obtain ⟨later, hsingle⟩ := Statement.parseTerminated_atStatement_error hrun
    exact Statement.parseSingle_run_of_error hsingle

end Statements
end SourceFile

namespace Expr

variable {text : String} {dialect : Dialect} {e : Expr}

/-- No expression goes on past a semicolon. -/
theorem parse_stops_at_semicolon {cursor later : Cursor} {token : Token}
    (hrun : Expr.parse cursor = .ok e later) (hmem : token ∈ cursor.ahead)
    (hkind : token.kind = .symbol .semicolon) : later.ahead ≠ [] := by
  -- The cursor is compared with one that has another token behind all others.
  let longer : Cursor := { cursor with ahead := cursor.ahead ++ [token] }
  have hcursors : (Likeness.itself [token] False).Cursors cursor.ahead.length cursor longer :=
    ⟨⟨cursor.ahead, Likeness.forall₂_itself _, rfl⟩, .inr ⟨token, hmem, hkind⟩,
      List.forall₂_same.mpr fun _ _ => ⟨rfl, Likeness.itself_spans.mpr rfl⟩, rfl, Nat.le_refl _⟩
  have hagree := Likeness.steps_parseRanked (.refl cursor.levels) 0 _ _ _ hcursors
  have hrun : Expr.parseRanked cursor.levels 0 cursor = .ok e later := hrun
  rw [hrun] at hagree
  generalize Expr.parseRanked cursor.levels 0 longer = result at hagree
  cases hagree with
  | ok hlater =>
    rcases hlater.closed with ⟨hmore, -⟩ | ⟨other, hother, -⟩
    · cases hmore
    · exact List.ne_nil_of_mem hother

/-- An expression is a statement that no semicolon ends. -/
theorem ofText_iff_value :
    Expr.ofText text dialect = .ok e ↔
      Statement.ofText text dialect = .ok (.value e) ∧
        ∀ token ∈ (Cursor.ofText text dialect nestingLimit).ahead.getLast?,
          token.kind ≠ .symbol .semicolon := by
  constructor
  · intro h
    obtain ⟨hspells, hfits⟩ := Expr.parseSingle_run_iff.mp h
    refine ⟨Statement.parseSingle_run_iff.mpr
      ⟨hfits, _, [], (List.append_nil _).symm, hspells, .inl rfl⟩, ?_⟩
    obtain ⟨later, hrun, hend⟩ := single_run_eq_ok.mp h
    intro token hlast hkind
    exact parse_stops_at_semicolon hrun (List.mem_of_getLast? hlast) hkind hend
  · rintro ⟨h, hlast⟩
    obtain ⟨hfits, front, back, hahead, hspells, hback⟩ := Statement.parseSingle_run_iff.mp h
    rcases hback with rfl | ⟨token, rfl, hkind⟩
    · rw [List.append_nil] at hahead
      exact Expr.parseSingle_run_iff.mpr ⟨hahead ▸ hspells, hfits⟩
    · refine absurd hkind (hlast token ?_)
      rw [hahead, List.getLast?_concat]
      rfl

end Expr

/-- The three readers agree. A text is one statement exactly if it is a file with this statement and
no other; a fault in the first statement of a file is found by both readers; and a text is an
expression exactly if it is the statement made up of it and its last token is not a semicolon. -/
theorem single_readers_agree (text : String) (dialect : Dialect) :
    (∀ s, Statement.ofText text dialect = .ok s ↔
      ∃ file, SourceFile.ofText text dialect = .ok file ∧ file.statements = [s]) ∧
    (∀ error, SourceFile.ofText text dialect = .error error →
      (∃ other later,
        SourceFile.parseGroup (Cursor.ofText text dialect nestingLimit) = .error other later) →
      Statement.ofText text dialect = .error error) ∧
    ∀ e, Expr.ofText text dialect = .ok e ↔
      Statement.ofText text dialect = .ok (.value e) ∧
        ∀ token ∈ (Cursor.ofText text dialect nestingLimit).ahead.getLast?,
          token.kind ≠ .symbol .semicolon :=
  ⟨fun _ => SourceFile.ofText_single_iff,
    fun _ h ⟨_, _, hfirst⟩ => SourceFile.ofText_first_fault h hfirst,
    fun _ => Expr.ofText_iff_value⟩

set_option maxRecDepth 8192 in
/-- The operand that is missing is the fault for both readers, though another statement follows. -/
theorem single_readers_agree_missing :
    SourceFile.ofText "-- sum\n1 + ; 2" .strict =
        .error (.unexpected [.expression] (.symbol .semicolon) ⟨11, 12⟩) ∧
      (∃ other later, SourceFile.parseGroup
        (Cursor.ofText "-- sum\n1 + ; 2" .strict nestingLimit) = .error other later) ∧
      Statement.ofText "-- sum\n1 + ; 2" .strict =
        .error (.unexpected [.expression] (.symbol .semicolon) ⟨11, 12⟩) := by
  have hfile : SourceFile.ofText "-- sum\n1 + ; 2" .strict =
      .error (.unexpected [.expression] (.symbol .semicolon) ⟨11, 12⟩) := by cbv
  have hfirst : ∃ other later, SourceFile.parseGroup
      (Cursor.ofText "-- sum\n1 + ; 2" .strict nestingLimit) = .error other later := by
    have hrun : SourceFile.parseGroup.run "-- sum\n1 + ; 2" .strict nestingLimit =
      .error (.unexpected [.expression] (.symbol .semicolon) ⟨11, 12⟩) := by cbv
    exact ⟨_, run_eq_error.mp hrun⟩
  exact ⟨hfile, hfirst, (single_readers_agree _ _).2.1 _ hfile hfirst⟩

end EdgeQuery
