import EdgeQuery.Proofs.SourceFile.Recovery
import EdgeQuery.Proofs.Statement.Progress

/-!
Reading past the faults, group by group. Each group takes at least one token, so there are enough
rounds for all of them, and what a text is read as is what its first group is read as and then what
the rest is read as.
-/

namespace EdgeQuery

open Cursor Parse Walk

namespace Cursor

variable {dialect : Dialect} {limit : Nat} {cursor later : Cursor}

theorem droppingUpTo_leaves (cursor : Cursor) (offset : Nat) :
    ∃ comments, cursor.Leaves [] comments (cursor.droppingUpTo offset) :=
  ⟨_, .of_comments List.takeWhile_append_dropWhile.symm⟩

theorem Between.droppingUpTo (h : cursor.Between dialect limit) (offset : Nat) :
    (cursor.droppingUpTo offset).Between dialect limit := by
  obtain ⟨comments, hleaves⟩ := cursor.droppingUpTo_leaves offset
  exact h.leaves hleaves

/-- The items and the faults that are found from the cursor on. -/
def recovered (cursor : Cursor) : List SourceItem × List SyntaxError :=
  ((SourceFile.recover.outcome cursor).1.1.items, (SourceFile.recover.outcome cursor).1.2)

end Cursor

namespace SourceFile

variable {dialect : Dialect} {limit n m : Nat} {cursor later mid : Cursor}
  {group : List SourceItem × List SyntaxError}

/-- Past a fault at the first token at least this token is passed over. -/
theorem synchronized_length_lt (hne : cursor.ahead ≠ []) :
    (cursor.synchronized cursor.ahead.length).ahead.length < cursor.ahead.length := by
  have hpast (tokens : List Token) (behind : Nat) :
      (pastSemicolon tokens behind).1.length ≤ tokens.length := by
    obtain ⟨front, hfront, -⟩ := pastSemicolon_front tokens behind
    have hlength := congrArg List.length hfront
    rw [List.length_append] at hlength
    omega
  obtain ⟨token, rest, hahead⟩ := List.exists_cons_of_ne_nil hne
  have hkind : cursor.kind 0 = token.kind := congrArg Token.kind (peek_of_ahead hahead)
  have hlength : cursor.ahead.length = rest.length + 1 := by
    rw [hahead, List.length_cons]
  rw [synchronized_eq, hlength, Nat.lt_succ_iff]
  by_cases hsemicolon : token.kind = .symbol .semicolon
  · have hat : cursor.atSymbol .semicolon = true := by
      rw [Cursor.atSymbol, hkind, hsemicolon, decide_eq_true_iff]
    rw [hat, Bool.not_true, Bool.and_false, if_neg Bool.false_ne_true, behindSemicolon, hahead,
      pastSemicolon, if_pos hsemicolon]
  · have hat : cursor.atSymbol .semicolon = false := by
      rw [Cursor.atSymbol, hkind, decide_eq_false_iff_not]
      exact hsemicolon
    rw [hat, Bool.not_false, Bool.and_true, decide_eq_true rfl, if_pos rfl,
      advanced_of_ahead hahead]
    exact hpast rest token.span.stop

/-- A group takes at least one token, whatever the tokens are. -/
theorem recoverGroup_consumes (hne : cursor.ahead ≠ [])
    (hrun : recoverGroup cursor = .ok group later) : cursor.Consumes later := by
  obtain ⟨early, hstart⟩ := cursor.droppingUpTo_leaves cursor.current.span.start
  cases hparse : Statement.parseTerminated cursor.atStatement with
  | ok statement mid =>
    rw [recoverGroup_of_ok hparse] at hrun
    cases hrun
    obtain ⟨tokens, comments, htokens, hleaves⟩ := Statement.parseTerminated_consumes hparse
    obtain ⟨late, hend⟩ := mid.droppingUpTo_leaves mid.behind
    exact ⟨_, _, by simpa using htokens, (hstart.trans hleaves).trans hend⟩
  | error error mid =>
    rw [recoverGroup_of_error hparse] at hrun
    cases hrun
    obtain ⟨tokens, hskips⟩ := Statement.parseTerminated_error_skips hparse
    obtain ⟨passed, hpassed⟩ := synchronized_skips mid cursor.ahead.length
    refine (hstart.trans (hskips.trans hpassed).toLeaves).consumes ?_
    have hfront : cursor.ahead = tokens ++ mid.ahead := hskips.ahead_eq
    by_cases hstays : mid.ahead.length = cursor.ahead.length
    · have hmid : mid.ahead ≠ [] := by
        rw [← List.length_pos_iff, hstays]
        exact List.length_pos_iff.mpr hne
      rw [← hstays]
      exact synchronized_length_lt hmid
    · have hlength := congrArg List.length hfront
      have hrest := congrArg List.length hpassed.ahead_eq
      rw [List.length_append] at hlength hrest
      omega

theorem parseGroup_consumes {items : List SourceItem} (hne : cursor.ahead ≠ [])
    (hrun : parseGroup cursor = .ok items later) : cursor.Consumes later :=
  recoverGroup_consumes hne (recoverGroup_of_parseGroup_ok hrun)

theorem recoverGroup_progress (h : cursor.Between dialect limit) (hne : cursor.ahead ≠ [])
    (hrun : recoverGroup cursor = .ok group later) :
    later.Between dialect limit ∧ later.ahead.length < cursor.ahead.length := by
  have hlength := (recoverGroup_consumes hne hrun).length_lt
  obtain ⟨tokens, comments, -, hleaves⟩ := recoverGroup_consumes hne hrun
  exact ⟨h.leaves hleaves, hlength⟩

/-- As many rounds as there are tokens are enough. The induction is on the rounds. -/
theorem repeatUpTo_recoverGroup_enough (h : cursor.Between dialect limit)
    (hn : cursor.ahead.length ≤ n) (hm : cursor.ahead.length ≤ m) :
    repeatUpTo (round? recoverGroup) n cursor = repeatUpTo (round? recoverGroup) m cursor := by
  induction n generalizing m cursor with
  | zero =>
    have hend : cursor.atEnd = true := by
      rw [Cursor.atEnd, List.isEmpty_iff, ← List.length_eq_zero_iff]
      omega
    rw [repeatUpTo_of_atEnd hend, repeatUpTo_of_atEnd hend]
  | succ n ih =>
    cases hend : cursor.atEnd with
    | true => rw [repeatUpTo_of_atEnd hend, repeatUpTo_of_atEnd hend]
    | false =>
      have hne : cursor.ahead ≠ [] := List.isEmpty_eq_false_iff.mp hend
      have hpos := List.length_pos_iff.mpr hne
      obtain ⟨m, rfl⟩ : ∃ k, m = k + 1 := ⟨m - 1, by omega⟩
      have hgroup := run_eq_outcome recoverGroup cursor
      obtain ⟨hlater, hlength⟩ := recoverGroup_progress h hne hgroup
      rw [repeatUpTo_of_ok hend hgroup, repeatUpTo_of_ok hend hgroup]
      have hmore := ih hlater (m := m) (by omega) (by omega)
      show EStateM.bind _ _ _ = EStateM.bind _ _ _
      rw [EStateM.bind, EStateM.bind, hmore]

theorem recovered_of_loop {groups : List (List SourceItem × List SyntaxError)}
    (h : repeatUpTo (round? recoverGroup) cursor.ahead.length cursor = .ok groups mid) :
    cursor.recovered = (groups.flatMap (·.1) ++ mid.leading, groups.flatMap (·.2)) := by
  have hrun : recover cursor =
      .ok (⟨groups.flatMap (·.1) ++ mid.leading⟩, groups.flatMap (·.2)) mid.atStatement := by
    rw [recover, bind_of_ok (rounds_of_ok h)]
    rfl
  rw [recovered, outcome_of_ok hrun]

/-- At the end only comments are left. -/
theorem recovered_of_atEnd (h : cursor.ahead = []) : cursor.recovered = (cursor.leading, []) := by
  have hend : cursor.atEnd = true := by rw [Cursor.atEnd, h]; rfl
  rw [recovered_of_loop (repeatUpTo_of_atEnd hend)]
  rfl

/-- What the first group is read as, and then what the rest is read as. -/
theorem recovered_of_group (h : cursor.Between dialect limit) (hne : cursor.ahead ≠ [])
    (hgroup : recoverGroup cursor = .ok group later) :
    cursor.recovered = (group.1 ++ later.recovered.1, group.2 ++ later.recovered.2) := by
  obtain ⟨hlater, hlength⟩ := recoverGroup_progress h hne hgroup
  have hend : cursor.atEnd = false := List.isEmpty_eq_false_iff.mpr hne
  obtain ⟨n, hn⟩ : ∃ n, cursor.ahead.length = n + 1 := ⟨cursor.ahead.length - 1, by omega⟩
  have hloop := run_eq_outcome (repeatUpTo (round? recoverGroup) later.ahead.length) later
  have henough := repeatUpTo_recoverGroup_enough hlater (n := n) (m := later.ahead.length)
    (by omega) (Nat.le_refl _)
  have hall : repeatUpTo (round? recoverGroup) cursor.ahead.length cursor =
      .ok (group :: ((repeatUpTo (round? recoverGroup) later.ahead.length).outcome later).1)
        ((repeatUpTo (round? recoverGroup) later.ahead.length).outcome later).2 := by
    rw [hn, repeatUpTo_of_ok hend hgroup, bind_of_ok (henough.trans hloop)]
    rfl
  rw [recovered_of_loop hall, recovered_of_loop hloop, List.flatMap_cons, List.flatMap_cons,
    List.append_assoc]

/-- Comments that are left over from what stands before come first. -/
theorem recovered_of_comments {early others : List Comment} (h : cursor.Between dialect limit)
    (hcomments : cursor.comments = early ++ others)
    (hearly : ∀ comment ∈ early, comment.span.start < cursor.current.span.start) :
    cursor.recovered =
      (early.map .comment ++ ({ cursor with comments := others } : Cursor).recovered.1,
        ({ cursor with comments := others } : Cursor).recovered.2) := by
  let bare : Cursor := { cursor with comments := others }
  have hbare : bare.Between dialect limit := h.leaves (.of_comments hcomments)
  have hall : ∀ comment ∈ early,
      decide (comment.span.start < cursor.current.span.start) = true :=
    fun comment hmem => decide_eq_true (hearly comment hmem)
  have hleading : cursor.leading = early.map .comment ++ bare.leading := by
    show (cursor.comments.takeWhile _).map SourceItem.comment = _
    rw [hcomments, List.takeWhile_append_of_pos hall, List.map_append]
    rfl
  have hstart : cursor.atStatement = bare.atStatement := by
    show ({ cursor with comments := cursor.comments.dropWhile _ } : Cursor) = _
    rw [hcomments, List.dropWhile_append_of_pos hall]
    rfl
  show _ = (early.map SourceItem.comment ++ bare.recovered.1, bare.recovered.2)
  by_cases hne : cursor.ahead = []
  · rw [recovered_of_atEnd hne, recovered_of_atEnd (show bare.ahead = [] from hne), hleading]
  · cases hparse : Statement.parseTerminated cursor.atStatement with
    | ok statement mid =>
      have hparse' := hparse
      rw [hstart] at hparse'
      rw [recovered_of_group h hne (recoverGroup_of_ok hparse),
        recovered_of_group hbare hne (recoverGroup_of_ok hparse'), hleading]
      simp only [List.append_assoc]
    | error error mid =>
      have hparse' := hparse
      rw [hstart] at hparse'
      have hsynchronized : mid.synchronized bare.ahead.length =
        mid.synchronized cursor.ahead.length := rfl
      rw [recovered_of_group h hne (recoverGroup_of_error hparse),
        recovered_of_group hbare hne (recoverGroup_of_error hparse'), hleading, hsynchronized]
      simp only [List.append_assoc]

end SourceFile
end EdgeQuery
