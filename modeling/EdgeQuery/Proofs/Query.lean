import EdgeQuery.Proofs.Layout
import EdgeQuery.Proofs.SourceFile

/-!
Which texts are expressions, and which are statements. A text is read as a tree exactly if its
tokens can be written for the tree and the tree takes no more nesting levels than there are.
-/

namespace EdgeQuery

open Cursor Parse Walk

namespace Cursor

variable {text : String} {dialect : Dialect} {limit : Nat} {cursor : Cursor}

theorem ofText_at (text : String) (dialect : Dialect) (limit : Nat) :
    (ofText text dialect limit).At dialect limit :=
  ⟨(ofText_between text dialect limit).genuine, rfl⟩

theorem kind_of_ahead_nil (h : cursor.ahead = []) : cursor.kind 0 = .endOfInput := by
  rw [kind, peek, h]
  rfl

end Cursor

namespace Parse

variable {α : Type} {parser : Parse α} {text : String} {dialect : Dialect} {limit : Nat} {value : α}

theorem run_eq_ok :
    parser.run text dialect limit = .ok value ↔
      ∃ later, parser (ofText text dialect limit) = .ok value later := by
  rw [run]
  cases parser (ofText text dialect limit) with
  | ok other later => simp
  | error error later => simp

theorem run_eq_error {error : SyntaxError} :
    parser.run text dialect limit = .error error ↔
      ∃ later, parser (ofText text dialect limit) = .error error later := by
  rw [run]
  cases parser (ofText text dialect limit) with
  | ok other later => simp
  | error other later => simp

theorem endOfInput_ok {cursor later : Cursor} (h : endOfInput cursor = .ok () later) :
    cursor.ahead = [] := by
  have h : (if cursor.atEnd then (pure () : Parse Unit) else expected [.endOfInput]) cursor =
    .ok () later := h
  split at h
  · next hend => exact List.isEmpty_iff.mp hend
  · cases h

theorem endOfInput_run {cursor : Cursor} (h : cursor.ahead = []) :
    endOfInput cursor = .ok () cursor := by
  have hend : cursor.atEnd = true := List.isEmpty_iff.mpr h
  show (if cursor.atEnd then (pure () : Parse Unit) else expected [.endOfInput]) cursor = _
  rw [if_pos hend]
  rfl

/-- The parser reads all tokens that are ahead, as this value. -/
def ReadsAll (parser : Parse α) (cursor : Cursor) (value : α) : Prop :=
  ∃ later, parser cursor = .ok value later ∧ later.ahead = []

/-- A parser for all there is succeeds exactly if the tokens end where the value does. -/
theorem single_run_eq_ok :
    (do let value ← parser; endOfInput; return value : Parse α).run text dialect limit =
        .ok value ↔
      parser.ReadsAll (ofText text dialect limit) value := by
  rw [run_eq_ok]
  constructor
  · rintro ⟨later, hrun⟩
    obtain ⟨value', mid, hfirst, hrest⟩ := bind_ok hrun
    obtain ⟨_, mid', hend, hpure⟩ := bind_ok hrest
    cases hpure
    exact ⟨mid, hfirst, endOfInput_ok hend⟩
  · rintro ⟨later, hrun, hend⟩
    refine ⟨later, ?_⟩
    rw [bind_of_ok hrun, bind_of_ok (endOfInput_run hend)]
    rfl

/-- What reads as it is written and is read back reads exactly the spellings of valid values. -/
theorem readsAll_iff {levels : Nat} {cursor : Cursor} {written : α → List Piece}
    {valid : α → Prop} {follow : Cursor → Prop}
    (hsound : parser.Sound dialect levels written valid)
    (hcomplete : parser.Completes dialect levels written valid follow)
    (hfollow : ∀ later : Cursor, later.ahead = [] → follow later)
    (hat : cursor.At dialect levels) :
    parser.ReadsAll cursor value ↔ Spells (written value) cursor.ahead ∧ valid value := by
  constructor
  · rintro ⟨later, hrun, hend⟩
    obtain ⟨tokens, hpass, -, hspells, hvalid⟩ := (hsound cursor hat).of_ok hrun
    have hahead := hpass.1
    rw [hend, List.append_nil] at hahead
    rw [hahead]
    exact ⟨hspells, hvalid⟩
  · rintro ⟨hspells, hvalid⟩
    obtain ⟨later, hpass, hend⟩ := exists_passes (List.append_nil cursor.ahead).symm
    exact ⟨later, hcomplete value _ _ _ hat hpass hspells hvalid (hfollow later hend), hend⟩

end Parse

/-- A text is an expression exactly if its tokens can be written for it and it fits the limit. -/
theorem Expr.parseSingle_run_iff {text : String} {dialect : Dialect} {limit : Nat} {e : Expr} :
    Expr.parseSingle.run text dialect limit = .ok e ↔
      Spells e.pieces (Cursor.ofText text dialect limit).ahead ∧ e.Fits dialect limit := by
  rw [Expr.parseSingle, single_run_eq_ok]
  show (Expr.parseRanked limit 0).ReadsAll _ e ↔ _
  refine readsAll_iff (Expr.parseRanked_zero_sound dialect limit)
    (Expr.parseRanked_zero_completes dialect limit) ?_ (ofText_at text dialect limit)
  intro later hend
  exact .of_endsExpr (by rw [kind_of_ahead_nil hend]; rfl)

/-- An expression that can be read is read back from its text. -/
theorem Expr.parseSingle_run_text {dialect : Dialect} {limit : Nat} {e : Expr}
    (hfits : e.Fits dialect limit) (hplain : ∀ piece ∈ e.pieces, piece.isComment = false)
    (hreadable : ∀ piece ∈ e.pieces, piece.Readable) :
    Expr.parseSingle.run e.text dialect limit = .ok e := by
  have hjoins := Piece.joins_of_adjoins e.laid.1 hreadable
  refine parseSingle_run_iff.mpr ⟨?_, hfits⟩
  rw [Expr.text, (ofText_join dialect limit hreadable hjoins).1]
  exact spells_tokens hplain dialect 0

/-- A text is a statement exactly if its tokens, without the semicolon behind them, can be written
for it and it fits the limit. -/
theorem Statement.parseSingle_run_iff {text : String} {dialect : Dialect} {limit : Nat}
    {s : Statement} :
    Statement.parseSingle.run text dialect limit = .ok s ↔
      s.Fits dialect limit ∧ ∃ front back,
        (Cursor.ofText text dialect limit).ahead = front ++ back ∧ Spells s.pieces front ∧
        (back = [] ∨ ∃ token, back = [token] ∧ token.kind = .symbol .semicolon) := by
  have hbetween := ofText_between text dialect limit
  rw [Statement.parseSingle, single_run_eq_ok]
  constructor
  · rintro ⟨later, hrun, hend⟩
    rw [Statement.parseTerminated_run] at hrun
    obtain ⟨tokens, hpass, -, hfits, front, back, rfl, hspells, hback⟩ :=
      (Statement.parseTerminated_reads hbetween).of_ok hrun
    have hahead := hpass.1
    rw [hend, List.append_nil] at hahead
    exact ⟨hfits, front, back, hahead, hspells, hback⟩
  · rintro ⟨hfits, front, back, hahead, hspells, hback⟩
    have hall : (Statement.start (Cursor.ofText text dialect limit)).ahead = front ++ back ++ [] :=
      hahead.trans (List.append_nil _).symm
    obtain ⟨later, hpass, hlater⟩ := exists_passes hall
    have hmark := kind_of_ahead_nil hlater
    have hrun := Statement.parseTerminated_complete hbetween hpass hspells hfits
      (hback.imp_left fun hnil => ⟨hnil, by rw [hmark]; rfl, by simp [hmark]⟩)
    exact ⟨later, hrun, hlater⟩

end EdgeQuery
