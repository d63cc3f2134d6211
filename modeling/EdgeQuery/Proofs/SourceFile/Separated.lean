import Mathlib
import EdgeQuery.Proofs.Fault
import EdgeQuery.Proofs.Position

/-!
The faults of a file stand apart. Each is at a token of its own, and behind every one of them, up to
the next, reading has come past a semicolon; so there are not many more faults than semicolons, and
they are reported in the order of their positions, no two at the same one.
-/

namespace EdgeQuery

open Cursor Parse Walk

def Token.isSemicolon (token : Token) : Bool :=
  token.kind = .symbol .semicolon

/-- The faults are at tokens, one behind another, with a semicolon between neighbours that may
itself be where the earlier one is. -/
inductive Parted : List Token → List SyntaxError → Prop
  | none (tokens : List Token) : Parted tokens []
  | last {tokens : List Token} {token : Token} {error : SyntaxError} : token ∈ tokens →
      error.span = token.span → Parted tokens [error]
  | next {front back : List Token} {token semicolon : Token} {error : SyntaxError}
      {errors : List SyntaxError} : token ∈ front ++ [semicolon] → error.span = token.span →
      semicolon.isSemicolon → Parted back errors →
      Parted (front ++ semicolon :: back) (error :: errors)

/-- Between the faults there is a semicolon among the tokens. -/
def SyntaxError.Apart (tokens : List Token) (error other : SyntaxError) : Prop :=
  ∃ token ∈ tokens, token.isSemicolon ∧
    error.span.start ≤ token.span.start ∧ token.span.stop ≤ other.span.start

namespace Parted

variable {front tokens : List Token} {errors : List SyntaxError}

/-- Tokens that stand before all faults. -/
theorem behind (h : Parted tokens errors) (front : List Token) :
    Parted (front ++ tokens) errors := by
  cases h with
  | none => exact .none _
  | last hmem hspan => exact .last (List.mem_append_right front hmem) hspan
  | @next front' back token semicolon error errors hmem hspan hkind hback =>
    rw [← List.append_assoc]
    refine .next ?_ hspan hkind hback
    rw [List.append_assoc]
    exact List.mem_append_right front hmem

theorem exists_token (h : Parted tokens errors) :
    ∀ error ∈ errors, ∃ token ∈ tokens, error.span = token.span := by
  induction h with
  | none => exact List.forall_mem_nil _
  | last hmem hspan => exact List.forall_mem_singleton.mpr ⟨_, hmem, hspan⟩
  | @next front back token semicolon error errors hmem hspan _ _ ih =>
    refine List.forall_mem_cons.mpr ⟨⟨token, ?_, hspan⟩, fun other hother => ?_⟩
    · rw [List.append_cons]
      exact List.mem_append_left back hmem
    · obtain ⟨found, hfound, hwhere⟩ := ih other hother
      exact ⟨found, List.mem_append_right front (List.mem_cons_of_mem semicolon hfound), hwhere⟩

/-- In tokens that stand in order, a semicolon lies between any two of the faults. -/
theorem pairwise_apart (h : Parted tokens errors)
    (horder : tokens.Pairwise fun token other => token.span.Before other.span)
    (hextent : ∀ token ∈ tokens, token.span.start ≤ token.span.stop) :
    errors.Pairwise (SyntaxError.Apart tokens) := by
  induction h with
  | none => exact .nil
  | last => exact List.pairwise_singleton _ _
  | @next front back token semicolon error errors hmem hspan hkind hback ih =>
    obtain ⟨-, hrest, hacross⟩ := List.pairwise_append.mp horder
    have hlater := List.pairwise_cons.mp hrest
    have hsub {other : Token} (hother : other ∈ back) : other ∈ front ++ semicolon :: back :=
      List.mem_append_right front (List.mem_cons_of_mem semicolon hother)
    have hfound : semicolon ∈ front ++ semicolon :: back :=
      List.mem_append_right front List.mem_cons_self
    -- The fault is at the semicolon or at a token before it.
    have hstart : error.span.start ≤ semicolon.span.start := by
      rw [hspan]
      rcases List.mem_append.mp hmem with hfront | hlast
      · have hbefore := hacross token hfront semicolon List.mem_cons_self
        exact (hextent token (List.mem_append_left _ hfront)).trans hbefore
      · rw [List.mem_singleton.mp hlast]
    refine List.pairwise_cons.mpr ⟨fun other hother => ?_, ?_⟩
    · obtain ⟨found, hwhere, heq⟩ := hback.exists_token other hother
      have hbefore := hlater.1 found hwhere
      exact ⟨semicolon, hfound, hkind, hstart, heq ▸ hbefore⟩
    · refine (ih hlater.2 fun other hother => hextent other (hsub hother)).imp ?_
      rintro earlier later ⟨found, hmem, hrest⟩
      exact ⟨found, hsub hmem, hrest⟩

/-- There is at most one fault more than there are semicolons. -/
theorem length_le (h : Parted tokens errors) :
    errors.length ≤ tokens.countP Token.isSemicolon + 1 := by
  induction h with
  | none => exact Nat.zero_le _
  | last => exact Nat.le_add_left 1 _
  | @next front back token semicolon error errors _ _ hkind _ ih =>
    rw [List.length_cons, List.countP_append, List.countP_cons_of_pos hkind]
    omega

/-- A fault and those behind it are parted where reading goes on behind a semicolon, or not at all.
-/
theorem fault {passed : List Token} {mid behind : Cursor} {error : SyntaxError}
    {token : Token} (htoken : token ∈ passed ∨ token = mid.current)
    (hspan : error.span = token.span) (hsize : behind.size = mid.size)
    (hparts : behind.ahead = [] ∨ ∃ front semicolon, semicolon.isSemicolon ∧
      mid.ahead = front ++ semicolon :: behind.ahead)
    (hnone : behind.ahead = [] → errors = [])
    (hmore : Parted (behind.ahead ++ [Token.atEnd behind.size]) errors) :
    Parted (passed ++ mid.ahead ++ [Token.atEnd mid.size]) (error :: errors) := by
  rcases hparts with hnil | ⟨front, semicolon, hkind, hmid⟩
  · rw [hnone hnil, List.append_assoc]
    refine .last ?_ hspan
    rcases htoken with hpassed | rfl
    · exact List.mem_append_left _ hpassed
    · exact List.mem_append_right passed (List.mem_of_getElem? mid.getElem?_current)
  · have hall : passed ++ mid.ahead ++ [Token.atEnd mid.size] =
        passed ++ front ++ semicolon :: (behind.ahead ++ [Token.atEnd behind.size]) := by
      rw [hmid, hsize]
      simp only [List.append_assoc, List.cons_append]
    rw [hall]
    refine .next ?_ hspan hkind hmore
    rw [List.append_assoc]
    rcases htoken with hpassed | rfl
    · exact List.mem_append_left _ hpassed
    · refine List.mem_append_right passed ?_
      rw [Cursor.current, Cursor.peek, hmid]
      cases front <;> exact List.mem_cons_self

end Parted

namespace SourceFile

variable {dialect : Dialect} {limit : Nat} {cursor : Cursor}

theorem exists_semicolon_of_pastSemicolon (tokens : List Token) (behind : Nat) :
    (pastSemicolon tokens behind).1 = [] ∨ ∃ front semicolon,
      semicolon.isSemicolon ∧
        tokens = front ++ semicolon :: (pastSemicolon tokens behind).1 := by
  induction tokens generalizing behind with
  | nil => exact .inl rfl
  | cons token tokens ih =>
    rw [pastSemicolon]
    split
    · next hkind => exact .inr ⟨[], token, decide_eq_true hkind, rfl⟩
    · refine (ih token.span.stop).imp_right ?_
      rintro ⟨front, semicolon, hkind, heq⟩
      exact ⟨token :: front, semicolon, hkind, by rw [List.cons_append, ← heq]⟩

/-- Past a fault, reading goes on behind a semicolon unless it has come to the end. -/
theorem exists_semicolon_of_synchronized (cursor : Cursor) (remaining : Nat) :
    (cursor.synchronized remaining).ahead = [] ∨ ∃ front semicolon,
      semicolon.isSemicolon ∧
        cursor.ahead = front ++ semicolon :: (cursor.synchronized remaining).ahead := by
  rw [synchronized_eq]
  split
  · refine (exists_semicolon_of_pastSemicolon cursor.advanced.ahead _).imp_right ?_
    rintro ⟨front, semicolon, hkind, heq⟩
    obtain ⟨tokens, hskips⟩ := advanced_skips cursor
    refine ⟨tokens ++ front, semicolon, hkind, ?_⟩
    rw [hskips.ahead_eq, List.append_assoc, heq]
    rfl
  · exact exists_semicolon_of_pastSemicolon cursor.ahead cursor.behind

/-- The faults that are found from a cursor on are parted. The induction is on the number of tokens
left, of which every round takes some. -/
theorem recovered_parted (h : cursor.Between dialect limit) :
    Parted (cursor.ahead ++ [Token.atEnd cursor.size]) cursor.recovered.2 := by
  induction hn : cursor.ahead.length using Nat.strong_induction_on generalizing cursor with
  | _ n ih =>
    subst hn
    by_cases hne : cursor.ahead = []
    · rw [recovered_of_atEnd hne]
      exact .none _
    have hstart := h.droppingUpTo cursor.current.span.start
    cases hrun : Statement.parseTerminated cursor.atStatement with
    | ok statement mid =>
      have hgroup := recoverGroup_of_ok hrun
      obtain ⟨hlater, hlength⟩ := recoverGroup_progress h hne hgroup
      obtain ⟨tokens, hskips, -, -⟩ := Statement.parseTerminated_skips_of_ok hstart hrun
      have hahead : cursor.ahead = tokens ++ mid.ahead := hskips.ahead_eq
      have hsize : mid.size = cursor.size := hskips.size_eq
      rw [recovered_of_group h hne hgroup, List.nil_append, hahead, ← hsize, List.append_assoc]
      exact (ih _ hlength hlater rfl).behind tokens
    | error error mid =>
      have hgroup := recoverGroup_of_error hrun
      obtain ⟨hlater, hlength⟩ := recoverGroup_progress h hne hgroup
      obtain ⟨passed, hclears, hcause⟩ :=
        (Statement.parseTerminated_explains hstart).of_error hrun
      obtain ⟨token, htoken, hspan⟩ := hcause.exists_span
      have hahead : cursor.ahead = passed ++ mid.ahead := hclears.ahead_eq
      have hsize : mid.size = cursor.size := hclears.size_eq
      have htokens : cursor.ahead ++ [Token.atEnd cursor.size] =
          passed ++ mid.ahead ++ [Token.atEnd mid.size] := by rw [hahead, hsize]
      obtain ⟨skipped, hskips⟩ := synchronized_skips mid cursor.ahead.length
      rw [recovered_of_group h hne hgroup, htokens]
      exact .fault htoken hspan hskips.size_eq
        (exists_semicolon_of_synchronized mid cursor.ahead.length)
        (fun hnil => by rw [recovered_of_atEnd hnil]; rfl) (ih _ hlength hlater rfl)

theorem recoverText_parted (text : String) (dialect : Dialect) :
    Parted (Scanner.ofText text dialect).tokens.1 (recoverText text dialect).2 := by
  rw [tokens_ofText text dialect nestingLimit]
  exact recovered_parted (ofText_between text dialect nestingLimit)

/-- A semicolon lies between any two faults of a text. -/
theorem recoverText_apart (text : String) (dialect : Dialect) :
    (recoverText text dialect).2.Pairwise
      (SyntaxError.Apart (Scanner.ofText text dialect).tokens.1) :=
  (recoverText_parted text dialect).pairwise_apart (Scanner.tokens_inOrder text dialect)
    fun _ => Scanner.start_le_stop

/-- A semicolon of a text ends where the character does that it is. -/
theorem exists_semicolon_end {text : String} {dialect : Dialect} {token : Token}
    (hmem : token ∈ (Scanner.ofText text dialect).tokens.1) (hkind : token.isSemicolon) :
    ∃ front back, text.toList = front ++ back ∧ token.span.start < width front ∧
      width front = token.span.stop := by
  obtain ⟨tokens, htokens, htiling⟩ := Scanner.exists_tiling text dialect
  rw [htokens] at hmem
  rcases List.mem_append.mp hmem with hmem | hmem
  · exact htiling.exists_end hmem
  · rw [List.mem_singleton.mp hmem] at hkind
    cases hkind

theorem start_lt_of_apart {text : String} {dialect : Dialect} {error other : SyntaxError}
    (h : error.Apart (Scanner.ofText text dialect).tokens.1 other) :
    error.span.start < other.span.start := by
  obtain ⟨token, hmem, hkind, hearlier, hlater⟩ := h
  obtain ⟨front, -, -, hstart, hstop⟩ := exists_semicolon_end hmem hkind
  omega

/-- Faults with a semicolon between them are at different positions, the earlier one first. -/
theorem position_precedes_of_apart {text : String} {dialect : Dialect} {error other : SyntaxError}
    (h : error.Apart (Scanner.ofText text dialect).tokens.1 other) :
    ((LineIndex.ofText text).position error.span.start).Precedes
      ((LineIndex.ofText text).position other.span.start) := by
  obtain ⟨token, hmem, hkind, hearlier, hlater⟩ := h
  obtain ⟨front, back, htext, hstart, hstop⟩ := exists_semicolon_end hmem hkind
  exact LineIndex.position_precedes htext (hearlier.trans_lt hstart) (hstop ▸ hlater)

end SourceFile

/-- Where a fault is reported. -/
def Diagnostic.position (diagnostic : Diagnostic) : Position :=
  ⟨diagnostic.line, diagnostic.column⟩

/-- The faults found in a text begin one behind the other, and between any two of them there is a
semicolon, which the earlier one does not begin behind and the later one does; so there is at most
one more than there are semicolons. They are reported by line and column in this order, and none is
reported twice. -/
theorem SourceFile.faults_apart (text : String) (dialect : Dialect) :
    let tokens := (Scanner.ofText text dialect).tokens.1
    let errors := (recoverText text dialect).2
    errors.Pairwise (fun error other => error.span.start < other.span.start) ∧
      errors.Pairwise (SyntaxError.Apart tokens) ∧
      errors.length ≤ tokens.countP Token.isSemicolon + 1 ∧
      ∀ name,
        ((Input.mk name text).check dialect).Pairwise (fun diagnostic other =>
          diagnostic.position.Precedes other.position) ∧
        ((Input.mk name text).check dialect).Nodup := by
  intro tokens errors
  have hparted : Parted tokens errors := recoverText_parted text dialect
  have hapart : errors.Pairwise (SyntaxError.Apart tokens) := recoverText_apart text dialect
  have hpositions (name : String) : ((Input.mk name text).check dialect).Pairwise
      fun diagnostic other => diagnostic.position.Precedes other.position :=
    List.pairwise_map.mpr (hapart.imp position_precedes_of_apart)
  refine ⟨hapart.imp start_lt_of_apart, hapart, hparted.length_le,
    fun name => ⟨hpositions name, (hpositions name).imp ?_⟩⟩
  rintro diagnostic _ hprecedes rfl
  exact Position.not_precedes_self _ hprecedes

end EdgeQuery
