import Mathlib
import EdgeQuery.Proofs.SourceFile.Rounds
import EdgeQuery.Proofs.Statement.Lockstep
import EdgeQuery.Proofs.Token.Segment

/-!
Segments. A text that ends with a semicolon is read in the same way whatever stands behind it, and
what stands behind it is read as it is by itself, only at other places. A fault, an open delimiter
or deep nesting on one side of the semicolon makes no difference on the other side.
-/

namespace EdgeQuery

open Cursor Parse Walk

/-- The fault in a text that `k` bytes stand before. -/
def SyntaxError.shifted (error : SyntaxError) (k : Nat) : SyntaxError :=
  error.movedTo (error.span.shifted k)

/-- The item in a text that `k` bytes stand before. -/
def SourceItem.shifted (k : Nat) : SourceItem → SourceItem
  | .statement s => .statement s
  | .comment c => .comment (c.shifted k)

theorem takeWhile_map_append {α β : Type} {p : β → Bool} (f : α → β) (front : List α)
    {back : List β} (h : ∀ b ∈ back, p b = false) :
    (front.map f ++ back).takeWhile p = (front.takeWhile (p ∘ f)).map f ∧
      (front.map f ++ back).dropWhile p = (front.dropWhile (p ∘ f)).map f ++ back := by
  induction front with
  | nil => exact takeWhile_append_stop (by simp) fun b hb => h b (List.mem_of_mem_head? hb)
  | cons a front ih =>
    rw [List.map_cons, List.cons_append]
    by_cases ha : p (f a) = true
    · simp [ha, ih.1, ih.2]
    · simp [ha]

/-- What a text stands among within a longer one. -/
structure Placement where
  /-- The number of bytes before it. -/
  offset : Nat
  /-- The number of bytes that it takes itself. -/
  extent : Nat
  /-- The tokens behind it. -/
  tokens : List Token
  /-- The comments behind it. -/
  comments : List Comment
  /-- The size of the longer text. -/
  size : Nat

namespace Placement

/-- The text alone is compared with the text in its place. -/
def likeness (around : Placement) : Likeness :=
  ⟨fun left right => right = left + around.offset, around.tokens, False⟩

variable {around : Placement}

theorem spans_likeness {left right : Span} (h : around.likeness.Spans left right) :
    right = left.shifted around.offset := by
  obtain ⟨start, stop⟩ := right
  rw [show start = _ from h.start, show stop = _ from h.stop]
  rfl

theorem tokens_likeness {left right : Token} (h : around.likeness.Tokens left right) :
    right = left.shifted around.offset := by
  obtain ⟨kind, text, span⟩ := right
  rw [show kind = _ from h.kind_eq, show text = _ from h.text_eq,
    show span = _ from spans_likeness h.spans]
  rfl

theorem tokens_shifted (token : Token) :
    around.likeness.Tokens token (token.shifted around.offset) :=
  ⟨rfl, rfl, rfl, rfl⟩

theorem errors_likeness {left right : SyntaxError} (h : around.likeness.Errors left right) :
    right = left.shifted around.offset := by
  rw [h.eq_movedTo, spans_likeness h.spans]
  rfl

theorem forall₂_likeness {tokens front : List Token}
    (h : List.Forall₂ around.likeness.Tokens tokens front) :
    front = tokens.map (·.shifted around.offset) := by
  induction h with
  | nil => rfl
  | cons htoken _ ih => rw [tokens_likeness htoken, ih, List.map_cons]

/-- The left cursor stands in a text between two statements, and the right cursor at the same place
within the longer text. The part of the longer text that stands behind begins behind a semicolon. -/
structure Beside (around : Placement) (left right : Cursor) : Prop where
  ahead_eq : right.ahead = left.ahead.map (·.shifted around.offset) ++ around.tokens
  within : ∀ token ∈ left.ahead,
    token.span.start ≤ left.size ∧ token.span.stop ≤ left.size
  closed : around.tokens = [] ∧ right.size = left.size + around.offset ∨
    lastStop left.ahead left.behind = left.size ∧
      ∀ token ∈ left.ahead.getLast?, token.kind = .symbol .semicolon
  behind_eq : right.behind = left.behind + around.offset
  behind_le : left.behind ≤ left.size
  comments_eq : right.comments = left.comments.map (·.shifted around.offset) ++ around.comments
  later : ∀ comment ∈ around.comments, left.size + around.offset ≤ comment.span.start
  limit_eq : right.limit = left.limit
  extent_eq : left.size = around.extent
  size_eq : right.size = around.size

namespace Beside

section Steps

variable {left right left' right' : Cursor} {tokens tokens' : List Token}

/-- Passing the same tokens on both sides. -/
theorem skips (h : around.Beside left right) (hleft : left.Skips tokens left')
    (hright : right.Skips tokens' right')
    (hahead : right'.ahead = left'.ahead.map (·.shifted around.offset) ++ around.tokens)
    (hbehind : right'.behind = left'.behind + around.offset) : around.Beside left' right' := by
  have hmem : ∀ token ∈ tokens ++ left'.ahead, token.span.stop ≤ left.size := by
    rw [← hleft.ahead_eq]
    exact fun token htoken => (h.within token htoken).2
  have hstop (passed : List Token) (behind : Nat) (hbehind : behind ≤ left.size)
      (hpassed : ∀ token ∈ passed, token.span.stop ≤ left.size) :
      lastStop passed behind ≤ left.size := by
    induction passed generalizing behind with
    | nil => exact hbehind
    | cons token passed ih =>
      have htoken := List.forall_mem_cons.mp hpassed
      exact ih token.span.stop htoken.1 htoken.2
  have hcomments : left'.comments = left.comments := hleft.comments_eq.symm
  refine ⟨hahead, ?_, ?_, hbehind, ?_, ?_, ?_, ?_, ?_, ?_⟩
  · intro token htoken
    rw [hleft.size_eq]
    exact h.within token (hleft.ahead_eq ▸ List.mem_append_right _ htoken)
  · rw [hright.size_eq, hleft.size_eq, hleft.behind_eq]
    refine h.closed.imp_right ?_
    rintro ⟨hlast, hkind⟩
    rw [hleft.ahead_eq, lastStop_append] at hlast
    refine ⟨hlast, ?_⟩
    intro token htoken
    apply hkind token
    rw [hleft.ahead_eq, List.getLast?_append_of_ne_nil]
    · exact htoken
    · rintro hnil
      rw [hnil] at htoken
      cases htoken
  · rw [hleft.size_eq, hleft.behind_eq]
    exact hstop tokens left.behind h.behind_le (List.forall_mem_append.mp hmem).1
  · rw [hcomments, ← h.comments_eq]
    exact hright.comments_eq.symm
  · rw [hleft.size_eq]
    exact h.later
  · rw [hright.limit_eq, hleft.limit_eq]
    exact h.limit_eq
  · rw [hleft.size_eq]
    exact h.extent_eq
  · rw [hright.size_eq]
    exact h.size_eq

/-- As long as there are tokens left, the part that stands behind is behind a semicolon ahead. -/
theorem semicolon_ahead (h : around.Beside left right) (hne : left.ahead ≠ []) :
    around.tokens = [] ∧ right.size = left.size + around.offset ∨
      ∃ token ∈ left.ahead, token.kind = .symbol .semicolon := by
  refine h.closed.imp_right ?_
  rintro ⟨-, hkind⟩
  have hlast := List.getLast?_eq_getLast_of_ne_nil hne
  exact ⟨_, List.getLast_mem hne, hkind _ hlast⟩

theorem cursors (h : around.Beside left right) (hne : left.ahead ≠ []) :
    around.likeness.Cursors left.ahead.length (Statement.start left) (Statement.start right) := by
  refine ⟨⟨_, ?_, h.ahead_eq⟩, h.semicolon_ahead hne, .nil, h.behind_eq, Nat.le_refl _⟩
  apply List.forall₂_map_right_iff.mpr
  exact List.forall₂_same.mpr fun token _ => tokens_shifted token

theorem of_cursors {room : Nat} (h : around.Beside left right) (hleft : left.Skips tokens left')
    (hright : right.Skips tokens' right')
    (hcursors : around.likeness.Cursors room left' right') : around.Beside left' right' := by
  obtain ⟨front, hfront, hahead⟩ := hcursors.ahead
  rw [forall₂_likeness hfront] at hahead
  exact h.skips hleft hright hahead hcursors.behind

theorem current_eq (h : around.Beside left right) (hne : left.ahead ≠ []) :
    right.current = left.current.shifted around.offset := by
  obtain ⟨token, rest, hahead⟩ := List.exists_cons_of_ne_nil hne
  have hright := h.ahead_eq
  rw [hahead, List.map_cons, List.cons_append] at hright
  rw [Cursor.current, Cursor.current, peek_of_ahead hahead,
    peek_of_ahead hright]

theorem current_start_le (h : around.Beside left right) (hne : left.ahead ≠ []) :
    left.current.span.start ≤ left.size := by
  obtain ⟨token, rest, hahead⟩ := List.exists_cons_of_ne_nil hne
  rw [Cursor.current, peek_of_ahead hahead]
  exact (h.within token (hahead ▸ List.mem_cons_self)).1

theorem advanced (h : around.Beside left right) (hne : left.ahead ≠ []) :
    around.Beside left.advanced right.advanced := by
  obtain ⟨token, rest, hahead⟩ := List.exists_cons_of_ne_nil hne
  have hright := h.ahead_eq
  rw [hahead, List.map_cons, List.cons_append] at hright
  refine h.skips (.of_passes (.advanced hahead)) (.of_passes (.advanced hright)) ?_ ?_
  · rw [advanced_of_ahead hahead, advanced_of_ahead hright]
  · rw [advanced_of_ahead hahead, advanced_of_ahead hright]
    rfl

/-- The same comments are taken on both sides. -/
theorem droppingUpTo {offset : Nat} (h : around.Beside left right) (hle : offset ≤ left.size) :
    right.commentsUpTo (offset + around.offset) =
        (left.commentsUpTo offset).map (SourceItem.shifted around.offset) ∧
      around.Beside (left.droppingUpTo offset)
        (right.droppingUpTo (offset + around.offset)) := by
  have hearly : (fun comment : Comment => decide (comment.span.start < offset + around.offset)) ∘
      (Comment.shifted · around.offset) =
        fun comment => decide (comment.span.start < offset) := by
    funext comment
    exact decide_eq_decide.mpr (Nat.add_lt_add_iff_right)
  have hlate : ∀ comment ∈ around.comments,
      decide (comment.span.start < offset + around.offset) = false := by
    intro comment hmem
    have hcomment := h.later comment hmem
    exact decide_eq_false (by omega)
  obtain ⟨htake, hdrop⟩ := takeWhile_map_append (Comment.shifted · around.offset) left.comments
    hlate
  rw [hearly, ← h.comments_eq] at htake hdrop
  refine ⟨?_, { h with comments_eq := hdrop }⟩
  rw [commentsUpTo, commentsUpTo, htake, List.map_map, List.map_map]
  rfl

end Steps

section Groups

variable {left right : Cursor} {dialect : Dialect} {limit : Nat}

/-- A statement comes to the same on both sides. -/
theorem parseTerminated (h : around.Beside left right) (hleft : left.Between dialect limit)
    (hright : right.Between dialect limit) (hne : left.ahead ≠ []) :
    (∃ statement left' right', Statement.parseTerminated left = .ok statement left' ∧
      Statement.parseTerminated right = .ok statement right' ∧ around.Beside left' right') ∨
    ∃ error left' right', Statement.parseTerminated left = .error error left' ∧
      Statement.parseTerminated right = .error (error.shifted around.offset) right' ∧
      around.Beside left' right' ∧
      (around.tokens = [] ∨ ∃ token ∈ left'.ahead, token.kind = .symbol .semicolon) := by
  have hagree := Likeness.steps_parseAt (.refl limit) _ _ _ (h.cursors hne)
  have hleftReads := Statement.parseAt_sound dialect limit _ (Statement.start_at hleft)
  have hrightReads := Statement.parseAt_sound dialect limit _ (Statement.start_at hright)
  rw [Statement.parseTerminated_run, Statement.parseTerminated_run, hleft.limit_eq,
    hright.limit_eq]
  generalize hrunLeft : Statement.parseAt limit (Statement.start left) = resultLeft,
    hrunRight : Statement.parseAt limit (Statement.start right) = resultRight at hagree
  cases hagree with
  | @ok statement left' right' hcursors =>
    obtain ⟨tokens, hpass, -⟩ := hleftReads.of_ok hrunLeft
    obtain ⟨tokens', hpass', -⟩ := hrightReads.of_ok hrunRight
    have hmid : around.Beside left' right' :=
      h.of_cursors (Statement.Skips.of_start (.of_passes hpass))
        (Statement.Skips.of_start (.of_passes hpass')) hcursors
    rw [bind_of_ok hrunLeft, bind_of_ok hrunRight]
    by_cases hkind : left'.kind 0 = .symbol .semicolon
    · have hkind' := hcursors.kind_eq.trans hkind
      obtain ⟨token, rest, hahead, -⟩ := exists_ahead hkind (by simp)
      rw [bind_of_ok (eatSymbol_true hkind), bind_of_ok (eatSymbol_true hkind')]
      exact .inl ⟨statement, _, _, rfl, rfl, hmid.advanced (by simp [hahead])⟩
    · have hkind' : right'.kind 0 ≠ .symbol .semicolon := by
        rw [hcursors.kind_eq]
        exact hkind
      rw [bind_of_ok (eatSymbol_false hkind), bind_of_ok (eatSymbol_false hkind')]
      exact .inl ⟨statement, _, _, rfl, rfl, hmid⟩
  | @error error error' left' right' n herrors hcursors =>
    obtain ⟨tokens, hskips⟩ := Skips.of_strays (hleftReads.of_error hrunLeft)
    obtain ⟨tokens', hskips'⟩ := Skips.of_strays (hrightReads.of_error hrunRight)
    have hmid : around.Beside left' right' :=
      h.of_cursors (Statement.Skips.of_start hskips) (Statement.Skips.of_start hskips') hcursors
    rw [bind_of_error hrunLeft, bind_of_error hrunRight, errors_likeness herrors]
    exact .inr ⟨error, left', right', rfl, rfl, hmid, hcursors.closed.imp_left And.left⟩
  | tooDeep hfewer => exact hfewer.elim

theorem pastSemicolon_shifted {tokens : List Token} (behind : Nat)
    (h : around.tokens = [] ∨ ∃ token ∈ tokens, token.kind = .symbol .semicolon) :
    pastSemicolon (tokens.map (·.shifted around.offset) ++ around.tokens)
        (behind + around.offset) =
      ((pastSemicolon tokens behind).1.map (·.shifted around.offset) ++ around.tokens,
        (pastSemicolon tokens behind).2 + around.offset) := by
  induction tokens generalizing behind with
  | nil =>
    rcases h with h | ⟨token, hmem, -⟩
    · rw [h]
      rfl
    · cases hmem
  | cons token tokens ih =>
    have hkind : (token.shifted around.offset).kind = token.kind := rfl
    rw [List.map_cons, List.cons_append, pastSemicolon, pastSemicolon, hkind]
    by_cases hsemicolon : token.kind = .symbol .semicolon
    · rw [if_pos hsemicolon, if_pos hsemicolon]
      rfl
    · rw [if_neg hsemicolon, if_neg hsemicolon]
      refine ih token.span.stop (h.imp_right ?_)
      rintro ⟨other, hmem, hother⟩
      rcases List.mem_cons.mp hmem with rfl | hmem
      · exact absurd hother hsemicolon
      · exact ⟨other, hmem, hother⟩

/-- Behind a fault the same tokens are passed over on both sides. -/
theorem synchronized (h : around.Beside left right)
    (hsemicolon : around.tokens = [] ∨ ∃ token ∈ left.ahead, token.kind = .symbol .semicolon)
    (remaining : Nat) :
    around.Beside (left.synchronized remaining)
      (right.synchronized (remaining + around.tokens.length)) := by
  have hbehind {left right : Cursor} (h : around.Beside left right)
      (hsemicolon : around.tokens = [] ∨
        ∃ token ∈ left.ahead, token.kind = .symbol .semicolon) :
      around.Beside (SourceFile.behindSemicolon left) (SourceFile.behindSemicolon right) := by
    obtain ⟨tokens, hleft⟩ := SourceFile.behindSemicolon_skips left
    obtain ⟨tokens', hright⟩ := SourceFile.behindSemicolon_skips right
    have hpast := pastSemicolon_shifted left.behind hsemicolon
    rw [← h.ahead_eq, ← h.behind_eq] at hpast
    exact h.skips hleft hright (congrArg Prod.fst hpast) (congrArg Prod.snd hpast)
  rw [SourceFile.synchronized_eq, SourceFile.synchronized_eq]
  by_cases hne : left.ahead = []
  · have hright : right.ahead = [] := by
      rcases hsemicolon with htokens | ⟨token, hmem, -⟩
      · rw [h.ahead_eq, hne, htokens]
        rfl
      · rw [hne] at hmem
        cases hmem
    have hstay : left.advanced = left ∧ right.advanced = right := by
      rw [Cursor.advanced, Cursor.advanced, hne, hright]
      exact ⟨rfl, rfl⟩
    rw [hstay.1, hstay.2, ite_self, ite_self]
    exact hbehind h hsemicolon
  · have hkind : right.kind 0 = left.kind 0 := by
      show right.current.kind = left.current.kind
      rw [h.current_eq hne]
      rfl
    have hlength : decide (right.ahead.length = remaining + around.tokens.length) =
        decide (left.ahead.length = remaining) := by
      rw [h.ahead_eq, List.length_append, List.length_map]
      exact decide_eq_decide.mpr Nat.add_right_cancel_iff
    rw [hlength, Cursor.atSymbol, Cursor.atSymbol, hkind]
    split
    · next hpass =>
      obtain ⟨token, rest, hahead⟩ := List.exists_cons_of_ne_nil hne
      refine hbehind (h.advanced hne) (hsemicolon.imp_right ?_)
      rintro ⟨other, hmem, hother⟩
      rw [hahead] at hmem
      rw [advanced_of_ahead hahead]
      rcases List.mem_cons.mp hmem with rfl | hmem
      · rw [Cursor.kind, peek_of_ahead hahead, hother] at hpass
        simp at hpass
      · exact ⟨other, hmem, hother⟩
    · exact hbehind h hsemicolon

/-- A group comes to the same on both sides. -/
theorem recoverGroup (h : around.Beside left right) (hleft : left.Between dialect limit)
    (hright : right.Between dialect limit) (hne : left.ahead ≠ []) :
    ∃ items errors left' right', SourceFile.recoverGroup left = .ok (items, errors) left' ∧
      SourceFile.recoverGroup right =
        .ok (items.map (SourceItem.shifted around.offset), errors.map (·.shifted around.offset))
          right' ∧
      around.Beside left' right' := by
  obtain ⟨hleading, hstart⟩ := h.droppingUpTo (h.current_start_le hne)
  have hcurrent : right.current.span.start = left.current.span.start + around.offset :=
    congrArg (·.span.start) (h.current_eq hne)
  rw [← hcurrent] at hleading hstart
  rcases hstart.parseTerminated (hleft.droppingUpTo _) (hright.droppingUpTo _) hne with
    ⟨statement, left', right', hparse, hparse', hbeside⟩ |
    ⟨error, left', right', hparse, hparse', hbeside, hsemicolon⟩
  · obtain ⟨htrailing, hlater⟩ := hbeside.droppingUpTo hbeside.behind_le
    rw [← hbeside.behind_eq] at htrailing hlater
    refine ⟨_, _, _, _, SourceFile.recoverGroup_of_ok hparse,
      (SourceFile.recoverGroup_of_ok hparse').trans ?_, hlater⟩
    rw [Cursor.leading, hleading, htrailing, List.map_append]
    rfl
  · refine ⟨_, _, _, _, SourceFile.recoverGroup_of_error hparse,
      (SourceFile.recoverGroup_of_error hparse').trans ?_,
      hbeside.synchronized hsemicolon left.ahead.length⟩
    have hlength : right.ahead.length = left.ahead.length + around.tokens.length := by
      rw [h.ahead_eq, List.length_append, List.length_map]
    rw [Cursor.leading, hleading, hlength]
    rfl

/-- The text alone is read to its end, and so is the text in its place; then the rest follows. -/
theorem recovered (h : around.Beside left right) (hleft : left.Between dialect limit)
    (hright : right.Between dialect limit) :
    ∃ items errors left' right', left'.ahead = [] ∧ left'.Between dialect limit ∧
      right'.Between dialect limit ∧ around.Beside left' right' ∧
      left.recovered = (items ++ left'.recovered.1, errors ++ left'.recovered.2) ∧
      right.recovered =
        (items.map (SourceItem.shifted around.offset) ++ right'.recovered.1,
          errors.map (·.shifted around.offset) ++ right'.recovered.2) := by
  induction hn : left.ahead.length using Nat.strong_induction_on generalizing left right with
  | _ n ih =>
    by_cases hne : left.ahead = []
    · exact ⟨[], [], left, right, hne, hleft, hright, h, rfl, rfl⟩
    · have hne' : right.ahead ≠ [] := by
        rw [h.ahead_eq]
        simp [hne]
      obtain ⟨items, errors, mid, mid', hgroup, hgroup', hmid⟩ := h.recoverGroup hleft hright hne
      obtain ⟨hbetween, hlength⟩ := SourceFile.recoverGroup_progress hleft hne hgroup
      obtain ⟨hbetween', -⟩ := SourceFile.recoverGroup_progress hright hne' hgroup'
      obtain ⟨items', errors', left', right', hend, hleft', hright', hbeside, hrest, hrest'⟩ :=
        ih mid.ahead.length (hn ▸ hlength) hmid hbetween hbetween' rfl
      refine ⟨items ++ items', errors ++ errors', left', right', hend, hleft', hright', hbeside,
        ?_, ?_⟩
      · rw [SourceFile.recovered_of_group hleft hne hgroup, hrest, List.append_assoc,
          List.append_assoc]
      · rw [SourceFile.recovered_of_group hright hne' hgroup', hrest', List.map_append,
          List.map_append, List.append_assoc, List.append_assoc]

end Groups
end Beside
end Placement

namespace Cursor

/-- At the end all comments that are left are taken. -/
theorem recovered_eq_comments {dialect : Dialect} {limit : Nat} {cursor : Cursor}
    (h : cursor.Between dialect limit) (hahead : cursor.ahead = []) :
    cursor.recovered = (cursor.comments.map .comment, []) := by
  have hstart : cursor.current.span.start = cursor.size := by
    rw [current, peek, hahead]
    rfl
  have hall : ∀ comment ∈ cursor.comments,
      decide (comment.span.start < cursor.current.span.start) = true := by
    intro comment hmem
    rw [hstart]
    exact decide_eq_true (h.passed comment hmem).2
  rw [SourceFile.recovered_of_atEnd hahead, leading, commentsUpTo,
    List.takeWhile_eq_self_iff.mpr hall]

end Cursor

section Texts

variable {dialect : Dialect} {limit : Nat} {text more : String}

theorem Cursor.size_ofText (text : String) (dialect : Dialect) (limit : Nat) :
    (ofText text dialect limit).size = width text.toList := by
  show (Scanner.ofText text dialect).tokens.2.offset = _
  rw [(Scanner.tokens_atEnd _).2]
  exact Nat.zero_add _

theorem Cursor.within_ofText (text : String) (dialect : Dialect) (limit : Nat) :
    ∀ token ∈ (ofText text dialect limit).ahead,
      token.span.start ≤ (ofText text dialect limit).size ∧
        token.span.stop ≤ (ofText text dialect limit).size := by
  intro token hmem
  obtain ⟨-, hspan, hstop⟩ :=
    Scanner.tokens_within (Scanner.ofText text dialect) token (List.dropLast_subset _ hmem)
  have hsize : (ofText text dialect limit).size = (Scanner.ofText text dialect).extent :=
    (Scanner.tokens_atEnd _).2
  rw [hsize]
  exact ⟨Nat.le_trans hspan hstop, hstop⟩

/-- The first of two texts, followed by the second. -/
def Placement.first (text more : String) (dialect : Dialect) (limit : Nat) : Placement where
  offset := 0
  extent := width text.toList
  tokens := (ofText more dialect limit).ahead.map (·.shifted (width text.toList))
  comments := (ofText more dialect limit).comments.map (·.shifted (width text.toList))
  size := width more.toList + width text.toList

/-- The second of two texts, behind the first. -/
def Placement.second (text more : String) : Placement where
  offset := width text.toList
  extent := width more.toList
  tokens := []
  comments := []
  size := width more.toList + width text.toList

/-- Two texts with a semicolon between them have their tokens and comments one after the other. -/
theorem Cursor.ofText_append (limit : Nat) (more : String) (hends : EndsSegment text.toList)
    (h : (Scanner.ofText text dialect).ClosedBySemicolon) :
    ofText (text ++ more) dialect limit =
      { ofText text dialect limit with
        ahead := (ofText text dialect limit).ahead ++
          (ofText more dialect limit).ahead.map (·.shifted (width text.toList))
        size := width more.toList + width text.toList
        comments := (ofText text dialect limit).comments ++
          (ofText more dialect limit).comments.map (·.shifted (width text.toList)) } := by
  obtain ⟨ahead, htokens, -⟩ := Scanner.tokens_eq (Scanner.ofText more dialect)
  have hoffset : (Scanner.ofText more dialect).tokens.2.offset = width more.toList :=
    size_ofText more dialect limit
  have hahead : (ofText more dialect limit).ahead = ahead := by
    show (Scanner.ofText more dialect).tokens.1.dropLast = ahead
    rw [htokens, List.dropLast_concat]
  rw [ofText, Scanner.tokens_append more hends h, hahead, htokens, ← hoffset]
  simp only [List.map_append, List.map_cons, List.map_nil, ← List.append_assoc,
    List.dropLast_concat]
  rfl

theorem Placement.Beside.first (limit : Nat) (more : String) (hends : EndsSegment text.toList)
    (h : (Scanner.ofText text dialect).ClosedBySemicolon) :
    (Placement.first text more dialect limit).Beside (ofText text dialect limit)
      (ofText (text ++ more) dialect limit) := by
  have hsize := size_ofText text dialect limit
  have hextent : (Scanner.ofText text dialect).extent = width text.toList := Nat.zero_add _
  rw [ofText_append limit more hends h]
  obtain ⟨token, hlast, hkind, hstop⟩ := h
  refine ⟨?_, within_ofText text dialect limit, .inr ⟨?_, ?_⟩, rfl, Nat.zero_le _, ?_, ?_, rfl,
    hsize, rfl⟩
  · exact congrArg (· ++ _) (List.map_id' _).symm
  · obtain ⟨front, hfront⟩ := List.getLast?_eq_some_iff.mp hlast
    have hahead : (ofText text dialect limit).ahead = front ++ [token] := hfront
    rw [hahead, lastStop_append, hsize, ← hextent]
    exact hstop
  · intro other hother
    obtain rfl : other = token := Option.some.inj (hother.symm.trans hlast)
    exact hkind
  · exact congrArg (· ++ _) (List.map_id' _).symm
  · intro comment hmem
    obtain ⟨original, -, rfl⟩ := List.mem_map.mp hmem
    rw [hsize]
    exact Nat.le_add_left _ _

theorem Placement.Beside.second {cursor : Cursor}
    (hahead : cursor.ahead =
      (ofText more dialect limit).ahead.map (·.shifted (width text.toList)))
    (hcomments : cursor.comments =
      (ofText more dialect limit).comments.map (·.shifted (width text.toList)))
    (hbehind : cursor.behind = width text.toList)
    (hsize : cursor.size = width more.toList + width text.toList)
    (hlimit : cursor.limit = limit) :
    (Placement.second text more).Beside (ofText more dialect limit) cursor := by
  have hextent := size_ofText more dialect limit
  refine ⟨?_, within_ofText more dialect limit, .inl ⟨rfl, ?_⟩, ?_, Nat.zero_le _, ?_, ?_, hlimit,
    hextent, hsize⟩
  · rw [hahead]
    exact (List.append_nil _).symm
  · rw [hsize, hextent]
    rfl
  · rw [hbehind]
    exact (Nat.zero_add _).symm
  · rw [hcomments]
    exact (List.append_nil _).symm
  · exact fun comment hmem => nomatch hmem

theorem map_comment_shifted (k : Nat) (comments : List Comment) :
    (comments.map (·.shifted k)).map SourceItem.comment =
      (comments.map SourceItem.comment).map (SourceItem.shifted k) := by
  rw [List.map_map, List.map_map]
  rfl

/-- The second text is read in its place as it is by itself. -/
theorem Placement.Beside.recovered_second {left right : Cursor}
    (h : (Placement.second text more).Beside left right) (hleft : left.Between dialect limit)
    (hright : right.Between dialect limit) :
    right.recovered = (left.recovered.1.map (SourceItem.shifted (width text.toList)),
      left.recovered.2.map (·.shifted (width text.toList))) := by
  obtain ⟨items, errors, left', right', hend, hleft', hright', hbeside, hrest, hrest'⟩ :=
    h.recovered hleft hright
  have hend' : right'.ahead = [] := by
    rw [hbeside.ahead_eq, hend]
    rfl
  have hcomments : right'.comments = left'.comments.map (·.shifted (width text.toList)) :=
    hbeside.comments_eq.trans (List.append_nil _)
  rw [hrest, hrest', recovered_eq_comments hleft' hend, recovered_eq_comments hright' hend',
    hcomments, map_comment_shifted, List.append_nil, List.append_nil, List.map_append]
  rfl

theorem map_shifted_zero (items : List SourceItem) (errors : List SyntaxError) :
    items.map (SourceItem.shifted 0) = items ∧ errors.map (·.shifted 0) = errors := by
  have hitem (item : SourceItem) : item.shifted 0 = item := by cases item <;> rfl
  have herror (error : SyntaxError) : error.shifted 0 = error := error.movedTo_span
  exact ⟨List.map_id'' hitem items, List.map_id'' herror errors⟩

/-- The first text is read as it is by itself, then what stands behind it. -/
theorem Cursor.recovered_append (limit : Nat) (more : String) (hends : EndsSegment text.toList)
    (h : (Scanner.ofText text dialect).ClosedBySemicolon) :
    (ofText (text ++ more) dialect limit).recovered =
      ((ofText text dialect limit).recovered.1 ++
          (ofText more dialect limit).recovered.1.map (SourceItem.shifted (width text.toList)),
        (ofText text dialect limit).recovered.2 ++
          (ofText more dialect limit).recovered.2.map (·.shifted (width text.toList))) := by
  have hmore := ofText_between more dialect limit
  obtain ⟨items, errors, left, right, hend, hleft, hright, hbeside, hrest, hrest'⟩ :=
    (Placement.Beside.first limit more hends h).recovered (ofText_between text dialect limit)
      (ofText_between (text ++ more) dialect limit)
  have hahead : right.ahead =
      (ofText more dialect limit).ahead.map (·.shifted (width text.toList)) := by
    rw [hbeside.ahead_eq, hend]
    rfl
  have hcomments : right.comments = left.comments ++
      (ofText more dialect limit).comments.map (·.shifted (width text.toList)) :=
    hbeside.comments_eq.trans (congrArg (· ++ _) (List.map_id' _))
  -- The comments that the first text has left over come before all that the second text has.
  have hsecond : right.recovered = (left.comments.map .comment ++
        (ofText more dialect limit).recovered.1.map (SourceItem.shifted (width text.toList)),
      (ofText more dialect limit).recovered.2.map (·.shifted (width text.toList))) := by
    by_cases hnil : (ofText more dialect limit).ahead = []
    · have hnil' : right.ahead = [] := by rw [hahead, hnil, List.map_nil]
      rw [recovered_eq_comments hright hnil', recovered_eq_comments hmore hnil, hcomments,
        List.map_append, map_comment_shifted]
      rfl
    · obtain ⟨token, rest, htoken⟩ := List.exists_cons_of_ne_nil hnil
      have hearly : ∀ comment ∈ left.comments, comment.span.start < right.current.span.start := by
        intro comment hmem
        have hpassed := (hleft.passed comment hmem).2
        rw [hbeside.extent_eq] at hpassed
        rw [htoken, List.map_cons] at hahead
        rw [Cursor.current, peek_of_ahead hahead]
        exact Nat.lt_of_lt_of_le hpassed (Nat.le_add_left _ _)
      have hbehind : right.behind = width text.toList := by
        rcases hbeside.closed with ⟨hnone, -⟩ | ⟨hlast, -⟩
        · exact absurd (List.map_eq_nil_iff.mp hnone) hnil
        · rw [hend] at hlast
          exact hbeside.behind_eq.trans (hlast.trans hbeside.extent_eq)
      have hbare : (Placement.second text more).Beside (ofText more dialect limit)
          { right with comments :=
            (ofText more dialect limit).comments.map (·.shifted (width text.toList)) } :=
        .second hahead rfl hbehind hbeside.size_eq hright.limit_eq
      have hbetween := hright.leaves (.of_comments hcomments)
      rw [SourceFile.recovered_of_comments hright hcomments hearly,
        hbare.recovered_second hmore hbetween]
  obtain ⟨hitems, herrors⟩ := map_shifted_zero items errors
  rw [hrest, hrest', hsecond, recovered_eq_comments hleft hend, List.append_nil,
    show (Placement.first text more dialect limit).offset = 0 from rfl, hitems, herrors,
    List.append_assoc]

end Texts

/-- Reading past the faults goes on behind a semicolon as if the text began there: the items and the
faults of the text up to the semicolon come first, then those of the text behind it, and only the
places of the latter differ from those that they have in that text by itself. -/
theorem SourceFile.recoverText_append (text more : String) (dialect : Dialect)
    (h : (Scanner.ofText (text ++ ";") dialect).ClosedBySemicolon) :
    recoverText (text ++ ";" ++ more) dialect =
      (⟨(recoverText (text ++ ";") dialect).1.items ++
          (recoverText more dialect).1.items.map
            (SourceItem.shifted (width (text ++ ";").toList))⟩,
        (recoverText (text ++ ";") dialect).2 ++
          (recoverText more dialect).2.map (·.shifted (width (text ++ ";").toList))) := by
  have hends : EndsSegment (text ++ ";").toList := by
    rw [EndsSegment, String.toList_append]
    exact List.getLast?_concat
  have hfile (text : String) : recoverText text dialect =
    (⟨(Cursor.ofText text dialect nestingLimit).recovered.1⟩,
      (Cursor.ofText text dialect nestingLimit).recovered.2) := rfl
  rw [hfile, Cursor.recovered_append nestingLimit more hends h]
  rfl

set_option maxRecDepth 8192 in
/-- A parenthesis that is open before the semicolon is not open behind it. -/
theorem SourceFile.recoverText_append_open :
    (Scanner.ofText ("( /* open */" ++ ";") .strict).ClosedBySemicolon ∧
      recoverText ("( /* open */" ++ ";" ++ "1 # one") .strict =
        (⟨[.comment ⟨"/* open */", ⟨2, 12⟩⟩, .statement (.value (.literal (.number 1))),
          .comment ⟨"# one", ⟨15, 20⟩⟩]⟩,
          [.unexpected [.expression] (.symbol .semicolon) ⟨12, 13⟩]) := by
  have hfirst : recoverText ("( /* open */" ++ ";") .strict =
      (⟨[.comment ⟨"/* open */", ⟨2, 12⟩⟩]⟩,
        [.unexpected [.expression] (.symbol .semicolon) ⟨12, 13⟩]) := by cbv
  have hsecond : recoverText "1 # one" .strict =
      (⟨[.statement (.value (.literal (.number 1))), .comment ⟨"# one", ⟨2, 7⟩⟩]⟩, []) := by cbv
  have hlast : (Scanner.ofText ("( /* open */" ++ ";") .strict).tokens.1.dropLast.getLast? =
      some ⟨.symbol .semicolon, ";", ⟨12, 13⟩⟩ := by cbv
  have hclosed : (Scanner.ofText ("( /* open */" ++ ";") .strict).ClosedBySemicolon :=
    ⟨_, hlast, rfl, by cbv⟩
  refine ⟨hclosed, ?_⟩
  rw [recoverText_append _ _ _ hclosed, hfirst, hsecond]
  rfl

end EdgeQuery
