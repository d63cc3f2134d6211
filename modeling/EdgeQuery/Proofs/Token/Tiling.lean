import EdgeQuery.Proofs.Token.Segment
import EdgeQuery.Proofs.Token.Tile
import Mathlib.Data.List.Pairwise

/-!
Tokens and comments account for every character of a text. Their spans are not empty, lie apart and
begin and end between characters, each shows the text that stands there, and outside them the text
is blank.
-/

namespace EdgeQuery

namespace Span

/-- The span ends before the other begins. -/
def Before (span other : Span) : Prop :=
  span.stop ≤ other.start

/-- The spans have no offset in common. -/
def Apart (span other : Span) : Prop :=
  span.Before other ∨ other.Before span

/-- The offset lies in the span. -/
def Holds (span : Span) (offset : Nat) : Prop :=
  span.start ≤ offset ∧ offset < span.stop

/-- The span is the place in the text at which `part` is written, from the beginning of a character
to the end of one. -/
def Marks (span : Span) (text part : String) : Prop :=
  ∃ front back, text = front ++ part ++ back ∧
    span = ⟨front.utf8ByteSize, (front ++ part).utf8ByteSize⟩

end Span

/-- Tokens and comments that together account for a text. -/
structure Tiling (text : String) (tokens : List Token) (comments : List Comment) : Prop where
  token_extent : ∀ token ∈ tokens,
    token.span.start < token.span.stop ∧ token.span.stop ≤ text.utf8ByteSize
  comment_extent : ∀ comment ∈ comments,
    comment.span.start < comment.span.stop ∧ comment.span.stop ≤ text.utf8ByteSize
  token_marks : ∀ token ∈ tokens, token.span.Marks text token.text
  comment_marks : ∀ comment ∈ comments, comment.span.Marks text comment.text
  tokens_inOrder : tokens.Pairwise fun token other => token.span.Before other.span
  comments_inOrder : comments.Pairwise fun comment other => comment.span.Before other.span
  apart : ∀ token ∈ tokens, ∀ comment ∈ comments, token.span.Apart comment.span
  blank_outside : ∀ front c back, text = front ++ String.singleton c ++ back →
    (∀ token ∈ tokens, ¬ token.span.Holds front.utf8ByteSize) →
    (∀ comment ∈ comments, ¬ comment.span.Holds front.utf8ByteSize) → Text.isBlank c

theorem utf8ByteSize_ofList (chars : List Char) :
    (String.ofList chars).utf8ByteSize = width chars := by
  induction chars with
  | nil => rfl
  | cons c chars ih =>
    have hcons : String.ofList (c :: chars) = String.singleton c ++ String.ofList chars := by
      rw [← String.toList_inj]
      simp
    rw [hcons, String.utf8ByteSize_append, String.utf8ByteSize_singleton, ih, width_cons]

theorem utf8ByteSize_eq (text : String) : text.utf8ByteSize = width text.toList := by
  rw [← utf8ByteSize_ofList, String.ofList_toList]

/-- A token takes characters and ends behind the last of them. -/
theorem Tiling.exists_end {text : String} {tokens : List Token} {comments : List Comment}
    (h : Tiling text tokens comments) {token : Token} (hmem : token ∈ tokens) :
    ∃ front back, text.toList = front ++ back ∧ token.span.start < width front ∧
      width front = token.span.stop := by
  obtain ⟨front, back, htext, hspan⟩ := h.token_marks token hmem
  have hextent := (h.token_extent token hmem).1
  have hwidth : width (front ++ token.text).toList = token.span.stop := by
    rw [← utf8ByteSize_eq, hspan]
  refine ⟨(front ++ token.text).toList, back.toList, ?_, ?_, hwidth⟩
  · rw [htext, String.toList_append]
  · rwa [hwidth]

namespace Tile

variable {offset : Nat} {tiles : List Tile} {dialect : Dialect}

theorem Genuine.chars_ne_nil {tile : Tile} (h : tile.Genuine dialect) : tile.chars ≠ [] := by
  cases tile with
  | blank c => exact List.cons_ne_nil c []
  | comment chars =>
    obtain ⟨c, tail, rfl, -⟩ := CommentScan.exists_cons_of_isComment h
    exact List.cons_ne_nil c tail
  | token kind chars =>
    rcases h with ⟨rest, c, tail, rfl, -⟩ | ⟨-, hne⟩
    · exact List.cons_ne_nil c tail
    · exact hne

/-- A tile stands behind the tiles before it and in front of those after it. -/
theorem exists_of_mem_placed {tile : Tile} {span : Span} (h : (tile, span) ∈ placed offset tiles) :
    ∃ front back, joined tiles = front ++ tile.chars ++ back ∧
      span = ⟨offset + width front, offset + width (front ++ tile.chars)⟩ := by
  induction tiles generalizing offset with
  | nil => cases h
  | cons first tiles ih =>
    rcases List.mem_cons.mp h with heq | hmem
    · obtain ⟨rfl, rfl⟩ := Prod.mk.inj heq
      exact ⟨[], joined tiles, rfl, rfl⟩
    · obtain ⟨front, back, hjoined, hspan⟩ := ih hmem
      refine ⟨first.chars ++ front, back, ?_, ?_⟩
      · rw [joined_cons, hjoined]
        simp only [List.append_assoc]
      · rw [hspan]
        simp only [width_append, Nat.add_assoc]

theorem mem_of_mem_placed {tile : Tile} {span : Span} (h : (tile, span) ∈ placed offset tiles) :
    tile ∈ tiles := by
  induction tiles generalizing offset with
  | nil => cases h
  | cons first tiles ih =>
    rcases List.mem_cons.mp h with heq | hmem
    · exact List.mem_cons.mpr (.inl (Prod.mk.inj heq).1)
    · exact List.mem_cons_of_mem first (ih hmem)

theorem placed_inOrder (offset : Nat) (tiles : List Tile) :
    (placed offset tiles).Pairwise fun tile other => tile.2.Before other.2 := by
  induction tiles generalizing offset with
  | nil => exact .nil
  | cons first tiles ih =>
    refine .cons ?_ (ih _)
    rintro ⟨tile, span⟩ hmem
    obtain ⟨front, back, -, rfl⟩ := exists_of_mem_placed hmem
    exact Nat.le_add_right _ _

/-- Every character of the text belongs to a tile. -/
theorem exists_mem_placed {front back : List Char} {c : Char}
    (h : joined tiles = front ++ c :: back) :
    ∃ tile span, (tile, span) ∈ placed offset tiles ∧ c ∈ tile.chars ∧
      span.Holds (offset + width front) := by
  induction tiles generalizing offset front with
  | nil => simp at h
  | cons tile tiles ih =>
    rcases List.append_eq_append_iff.mp h with ⟨skipped, rfl, hlater⟩ | ⟨taken, hchars, hlater⟩
    · obtain ⟨other, span, hmem, hc, hholds⟩ := ih hlater
      rw [width_append, ← Nat.add_assoc]
      exact ⟨other, span, List.mem_cons_of_mem _ hmem, hc, hholds⟩
    · cases taken with
      | nil =>
        -- The character is the first of the later tiles.
        rw [List.append_nil] at hchars
        have hlater : joined tiles = [] ++ c :: back := hlater.symm
        obtain ⟨other, span, hmem, hc, hholds⟩ := ih hlater
        rw [← hchars]
        exact ⟨other, span, List.mem_cons_of_mem _ hmem, hc, hholds⟩
      | cons d taken =>
        obtain ⟨rfl, -⟩ := List.cons.inj hlater
        refine ⟨tile, _, List.mem_cons_self, by simp [hchars], Nat.le_add_right _ _, ?_⟩
        have hpos := c.utf8Size_pos
        show offset + width front < offset + width tile.chars
        rw [hchars, width_append, width_cons]
        omega

/-- The place of a tile is where its characters are written, and they are not none. -/
theorem marks_of_mem_placed {tile : Tile} {span : Span} {text : String}
    (hall : ∀ tile ∈ tiles, tile.Genuine dialect) (hjoined : joined tiles = text.toList)
    (h : (tile, span) ∈ placed 0 tiles) :
    (span.start < span.stop ∧ span.stop ≤ text.utf8ByteSize) ∧
      span.Marks text (String.ofList tile.chars) := by
  obtain ⟨front, back, hsplit, rfl⟩ := exists_of_mem_placed h
  have hne := (hall tile (mem_of_mem_placed h)).chars_ne_nil
  have hpos : 0 < width tile.chars := Nat.pos_of_ne_zero (mt eq_nil_of_width_eq_zero hne)
  have hsize : text.utf8ByteSize = width (front ++ tile.chars) + width back := by
    rw [utf8ByteSize_eq, ← hjoined, hsplit, width_append]
  rw [Nat.zero_add, Nat.zero_add]
  refine ⟨⟨?_, ?_⟩, String.ofList front, String.ofList back, ?_, ?_⟩
  · rw [width_append]
    exact Nat.lt_add_of_pos_right hpos
  · rw [hsize]
    exact Nat.le_add_right _ _
  · rw [← String.toList_inj, ← hjoined, hsplit]
    simp
  · rw [← String.ofList_append, utf8ByteSize_ofList, utf8ByteSize_ofList]

theorem exists_of_mem_tokens {token : Token} (h : token ∈ tokens offset tiles) :
    ∃ kind chars, (Tile.token kind chars, token.span) ∈ placed offset tiles ∧
      token = ⟨kind, String.ofList chars, token.span⟩ := by
  obtain ⟨⟨tile, span⟩, hmem, htoken⟩ := List.mem_filterMap.mp h
  cases tile with
  | token kind chars =>
    obtain rfl := Option.some.inj htoken
    exact ⟨kind, chars, hmem, rfl⟩
  | _ => cases htoken

theorem exists_of_mem_comments {comment : Comment} (h : comment ∈ comments offset tiles) :
    ∃ chars, (Tile.comment chars, comment.span) ∈ placed offset tiles ∧
      comment = ⟨String.ofList chars, comment.span⟩ := by
  obtain ⟨⟨tile, span⟩, hmem, hcomment⟩ := List.mem_filterMap.mp h
  cases tile with
  | comment chars =>
    obtain rfl := Option.some.inj hcomment
    exact ⟨chars, hmem, rfl⟩
  | _ => cases hcomment

theorem tokens_inOrder (offset : Nat) (tiles : List Tile) :
    (tokens offset tiles).Pairwise fun token other => token.span.Before other.span := by
  refine List.Pairwise.filterMap token? ?_ (placed_inOrder offset tiles)
  rintro ⟨tile, span⟩ ⟨other, later⟩ hbefore token htoken token' htoken'
  cases tile <;> cases htoken
  cases other <;> cases htoken'
  exact hbefore

theorem comments_inOrder (offset : Nat) (tiles : List Tile) :
    (comments offset tiles).Pairwise fun comment other => comment.span.Before other.span := by
  refine List.Pairwise.filterMap comment? ?_ (placed_inOrder offset tiles)
  rintro ⟨tile, span⟩ ⟨other, later⟩ hbefore comment hcomment comment' hcomment'
  cases tile <;> cases hcomment
  cases other <;> cases hcomment'
  exact hbefore

/-- Two tiles lie apart. -/
theorem apart_of_mem_placed {tile other : Tile × Span} (h : tile ∈ placed offset tiles)
    (hother : other ∈ placed offset tiles) (hne : tile ≠ other) : tile.2.Apart other.2 := by
  have hsymm : Std.Symm fun tile other : Tile × Span => tile.2.Apart other.2 :=
    ⟨fun _ _ => Or.symm⟩
  have hapart : (placed offset tiles).Pairwise fun tile other => tile.2.Apart other.2 :=
    (placed_inOrder offset tiles).imp Or.inl
  exact hapart.forall h hother hne

/-- Tiles account for the text that they make up. -/
theorem tiling {text : String} (hall : ∀ tile ∈ tiles, tile.Genuine dialect)
    (hjoined : joined tiles = text.toList) :
    Tiling text (tokens 0 tiles) (comments 0 tiles) where
  token_extent := by
    intro token hmem
    obtain ⟨kind, chars, hplaced, -⟩ := exists_of_mem_tokens hmem
    exact (marks_of_mem_placed hall hjoined hplaced).1
  comment_extent := by
    intro comment hmem
    obtain ⟨chars, hplaced, -⟩ := exists_of_mem_comments hmem
    exact (marks_of_mem_placed hall hjoined hplaced).1
  token_marks := by
    intro token hmem
    obtain ⟨kind, chars, hplaced, htoken⟩ := exists_of_mem_tokens hmem
    rw [htoken]
    exact (marks_of_mem_placed hall hjoined hplaced).2
  comment_marks := by
    intro comment hmem
    obtain ⟨chars, hplaced, hcomment⟩ := exists_of_mem_comments hmem
    rw [hcomment]
    exact (marks_of_mem_placed hall hjoined hplaced).2
  tokens_inOrder := tokens_inOrder 0 tiles
  comments_inOrder := comments_inOrder 0 tiles
  apart := by
    intro token htoken comment hcomment
    obtain ⟨kind, chars, hplaced, -⟩ := exists_of_mem_tokens htoken
    obtain ⟨chars', hplaced', -⟩ := exists_of_mem_comments hcomment
    exact apart_of_mem_placed hplaced hplaced' nofun
  blank_outside := by
    intro front c back htext htokens hcomments
    have hsplit : joined tiles = front.toList ++ c :: back.toList := by
      rw [hjoined, htext]
      simp
    obtain ⟨tile, span, hplaced, hc, hholds⟩ := exists_mem_placed hsplit
    rw [Nat.zero_add, ← utf8ByteSize_eq] at hholds
    cases tile with
    | blank d =>
      obtain rfl := List.mem_singleton.mp hc
      exact hall _ (mem_of_mem_placed hplaced)
    | comment chars =>
      exact absurd hholds (hcomments _ (List.mem_filterMap.mpr ⟨_, hplaced, rfl⟩))
    | token kind chars =>
      exact absurd hholds (htokens _ (List.mem_filterMap.mpr ⟨_, hplaced, rfl⟩))

end Tile

namespace Scanner

/-- What is handed out of a text accounts for all of it. -/
theorem exists_tiling (text : String) (dialect : Dialect) :
    ∃ tokens, (ofText text dialect).tokens.1 = tokens ++ [Token.atEnd text.utf8ByteSize] ∧
      Tiling text tokens (ofText text dialect).tokens.2.comments := by
  obtain ⟨tiles, tokens, htokens, hbetween⟩ := tokens_between (ofText text dialect)
  have hextent : (ofText text dialect).extent = text.utf8ByteSize := by
    rw [utf8ByteSize_eq]
    exact Nat.zero_add _
  have hcomments : (ofText text dialect).tokens.2.comments = Tile.comments 0 tiles :=
    hbetween.comments
  have hjoined : Tile.joined tiles = text.toList := by
    rw [← List.append_nil (Tile.joined tiles), ← (tokens_atEnd (ofText text dialect)).1]
    exact hbetween.rest
  refine ⟨tokens, by rw [htokens, hextent], ?_⟩
  rw [hcomments, ← hbetween.tokens]
  exact Tile.tiling hbetween.genuine hjoined

/-- Every text is scanned to the end, and what is handed out accounts for all of it. -/
theorem tokens_tile (text : String) (dialect : Dialect) :
    ∃ tokens, (ofText text dialect).tokens.1 = tokens ++ [Token.atEnd text.utf8ByteSize] ∧
      (∀ token ∈ tokens, token.kind ≠ .endOfInput) ∧
      Tiling text tokens (ofText text dialect).tokens.2.comments := by
  obtain ⟨tokens, htokens, htiling⟩ := exists_tiling text dialect
  obtain ⟨ahead, hahead, hgenuine⟩ := tokens_eq (ofText text dialect)
  obtain rfl : tokens = ahead := List.append_inj_left' (htokens.symm.trans hahead) rfl
  refine ⟨tokens, htokens, ?_, htiling⟩
  intro token hmem hend
  have hgenuine := hgenuine token hmem
  rw [Token.Genuine, hend] at hgenuine
  exact hgenuine

end Scanner
end EdgeQuery
