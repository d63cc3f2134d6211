import EdgeQuery.Proofs.Position
import EdgeQuery.Proofs.Token.Tiling
import Mathlib

/-!
Positions count lines and characters, and keep the order of offsets. An offset has the position that
is counted in front of it, up to the last place between characters that it does not lie before. Of
two such places the earlier one has the earlier position, and so it is with tokens.
-/

namespace EdgeQuery

open Text

namespace Position

/-- One more than the line feeds of a text, and one more than the characters behind the last of
them. -/
def counted (front : List Char) : Position :=
  ⟨1 + front.count '\n', 1 + (front.rtakeWhile (· != '\n')).length⟩

/-- What is found character by character is what is counted. The induction is on the text, from its
end. -/
theorem behind_first (front : List Char) : first.behind front = counted front := by
  induction front using List.reverseRecOn with
  | nil => rfl
  | append_singleton front c ih =>
    rw [behind_concat, ih]
    by_cases hfeed : c = '\n'
    · rw [hfeed, after_feed, counted, counted, List.count_append, List.rtakeWhile_concat_neg]
      · rfl
      · simp
    · have hcount : (front ++ [c]).count '\n' = front.count '\n' := by
        rw [List.count_append, List.count_singleton, if_neg (by simpa using hfeed), Nat.add_zero]
      rw [after_of_ne hfeed, counted, counted, hcount, List.rtakeWhile_concat_pos,
        List.length_append]
      · rfl
      · simpa using hfeed

theorem Precedes.not_precedes {position other : Position} (h : position.Precedes other) :
    ¬ other.Precedes position :=
  fun hback => not_precedes_self position (h.trans hback)

theorem Precedes.ne {position other : Position} (h : position.Precedes other) :
    position ≠ other := by
  rintro rfl
  exact not_precedes_self position h

end Position

namespace LineIndex

variable {text : String} {dialect : Dialect}

/-- The characters that fit end at the last boundary that is not beyond the offset. -/
theorem isGreatest_fittingChars (chars : List Char) (offset : Nat) :
    IsGreatest {boundary | isBoundary chars boundary ∧ boundary ≤ min offset (width chars)}
      (width (fittingChars offset chars)) := by
  obtain ⟨hfits, rest, hrest, hnext⟩ := fittingChars_spec offset chars
  generalize fittingChars offset chars = front at hfits hrest hnext
  subst hrest
  have hcut : Cut (front ++ rest) (width front) rest := ⟨front, rfl, rfl⟩
  refine ⟨⟨hcut.isBoundary, Nat.le_min.mpr ⟨hfits, ?_⟩⟩, ?_⟩
  · rw [width_append]
    exact Nat.le_add_right _ _
  · rintro boundary ⟨hboundary, hle⟩
    obtain ⟨hoffset, hsize⟩ := Nat.le_min.mp hle
    by_contra hbeyond
    rw [Nat.not_le] at hbeyond
    cases rest with
    | nil =>
      rw [List.append_nil] at hsize
      omega
    | cons c rest =>
      have hinside := hnext c rfl
      rw [LineTable.isBoundary_eq_false hbeyond (by omega)] at hboundary
      cases hboundary

/-- The position of a boundary comes behind that of every offset before it. -/
theorem position_precedes_boundary {earlier later : Nat} (h : isBoundary text.toList later)
    (hlt : earlier < later) :
    ((ofText text).position earlier).Precedes ((ofText text).position later) := by
  obtain ⟨rest, hrest⟩ := Option.isSome_iff_exists.mp h
  obtain ⟨front, htext, rfl⟩ := behind?_eq_some_iff.mp hrest
  exact position_precedes htext hlt (Nat.le_refl _)

/-- Exactly the earlier one of two boundaries has the earlier position. -/
theorem position_precedes_iff {earlier later : Nat} (hearlier : isBoundary text.toList earlier)
    (hlater : isBoundary text.toList later) :
    ((ofText text).position earlier).Precedes ((ofText text).position later) ↔ earlier < later := by
  constructor
  · intro h
    by_contra hle
    rcases Nat.lt_or_eq_of_le (Nat.not_lt.mp hle) with hlt | rfl
    · exact h.not_precedes (position_precedes_boundary hearlier hlt)
    · exact Position.not_precedes_self _ h
  · exact position_precedes_boundary hlater

/-- The tokens of a text begin at positions in their order. -/
theorem tokens_precede (text : String) (dialect : Dialect) :
    (Scanner.ofText text dialect).tokens.1.Pairwise fun token other =>
      ((ofText text).position token.span.start).Precedes
        ((ofText text).position other.span.start) := by
  obtain ⟨tokens, htokens, htiling⟩ := Scanner.exists_tiling text dialect
  have hbefore {token : Token} {offset : Nat} (hmem : token ∈ tokens)
      (hstop : token.span.stop ≤ offset) :
      ((ofText text).position token.span.start).Precedes ((ofText text).position offset) := by
    obtain ⟨front, back, htext, hstart, hwidth⟩ := htiling.exists_end hmem
    exact position_precedes htext hstart (hwidth ▸ hstop)
  rw [htokens]
  refine List.pairwise_append.mpr ⟨?_, List.pairwise_singleton _ _, ?_⟩
  · exact htiling.tokens_inOrder.imp_of_mem fun hmem _ hstop => hbefore hmem hstop
  · intro token hmem mark hmark
    rw [List.mem_singleton.mp hmark]
    exact hbefore hmem (htiling.token_extent token hmem).2

/-- Positions tell tokens apart, and in which order they stand. -/
theorem tokens_position_iff {i j : Nat} {token other : Token}
    (hi : (Scanner.ofText text dialect).tokens.1[i]? = some token)
    (hj : (Scanner.ofText text dialect).tokens.1[j]? = some other) :
    (((ofText text).position token.span.start).Precedes
        ((ofText text).position other.span.start) ↔ i < j) ∧
      ((ofText text).position token.span.start = (ofText text).position other.span.start ↔
        i = j) := by
  have hlt {i j : Nat} {token other : Token}
      (hi : (Scanner.ofText text dialect).tokens.1[i]? = some token)
      (hj : (Scanner.ofText text dialect).tokens.1[j]? = some other) (hlt : i < j) :
      ((ofText text).position token.span.start).Precedes
        ((ofText text).position other.span.start) := by
    obtain ⟨hi', rfl⟩ := List.getElem?_eq_some_iff.mp hi
    obtain ⟨hj', rfl⟩ := List.getElem?_eq_some_iff.mp hj
    exact List.pairwise_iff_getElem.mp (tokens_precede text dialect) i j hi' hj' hlt
  rcases Nat.lt_trichotomy i j with h | rfl | h
  · have hprecedes := hlt hi hj h
    exact ⟨iff_of_true hprecedes h, iff_of_false hprecedes.ne (Nat.ne_of_lt h)⟩
  · obtain rfl := Option.some.inj (hi.symm.trans hj)
    exact ⟨iff_of_false (Position.not_precedes_self _) (Nat.lt_irrefl i), iff_of_true rfl rfl⟩
  · have hprecedes := hlt hj hi h
    exact ⟨iff_of_false hprecedes.not_precedes (Nat.lt_asymm h),
      iff_of_false hprecedes.ne.symm (Nat.ne_of_gt h)⟩

/-- The position of an offset is what is counted in front of the last boundary that lies neither
beyond the offset nor beyond the end; a table of the beginnings of lines gives the same. Boundaries
have positions in their order, and so have the tokens of a text, no two of which share one. -/
theorem position_counts (text : String) :
    let position := (ofText text).position
    (∀ offset, ∃ boundary front,
      IsGreatest {boundary | isBoundary text.toList boundary ∧
        boundary ≤ min offset text.utf8ByteSize} boundary ∧
      before? text.toList boundary = some front ∧ position offset = Position.counted front ∧
      (LineTable.ofText text).position? offset = some (Position.counted front)) ∧
    (∀ earlier later, isBoundary text.toList earlier → isBoundary text.toList later →
      ((position earlier).Precedes (position later) ↔ earlier < later)) ∧
    ∀ dialect (i j : Nat) (token other : Token),
      (Scanner.ofText text dialect).tokens.1[i]? = some token →
      (Scanner.ofText text dialect).tokens.1[j]? = some other →
      ((position token.span.start).Precedes (position other.span.start) ↔ i < j) ∧
        (position token.span.start = position other.span.start ↔ i = j) := by
  intro position
  refine ⟨fun offset => ?_, fun _ _ => position_precedes_iff, fun _ _ _ _ _ => tokens_position_iff⟩
  obtain ⟨-, rest, htext, -⟩ := fittingChars_spec offset text.toList
  have hposition : position offset = Position.counted (fittingChars offset text.toList) := by
    rw [← Position.behind_first]
    exact position_eq text offset
  refine ⟨width (fittingChars offset text.toList), fittingChars offset text.toList, ?_, ?_,
    hposition, ?_⟩
  · rw [utf8ByteSize_eq]
    exact isGreatest_fittingChars text.toList offset
  · exact before?_eq_some_iff.mpr ⟨rest, htext, rfl⟩
  · rw [LineTable.position?_eq]
    exact congrArg some hposition

/-- Boundaries and tokens on two lines, the first of which ends behind a letter of two bytes. -/
theorem position_counts_feed :
    let text := "é\n b"
    let position := (ofText text).position
    let letter : Token := ⟨.error (.invalidCharacter 'é'), "é", ⟨0, 2⟩⟩
    let name : Token := ⟨.identifier "b", "b", ⟨4, 5⟩⟩
    isBoundary text.toList 2 ∧ isBoundary text.toList 4 ∧
      ((position 2).Precedes (position 4) ↔ 2 < 4) ∧
      (Scanner.ofText text .strict).tokens.1[0]? = some letter ∧
      (Scanner.ofText text .strict).tokens.1[1]? = some name ∧
      ((position letter.span.start).Precedes (position name.span.start) ↔ 0 < 1) ∧
      (position letter.span.start = position name.span.start ↔ 0 = 1) := by
  intro text position letter name
  have hearlier : isBoundary text.toList 2 := by decide
  have hlater : isBoundary text.toList 4 := by decide
  have hletter : (Scanner.ofText text .strict).tokens.1[0]? = some letter := by cbv
  have hname : (Scanner.ofText text .strict).tokens.1[1]? = some name := by cbv
  obtain ⟨-, hboundaries, htokens⟩ := position_counts text
  exact ⟨hearlier, hlater, hboundaries 2 4 hearlier hlater, hletter, hname,
    htokens .strict 0 1 letter name hletter hname⟩

end LineIndex
end EdgeQuery
