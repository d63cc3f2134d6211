import EdgeQuery.Proofs.Token.Boundary
import Mathlib.Data.List.Chain

/-!
Scanning a canonical text. Where each piece is over before its neighbour begins, the tokens and
comments of the joined pieces are those of the pieces, one by one, at the places where they were
written.
-/

namespace EdgeQuery

namespace Piece

/-- The tokens that the pieces are read as when they begin at the offset. -/
def tokens (dialect : Dialect) : Nat → List Piece → List Token
  | _, [] => []
  | offset, piece :: pieces =>
    let stop := offset + width piece.text.toList
    match piece.kind? dialect with
    | some kind => ⟨kind, piece.text, ⟨offset, stop⟩⟩ :: tokens dialect stop pieces
    | none => tokens dialect stop pieces

/-- The comments among the pieces when they begin at the offset. -/
def comments : Nat → List Piece → List Comment
  | _, [] => []
  | offset, piece :: pieces =>
    let stop := offset + width piece.text.toList
    match piece with
    | .comment content => ⟨content, ⟨offset, stop⟩⟩ :: comments stop pieces
    | _ => comments stop pieces

/-- The bytes that the pieces take. -/
def extent (pieces : List Piece) : Nat :=
  width (join pieces).toList

/-- The second piece may stand right behind the first. -/
def Joins (piece next : Piece) : Prop :=
  piece.StopsBefore next.text.toList

theorem toList_join_cons (piece : Piece) (pieces : List Piece) :
    (join (piece :: pieces)).toList = piece.text.toList ++ (join pieces).toList := by
  simp [join]

@[simp]
theorem extent_nil : extent [] = 0 := rfl

theorem extent_cons (piece : Piece) (pieces : List Piece) :
    extent (piece :: pieces) = width piece.text.toList + extent pieces := by
  rw [extent, toList_join_cons, width_append]
  rfl

theorem extent_append (left right : List Piece) :
    extent (left ++ right) = extent left + extent right := by
  rw [extent, join_append, String.toList_append, width_append]
  rfl

theorem tokens_append (dialect : Dialect) (offset : Nat) (left right : List Piece) :
    tokens dialect offset (left ++ right) =
      tokens dialect offset left ++ tokens dialect (offset + extent left) right := by
  induction left generalizing offset with
  | nil => simp [tokens]
  | cons piece pieces ih =>
    rw [List.cons_append, tokens, tokens, extent_cons, ← Nat.add_assoc]
    cases piece.kind? dialect with
    | none => exact ih _
    | some kind => exact congrArg _ (ih _)

theorem comments_append (offset : Nat) (left right : List Piece) :
    comments offset (left ++ right) =
      comments offset left ++ comments (offset + extent left) right := by
  induction left generalizing offset with
  | nil => simp [comments]
  | cons piece pieces ih =>
    rw [List.cons_append, extent_cons, ← Nat.add_assoc]
    cases piece
    case comment => exact congrArg _ (ih _)
    all_goals exact ih _

theorem kind?_ne_endOfInput {dialect : Dialect} {piece : Piece} {kind : TokenKind}
    (h : piece.kind? dialect = some kind) : kind ≠ .endOfInput := by
  rintro rfl
  cases piece <;> try cases h
  case word name =>
    simp only [kind?, Dialect.wordKind, Option.some.injEq] at h
    split at h <;> cases h

theorem comments_cons_of_kind? {dialect : Dialect} {piece : Piece} {kind : TokenKind}
    (h : piece.kind? dialect = some kind) (offset : Nat) (pieces : List Piece) :
    comments offset (piece :: pieces) = comments (offset + width piece.text.toList) pieces := by
  cases piece <;> first | rfl | cases h

/-- A readable piece is not empty. -/
theorem text_ne_nil {piece : Piece} (h : piece.Readable) : piece.text.toList ≠ [] := by
  cases piece with
  | space => decide
  | lineEnd => decide
  | comment content =>
    intro hnil
    rw [Piece.text] at hnil
    rw [Readable, hnil] at h
    cases h
  | _ =>
    have hfronts : Lexeme.Fronts .strict _ _ [] := fronts rfl h (by simp [StopsBefore])
    obtain ⟨c, tail, htext, -⟩ := hfronts
    rw [htext]
    exact List.cons_ne_nil c tail

theorem stopsBefore_join {piece : Piece} {pieces : List Piece}
    (hreadable : ∀ p ∈ piece :: pieces, p.Readable) (hjoins : (piece :: pieces).IsChain Joins) :
    piece.StopsBefore (join pieces).toList := by
  cases pieces with
  | nil =>
    intro c hc
    cases hc
  | cons next pieces =>
    have hne := text_ne_nil (hreadable next (by simp))
    have hnext : piece.Joins next := List.rel_of_isChain_cons_cons hjoins
    intro c hc
    rw [toList_join_cons, List.head?_append_of_ne_nil _ hne] at hc
    exact hnext c hc

end Piece
namespace Gap

theorem scan_noComment {text : List Char} (offset : Nat)
    (h : CommentScan.scan (text.dropWhile Text.isBlank) = .noComment) :
    Gap.scan offset text = ⟨[], offset + width (text.takeWhile Text.isBlank),
      text.dropWhile Text.isBlank, false⟩ := by
  rw [Gap.scan]
  split
  · rfl
  · next hscan => rw [h] at hscan; cases hscan
  · next hscan => rw [h] at hscan; cases hscan

theorem scan_unclosed {text : List Char} (offset : Nat)
    (h : CommentScan.scan (text.dropWhile Text.isBlank) = .unclosed) :
    Gap.scan offset text = ⟨[], offset + width (text.takeWhile Text.isBlank),
      text.dropWhile Text.isBlank, true⟩ := by
  rw [Gap.scan]
  split
  · next hscan => rw [h] at hscan; cases hscan
  · rfl
  · next hscan => rw [h] at hscan; cases hscan

theorem scan_closed {text chars rest : List Char} (offset : Nat)
    (h : CommentScan.scan (text.dropWhile Text.isBlank) = .closed chars rest) :
    Gap.scan offset text =
      let start := offset + width (text.takeWhile Text.isBlank)
      let stop := start + width chars
      { Gap.scan stop rest with
        comments := ⟨String.ofList chars, ⟨start, stop⟩⟩ :: (Gap.scan stop rest).comments } := by
  rw [Gap.scan]
  split
  · next hscan => rw [h] at hscan; cases hscan
  · next hscan => rw [h] at hscan; cases hscan
  · next hscan =>
    rw [h] at hscan
    obtain ⟨rfl, rfl⟩ := CommentScan.closed.inj hscan
    rfl

/-- A blank in front of a gap belongs to it. -/
theorem scan_blank {c : Char} (offset : Nat) (rest : List Char) (h : Text.isBlank c = true) :
    Gap.scan offset (c :: rest) = Gap.scan (offset + c.utf8Size) rest := by
  have hdrop : (c :: rest).dropWhile Text.isBlank = rest.dropWhile Text.isBlank :=
    List.dropWhile_cons_of_pos h
  have hwidth : offset + width ((c :: rest).takeWhile Text.isBlank) =
      offset + c.utf8Size + width (rest.takeWhile Text.isBlank) := by
    rw [List.takeWhile_cons_of_pos h, width_cons, Nat.add_assoc]
  cases hscan : CommentScan.scan (rest.dropWhile Text.isBlank) with
  | noComment =>
    rw [scan_noComment _ hscan, scan_noComment _ (hdrop ▸ hscan), hdrop, hwidth]
  | unclosed =>
    rw [scan_unclosed _ hscan, scan_unclosed _ (hdrop ▸ hscan), hdrop, hwidth]
  | closed chars later =>
    rw [scan_closed _ hscan, scan_closed _ (hdrop ▸ hscan), hwidth]

/-- There is no gap in front of a text that begins with neither a blank nor a comment. -/
theorem scan_none {c : Char} {rest : List Char} (offset : Nat) (hblank : Text.isBlank c = false)
    (hcomment : CommentScan.scan (c :: rest) = .noComment) :
    Gap.scan offset (c :: rest) = ⟨[], offset, c :: rest, false⟩ := by
  have hdrop : (c :: rest).dropWhile Text.isBlank = c :: rest :=
    List.dropWhile_cons_of_neg (by simp [hblank])
  rw [scan_noComment _ (by rw [hdrop, hcomment]), hdrop,
    List.takeWhile_cons_of_neg (by simp [hblank])]
  rfl

/-- A comment is read again at the end of a line, and at the end of the text. -/
theorem scan_comment {chars rest : List Char} (offset : Nat) (h : IsComment chars)
    (hstop : ∀ c ∈ rest.head?, c = '\n') :
    Gap.scan offset (chars ++ rest) =
      let stop := offset + width chars
      { Gap.scan stop rest with
        comments := ⟨String.ofList chars, ⟨offset, stop⟩⟩ :: (Gap.scan stop rest).comments } := by
  obtain ⟨c, tail, rfl, hblank⟩ := CommentScan.exists_cons_of_isComment h
  have hscan : CommentScan.scan (c :: tail ++ rest) = .closed (c :: tail) rest := by
    cases rest with
    | nil => rw [List.append_nil, h]
    | cons d rest =>
      obtain rfl := hstop d (by simp)
      exact CommentScan.scan_comment_lineEnd h rest
  rw [List.cons_append] at hscan ⊢
  have hdrop : (c :: (tail ++ rest)).dropWhile Text.isBlank = c :: (tail ++ rest) :=
    List.dropWhile_cons_of_neg (by simp [hblank])
  have htake : (c :: (tail ++ rest)).takeWhile Text.isBlank = [] :=
    List.takeWhile_cons_of_neg (by simp [hblank])
  rw [scan_closed _ (by rw [hdrop, hscan]), htake]
  rfl

end Gap

namespace Scanner

theorem tokens_congr {scanner other : Scanner} (h : scanner.next = other.next) :
    scanner.tokens = other.tokens := by
  rw [tokens.eq_def scanner, tokens.eq_def other]
  simp only [h]

/-- A blank in front of a token changes nothing but the places. -/
theorem tokens_blank {c : Char} (dialect : Dialect) (offset : Nat) (rest : List Char)
    (comments : List Comment) (h : Text.isBlank c = true) :
    (Scanner.mk dialect offset (c :: rest) comments).tokens =
      (Scanner.mk dialect (offset + c.utf8Size) rest comments).tokens := by
  apply tokens_congr
  unfold next
  dsimp only
  rw [Gap.scan_blank offset rest h]

theorem tokens_comment {chars rest : List Char} (dialect : Dialect) (offset : Nat)
    (comments : List Comment) (h : IsComment chars) (hstop : ∀ c ∈ rest.head?, c = '\n') :
    (Scanner.mk dialect offset (chars ++ rest) comments).tokens =
      (Scanner.mk dialect (offset + width chars) rest
        (comments ++ [⟨String.ofList chars, ⟨offset, offset + width chars⟩⟩])).tokens := by
  apply tokens_congr
  unfold next
  dsimp only
  rw [Gap.scan_comment offset h hstop, List.append_assoc, List.singleton_append]

theorem tokens_lexeme {kind : TokenKind} {chars rest : List Char} (dialect : Dialect)
    (offset : Nat) (comments : List Comment) (hfronts : Lexeme.Fronts dialect kind chars rest)
    (hkind : kind ≠ .endOfInput) :
    (Scanner.mk dialect offset (chars ++ rest) comments).tokens =
      let stop := offset + width chars
      let later := (Scanner.mk dialect stop rest comments).tokens
      (⟨kind, String.ofList chars, ⟨offset, stop⟩⟩ :: later.1, later.2) := by
  obtain ⟨c, tail, rfl, hblank, hcomment, hscan⟩ := hfronts
  have hnext : (Scanner.mk dialect offset (c :: tail ++ rest) comments).next =
      (⟨kind, String.ofList (c :: tail), ⟨offset, offset + width (c :: tail)⟩⟩,
        ⟨dialect, offset + width (c :: tail), rest, comments⟩) := by
    have hgap : Gap.scan offset (c :: tail ++ rest) = ⟨[], offset, c :: (tail ++ rest), false⟩ :=
      Gap.scan_none offset hblank hcomment
    unfold next
    dsimp only
    rw [hgap, List.append_nil]
    dsimp only [emit]
    rw [hscan]
    rfl
  rw [tokens, dif_neg (by rw [hnext]; exact hkind), hnext]

theorem tokens_nil (dialect : Dialect) (offset : Nat) (comments : List Comment) :
    (Scanner.mk dialect offset [] comments).tokens =
      ([Token.atEnd offset], ⟨dialect, offset, [], comments⟩) := by
  have hgap : Gap.scan offset [] = ⟨[], offset, [], false⟩ := Gap.scan_noComment offset rfl
  have hnext : (Scanner.mk dialect offset [] comments).next =
      (Token.atEnd offset, ⟨dialect, offset, [], comments⟩) := by
    unfold next
    dsimp only
    rw [hgap, List.append_nil]
    rfl
  rw [tokens, dif_pos (by rw [hnext]; rfl), hnext]

open Piece

/-- The tokens and the comments of a canonical text are those of its pieces, each at the place where
its piece was written. -/
theorem tokens_pieces {pieces : List Piece} (dialect : Dialect) (offset : Nat)
    (laidAside : List Comment) (hreadable : ∀ piece ∈ pieces, piece.Readable)
    (hjoins : pieces.IsChain Joins) :
    (Scanner.mk dialect offset (join pieces).toList laidAside).tokens =
      let stop := offset + extent pieces
      (Piece.tokens dialect offset pieces ++ [Token.atEnd stop],
        ⟨dialect, stop, [], laidAside ++ Piece.comments offset pieces⟩) := by
  induction pieces generalizing offset laidAside with
  | nil => simpa [Piece.tokens, Piece.comments] using tokens_nil dialect offset laidAside
  | cons piece pieces ih =>
    have hfirst := hreadable piece (by simp)
    have hstop : piece.StopsBefore (join pieces).toList :=
      stopsBefore_join hreadable hjoins
    have hlater := fun offset laidAside =>
      ih offset laidAside (fun piece hmem => hreadable piece (List.mem_cons_of_mem _ hmem))
        (List.isChain_of_isChain_cons hjoins)
    rw [toList_join_cons, extent_cons, ← Nat.add_assoc]
    cases hkind : piece.kind? dialect with
    | some kind =>
      have hfronts := piece.fronts hkind hfirst hstop
      have hmark : kind ≠ .endOfInput := piece.kind?_ne_endOfInput hkind
      rw [tokens_lexeme dialect offset laidAside hfronts hmark, Piece.tokens, hkind,
        comments_cons_of_kind? hkind, String.ofList_toList]
      dsimp only
      rw [hlater]
      rfl
    | none =>
      rw [Piece.tokens, hkind]
      cases piece with
      | space =>
        exact (tokens_blank dialect offset _ laidAside Text.isBlank_space).trans (hlater _ _)
      | lineEnd =>
        exact (tokens_blank dialect offset _ laidAside Text.isBlank_lineFeed).trans (hlater _ _)
      | comment content =>
        have hend : ∀ c ∈ (join pieces).toList.head?, c = '\n' := by
          intro c hc
          exact beq_iff_eq.mp (hstop c hc)
        rw [Piece.text, tokens_comment dialect offset laidAside hfirst hend, hlater,
          String.ofList_toList, List.append_assoc]
        rfl
      | _ => cases hkind

end Scanner
end EdgeQuery
