import EdgeQuery.Proofs.Token.Rescan

/-!
Where tokens stand. The tokens of a text stand within it, the scanner ends behind its last
character, and a text that other text stands before is scanned as it is by itself, only at other
places.
-/

namespace EdgeQuery

/-- The span in a text that `k` bytes stand before. -/
def Span.shifted (span : Span) (k : Nat) : Span :=
  ⟨span.start + k, span.stop + k⟩

def Token.shifted (token : Token) (k : Nat) : Token :=
  { token with span := token.span.shifted k }

def Comment.shifted (comment : Comment) (k : Nat) : Comment :=
  { comment with span := comment.span.shifted k }

namespace Gap

theorem scan_extent (offset : Nat) (text : List Char) :
    (Gap.scan offset text).offset + width (Gap.scan offset text).rest = offset + width text := by
  have hsplit (text : List Char) : width (text.takeWhile Text.isBlank) +
      width (text.dropWhile Text.isBlank) = width text := by
    rw [← width_append, List.takeWhile_append_dropWhile]
  fun_induction Gap.scan offset text with
  | case1 offset text start hscan => rw [Nat.add_assoc, hsplit]
  | case2 offset text start hscan => rw [Nat.add_assoc, hsplit]
  | case3 offset text start chars rest hscan stop gap ih =>
    have hchars := congrArg width (CommentScan.scan_append hscan)
    rw [width_append] at hchars
    calc gap.offset + width gap.rest
        = offset + width (text.takeWhile Text.isBlank) + width chars + width rest := ih
      _ = offset + (width (text.takeWhile Text.isBlank) + width (text.dropWhile Text.isBlank)) := by
        rw [← hchars, Nat.add_assoc, Nat.add_assoc]
      _ = offset + width text := by rw [hsplit]

/-- The gap in a text that `k` bytes stand before. -/
def shifted (gap : Gap) (k : Nat) : Gap :=
  { gap with comments := gap.comments.map (·.shifted k), offset := gap.offset + k }

theorem scan_shifted (offset k : Nat) (text : List Char) :
    Gap.scan (offset + k) text = (Gap.scan offset text).shifted k := by
  fun_induction Gap.scan offset text with
  | case1 offset text start hscan =>
    rw [scan_noComment _ hscan, Nat.add_right_comm]
    rfl
  | case2 offset text start hscan =>
    rw [scan_unclosed _ hscan, Nat.add_right_comm]
    rfl
  | case3 offset text start chars rest hscan stop gap ih =>
    rw [scan_closed _ hscan]
    dsimp only
    rw [Nat.add_right_comm offset k, Nat.add_right_comm _ k]
    show Gap.mk (_ :: (Gap.scan (stop + k) rest).comments) (Gap.scan (stop + k) rest).offset
      (Gap.scan (stop + k) rest).rest (Gap.scan (stop + k) rest).unclosed = _
    rw [ih]
    rfl

end Gap

namespace Scanner

/-- The scanner in a text that `k` bytes stand before. -/
def shifted (scanner : Scanner) (k : Nat) : Scanner :=
  { scanner with
    offset := scanner.offset + k
    comments := scanner.comments.map (·.shifted k) }

/-- The scanner with more comments laid aside before the others. -/
def behind (scanner : Scanner) (comments : List Comment) : Scanner :=
  { scanner with comments := comments ++ scanner.comments }

/-- The offset at which the text ends. -/
def extent (scanner : Scanner) : Nat :=
  scanner.offset + width scanner.rest

/-- The token behind a gap, which may be an open comment. -/
def handOut (past : Scanner) (unclosed : Bool) : Token × Scanner :=
  if unclosed then past.emit (.error .unterminatedComment) past.rest []
  else match past.rest with
    | [] => (Token.atEnd past.offset, past)
    | c :: text =>
      let lexeme := Lexeme.scan past.dialect c text
      past.emit lexeme.kind lexeme.chars lexeme.rest

theorem next_eq (scanner : Scanner) :
    scanner.next = scanner.pastGap.handOut (Gap.scan scanner.offset scanner.rest).unclosed := rfl

section Steps

variable (scanner : Scanner) (k : Nat) (comments : List Comment) (unclosed : Bool)

theorem emit_shifted (kind : TokenKind) (chars rest : List Char) :
    (scanner.shifted k).emit kind chars rest =
      ((scanner.emit kind chars rest).1.shifted k, (scanner.emit kind chars rest).2.shifted k) := by
  have hstop : scanner.offset + k + width chars = scanner.offset + width chars + k :=
    Nat.add_right_comm _ _ _
  show (Token.mk _ _ ⟨_, scanner.offset + k + width chars⟩,
    Scanner.mk _ (scanner.offset + k + width chars) _ _) = _
  rw [hstop]
  rfl

theorem handOut_shifted :
    (scanner.shifted k).handOut unclosed =
      ((scanner.handOut unclosed).1.shifted k, (scanner.handOut unclosed).2.shifted k) := by
  have hrest : (scanner.shifted k).rest = scanner.rest := rfl
  unfold handOut
  rw [hrest]
  split
  · exact emit_shifted scanner k _ _ _
  · cases scanner.rest with
    | nil => rfl
    | cons c text => exact emit_shifted scanner k _ _ _

theorem handOut_behind :
    (scanner.behind comments).handOut unclosed =
      ((scanner.handOut unclosed).1, (scanner.handOut unclosed).2.behind comments) := by
  have hrest : (scanner.behind comments).rest = scanner.rest := rfl
  unfold handOut
  rw [hrest]
  split
  · rfl
  · cases scanner.rest <;> rfl

/-- A token stands in the text, behind what has been scanned before it. -/
theorem handOut_within :
    scanner.offset ≤ (scanner.handOut unclosed).1.span.start ∧
      (scanner.handOut unclosed).1.span.start ≤ (scanner.handOut unclosed).1.span.stop ∧
      (scanner.handOut unclosed).1.span.stop = (scanner.handOut unclosed).2.offset ∧
      (scanner.handOut unclosed).2.extent = scanner.extent := by
  unfold handOut
  split
  · exact ⟨Nat.le_refl _, Nat.le_add_right _ _, rfl, rfl⟩
  · split
    · exact ⟨Nat.le_refl _, Nat.le_refl _, rfl, rfl⟩
    · next c text hrest =>
      refine ⟨Nat.le_refl _, Nat.le_add_right _ _, rfl, ?_⟩
      have hchars := congrArg width (Lexeme.scan_append scanner.dialect c text)
      rw [width_append] at hchars
      show scanner.offset + width (Lexeme.scan scanner.dialect c text).chars +
        width (Lexeme.scan scanner.dialect c text).rest = scanner.offset + width scanner.rest
      rw [Nat.add_assoc, hchars, hrest]

theorem pastGap_shifted : (scanner.shifted k).pastGap = scanner.pastGap.shifted k := by
  have hgap : Gap.scan (scanner.shifted k).offset (scanner.shifted k).rest =
      (Gap.scan scanner.offset scanner.rest).shifted k := Gap.scan_shifted _ _ _
  rw [pastGap, hgap]
  show Scanner.mk _ _ _ (scanner.comments.map (·.shifted k) ++
    (Gap.scan scanner.offset scanner.rest).comments.map (·.shifted k)) = _
  rw [← List.map_append]
  rfl

theorem pastGap_behind : (scanner.behind comments).pastGap = scanner.pastGap.behind comments := by
  show Scanner.mk _ _ _ (comments ++ scanner.comments ++
    (Gap.scan scanner.offset scanner.rest).comments) = _
  rw [List.append_assoc]
  rfl

theorem next_shifted :
    (scanner.shifted k).next = (scanner.next.1.shifted k, scanner.next.2.shifted k) := by
  have hgap : Gap.scan (scanner.shifted k).offset (scanner.shifted k).rest =
      (Gap.scan scanner.offset scanner.rest).shifted k := Gap.scan_shifted _ _ _
  rw [next_eq, next_eq, hgap, pastGap_shifted]
  exact handOut_shifted scanner.pastGap k _

theorem next_behind :
    (scanner.behind comments).next = (scanner.next.1, scanner.next.2.behind comments) := by
  rw [next_eq, pastGap_behind]
  exact handOut_behind scanner.pastGap comments _

theorem next_within :
    scanner.offset ≤ scanner.next.1.span.start ∧
      scanner.next.1.span.start ≤ scanner.next.1.span.stop ∧
      scanner.next.1.span.stop = scanner.next.2.offset ∧
      scanner.next.2.extent = scanner.extent := by
  obtain ⟨hstart, hspan, hstop, hextent⟩ :=
    handOut_within scanner.pastGap (Gap.scan scanner.offset scanner.rest).unclosed
  refine ⟨Nat.le_trans ?_ hstart, hspan, hstop, hextent.trans ?_⟩
  · exact Gap.le_scan_offset scanner.offset scanner.rest
  · exact Gap.scan_extent scanner.offset scanner.rest

theorem next_atEnd (h : scanner.next.1.kind = .endOfInput) : scanner.next.2.rest = [] := by
  rcases next_cases scanner with ⟨-, hnext⟩ | ⟨-, hrest, hnext⟩ | ⟨c, text, -, -, hnext⟩
  · rw [hnext] at h
    cases h
  · rw [hnext]
    exact hrest
  · have hgenuine := Lexeme.scan_genuine scanner.dialect c text
    rw [hnext] at h
    rw [Lexeme.Genuine, show (Lexeme.scan scanner.dialect c text).kind = .endOfInput from h]
      at hgenuine
    exact hgenuine.elim

end Steps

section Runs

/-- What every step keeps, the run of all steps keeps. -/
theorem tokens_map {move : Scanner → Scanner} {place : Token → Token}
    (hend : ∀ token, (place token).kind = .endOfInput ↔ token.kind = .endOfInput)
    (hnext : ∀ scanner, (move scanner).next = (place scanner.next.1, move scanner.next.2))
    (scanner : Scanner) :
    (move scanner).tokens = (scanner.tokens.1.map place, move scanner.tokens.2) := by
  have hlast (scanner : Scanner) :
      (move scanner).next.1.kind = .endOfInput ↔ scanner.next.1.kind = .endOfInput := by
    rw [hnext, hend]
  fun_induction tokens scanner with
  | case1 scanner step hstep =>
    rw [tokens, dif_pos ((hlast scanner).mpr hstep), hnext]
    rfl
  | case2 scanner step hstep later ih =>
    have hstep' : ¬ (move scanner).next.1.kind = .endOfInput := mt (hlast scanner).mp hstep
    rw [tokens, dif_neg hstep', hnext]
    dsimp only
    rw [ih]
    rfl

/-- A text that other text stands before is scanned as it is by itself, only at other places. -/
theorem tokens_shifted (scanner : Scanner) (k : Nat) :
    (scanner.shifted k).tokens =
      (scanner.tokens.1.map (·.shifted k), scanner.tokens.2.shifted k) := by
  have hend (token : Token) : (token.shifted k).kind = .endOfInput ↔ token.kind = .endOfInput :=
    Iff.rfl
  exact tokens_map hend (next_shifted · k) scanner

/-- The comments laid aside before do not matter. -/
theorem tokens_behind (scanner : Scanner) (comments : List Comment) :
    (scanner.behind comments).tokens = (scanner.tokens.1, scanner.tokens.2.behind comments) := by
  have hend (token : Token) : (id token).kind = .endOfInput ↔ token.kind = .endOfInput := Iff.rfl
  have hmap := tokens_map hend (next_behind · comments) scanner
  rwa [List.map_id] at hmap

theorem tokens_dialect (scanner : Scanner) : scanner.tokens.2.dialect = scanner.dialect := by
  fun_induction tokens scanner with
  | case1 scanner step => exact next_dialect scanner
  | case2 scanner step hne later ih => exact ih.trans (next_dialect scanner)

/-- The scanner ends behind the last character. -/
theorem tokens_atEnd (scanner : Scanner) :
    scanner.tokens.2.rest = [] ∧ scanner.tokens.2.offset = scanner.extent := by
  fun_induction tokens scanner with
  | case1 scanner step hend =>
    have hrest : step.2.rest = [] := next_atEnd scanner hend
    refine ⟨hrest, ?_⟩
    rw [← (next_within scanner).2.2.2, extent, hrest]
    rfl
  | case2 scanner step hend later ih => exact ⟨ih.1, ih.2.trans (next_within scanner).2.2.2⟩

/-- The tokens stand in the text, behind what has been scanned before them. -/
theorem tokens_within (scanner : Scanner) :
    ∀ token ∈ scanner.tokens.1, scanner.offset ≤ token.span.start ∧
      token.span.start ≤ token.span.stop ∧ token.span.stop ≤ scanner.extent := by
  have hend (scanner : Scanner) : scanner.next.1.span.stop ≤ scanner.extent := by
    obtain ⟨-, -, hstop, hextent⟩ := next_within scanner
    rw [hstop, ← hextent]
    exact Nat.le_add_right _ _
  fun_induction tokens scanner with
  | case1 scanner step =>
    intro token hmem
    obtain rfl := List.mem_singleton.mp hmem
    exact ⟨(next_within scanner).1, (next_within scanner).2.1, hend scanner⟩
  | case2 scanner step hne later ih =>
    obtain ⟨hstart, hspan, hstop, hextent⟩ := next_within scanner
    intro token hmem
    rcases List.mem_cons.mp hmem with rfl | hmem
    · exact ⟨hstart, hspan, hend scanner⟩
    · obtain ⟨hlater, hspan', hstop'⟩ := ih token hmem
      refine ⟨?_, hspan', Nat.le_trans hstop' (Nat.le_of_eq hextent)⟩
      calc scanner.offset ≤ step.1.span.start := hstart
        _ ≤ step.1.span.stop := hspan
        _ = step.2.offset := hstop
        _ ≤ token.span.start := hlater

end Runs
end Scanner
end EdgeQuery
