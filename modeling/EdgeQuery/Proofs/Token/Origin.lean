import EdgeQuery.Proofs.Text.Slice
import EdgeQuery.Proofs.Token.Tile

/-!
Where the tokens and comments of a text come from. Behind every gap the scanner looks at all the
text that is left, and what it finds there alone decides on the token: no token depends on the ones
before it. Likewise no comment does.
-/

namespace EdgeQuery

/-- The token that the scanner makes of the text behind a gap, which begins at the offset. -/
inductive Token.ReadFrom (dialect : Dialect) (offset : Nat) : List Char → Token → Prop
  | lexeme (c : Char) (text : List Char) (hblank : Text.isBlank c = false)
      (hcomment : CommentScan.scan (c :: text) = .noComment) :
      ReadFrom dialect offset (c :: text)
        ⟨(Lexeme.scan dialect c text).kind, String.ofList (Lexeme.scan dialect c text).chars,
          ⟨offset, offset + width (Lexeme.scan dialect c text).chars⟩⟩
  | openComment (text : List Char) (hscan : CommentScan.scan text = .unclosed) :
      ReadFrom dialect offset text
        ⟨.error .unterminatedComment, String.ofList text, ⟨offset, offset + width text⟩⟩
  | atEnd : ReadFrom dialect offset [] (Token.atEnd offset)

/-- The comment that the scanner makes of the text behind blanks, which begins at the offset. -/
inductive Comment.ReadFrom (offset : Nat) : List Char → Comment → Prop
  | closed (text chars rest : List Char) (hscan : CommentScan.scan text = .closed chars rest) :
      ReadFrom offset text ⟨String.ofList chars, ⟨offset, offset + width chars⟩⟩

theorem Token.ReadFrom.start_eq {dialect : Dialect} {offset : Nat} {rest : List Char}
    {token : Token} (h : token.ReadFrom dialect offset rest) : token.span.start = offset := by
  cases h <;> rfl

/-- A gap that is not closed ends where a comment begins that is not closed. -/
theorem Gap.scan_rest_of_unclosed {offset : Nat} {text : List Char}
    (h : (Gap.scan offset text).unclosed = true) :
    CommentScan.scan (Gap.scan offset text).rest = .unclosed := by
  fun_induction Gap.scan offset text with
  | case1 => cases h
  | case2 offset text start hscan => exact hscan
  | case3 offset text start chars rest hscan stop gap ih => exact ih h

/-- The comments of a gap are made of the parts of the text behind their starts. -/
theorem Gap.scan_comments_readFrom {text rest : List Char} {offset : Nat}
    (h : Text.Cut text offset rest) :
    ∀ comment ∈ (Gap.scan offset rest).comments, ∃ behind,
      Text.Cut text comment.span.start behind ∧ comment.ReadFrom comment.span.start behind := by
  fun_induction Gap.scan offset rest with
  | case1 => simp
  | case2 => simp
  | case3 offset rest start chars later hscan stop gap ih =>
    have hstart : Text.Cut text start (rest.dropWhile Text.isBlank) := by
      rw [← List.takeWhile_append_dropWhile (p := Text.isBlank) (l := rest)] at h
      exact h.skip
    have hstop : Text.Cut text stop later := by
      rw [← CommentScan.scan_append hscan] at hstart
      exact hstart.skip
    intro comment hmem
    rcases List.mem_cons.mp hmem with rfl | hmem
    · exact ⟨_, hstart, .closed _ chars later hscan⟩
    · exact ih hstop comment hmem

theorem Tile.Between.cut {scanner later : Scanner} {tiles : List Tile} {tokens : List Token}
    {text : List Char} (h : Tile.Between scanner tiles tokens later)
    (hcut : Text.Cut text scanner.offset scanner.rest) : Text.Cut text later.offset later.rest := by
  rw [← h.rest] at hcut
  rw [h.offset]
  exact hcut.skip

namespace Scanner

/-- The next token is made of the text behind the gap. -/
theorem next_readFrom (scanner : Scanner) :
    scanner.next.1.ReadFrom scanner.dialect scanner.pastGap.offset scanner.pastGap.rest := by
  rcases next_cases scanner with
    ⟨hopen, hnext⟩ | ⟨-, hrest, hnext⟩ | ⟨c, text, hclosed, hrest, hnext⟩ <;> rw [hnext]
  · exact .openComment _ (Gap.scan_rest_of_unclosed hopen)
  · rw [hrest]
    exact .atEnd
  · have hpast : (Gap.scan scanner.offset scanner.rest).rest = c :: text := hrest
    obtain ⟨hcomment, hblank⟩ := Gap.scan_rest hclosed
    rw [hpast] at hcomment hblank
    rw [hrest]
    exact .lexeme c text (hblank c rfl) hcomment

/-- The tokens of a text are made of its parts behind their starts. The induction is on the tokens
that are handed out. -/
theorem tokens_readFrom {scanner : Scanner} {text : List Char}
    (h : Text.Cut text scanner.offset scanner.rest) :
    ∀ token ∈ scanner.tokens.1, ∃ rest, Text.Cut text token.span.start rest ∧
      token.ReadFrom scanner.dialect token.span.start rest := by
  have hfirst {scanner : Scanner} (h : Text.Cut text scanner.offset scanner.rest) :
      ∃ rest, Text.Cut text scanner.next.1.span.start rest ∧
        scanner.next.1.ReadFrom scanner.dialect scanner.next.1.span.start rest := by
    obtain ⟨_, hgap⟩ := pastGap_between scanner
    have hread := next_readFrom scanner
    rw [hread.start_eq]
    exact ⟨_, hgap.cut h, hread⟩
  fun_induction tokens scanner with
  | case1 scanner step hend =>
    intro token hmem
    obtain rfl := List.mem_singleton.mp hmem
    exact hfirst h
  | case2 scanner step hne later ih =>
    intro token hmem
    rcases List.mem_cons.mp hmem with rfl | hmem
    · exact hfirst h
    · rcases next_between scanner with ⟨-, _, hfront⟩ | hmark
      · have hlater := ih (hfront.cut h) token hmem
        rwa [next_dialect] at hlater
      · exact absurd (congrArg (·.1.kind) hmark) hne

/-- All comments laid aside so far are made of the parts of the text behind their starts. -/
def CommentsReadFrom (text : List Char) (scanner : Scanner) : Prop :=
  ∀ comment ∈ scanner.comments, ∃ rest, Text.Cut text comment.span.start rest ∧
    comment.ReadFrom comment.span.start rest

theorem next_commentsReadFrom {scanner : Scanner} {text : List Char}
    (h : Text.Cut text scanner.offset scanner.rest) (hcomments : scanner.CommentsReadFrom text) :
    scanner.next.2.CommentsReadFrom text := by
  have hnext : scanner.next.2.comments = scanner.pastGap.comments := by
    rcases next_cases scanner with ⟨-, hnext⟩ | ⟨-, -, hnext⟩ | ⟨c, rest, -, -, hnext⟩ <;>
      rw [hnext] <;> rfl
  intro comment hmem
  rw [hnext] at hmem
  rcases List.mem_append.mp hmem with hmem | hmem
  · exact hcomments comment hmem
  · exact Gap.scan_comments_readFrom h comment hmem

/-- So it is with all comments of a text. The induction is on the tokens that are handed out. -/
theorem tokens_commentsReadFrom {scanner : Scanner} {text : List Char}
    (h : Text.Cut text scanner.offset scanner.rest) (hcomments : scanner.CommentsReadFrom text) :
    scanner.tokens.2.CommentsReadFrom text := by
  fun_induction tokens scanner with
  | case1 scanner step hend => exact next_commentsReadFrom h hcomments
  | case2 scanner step hne later ih =>
    rcases next_between scanner with ⟨-, _, hfront⟩ | hmark
    · exact ih (hfront.cut h) (next_commentsReadFrom h hcomments)
    · exact absurd (congrArg (·.1.kind) hmark) hne

end Scanner

/-- What stands behind the start of a token decides on it. -/
theorem Scanner.ofText_readFrom {text : String} {dialect : Dialect} {token : Token}
    {front rest : List Char} (hmem : token ∈ (ofText text dialect).tokens.1)
    (htext : text.toList = front ++ rest) (hstart : token.span.start = width front) :
    token.ReadFrom dialect (width front) rest := by
  have hfirst : Text.Cut text.toList (ofText text dialect).offset (ofText text dialect).rest :=
    Text.Cut.start text.toList
  obtain ⟨behind, hcut, hread⟩ := tokens_readFrom hfirst token hmem
  have hrest : Text.behind? text.toList (width front) = some rest :=
    htext ▸ Text.behind?_append front rest
  rw [← hstart, hcut.behind] at hrest
  cases hrest
  exact hstart ▸ hread

/-- What stands behind the start of a comment is that comment first. -/
theorem Scanner.ofText_commentsReadFrom (text : String) (dialect : Dialect) :
    (ofText text dialect).tokens.2.CommentsReadFrom text.toList :=
  tokens_commentsReadFrom (Text.Cut.start text.toList) nofun

end EdgeQuery
