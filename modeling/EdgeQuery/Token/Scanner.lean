import EdgeQuery.Token.Gap
import EdgeQuery.Token.Lexeme

/-!
The scanner hands out the tokens of a text one by one and lays the comments aside. Every step but
the one at the end of the text takes characters, so the tokens of a text are finitely many, and the
last of them marks the end.
-/

namespace EdgeQuery

structure Scanner where
  dialect : Dialect
  /-- The offset of the first character that is left. -/
  offset : Nat
  rest : List Char
  /-- The comments passed since they were last taken. -/
  comments : List Comment

namespace Scanner

def ofText (text : String) (dialect : Dialect) : Scanner :=
  ⟨dialect, 0, text.toList, []⟩

/-- The comments passed so far; they are handed out once. -/
def takeComments (scanner : Scanner) : List Comment × Scanner :=
  (scanner.comments, { scanner with comments := [] })

/-- Hands out the characters as a token. -/
def emit (scanner : Scanner) (kind : TokenKind) (chars rest : List Char) :
    Token × Scanner :=
  let stop := scanner.offset + width chars
  (⟨kind, String.ofList chars, ⟨scanner.offset, stop⟩⟩,
    { scanner with offset := stop, rest := rest })

/-- The next token; at the end of the text, the token that marks it. -/
def next (scanner : Scanner) : Token × Scanner :=
  let gap := Gap.scan scanner.offset scanner.rest
  let past : Scanner :=
    ⟨scanner.dialect, gap.offset, gap.rest, scanner.comments ++ gap.comments⟩
  if gap.unclosed then emit past (.error .unterminatedComment) gap.rest []
  else match gap.rest with
    | [] => (Token.atEnd gap.offset, past)
    | c :: text =>
      let lexeme := Lexeme.scan scanner.dialect c text
      emit past lexeme.kind lexeme.chars lexeme.rest

theorem next_rest_length {scanner : Scanner} (h : scanner.next.1.kind ≠ .endOfInput) :
    scanner.next.2.rest.length < scanner.rest.length := by
  have hgap := Gap.scan_rest_length scanner.offset scanner.rest
  unfold next at h ⊢
  dsimp only at h ⊢
  split at h
  · next hopen =>
    have hpos := List.length_pos_iff.mpr (Gap.rest_ne_nil_of_unclosed hopen)
    simp only [hopen, if_true, emit, List.length_nil]
    omega
  · next hclosed =>
    split at h
    · exact absurd rfl h
    · next c text hrest =>
      have hlexeme := Lexeme.scan_rest_length scanner.dialect c text
      rw [hrest] at hgap
      simp only [hclosed, hrest, emit]
      exact Nat.lt_of_lt_of_le hlexeme hgap

/-- All tokens that are left, the end marker last. -/
def tokens (scanner : Scanner) : List Token × Scanner :=
  let step := scanner.next
  if _hend : step.1.kind = .endOfInput then ([step.1], step.2)
  else
    let later := step.2.tokens
    (step.1 :: later.1, later.2)
termination_by scanner.rest.length
decreasing_by exact next_rest_length _hend

end Scanner
end EdgeQuery
