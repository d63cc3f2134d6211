import EdgeQuery.Token.Scanner

/-!
What a scanner hands out. The payload of a token fits its kind: a name is spelled as names are and
is no keyword of the dialect, a keyword is spelled in the token's text, and a string lacks the mark
that closes it. The comments laid aside are texts that are one comment each, and every one of them
begins before the end of the text that was scanned.
-/

namespace EdgeQuery

/-- Whether a text is a letter or an underscore followed by letters, digits and underscores. -/
def isName (text : String) : Bool :=
  match text.toList with
  | [] => false
  | c :: chars => Lexeme.isNameStart c && chars.all Lexeme.isNameChar

/-- Whether one of the two quotes can stand around the text. -/
def isQuotable (content : String) : Bool :=
  !content.toList.contains '\'' || !content.toList.contains '"'

/-- A name that the dialect does not read as a keyword. -/
def Dialect.IsFree (dialect : Dialect) (name : String) : Prop :=
  isName name ∧ dialect.keyword? name = none

/-- The two marks that strings stand between. -/
def IsQuote (mark : Char) : Prop :=
  mark = '\'' ∨ mark = '"'

/-- The characters of one comment, and nothing else. -/
def IsComment (chars : List Char) : Prop :=
  CommentScan.scan chars = .closed chars []

/-- Whether the payload of a kind is one that the dialect can read from the text. The mark at the
end of a text is read from none. -/
def TokenKind.Genuine (dialect : Dialect) (text : String) : TokenKind → Prop
  | .identifier name => dialect.IsFree name
  | .keyword k => isName text ∧ dialect.keyword? text = some k
  | .variable name => isName name
  | .string content => isQuotable content
  | .endOfInput => False
  | _ => True

def Token.Genuine (dialect : Dialect) (token : Token) : Prop :=
  token.kind.Genuine dialect token.text

def Lexeme.Genuine (dialect : Dialect) (lexeme : Lexeme) : Prop :=
  lexeme.kind.Genuine dialect (String.ofList lexeme.chars)

theorem Keyword.text_of_ofText? {text : String} {k : Keyword} (h : Keyword.ofText? text = some k) :
    k.text = text := by
  have hfound := List.find?_some h
  simpa using hfound

theorem Keyword.ofTextAnyCase?_isSome_of_ofText? {text : String} {k : Keyword}
    (h : Keyword.ofText? text = some k) : (Keyword.ofTextAnyCase? text).isSome := by
  rw [← Keyword.text_of_ofText? h, Keyword.ofTextAnyCase?_text]
  rfl

/-- A name free in a dialect is free in the strict dialect, which has the fewest keywords. -/
theorem Dialect.IsFree.strict {dialect : Dialect} {name : String} (h : dialect.IsFree name) :
    Dialect.strict.IsFree name := by
  refine ⟨h.1, ?_⟩
  cases dialect with
  | strict => exact h.2
  | relaxed =>
    cases hstrict : Keyword.ofText? name with
    | none => exact hstrict
    | some k =>
      have hsome := Keyword.ofTextAnyCase?_isSome_of_ofText? hstrict
      have hnone : Keyword.ofTextAnyCase? name = none := h.2
      rw [hnone] at hsome
      cases hsome

/-- The name that a token stands for, keywords included, is spelled as names are. -/
theorem Token.Genuine.isName_of_name? {dialect : Dialect} {token : Token} {name : String}
    (h : token.Genuine dialect) (hname : token.name? = some name) : isName name := by
  unfold Token.name? at hname
  unfold Token.Genuine at h
  split at hname
  · next other hkind =>
    obtain rfl := Option.some.inj hname
    rw [hkind] at h
    exact h.1
  · next k hkind =>
    obtain rfl := Option.some.inj hname
    rw [hkind] at h
    exact h.1
  · cases hname

namespace Lexeme

theorem isName_takeWhile {c : Char} (text : List Char) (h : isNameStart c) :
    isName (String.ofList ((c :: text).takeWhile isNameChar)) := by
  rw [List.takeWhile_cons_of_pos (isNameChar_of_isNameStart h)]
  have hall := List.all_takeWhile (p := isNameChar) (l := text)
  simpa only [isName, String.toList_ofList, h, Bool.true_and] using hall

theorem word_genuine {c : Char} (dialect : Dialect) (text : List Char) (h : isNameStart c) :
    (word dialect (c :: text)).Genuine dialect := by
  have hname := isName_takeWhile text h
  unfold word Lexeme.Genuine
  dsimp only
  split
  · next k hk => exact ⟨hname, hk⟩
  · next hk => exact ⟨hname, hk⟩

theorem string_genuine {mark : Char} (dialect : Dialect) (text : List Char)
    (h : IsQuote mark) : (string mark text).Genuine dialect := by
  rcases string_cases mark text with ⟨content, rest, hnot, -, hstring⟩ | ⟨-, hstring⟩ <;>
    rw [hstring]
  · show isQuotable (String.ofList content) = true
    rcases h with rfl | rfl <;> simp [isQuotable, hnot]
  · trivial

theorem variableName_genuine (dialect : Dialect) (text : List Char) :
    (variableName text).Genuine dialect := by
  unfold variableName
  split
  · next h =>
    cases text with
    | nil => simp at h
    | cons c text => exact isName_takeWhile text (by simpa using h)
  · trivial

/-- The kinds of the lexemes that begin with a character. -/
inductive Begins (c : Char) : TokenKind → Prop
  | keyword (k : Keyword) : isNameStart c → Begins c (.keyword k)
  | identifier (name : String) : isNameStart c → Begins c (.identifier name)
  | number (value : UInt64) : c.isDigit → Begins c (.number value)
  | duration (value : Duration) : c.isDigit → Begins c (.duration value)
  | outOfRange : c.isDigit → Begins c (.error .numberOutOfRange)
  | string (content : String) : IsQuote c → Begins c (.string content)
  | openString : IsQuote c → Begins c (.error .unterminatedString)
  | «variable» (name : String) : c = '$' → Begins c (.variable name)
  | symbol (s : Symbol) : s.text.toList.head? = some c → Begins c (.symbol s)
  | invalid : Begins c (.error (.invalidCharacter c))

theorem head?_of_longest? {c : Char} {text : List Char} {s : Symbol}
    (h : Symbol.longest? c text = some s) : s.text.toList.head? = some c := by
  unfold Symbol.longest? at h
  split at h <;> cases h <;> rfl

/-- The kind of a lexeme is one that its first character begins. -/
theorem scan_begins (dialect : Dialect) (c : Char) (text : List Char) :
    Begins c (scan dialect c text).kind := by
  unfold scan
  split
  · next hstart =>
    unfold word
    dsimp only
    split
    · exact .keyword _ hstart
    · exact .identifier _ hstart
  split
  · next hdigit =>
    unfold number
    dsimp only
    split
    · split
      · exact .duration _ hdigit
      · exact .number _ hdigit
    · exact .outOfRange hdigit
  split
  · next hquote =>
    rcases string_cases c text with ⟨content, rest, -, -, hstring⟩ | ⟨-, hstring⟩ <;> rw [hstring]
    · exact .string _ hquote
    · exact .openString hquote
  split
  · next hdollar =>
    unfold variableName
    split
    · exact .variable _ hdollar
    · exact hdollar ▸ .invalid
  · unfold symbol
    split
    · next s hs => exact .symbol s (head?_of_longest? hs)
    · exact .invalid

/-- Every lexeme is genuine. -/
theorem scan_genuine (dialect : Dialect) (c : Char) (text : List Char) :
    (scan dialect c text).Genuine dialect := by
  unfold scan
  split
  · next h => exact word_genuine dialect text h
  split
  · unfold number
    dsimp only
    split
    · split <;> trivial
    · trivial
  split
  · next h => exact string_genuine dialect text h
  split
  · exact variableName_genuine dialect text
  · unfold symbol
    split <;> trivial

end Lexeme

namespace CommentScan

theorem blockEnd?_ne_nil {text chars rest : List Char}
    (h : blockEnd? text = some (chars, rest)) : chars ≠ [] := by
  fun_induction blockEnd? text with
  | case1 => cases h; simp
  | case2 c text hopen _ =>
    obtain ⟨⟨front, later⟩, _, hpair⟩ := Option.map_eq_some_iff.mp h
    cases hpair
    simp
  | case3 => cases h

theorem blockEnd?_front {text chars rest : List Char} (h : blockEnd? text = some (chars, rest))
    (tail : List Char) : blockEnd? (chars ++ tail) = some (chars, tail) := by
  fun_induction blockEnd? text generalizing chars rest with
  | case1 => cases h; rfl
  | case2 c text hopen ih =>
    obtain ⟨⟨front, later⟩, hfront, hpair⟩ := Option.map_eq_some_iff.mp h
    obtain ⟨rfl, rfl⟩ := Prod.mk.inj hpair
    have htext := blockEnd?_append hfront
    rw [List.cons_append, blockEnd?, ih hfront]
    · rfl
    · -- The front begins as the text does, so `c` opens no `*/` here either.
      rintro rest rfl hrest
      cases front with
      | nil => exact blockEnd?_ne_nil hfront rfl
      | cons d front =>
        obtain ⟨rfl, rfl⟩ := List.cons.inj hrest
        exact hopen _ rfl htext.symm
  | case3 => cases h

theorem not_mem_takeWhile_lineFeed (text : List Char) : '\n' ∉ text.takeWhile (· != '\n') := by
  intro hmem
  have hall := List.all_eq_true.mp (List.all_takeWhile (p := (· != '\n')) (l := text)) _ hmem
  simp at hall

theorem lineFeed_not_mem_opener {opener : List Char}
    (h : opener ∈ [['/', '/'], ['-', '-'], ['#']]) : '\n' ∉ opener := by
  have hall : ∀ opener ∈ [['/', '/'], ['-', '-'], ['#']], '\n' ∉ opener := by decide
  exact hall opener h

/-- The opener of a line comment belongs to the line. -/
theorem takeWhile_opener {opener body : List Char}
    (h : opener ∈ [['/', '/'], ['-', '-'], ['#']]) :
    (opener ++ body).takeWhile (· != '\n') = opener ++ body.takeWhile (· != '\n') := by
  refine List.takeWhile_append_of_pos fun c hc => ?_
  simpa using ne_of_mem_of_not_mem hc (lineFeed_not_mem_opener h)

theorem line_of_not_mem {chars : List Char} (h : '\n' ∉ chars) : line chars = .closed chars [] := by
  have hall : ∀ c ∈ chars, (c != '\n') = true := by
    intro c hc
    simpa using ne_of_mem_of_not_mem hc h
  rw [line, ← List.append_nil chars, List.takeWhile_append_of_pos hall,
    List.dropWhile_append_of_pos hall]
  simp

theorem line_append_lineFeed {chars : List Char} (h : '\n' ∉ chars) (rest : List Char) :
    line (chars ++ '\n' :: rest) = .closed chars ('\n' :: rest) := by
  have hall : ∀ c ∈ chars, (c != '\n') = true := by
    intro c hc
    simpa using ne_of_mem_of_not_mem hc h
  rw [line, List.takeWhile_append_of_pos hall, List.dropWhile_append_of_pos hall]
  simp

/-- The characters of a comment are one comment by themselves. -/
theorem isComment_of_scan {text chars rest : List Char} (h : scan text = .closed chars rest) :
    IsComment chars := by
  rcases closed_cases h with ⟨body, front, rfl, rfl, hend⟩ | ⟨opener, hopener, body, rfl, hline⟩
  · have hfront := blockEnd?_front hend []
    rw [List.append_nil] at hfront
    simp only [IsComment, scan, hfront]
  · obtain ⟨rfl, rfl⟩ := CommentScan.closed.inj hline
    have hnot := not_mem_takeWhile_lineFeed (opener ++ body)
    rw [takeWhile_opener hopener] at hnot ⊢
    rw [IsComment, scan_opener _ hopener]
    exact line_of_not_mem hnot

theorem not_mem_of_line {chars rest : List Char} (h : line chars = .closed chars rest) :
    '\n' ∉ chars := by
  have hchars := (CommentScan.closed.inj h).1
  rw [← hchars]
  exact not_mem_takeWhile_lineFeed chars

/-- A comment is read again where a line end follows it. -/
theorem scan_comment_lineEnd {chars : List Char} (h : IsComment chars) (rest : List Char) :
    scan (chars ++ '\n' :: rest) = .closed chars ('\n' :: rest) := by
  rcases closed_cases h with ⟨body, front, rfl, hfront, hend⟩ | ⟨opener, hopener, body, rfl, hline⟩
  · obtain rfl : body = front := by simpa using hfront
    have hagain := blockEnd?_front hend ('\n' :: rest)
    simp only [scan, List.cons_append, hagain]
  · rw [List.append_assoc, scan_opener _ hopener, ← List.append_assoc]
    exact line_append_lineFeed (not_mem_of_line hline) rest

end CommentScan

/-- What holds of a comment that has been passed when the scanner stands at `offset`. -/
def Comment.Passed (offset : Nat) (comment : Comment) : Prop :=
  IsComment comment.text.toList ∧ comment.span.start < offset

theorem Comment.Passed.mono {offset later : Nat} {comment : Comment} (h : comment.Passed offset)
    (hle : offset ≤ later) : comment.Passed later :=
  ⟨h.1, Nat.lt_of_lt_of_le h.2 hle⟩

theorem IsComment.width_pos {chars : List Char} (h : IsComment chars) : 0 < width chars := by
  cases chars with
  | nil => cases h
  | cons c chars =>
    have := c.utf8Size_pos
    rw [width_cons]
    omega

namespace Gap

theorem le_scan_offset (offset : Nat) (text : List Char) :
    offset ≤ (Gap.scan offset text).offset := by
  fun_induction Gap.scan offset text with
  | case1 => exact Nat.le_add_right _ _
  | case2 => exact Nat.le_add_right _ _
  | case3 offset text start chars rest hscan stop gap ih =>
    have hstart : offset ≤ start := Nat.le_add_right _ _
    have hstop : start ≤ stop := Nat.le_add_right _ _
    exact Nat.le_trans (Nat.le_trans hstart hstop) ih

theorem scan_comments_passed (offset : Nat) (text : List Char) :
    ∀ comment ∈ (Gap.scan offset text).comments,
      comment.Passed (Gap.scan offset text).offset := by
  fun_induction Gap.scan offset text with
  | case1 => simp
  | case2 => simp
  | case3 offset text start chars rest hscan stop gap ih =>
    have hcomment := CommentScan.isComment_of_scan hscan
    have hstop : start < stop := Nat.lt_add_of_pos_right hcomment.width_pos
    intro comment hmem
    rcases List.mem_cons.mp hmem with rfl | hmem
    · refine ⟨by simpa using hcomment, ?_⟩
      exact Nat.lt_of_lt_of_le hstop (le_scan_offset stop rest)
    · exact ih comment hmem

end Gap

namespace Scanner

/-- All comments laid aside so far have been passed. -/
def CommentsPassed (scanner : Scanner) : Prop :=
  ∀ comment ∈ scanner.comments, comment.Passed scanner.offset

/-- The scanner behind the gap that it stands before. -/
def pastGap (scanner : Scanner) : Scanner :=
  let gap := Gap.scan scanner.offset scanner.rest
  ⟨scanner.dialect, gap.offset, gap.rest, scanner.comments ++ gap.comments⟩

/-- Behind a gap stands an open comment, the end of the text, or a lexeme. -/
theorem next_cases (scanner : Scanner) :
    ((Gap.scan scanner.offset scanner.rest).unclosed = true ∧
      scanner.next = scanner.pastGap.emit (.error .unterminatedComment) scanner.pastGap.rest []) ∨
    ((Gap.scan scanner.offset scanner.rest).unclosed = false ∧ scanner.pastGap.rest = [] ∧
      scanner.next = (Token.atEnd scanner.pastGap.offset, scanner.pastGap)) ∨
    ∃ c text, (Gap.scan scanner.offset scanner.rest).unclosed = false ∧
      scanner.pastGap.rest = c :: text ∧
      scanner.next = scanner.pastGap.emit (Lexeme.scan scanner.dialect c text).kind
        (Lexeme.scan scanner.dialect c text).chars (Lexeme.scan scanner.dialect c text).rest := by
  unfold next pastGap
  dsimp only
  split
  · next hopen => exact .inl ⟨hopen, rfl⟩
  · next hclosed =>
    rw [Bool.not_eq_true] at hclosed
    split
    · next hrest => exact .inr (.inl ⟨hclosed, hrest, rfl⟩)
    · next c text hrest => exact .inr (.inr ⟨c, text, hclosed, hrest, rfl⟩)

theorem next_dialect (scanner : Scanner) : scanner.next.2.dialect = scanner.dialect := by
  rcases next_cases scanner with ⟨-, h⟩ | ⟨-, -, h⟩ | ⟨c, text, -, -, h⟩ <;> rw [h] <;> rfl

theorem pastGap_commentsPassed {scanner : Scanner} (h : scanner.CommentsPassed) :
    scanner.pastGap.CommentsPassed := by
  intro comment hmem
  rcases List.mem_append.mp hmem with hmem | hmem
  · exact (h comment hmem).mono (Gap.le_scan_offset _ _)
  · exact Gap.scan_comments_passed _ _ comment hmem

theorem emit_commentsPassed {scanner : Scanner} (h : scanner.CommentsPassed) (kind : TokenKind)
    (chars rest : List Char) : (scanner.emit kind chars rest).2.CommentsPassed :=
  fun comment hmem => (h comment hmem).mono (Nat.le_add_right _ _)

theorem next_commentsPassed {scanner : Scanner} (h : scanner.CommentsPassed) :
    scanner.next.2.CommentsPassed := by
  have hpast := pastGap_commentsPassed h
  rcases next_cases scanner with ⟨-, hnext⟩ | ⟨-, -, hnext⟩ | ⟨c, text, -, -, hnext⟩ <;> rw [hnext]
  · exact emit_commentsPassed hpast _ _ _
  · exact hpast
  · exact emit_commentsPassed hpast _ _ _

/-- A token handed out is genuine, or the mark of the end. -/
theorem next_genuine (scanner : Scanner) :
    scanner.next.1.Genuine scanner.dialect ∨ scanner.next.1 = Token.atEnd scanner.next.2.offset := by
  rcases next_cases scanner with ⟨-, hnext⟩ | ⟨-, -, hnext⟩ | ⟨c, text, -, -, hnext⟩ <;> rw [hnext]
  · exact .inl trivial
  · exact .inr rfl
  · exact .inl (Lexeme.scan_genuine scanner.dialect c text)

theorem tokens_commentsPassed {scanner : Scanner} (h : scanner.CommentsPassed) :
    scanner.tokens.2.CommentsPassed := by
  fun_induction tokens scanner with
  | case1 scanner step hend => exact next_commentsPassed h
  | case2 scanner step hend later ih => exact ih (next_commentsPassed h)

/-- The tokens of a text are genuine ones, and then the mark of the end. -/
theorem tokens_eq (scanner : Scanner) :
    ∃ ahead, scanner.tokens.1 = ahead ++ [Token.atEnd scanner.tokens.2.offset] ∧
      ∀ token ∈ ahead, token.Genuine scanner.dialect := by
  fun_induction tokens scanner with
  | case1 scanner step hend =>
    refine ⟨[], ?_, by simp⟩
    rcases next_genuine scanner with hgenuine | hmark
    · rw [Token.Genuine, hend] at hgenuine
      exact hgenuine.elim
    · exact congrArg (fun token => [token]) hmark
  | case2 scanner step hend later ih =>
    obtain ⟨ahead, heq, hgenuine⟩ := ih
    refine ⟨step.1 :: ahead, by rw [heq]; rfl, ?_⟩
    intro token hmem
    rcases List.mem_cons.mp hmem with rfl | hmem
    · rcases next_genuine scanner with hfirst | hmark
      · exact hfirst
      · exact absurd (congrArg Token.kind hmark) hend
    · rw [← next_dialect scanner]
      exact hgenuine token hmem

end Scanner
end EdgeQuery
