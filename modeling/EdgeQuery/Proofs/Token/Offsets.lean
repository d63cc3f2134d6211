import EdgeQuery.Proofs.Text.Slice
import EdgeQuery.Proofs.Token.Genuine

/-!
The scanner by byte offsets. It has the whole text and the offset that it has come to; each
character it looks at and each text it takes is a part of the text between offsets, of which it asks
whether it is there. It always is, and what is handed out is what the scanner hands out that has the
characters that are left. A loop that did not get on would be `none`, too, and not endless.
-/

namespace EdgeQuery

open Text

/-- A scanner that has the whole text and the offset it has come to. -/
structure OffsetScanner where
  text : List Char
  dialect : Dialect
  offset : Nat
  comments : List Comment

/-- A token without its text. -/
abbrev Mark := TokenKind × Span

def Token.mark (token : Token) : Mark :=
  (token.kind, token.span)

/-- The text that the token was read from. -/
def Mark.lexeme? (text : List Char) (mark : Mark) : Option String := do
  return String.ofList (← slice? text mark.2.start mark.2.stop)

namespace OffsetScanner

section Steps

variable (text : List Char)

/-- The character at the offset, unless the text ends there. -/
def char? (offset : Nat) : Option (Option Char) := do
  return (← behind? text offset).head?

/-- The character behind the one at the offset. -/
def nextChar? (offset : Nat) : Option (Option Char) := do
  return (← behind? text offset)[1]?

/-- The character at the offset and the offset behind it. -/
def advance? (offset : Nat) : Option (Option Char × Nat) := do
  match ← char? text offset with
  | some c => return (some c, offset + c.utf8Size)
  | none => return (none, offset)

/-- The offset behind the characters that fulfil the condition. -/
def skip? (p : Char → Bool) (offset : Nat) : Option Nat := do
  match ← char? text offset with
  | some c =>
    if p c then
      let (_, next) ← advance? text offset
      if _hnext : remaining text next < remaining text offset then skip? p next else none
    else return offset
  | none => return offset
termination_by remaining text offset

/-- The comment between the offsets. -/
def comment? (start stop : Nat) : Option Comment := do
  return ⟨String.ofList (← slice? text start stop), ⟨start, stop⟩⟩

/-- The offset behind the end of a block comment, or the end of the text, and whether the comment
ends. -/
def blockEnd? (offset : Nat) : Option (Bool × Nat) := do
  match ← advance? text offset with
  | (some '*', next) =>
    if (← char? text next) = some '/' then return (true, (← advance? text next).2)
    else if _hnext : remaining text next < remaining text offset then blockEnd? next else none
  | (some _, next) =>
    if _hnext : remaining text next < remaining text offset then blockEnd? next else none
  | (none, next) => return (false, next)
termination_by remaining text offset

/-- The offset behind a gap and the comments in it, and the place of a comment that never ends. -/
def gap? (offset : Nat) (comments : List Comment) :
    Option (Nat × List Comment × Option Span) := do
  let start ← skip? text isBlank offset
  match ← char? text start, ← nextChar? text start with
  | some '/', some '/' | some '-', some '-' | some '#', _ =>
    let stop ← skip? text (· != '\n') start
    let comment ← comment? text start stop
    if _hstop : remaining text stop < remaining text offset then gap? stop (comments ++ [comment])
    else none
  | some '/', some '*' =>
    let (_, second) ← advance? text start
    let (_, body) ← advance? text second
    match ← blockEnd? text body with
    | (true, stop) =>
      let comment ← comment? text start stop
      if _hstop : remaining text stop < remaining text offset then gap? stop (comments ++ [comment])
      else none
    | (false, stop) => return (stop, comments, some ⟨start, stop⟩)
  | _, _ => return (start, comments, none)
termination_by remaining text offset

/-- A name or a keyword that begins at the offset, and the offset behind it. -/
def word? (dialect : Dialect) (start : Nat) : Option (TokenKind × Nat) := do
  let stop ← skip? text Lexeme.isNameChar start
  let name := String.ofList (← slice? text start stop)
  match dialect.keyword? name with
  | some keyword => return (.keyword keyword, stop)
  | none => return (.identifier name, stop)

/-- A number or a duration that begins at the offset. -/
def number? (start : Nat) : Option (TokenKind × Nat) := do
  let stop ← skip? text Char.isDigit start
  let value := Nat.ofDigitChars 10 (← slice? text start stop) 0
  if h : value < UInt64.size then
    match Lexeme.unit? (← behind? text stop) with
    | some (suffix, unit, _) =>
      return (.duration ⟨UInt64.ofNatLT value h, unit⟩, stop + width suffix)
    | none => return (.number (UInt64.ofNatLT value h), stop)
  else return (.error .numberOutOfRange, stop)

/-- The offset behind the next quotation mark, or the end of the text, and whether there is a
mark. -/
def quote? (mark : Char) (offset : Nat) : Option (Bool × Nat) := do
  match ← advance? text offset with
  | (some c, next) =>
    if c = mark then return (true, next)
    else if _hnext : remaining text next < remaining text offset then quote? mark next else none
  | (none, next) => return (false, next)
termination_by remaining text offset

/-- A string that begins at the offset. -/
def string? (mark : Char) (start : Nat) : Option (TokenKind × Nat) := do
  let (_, content) ← advance? text start
  match ← quote? text mark content with
  | (true, stop) =>
    let chars ← slice? text content (← sub? stop mark.utf8Size)
    return (.string (String.ofList chars), stop)
  | (false, stop) => return (.error .unterminatedString, stop)

/-- A variable whose dollar sign stands before the offset. -/
def variableName? (offset : Nat) : Option (TokenKind × Nat) := do
  if (← char? text offset).any Lexeme.isNameStart then
    let stop ← skip? text Lexeme.isNameChar offset
    return (.variable (String.ofList (← slice? text offset stop)), stop)
  else return (.error (.invalidCharacter '$'), offset)

/-- One kind of token if the character stands at the offset, and another one if not. -/
def either? (second : Char) (double single : TokenKind) (offset : Nat) :
    Option (TokenKind × Nat) := do
  if (← char? text offset) = some second then return (double, (← advance? text offset).2)
  else return (single, offset)

/-- A symbol that begins with the character before the offset. -/
def symbol? (c : Char) (offset : Nat) : Option (TokenKind × Nat) :=
  match c with
  | '(' => some (.symbol (.opening .paren), offset)
  | ')' => some (.symbol (.closing .paren), offset)
  | '[' => some (.symbol (.opening .bracket), offset)
  | ']' => some (.symbol (.closing .bracket), offset)
  | '\x7b' => some (.symbol (.opening .brace), offset)
  | '\x7d' => some (.symbol (.closing .brace), offset)
  | ',' => some (.symbol .comma, offset)
  | ';' => some (.symbol .semicolon, offset)
  | '.' => some (.symbol .dot, offset)
  | '+' => some (.symbol .plus, offset)
  | '*' => some (.symbol .star, offset)
  | '/' => some (.symbol .slash, offset)
  | '%' => some (.symbol .percent, offset)
  | '=' => some (.symbol .equal, offset)
  | ':' => either? text ':' (.symbol .doubleColon) (.symbol .colon) offset
  | '-' => either? text '>' (.symbol (.arrow .out)) (.symbol .minus) offset
  | '>' => either? text '=' (.symbol .greaterEqual) (.symbol .greater) offset
  | '<' => do
    match ← char? text offset with
    | some '=' => return (.symbol .lessEqual, (← advance? text offset).2)
    | some '-' => return (.symbol (.arrow .into), (← advance? text offset).2)
    | _ => return (.symbol .less, offset)
  | '!' => either? text '=' (.symbol .notEqual) (.error (.invalidCharacter c)) offset
  | '|' => either? text '|' (.symbol .bars) (.error (.invalidCharacter c)) offset
  | '&' => either? text '&' (.symbol .ampersands) (.error (.invalidCharacter c)) offset
  | c => some (.error (.invalidCharacter c), offset)

/-- The token that begins with the character, which stands at the offset `start` and before the
offset `behind`. -/
def lexeme? (dialect : Dialect) (c : Char) (start behind : Nat) : Option (TokenKind × Nat) :=
  if Lexeme.isNameStart c then word? text dialect start
  else if c.isDigit then number? text start
  else if c = '\'' ∨ c = '"' then string? text c start
  else if c = '$' then variableName? text behind
  else symbol? text c behind

end Steps

def ofText (text : String) (dialect : Dialect) : OffsetScanner :=
  ⟨text.toList, dialect, 0, []⟩

/-- The token that begins where the scanner stands, behind a gap. -/
def here? (scanner : OffsetScanner) : Option (Mark × OffsetScanner) := do
  match ← advance? scanner.text scanner.offset with
  | (none, stop) => return ((.endOfInput, ⟨scanner.offset, stop⟩), { scanner with offset := stop })
  | (some c, behind) =>
    let (kind, stop) ← lexeme? scanner.text scanner.dialect c scanner.offset behind
    return ((kind, ⟨scanner.offset, stop⟩), { scanner with offset := stop })

/-- The next token. -/
def next? (scanner : OffsetScanner) : Option (Mark × OffsetScanner) := do
  let (start, comments, unclosed) ← gap? scanner.text scanner.offset scanner.comments
  let past := { scanner with offset := start, comments := comments }
  match unclosed with
  | some span => return ((.error .unterminatedComment, span), past)
  | none => past.here?

/-- The number of bytes that are left. -/
def left (scanner : OffsetScanner) : Nat :=
  remaining scanner.text scanner.offset

/-- All tokens that are left, the end marker last. -/
def tokens? (scanner : OffsetScanner) : Option (List Mark × OffsetScanner) := do
  let (token, later) ← scanner.next?
  if token.1 = .endOfInput then return ([token], later)
  else if _hlater : later.left < scanner.left then
    let (tokens, last) ← tokens? later
    return (token :: tokens, last)
  else none
termination_by scanner.left

/-- The comments passed so far; they are handed out once. -/
def takeComments (scanner : OffsetScanner) : List Comment × OffsetScanner :=
  (scanner.comments, { scanner with comments := [] })

section Agreement

variable {text chars rest : List Char} {c : Char} {offset : Nat} {p : Char → Bool}

theorem char?_eq (h : Cut text offset rest) : char? text offset = some rest.head? := by
  rw [char?, h.behind]
  rfl

theorem nextChar?_eq (h : Cut text offset rest) : nextChar? text offset = some rest[1]? := by
  rw [nextChar?, h.behind]
  rfl

theorem advance?_cons (h : Cut text offset (c :: rest)) :
    advance? text offset = some (some c, offset + c.utf8Size) := by
  rw [advance?, char?_eq h]
  rfl

theorem advance?_nil (h : Cut text offset []) : advance? text offset = some (none, offset) := by
  rw [advance?, char?_eq h]
  rfl

/-- The induction is on the characters that are left. -/
theorem skip?_eq (p : Char → Bool) (h : Cut text offset rest) :
    skip? text p offset = some (offset + width (rest.takeWhile p)) := by
  induction rest generalizing offset with
  | nil =>
    rw [skip?, char?_eq h]
    rfl
  | cons c rest ih =>
    rw [skip?, char?_eq h]
    by_cases hc : p c
    · have hrest := ih h.tail
      simp only [List.head?_cons, Option.bind_eq_bind, Option.bind_some, hc, if_true,
        advance?_cons h, h.remaining_tail, hrest, dif_pos, List.takeWhile_cons_of_pos, width_cons,
        Nat.add_assoc]
    · simp [hc, List.takeWhile_cons_of_neg]

theorem cut_dropWhile (p : Char → Bool) (h : Cut text offset rest) :
    Cut text (offset + width (rest.takeWhile p)) (rest.dropWhile p) := by
  rw [← List.takeWhile_append_dropWhile (p := p) (l := rest)] at h
  exact h.skip

/-- What has been skipped can be taken. -/
theorem slice?_takeWhile (p : Char → Bool) (h : Cut text offset rest) :
    slice? text offset (offset + width (rest.takeWhile p)) = some (rest.takeWhile p) := by
  rw [← List.takeWhile_append_dropWhile (p := p) (l := rest)] at h
  exact h.slice

theorem comment?_eq (h : Cut text offset (chars ++ rest)) :
    comment? text offset (offset + width chars) =
      some ⟨String.ofList chars, ⟨offset, offset + width chars⟩⟩ := by
  rw [comment?, h.slice]
  rfl

/-- The cases are those of the search among the characters that are left. -/
theorem blockEnd?_eq (h : Cut text offset rest) :
    blockEnd? text offset =
      match CommentScan.blockEnd? rest with
      | some (chars, _) => some (true, offset + width chars)
      | none => some (false, offset + width rest) := by
  fun_induction CommentScan.blockEnd? rest generalizing offset with
  | case1 tail =>
    rw [OffsetScanner.blockEnd?, advance?_cons h]
    simp only [Option.bind_eq_bind, Option.bind_some, char?_eq h.tail, List.head?_cons, if_true,
      advance?_cons h.tail]
    rfl
  | case2 c text' hother ih =>
    have hnext := ih h.tail
    have hstep : OffsetScanner.blockEnd? text offset =
        OffsetScanner.blockEnd? text (offset + c.utf8Size) := by
      rw [OffsetScanner.blockEnd?, advance?_cons h]
      by_cases hstar : c = '*'
      · have hslash : text'.head? ≠ some '/' := by
          intro hhead
          obtain ⟨tail, rfl⟩ := List.head?_eq_some_iff.mp hhead
          exact hother tail hstar rfl
        subst hstar
        simp only [Option.bind_eq_bind, Option.bind_some, char?_eq h.tail, hslash, if_false,
          h.remaining_tail, dif_pos]
      · simp [h.remaining_tail]
    rw [hstep, hnext]
    cases CommentScan.blockEnd? text' with
    | none => simp [Nat.add_assoc]
    | some found => simp [Nat.add_assoc]
  | case3 =>
    rw [OffsetScanner.blockEnd?, advance?_nil h]
    rfl

/-- The induction is on the characters that are left. -/
theorem quote?_eq (mark : Char) (h : Cut text offset rest) :
    quote? text mark offset =
      match rest.dropWhile (· != mark) with
      | [] => some (false, offset + width rest)
      | _ :: _ => some (true, offset + width (rest.takeWhile (· != mark)) + mark.utf8Size) := by
  induction rest generalizing offset with
  | nil =>
    rw [quote?, advance?_nil h]
    rfl
  | cons c rest ih =>
    rw [quote?, advance?_cons h]
    by_cases hc : c = mark
    · subst hc
      simp
    · have hnext := ih h.tail
      simp only [Option.bind_eq_bind, Option.bind_some, hc, if_false, h.remaining_tail, dif_pos,
        hnext]
      have hdrop : (c :: rest).dropWhile (· != mark) = rest.dropWhile (· != mark) :=
        List.dropWhile_cons_of_pos (by simpa using hc)
      have htake : (c :: rest).takeWhile (· != mark) = c :: rest.takeWhile (· != mark) :=
        List.takeWhile_cons_of_pos (by simpa using hc)
      rw [hdrop, htake]
      cases rest.dropWhile (· != mark) with
      | nil => simp [Nat.add_assoc]
      | cons d behind => simp [Nat.add_assoc]

/-- What `gap?` comes to. -/
def gapResult (comments : List Comment) (gap : Gap) : Nat × List Comment × Option Span :=
  let stop := gap.offset + width gap.rest
  if gap.unclosed then (stop, comments ++ gap.comments, some ⟨gap.offset, stop⟩)
  else (gap.offset, comments ++ gap.comments, none)

theorem eq_cons_cons {a b : Char} (hfirst : rest.head? = some a) (hsecond : rest[1]? = some b) :
    ∃ behind, rest = a :: b :: behind := by
  obtain ⟨tail, rfl⟩ := List.head?_eq_some_iff.mp hfirst
  rw [List.getElem?_cons_succ, ← List.head?_eq_getElem?] at hsecond
  obtain ⟨behind, rfl⟩ := List.head?_eq_some_iff.mp hsecond
  exact ⟨behind, rfl⟩

/-- A gap that begins with a comment goes on behind it. -/
theorem gap?_closed {behind : List Char} {start : Nat} (comments : List Comment)
    (h : Cut text offset rest) (hstart : offset + width (rest.takeWhile isBlank) = start)
    (hscan : CommentScan.scan (rest.dropWhile isBlank) = .closed chars behind) :
    gap? text offset comments = gap? text (start + width chars)
      (comments ++ [⟨String.ofList chars, ⟨start, start + width chars⟩⟩]) := by
  have hblank : Cut text start (rest.dropWhile isBlank) := hstart ▸ cut_dropWhile isBlank h
  have hcomment := comment?_eq (CommentScan.scan_append hscan ▸ hblank)
  have hprogress : remaining text (start + width chars) < remaining text offset := by
    have hbehind : Cut text (start + width chars) behind :=
      (CommentScan.scan_append hscan ▸ hblank).skip
    have hshort := CommentScan.scan_rest_length hscan
    have hle := (List.dropWhile_sublist (l := rest) isBlank).length_le
    exact h.remaining_lt hbehind (by omega)
  have hline (hline : CommentScan.line (rest.dropWhile isBlank) = .closed chars behind) :
      skip? text (· != '\n') start = some (start + width chars) := by
    obtain ⟨rfl, -⟩ := CommentScan.closed.inj hline
    exact skip?_eq _ hblank
  rw [gap?, skip?_eq isBlank h, hstart]
  simp only [Option.bind_eq_bind, Option.bind_some, char?_eq hblank, nextChar?_eq hblank]
  rcases CommentScan.closed_cases hscan with
    ⟨body, front, htext, rfl, hend⟩ | ⟨opener, hopener, body, htext, hclosed⟩
  · rw [htext] at hblank ⊢
    have hblock : blockEnd? text (start + '/'.utf8Size + '*'.utf8Size) =
        some (true, start + width ('/' :: '*' :: front)) := by
      rw [blockEnd?_eq hblank.tail.tail, hend]
      simp only [width_cons, Nat.add_assoc]
    simp only [List.head?_cons, List.getElem?_cons_succ, List.getElem?_cons_zero,
      advance?_cons hblank, advance?_cons hblank.tail, hblock, hcomment, hprogress, dif_pos,
      Option.bind_some]
  · have hskip := hline (htext ▸ hclosed)
    simp only [List.mem_cons, List.not_mem_nil, or_false] at hopener
    rcases hopener with rfl | rfl | rfl <;> simp [htext, hskip, hcomment, hprogress]

/-- A gap that begins with a comment that never ends takes all that is left. -/
theorem gap?_unclosed {start : Nat} (comments : List Comment) (h : Cut text offset rest)
    (hstart : offset + width (rest.takeWhile isBlank) = start)
    (hscan : CommentScan.scan (rest.dropWhile isBlank) = .unclosed) :
    gap? text offset comments =
      some (gapResult comments ⟨[], start, rest.dropWhile isBlank, true⟩) := by
  have hblank : Cut text start (rest.dropWhile isBlank) := hstart ▸ cut_dropWhile isBlank h
  rw [gap?, skip?_eq isBlank h, hstart]
  simp only [Option.bind_eq_bind, Option.bind_some, char?_eq hblank, nextChar?_eq hblank]
  obtain ⟨body, htext, hend⟩ := CommentScan.exists_body_of_unclosed hscan
  rw [htext] at hblank ⊢
  have hblock : blockEnd? text (start + '/'.utf8Size + '*'.utf8Size) =
      some (false, start + width ('/' :: '*' :: body)) := by
    rw [blockEnd?_eq hblank.tail.tail, hend]
    simp only [width_cons, Nat.add_assoc]
  simp [advance?_cons hblank, advance?_cons hblank.tail, hblock, gapResult]

/-- The cases are those of the gap: a blank one, one with an open comment, and one with a comment
and a gap behind it. -/
theorem gap?_eq (comments : List Comment) (h : Cut text offset rest) :
    gap? text offset comments = some (gapResult comments (Gap.scan offset rest)) ∧
      Cut text (Gap.scan offset rest).offset (Gap.scan offset rest).rest := by
  have hblank := cut_dropWhile isBlank h
  fun_induction Gap.scan offset rest generalizing comments with
  | case1 offset rest start hscan =>
    refine ⟨?_, hblank⟩
    rw [gap?, skip?_eq isBlank h]
    simp only [Option.bind_eq_bind, Option.bind_some, char?_eq hblank, nextChar?_eq hblank]
    split
    · next hfirst hsecond =>
      obtain ⟨behind, htext⟩ := eq_cons_cons hfirst hsecond
      rw [htext] at hscan
      cases hscan
    · next hfirst hsecond =>
      obtain ⟨behind, htext⟩ := eq_cons_cons hfirst hsecond
      rw [htext] at hscan
      cases hscan
    · next hfirst =>
      obtain ⟨behind, htext⟩ := List.head?_eq_some_iff.mp hfirst
      rw [htext] at hscan
      cases hscan
    · next hfirst hsecond =>
      obtain ⟨behind, htext⟩ := eq_cons_cons hfirst hsecond
      rw [htext, CommentScan.scan] at hscan
      split at hscan <;> cases hscan
    · simp [gapResult, start]
  | case2 offset rest start hscan =>
    exact ⟨gap?_unclosed comments h rfl hscan, hblank⟩
  | case3 offset rest start chars behind hscan stop gap ih =>
    have hstop : Cut text stop behind := by
      rw [← CommentScan.scan_append hscan] at hblank
      exact hblank.skip
    obtain ⟨hrun, hcut⟩ := ih (comments ++ [⟨String.ofList chars, ⟨start, stop⟩⟩]) hstop
      (cut_dropWhile isBlank hstop)
    refine ⟨?_, hcut⟩
    rw [gap?_closed comments h rfl hscan, hrun]
    simp [gapResult, gap]

/-- The kind of a lexeme that begins at the offset, and the offset behind it. -/
def lexemeResult (start : Nat) (lexeme : Lexeme) : TokenKind × Nat :=
  (lexeme.kind, start + width lexeme.chars)

theorem word?_eq (dialect : Dialect) (h : Cut text offset rest) :
    word? text dialect offset = some (lexemeResult offset (Lexeme.word dialect rest)) := by
  rw [word?, skip?_eq _ h]
  simp only [Option.bind_eq_bind, Option.bind_some, slice?_takeWhile _ h, lexemeResult, Lexeme.word]
  cases dialect.keyword? (String.ofList (rest.takeWhile Lexeme.isNameChar)) with
  | none => rfl
  | some keyword => rfl

theorem number?_eq (h : Cut text offset rest) :
    number? text offset = some (lexemeResult offset (Lexeme.number rest)) := by
  rw [number?, skip?_eq _ h]
  simp only [Option.bind_eq_bind, Option.bind_some, slice?_takeWhile _ h, lexemeResult,
    Lexeme.number, (cut_dropWhile Char.isDigit h).behind]
  by_cases hsize : Nat.ofDigitChars 10 (rest.takeWhile Char.isDigit) 0 < UInt64.size
  · simp only [hsize, dif_pos]
    cases Lexeme.unit? (rest.dropWhile Char.isDigit) with
    | none => rfl
    | some found =>
      obtain ⟨suffix, unit, behind⟩ := found
      show some _ = some _
      simp only [width_append, Nat.add_assoc]
  · simp only [hsize, dif_neg, not_false_eq_true]
    rfl

/-- What lies between the quotation marks can be taken. -/
theorem string?_eq (mark : Char) (h : Cut text offset (mark :: rest)) :
    string? text mark offset = some (lexemeResult offset (Lexeme.string mark rest)) := by
  have hsplit := List.takeWhile_append_dropWhile (p := (· != mark)) (l := rest)
  rw [string?, advance?_cons h]
  simp only [Option.bind_eq_bind, Option.bind_some, quote?_eq mark h.tail, Lexeme.string]
  cases hbehind : rest.dropWhile (· != mark) with
  | nil =>
    rw [hbehind, List.append_nil] at hsplit
    simp [lexemeResult, hsplit, Nat.add_assoc]
  | cons c behind =>
    have hcontent := slice?_takeWhile (· != mark) h.tail
    simp only [Option.bind_some, sub?_add_right, hcontent]
    simp [lexemeResult, Nat.add_assoc]

theorem variableName?_eq (h : Cut text offset ('$' :: rest)) :
    variableName? text (offset + '$'.utf8Size) =
      some (lexemeResult offset (Lexeme.variableName rest)) := by
  rw [variableName?, char?_eq h.tail, skip?_eq _ h.tail]
  simp only [Option.bind_eq_bind, Option.bind_some, slice?_takeWhile _ h.tail, Lexeme.variableName]
  by_cases hname : rest.head?.any Lexeme.isNameStart
  · simp [hname, lexemeResult, Nat.add_assoc]
  · simp [hname, lexemeResult]

theorem either?_eq {second : Char} (double single : TokenKind) (h : Cut text offset rest) :
    either? text second double single offset =
      some (if rest.head? = some second then (double, offset + second.utf8Size)
        else (single, offset)) := by
  rw [either?, char?_eq h]
  by_cases hsecond : rest.head? = some second
  · obtain ⟨behind, rfl⟩ := List.head?_eq_some_iff.mp hsecond
    simp [advance?_cons h]
  · simp [hsecond]

theorem either?_symbol {second : Char} {double single : TokenKind} (h : Cut text offset (c :: rest))
    (hdouble : ∀ behind, lexemeResult offset (Lexeme.symbol c (second :: behind)) =
      (double, offset + c.utf8Size + second.utf8Size))
    (hsingle : ∀ d behind, d ≠ second →
      lexemeResult offset (Lexeme.symbol c (d :: behind)) = (single, offset + c.utf8Size))
    (hend : lexemeResult offset (Lexeme.symbol c []) = (single, offset + c.utf8Size)) :
    either? text second double single (offset + c.utf8Size) =
      some (lexemeResult offset (Lexeme.symbol c rest)) := by
  rw [either?_eq double single h.tail]
  cases rest with
  | nil => exact congrArg some hend.symm
  | cons d behind =>
    by_cases hd : d = second
    · subst hd
      rw [if_pos List.head?_cons, hdouble]
    · rw [if_neg (by simpa using hd), hsingle d behind hd]

/-- No symbol is in sight where the character begins none of them. -/
theorem symbol_of_longest?_eq_none (h : Symbol.longest? c rest = none) :
    lexemeResult offset (Lexeme.symbol c rest) =
      (.error (.invalidCharacter c), offset + c.utf8Size) := by
  rw [Lexeme.symbol, h]
  rfl

theorem symbol?_eq (h : Cut text offset (c :: rest)) :
    symbol? text c (offset + c.utf8Size) = some (lexemeResult offset (Lexeme.symbol c rest)) := by
  unfold symbol?
  split
  case h_15 | h_16 | h_17 | h_19 | h_20 | h_21 =>
    refine either?_symbol h (fun _ => rfl) (fun d behind hd => ?_) rfl
    simp [Lexeme.symbol, Symbol.longest?, hd, lexemeResult, Symbol.text]
  case h_18 =>
    rw [char?_eq h.tail]
    cases rest with
    | nil => rfl
    | cons d behind =>
      by_cases hequal : d = '='
      · subst hequal
        simp [advance?_cons h.tail]
        rfl
      · by_cases hminus : d = '-'
        · subst hminus
          simp [advance?_cons h.tail]
          rfl
        · simp [hequal, hminus, Lexeme.symbol, Symbol.longest?, lexemeResult, Symbol.text]
  case h_22 =>
    rw [symbol_of_longest?_eq_none]
    simp_all [Symbol.longest?]
  all_goals rfl

theorem lexeme?_eq (dialect : Dialect) (h : Cut text offset (c :: rest)) :
    lexeme? text dialect c offset (offset + c.utf8Size) =
      some (lexemeResult offset (Lexeme.scan dialect c rest)) := by
  unfold lexeme? Lexeme.scan
  split
  · exact word?_eq dialect h
  split
  · exact number?_eq h
  split
  · exact string?_eq c h
  split
  · next hc =>
    subst hc
    exact variableName?_eq h
  · exact symbol?_eq h

end Agreement

/-- The scanner that has come equally far. -/
def of (text : List Char) (scanner : Scanner) : OffsetScanner :=
  ⟨text, scanner.dialect, scanner.offset, scanner.comments⟩

section Scanning

variable {text : List Char} {scanner : Scanner}

/-- Where the scanner says that the token stands, its text can be taken. -/
def Reads (text : List Char) (token : Token) : Prop :=
  token.mark.lexeme? text = some token.text

theorem Reads.of_slice {token : Token}
    (h : slice? text token.span.start token.span.stop = some token.text.toList) :
    Reads text token := by
  rw [Reads, Mark.lexeme?]
  simp [Token.mark, h]

theorem atEnd_reads {offset : Nat} (h : Cut text offset []) : Reads text (Token.atEnd offset) := by
  have hempty : Cut text offset ([] ++ []) := h
  exact .of_slice hempty.slice

theorem emit_reads {chars rest : List Char} (kind : TokenKind)
    (h : Cut text scanner.offset (chars ++ rest)) :
    Reads text (scanner.emit kind chars rest).1 ∧
      Cut text (scanner.emit kind chars rest).2.offset (scanner.emit kind chars rest).2.rest :=
  ⟨.of_slice (by simpa [Scanner.emit] using h.slice), h.skip⟩

/-- Past the gap, the scanner hands out a comment that is not closed, or what begins there. -/
theorem next?_eq_here? (h : Cut text scanner.offset scanner.rest) :
    (of text scanner).next? =
      if (Gap.scan scanner.offset scanner.rest).unclosed then
        some ((scanner.pastGap.emit (.error .unterminatedComment) scanner.pastGap.rest []).1.mark,
          of text (scanner.pastGap.emit (.error .unterminatedComment) scanner.pastGap.rest []).2)
      else (of text scanner.pastGap).here? := by
  obtain ⟨hgap, -⟩ := gap?_eq scanner.comments h
  have hrun : gap? (of text scanner).text (of text scanner).offset (of text scanner).comments = _ :=
    hgap
  rw [next?, hrun, gapResult]
  split
  · rfl
  · rfl

/-- The scanner hands out the same token, of which the text can be taken, and stands between two
characters again. -/
theorem next?_eq (h : Cut text scanner.offset scanner.rest) :
    (of text scanner).next? = some (scanner.next.1.mark, of text scanner.next.2) ∧
      Reads text scanner.next.1 ∧ Cut text scanner.next.2.offset scanner.next.2.rest := by
  have hcut : Cut text scanner.pastGap.offset scanner.pastGap.rest := (gap?_eq [] h).2
  rw [next?_eq_here? h]
  rcases Scanner.next_cases scanner with
    ⟨hopen, hnext⟩ | ⟨hclosed, hrest, hnext⟩ | ⟨c, behind, hclosed, hrest, hnext⟩ <;> rw [hnext]
  · rw [← List.append_nil scanner.pastGap.rest] at hcut
    exact ⟨if_pos hopen, emit_reads _ hcut⟩
  · have hend : Cut text scanner.pastGap.offset [] := hrest ▸ hcut
    refine ⟨?_, atEnd_reads hend, hcut⟩
    have hrun : advance? text scanner.pastGap.offset = _ := advance?_nil hend
    rw [if_neg (by simp [hclosed]), here?]
    exact congrArg (Option.bind · _) hrun
  · rw [hrest] at hcut
    have hlexeme := hcut
    rw [← Lexeme.scan_append scanner.dialect c behind] at hlexeme
    refine ⟨?_, emit_reads _ hlexeme⟩
    have hrun : advance? text scanner.pastGap.offset = _ := advance?_cons hcut
    have hkind := lexeme?_eq scanner.dialect hcut
    rw [if_neg (by simp [hclosed]), here?]
    refine (congrArg (Option.bind · _) hrun).trans ?_
    exact congrArg (Option.bind · _) hkind

/-- The induction is on the tokens. -/
theorem tokens?_eq (h : Cut text scanner.offset scanner.rest) :
    (of text scanner).tokens? =
        some (scanner.tokens.1.map Token.mark, of text scanner.tokens.2) ∧
      (∀ token ∈ scanner.tokens.1, Reads text token) ∧
      Cut text scanner.tokens.2.offset scanner.tokens.2.rest := by
  fun_induction Scanner.tokens scanner with
  | case1 scanner step hend =>
    obtain ⟨hnext, hreads, hcut⟩ := next?_eq h
    refine ⟨?_, fun token hmem => List.mem_singleton.mp hmem ▸ hreads, hcut⟩
    rw [tokens?, hnext]
    exact if_pos hend
  | case2 scanner step hend later ih =>
    obtain ⟨hnext, hreads, hcut⟩ := next?_eq h
    obtain ⟨hlater, hall, hlast⟩ := ih hcut
    refine ⟨?_, List.forall_mem_cons.mpr ⟨hreads, hall⟩, hlast⟩
    rw [tokens?, hnext]
    have hprogress : (of text scanner.next.2).left < (of text scanner).left :=
      h.remaining_lt hcut (Scanner.next_rest_length hend)
    refine (if_neg hend).trans ((dif_pos hprogress).trans ?_)
    exact congrArg (Option.bind · _) hlater

end Scanning
end OffsetScanner

/-- What a scanner can be called for: the next token, all tokens that are left, or the comments. -/
inductive Scanner.Request
  | next
  | tokens
  | comments

/-- The tokens and the comments that are handed out, and where that leaves the scanner. -/
def Scanner.answer : Request → Scanner → (List Token × List Comment) × Scanner
  | .next, scanner => (([scanner.next.1], []), scanner.next.2)
  | .tokens, scanner => ((scanner.tokens.1, []), scanner.tokens.2)
  | .comments, scanner => (([], scanner.takeComments.1), scanner.takeComments.2)

/-- The answers to calls one after the other. -/
def Scanner.answers : List Request → Scanner → List (List Token × List Comment)
  | [], _ => []
  | request :: requests, scanner =>
    let (answer, later) := scanner.answer request
    answer :: later.answers requests

namespace OffsetScanner

def answer? : Scanner.Request → OffsetScanner → Option ((List Mark × List Comment) × OffsetScanner)
  | .next, scanner => do
    let (token, later) ← scanner.next?
    return (([token], []), later)
  | .tokens, scanner => do
    let (tokens, later) ← scanner.tokens?
    return ((tokens, []), later)
  | .comments, scanner => do
    let (comments, later) := scanner.takeComments
    return (([], comments), later)

def answers? : List Scanner.Request → OffsetScanner → Option (List (List Mark × List Comment))
  | [], _ => return []
  | request :: requests, scanner => do
    let (answer, later) ← scanner.answer? request
    return answer :: (← later.answers? requests)

variable {text : List Char} {scanner : Scanner}

theorem answer?_eq (request : Scanner.Request) (h : Cut text scanner.offset scanner.rest) :
    (of text scanner).answer? request =
        some (((scanner.answer request).1.1.map Token.mark, (scanner.answer request).1.2),
          of text (scanner.answer request).2) ∧
      (∀ token ∈ (scanner.answer request).1.1, Reads text token) ∧
      Cut text (scanner.answer request).2.offset (scanner.answer request).2.rest := by
  cases request with
  | next =>
    obtain ⟨hnext, hreads, hcut⟩ := next?_eq h
    refine ⟨?_, fun token hmem => List.mem_singleton.mp hmem ▸ hreads, hcut⟩
    rw [answer?, hnext]
    rfl
  | tokens =>
    obtain ⟨htokens, hreads, hcut⟩ := tokens?_eq h
    refine ⟨?_, hreads, hcut⟩
    rw [answer?, htokens]
    rfl
  | comments => exact ⟨rfl, nofun, h⟩

/-- However often and in whatever order the scanner is called, it hands out the same. The induction
is on the calls. -/
theorem answers?_eq (requests : List Scanner.Request) (h : Cut text scanner.offset scanner.rest) :
    (of text scanner).answers? requests =
        some ((scanner.answers requests).map fun answer => (answer.1.map Token.mark, answer.2)) ∧
      ∀ answer ∈ scanner.answers requests, ∀ token ∈ answer.1, Reads text token := by
  induction requests generalizing scanner with
  | nil => exact ⟨rfl, nofun⟩
  | cons request requests ih =>
    obtain ⟨hanswer, hreads, hcut⟩ := answer?_eq request h
    obtain ⟨hlater, hall⟩ := ih hcut
    refine ⟨?_, List.forall_mem_cons.mpr ⟨hreads, hall⟩⟩
    rw [answers?, hanswer]
    exact congrArg (Option.bind · _) hlater

theorem ofText_eq (text : String) (dialect : Dialect) :
    ofText text dialect = of text.toList (Scanner.ofText text dialect) := rfl

theorem ofText_cut (text : String) (dialect : Dialect) :
    Cut text.toList (Scanner.ofText text dialect).offset (Scanner.ofText text dialect).rest :=
  .start text.toList

end OffsetScanner
end EdgeQuery
