import EdgeQuery.Proofs.Token.Tiling

/-!
Texts of the same lexemes. A lexeme is over where a blank begins, whatever stood behind it before,
so the lexemes of a text may be written again with other blanks and comments between them: they are
read as tokens of the same kinds.
-/

namespace EdgeQuery

/-- A text begins with a blank, or it is empty. -/
def BlankFirst (text : List Char) : Prop :=
  ∀ c ∈ text.head?, Text.isBlank c

/-- What may be written between tokens: blanks, block comments, and line comments with the line feed
that ends them. -/
inductive Trivia : List Char → Prop
  | nil : Trivia []
  | blank {c : Char} {more : List Char} : Text.isBlank c → Trivia more → Trivia (c :: more)
  | block {body more : List Char} : ¬ ['*', '/'] <:+: body → Trivia more →
    Trivia ('/' :: '*' :: body ++ '*' :: '/' :: more)
  | line {mark body more : List Char} : mark ∈ [['/', '/'], ['-', '-'], ['#']] → '\n' ∉ body →
    Trivia more → Trivia (mark ++ body ++ '\n' :: more)

/-- A text in which the lexemes of the tokens are written one after the other, each with trivia
behind it. The trivia begin with a blank; only behind the last lexeme there may be none. -/
inductive WritesOut : List Token → List Char → Prop
  | nil : WritesOut [] []
  | cons {token : Token} {tokens : List Token} {gap more : List Char} : Trivia gap →
    BlankFirst (gap ++ more) → WritesOut tokens more →
    WritesOut (token :: tokens) (token.text.toList ++ (gap ++ more))

/-- The text has the lexemes of the tokens, and trivia around them. -/
def LaysOut (text : String) (tokens : List Token) : Prop :=
  ∃ leading more, text.toList = leading ++ more ∧ Trivia leading ∧ WritesOut tokens more

/-- The tokens were read from the same text as the same thing. -/
structure Token.SameLexeme (token token' : Token) : Prop where
  kind_eq : token'.kind = token.kind
  text_eq : token'.text = token.text

theorem endsWord_of_isBlank {c : Char} (h : Text.isBlank c = true) : Piece.endsWord c = true := by
  have hname : Lexeme.isNameChar c = false := by
    rw [Bool.eq_false_iff]
    intro hname
    have hrange : 33 ≤ c.toNat ∧ c.toNat ≤ 126 := by
      simp only [Lexeme.isNameChar, Char.isAlphanum, Bool.or_eq_true, beq_iff_eq] at hname
      rcases hname with (halpha | hdigit) | rfl
      · have := Lexeme.isNameStart_range (c := c) (by simp [Lexeme.isNameStart, halpha])
        omega
      · have := Lexeme.isDigit_range hdigit
        omega
      · decide
    rw [isBlank_of_printable hrange.1 hrange.2] at h
    cases h
  have hmicro : ∀ d ∈ ['µ', 'μ'], c ≠ d := by
    rintro d hd rfl
    simp only [List.mem_cons, List.not_mem_nil, or_false] at hd
    rcases hd with rfl | rfl <;> exact absurd h (by decide)
  simp only [Piece.endsWord, hname, Bool.not_false, Bool.true_and, Bool.and_eq_true, bne_iff_ne]
  exact ⟨hmicro 'µ' (by simp), hmicro 'μ' (by simp)⟩

theorem BlankFirst.endsWord {rest : List Char} (h : BlankFirst rest) :
    ∀ c ∈ rest.head?, Piece.endsWord c :=
  fun c hc => endsWord_of_isBlank (h c hc)

theorem stopsAt_of_isBlank {c : Char} (symbol : Symbol) (h : Text.isBlank c = true) :
    symbol.stopsAt c = true := by
  have hne (d : Char) (hd : Text.isBlank d = false) : c ≠ d := by
    rintro rfl
    rw [hd] at h
    cases h
  cases symbol <;> simp [Symbol.stopsAt, hne _ (show Text.isBlank ':' = false by decide),
    hne _ (show Text.isBlank '>' = false by decide), hne _ (show Text.isBlank '-' = false by decide),
    hne _ (show Text.isBlank '=' = false by decide), hne _ (show Text.isBlank '/' = false by decide),
    hne _ (show Text.isBlank '*' = false by decide)]

namespace Lexeme

variable {c : Char} {text rest : List Char}

/-- The lexeme with other text behind it. -/
def andThen (lexeme : Lexeme) (rest : List Char) : Lexeme :=
  { lexeme with rest := rest }

theorem word_andThen (dialect : Dialect) (text : List Char) (h : BlankFirst rest) :
    word dialect ((word dialect text).chars ++ rest) = (word dialect text).andThen rest := by
  have hall : ∀ c ∈ (word dialect text).chars, isNameChar c :=
    fun c => List.all_eq_true.mp List.all_takeWhile c
  obtain ⟨htake, hdrop⟩ := takeWhile_append_stop hall (endsWord_not_isNameChar h.endsWord)
  rw [word, htake, hdrop]
  rfl

/-- Every suffix of a unit of time is found where a blank stands behind it. -/
theorem unit?_suffix {suffix : List Char} {unit : DurationUnit}
    (hmem : (suffix, unit) ∈ DurationUnit.suffixes) (h : BlankFirst rest) :
    unit? (suffix ++ rest) = some (suffix, unit, rest) :=
  unit?_eq_some_iff.mpr ⟨hmem, rfl, endsWord_not_isNameChar h.endsWord⟩

/-- No unit begins with a digit. -/
theorem not_isDigit_suffix {suffix : List Char} {unit : DurationUnit} (rest : List Char)
    (hmem : (suffix, unit) ∈ DurationUnit.suffixes) :
    ∀ d ∈ (suffix ++ rest).head?, d.isDigit = false := by
  have hall : DurationUnit.suffixes.all fun entry => entry.1.head?.any (!·.isDigit) := by decide
  have hfirst : suffix.head?.any (!·.isDigit) = true := List.all_eq_true.mp hall _ hmem
  cases suffix with
  | nil => cases hfirst
  | cons c suffix =>
    rintro d hd
    cases hd
    simpa using hfirst

theorem number_andThen (text : List Char) (h : BlankFirst rest) :
    number ((number text).chars ++ rest) = (number text).andThen rest := by
  have hall : ∀ d ∈ text.takeWhile Char.isDigit, d.isDigit :=
    fun d => List.all_eq_true.mp List.all_takeWhile d
  have hstop : ∀ d ∈ rest.head?, d.isDigit = false := fun d hd =>
    not_isDigit_of_not_isNameChar (endsWord_not_isNameChar h.endsWord d hd)
  obtain ⟨htake, hdrop⟩ := takeWhile_append_stop hall hstop
  unfold number
  dsimp only
  by_cases hsize : Nat.ofDigitChars 10 (text.takeWhile Char.isDigit) 0 < UInt64.size
  · rw [dif_pos hsize]
    cases hunit : unit? (text.dropWhile Char.isDigit) with
    | none =>
      dsimp only
      simp only [htake, hdrop, unit?_eq_none h.endsWord, hsize, dite_true]
      rfl
    | some found =>
      obtain ⟨suffix, unit, later⟩ := found
      have hmem := (unit?_eq_some_iff.mp hunit).1
      obtain ⟨htake', hdrop'⟩ := takeWhile_append_stop hall (not_isDigit_suffix rest hmem)
      dsimp only
      rw [List.append_assoc]
      simp only [htake', hdrop', unit?_suffix hmem h, hsize, dite_true]
      rfl
  · rw [dif_neg hsize]
    simp only [htake, hdrop, hsize, dite_false]
    rfl

theorem string_andThen {mark : Char} (text : List Char)
    (hclosed : (string mark text).kind ≠ .error .unterminatedString) :
    ∃ content, (string mark text).chars = mark :: content ∧
      string mark (content ++ rest) = (string mark text).andThen rest := by
  rcases string_cases mark text with ⟨content, later, hnot, -, hstring⟩ | ⟨-, hstring⟩
  · refine ⟨content ++ [mark], by rw [hstring]; rfl, ?_⟩
    rw [hstring, List.append_assoc, List.singleton_append, string_closed rest hnot]
    rfl
  · rw [hstring] at hclosed
    exact absurd rfl hclosed

theorem variableName_andThen (text : List Char) (h : BlankFirst rest) :
    ∃ name, (variableName text).chars = '$' :: name ∧
      variableName (name ++ rest) = (variableName text).andThen rest := by
  have hname := endsWord_not_isNameChar h.endsWord
  unfold variableName
  split
  · next hstart =>
    have hall : ∀ d ∈ text.takeWhile isNameChar, isNameChar d :=
      fun d => List.all_eq_true.mp List.all_takeWhile d
    obtain ⟨htake, hdrop⟩ := takeWhile_append_stop hall hname
    have hhead : (text.takeWhile isNameChar ++ rest).head?.any isNameStart = true := by
      cases text with
      | nil => cases hstart
      | cons d text =>
        have hd : isNameStart d = true := hstart
        rw [List.takeWhile_cons_of_pos (isNameChar_of_isNameStart hd)]
        exact hd
    refine ⟨text.takeWhile isNameChar, rfl, ?_⟩
    rw [if_pos hhead, htake, hdrop]
    rfl
  · refine ⟨[], rfl, ?_⟩
    have hhead : ¬ ([] ++ rest).head?.any isNameStart = true := by
      cases rest with
      | nil => exact Bool.false_ne_true
      | cons d rest =>
        intro hd
        have hd : isNameChar d = true := isNameChar_of_isNameStart hd
        rw [hname d rfl] at hd
        cases hd
    rw [if_neg hhead]
    rfl

/-- What begins no symbol does so in front of a blank, too. -/
theorem longest?_eq_none (hnone : Symbol.longest? c text = none) (h : BlankFirst rest) :
    Symbol.longest? c rest = none := by
  cases hsymbol : Symbol.longest? c rest with
  | none => rfl
  | some symbol =>
    unfold Symbol.longest? at hsymbol
    split at hsymbol
    case h_27 => cases hsymbol
    case h_1 | h_2 | h_3 | h_4 | h_5 | h_6 | h_7 | h_8 => exact absurd (h _ rfl) (by decide)
    all_goals
      unfold Symbol.longest? at hnone
      split at hnone <;> simp_all

theorem symbol_andThen (c : Char) (text : List Char) (h : BlankFirst rest) :
    ∃ tail, (symbol c text).chars = c :: tail ∧
      symbol c (tail ++ rest) = (symbol c text).andThen rest := by
  have hchars := symbol_append c text
  unfold symbol at hchars ⊢
  cases hsymbol : Symbol.longest? c text with
  | none =>
    refine ⟨[], rfl, ?_⟩
    rw [List.nil_append, longest?_eq_none hsymbol h]
    rfl
  | some s =>
    rw [hsymbol] at hchars
    obtain ⟨d, tail, htext⟩ := List.exists_cons_of_ne_nil s.text_ne_nil
    dsimp only at hchars ⊢
    rw [htext] at hchars
    obtain rfl := (List.cons.inj hchars).1
    have hlongest := longest?_text htext fun c hc => stopsAt_of_isBlank s (h c hc)
    refine ⟨tail, htext, ?_⟩
    simp only [hlongest, htext, List.length_cons, Nat.add_sub_cancel, List.drop_left]
    rfl

/-- A lexeme is read again where a blank stands behind it. -/
theorem scan_andThen (dialect : Dialect) (c : Char) (text : List Char)
    (hclosed : (scan dialect c text).kind ≠ .error .unterminatedString) (h : BlankFirst rest) :
    ∃ tail, (scan dialect c text).chars = c :: tail ∧
      scan dialect c (tail ++ rest) = (scan dialect c text).andThen rest := by
  have hcons : ∃ tail, (scan dialect c text).chars = c :: tail := by
    have hchars := scan_append dialect c text
    obtain ⟨d, tail, hcons⟩ := List.exists_cons_of_ne_nil (chars_ne_nil dialect c text)
    rw [hcons] at hchars
    exact ⟨tail, by rw [hcons, (List.cons.inj hchars).1]⟩
  unfold scan at hclosed hcons ⊢
  split
  · next hstart =>
    rw [if_pos hstart] at hcons
    obtain ⟨tail, hcons⟩ := hcons
    refine ⟨tail, hcons, ?_⟩
    rw [← word_andThen dialect (c :: text) h, hcons]
    rfl
  next hstart =>
  rw [if_neg hstart] at hcons hclosed
  split
  · next hdigit =>
    rw [if_pos hdigit] at hcons
    obtain ⟨tail, hcons⟩ := hcons
    refine ⟨tail, hcons, ?_⟩
    rw [← number_andThen (c :: text) h, hcons]
    rfl
  next hdigit =>
  rw [if_neg hdigit] at hclosed
  split
  · next hquote =>
    rw [if_pos hquote] at hclosed
    exact string_andThen text hclosed
  split
  · next hdollar =>
    rw [hdollar]
    exact variableName_andThen text h
  · exact symbol_andThen c text h

end Lexeme

namespace CommentScan

variable {c : Char} {text : List Char}

/-- Whether a comment begins here is told by two characters. -/
theorem scan_eq_noComment_iff :
    scan (c :: text) = .noComment ↔ c ≠ '#' ∧ (c = '/' → '/' ∉ text.head? ∧ '*' ∉ text.head?) ∧
      (c = '-' → '-' ∉ text.head?) := by
  constructor
  · intro hscan
    unfold scan at hscan
    split at hscan
    · split at hscan <;> cases hscan
    · cases hscan
    · cases hscan
    · cases hscan
    · next hblock hslashes hdashes hhash =>
      cases text <;> simp_all
  · rintro ⟨hhash, hslash, hdash⟩
    unfold scan
    split <;> simp_all

/-- A lexeme begins no comment where a blank stands behind it, either. -/
theorem scan_noComment_andThen {tail later rest : List Char}
    (hscan : scan (c :: tail ++ later) = .noComment) (h : BlankFirst rest) :
    scan (c :: tail ++ rest) = .noComment := by
  rw [List.cons_append, scan_eq_noComment_iff] at hscan ⊢
  cases tail with
  | nil =>
    have hne (d : Char) (hd : Text.isBlank d = false) : d ∉ rest.head? := by
      intro hmem
      rw [h d hmem] at hd
      cases hd
    refine ⟨hscan.1, fun _ => ⟨hne _ (by decide), hne _ (by decide)⟩, fun _ => hne _ (by decide)⟩
  | cons d tail => exact hscan

/-- A block comment ends at the first place where one can end. -/
theorem blockEnd?_of_not_infix {body : List Char} (rest : List Char)
    (h : ¬ ['*', '/'] <:+: body) :
    blockEnd? (body ++ '*' :: '/' :: rest) = some (body ++ ['*', '/'], rest) := by
  induction body with
  | nil => rfl
  | cons c body ih =>
    have hbody : ¬ ['*', '/'] <:+: body := fun hpart =>
      h (hpart.trans (List.infix_cons (List.infix_refl _)))
    rw [List.cons_append, blockEnd?, ih hbody]
    · rfl
    · rintro later rfl hlater
      cases body with
      | nil => cases hlater
      | cons d body =>
        obtain ⟨rfl, -⟩ := List.cons.inj hlater
        exact h ⟨[], body, rfl⟩

theorem scan_block {body : List Char} (rest : List Char) (h : ¬ ['*', '/'] <:+: body) :
    scan ('/' :: '*' :: body ++ '*' :: '/' :: rest) =
      .closed ('/' :: '*' :: body ++ ['*', '/']) rest := by
  simp only [List.cons_append, scan, blockEnd?_of_not_infix rest h]

theorem scan_line {mark body : List Char} (rest : List Char)
    (hmark : mark ∈ [['/', '/'], ['-', '-'], ['#']]) (h : '\n' ∉ body) :
    scan (mark ++ body ++ '\n' :: rest) = .closed (mark ++ body) ('\n' :: rest) := by
  have hnot : '\n' ∉ mark ++ body :=
    fun hmem => (List.mem_append.mp hmem).elim (lineFeed_not_mem_opener hmark) h
  rw [← line_append_lineFeed hnot rest, List.append_assoc]
  exact scan_opener _ hmark

end CommentScan

theorem Lexeme.Fronts.kind_ne_endOfInput {dialect : Dialect} {kind : TokenKind}
    {chars rest : List Char} (h : Fronts dialect kind chars rest) : kind ≠ .endOfInput := by
  obtain ⟨c, tail, -, -, -, hscan⟩ := h
  rw [← show (scan dialect c (tail ++ rest)).kind = kind by rw [hscan]]
  exact scan_kind_ne_endOfInput dialect c (tail ++ rest)

/-- A token is read again where a blank stands behind it. -/
theorem Lexeme.Fronts.andThen {dialect : Dialect} {kind : TokenKind} {chars later rest : List Char}
    (hfronts : Fronts dialect kind chars later) (hclosed : kind ≠ .error .unterminatedString)
    (h : BlankFirst rest) : Fronts dialect kind chars rest := by
  obtain ⟨c, tail, rfl, hblank, hcomment, hscan⟩ := hfronts
  have hkind : (scan dialect c (tail ++ later)).kind ≠ .error .unterminatedString := by
    rw [hscan]
    exact hclosed
  obtain ⟨tail', hchars, hagain⟩ := scan_andThen dialect c (tail ++ later) hkind h
  rw [hscan] at hchars hagain
  obtain rfl := (List.cons.inj hchars).2
  exact ⟨c, tail, rfl, hblank, CommentScan.scan_noComment_andThen hcomment h, hagain⟩

namespace Scanner

/-- A comment in front of a token is laid aside. -/
theorem tokens_closed {text chars rest : List Char} (dialect : Dialect) (offset : Nat)
    (comments : List Comment) (h : CommentScan.scan text = .closed chars rest) :
    (Scanner.mk dialect offset text comments).tokens =
      (Scanner.mk dialect (offset + width chars) rest
        (comments ++ [⟨String.ofList chars, ⟨offset, offset + width chars⟩⟩])).tokens := by
  have hcomment := CommentScan.isComment_of_scan h
  obtain ⟨c, tail, hcons, hblank⟩ := CommentScan.exists_cons_of_isComment hcomment
  have htext : text = c :: (tail ++ rest) := by
    rw [← CommentScan.scan_append h, hcons]
    rfl
  have hdrop : text.dropWhile Text.isBlank = text := by
    rw [htext, List.dropWhile_cons_of_neg (by simp [hblank])]
  have htake : text.takeWhile Text.isBlank = [] := by
    rw [htext, List.takeWhile_cons_of_neg (by simp [hblank])]
  apply tokens_congr
  unfold next
  dsimp only
  rw [Gap.scan_closed offset (hdrop.symm ▸ h), htake, List.append_assoc, List.singleton_append]
  rfl

/-- Trivia in front of a token change nothing but the places, and the comments laid aside. -/
theorem tokens_trivia {gap : List Char} (h : Trivia gap) (dialect : Dialect) (offset : Nat)
    (rest : List Char) (comments : List Comment) :
    ∃ comments', (Scanner.mk dialect offset (gap ++ rest) comments).tokens =
      (Scanner.mk dialect (offset + width gap) rest comments').tokens := by
  induction h generalizing offset comments with
  | nil => exact ⟨comments, rfl⟩
  | @blank c more hblank _ ih =>
    obtain ⟨comments', htokens⟩ := ih (offset + c.utf8Size) comments
    refine ⟨comments', ?_⟩
    rw [List.cons_append, tokens_blank dialect offset _ comments hblank, htokens, width_cons,
      Nat.add_assoc]
  | @block body more hbody _ ih =>
    have hscan := CommentScan.scan_block (more ++ rest) hbody
    have hfirst := tokens_closed dialect offset comments hscan
    generalize comments ++ _ = laidAside at hfirst
    obtain ⟨comments', htokens⟩ := ih _ laidAside
    have htext : '/' :: '*' :: body ++ '*' :: '/' :: more ++ rest =
        '/' :: '*' :: body ++ '*' :: '/' :: (more ++ rest) := by simp
    have hwidth : offset + width ('/' :: '*' :: body ++ '*' :: '/' :: more) =
        offset + width ('/' :: '*' :: body ++ ['*', '/']) + width more := by
      simp [Nat.add_assoc]
    refine ⟨comments', ?_⟩
    rw [htext, hfirst, htokens, hwidth]
  | @line mark body more hmark hbody _ ih =>
    have hscan := CommentScan.scan_line (more ++ rest) hmark hbody
    have hfirst := tokens_closed dialect offset comments hscan
    generalize comments ++ _ = laidAside at hfirst
    obtain ⟨comments', htokens⟩ := ih (offset + width (mark ++ body) + '\n'.utf8Size) laidAside
    have htext : mark ++ body ++ '\n' :: more ++ rest = mark ++ body ++ '\n' :: (more ++ rest) := by
      simp
    have hwidth : offset + width (mark ++ body ++ '\n' :: more) =
        offset + width (mark ++ body) + '\n'.utf8Size + width more := by
      simp [Nat.add_assoc]
    refine ⟨comments', ?_⟩
    rw [htext, hfirst, tokens_blank dialect _ _ laidAside Text.isBlank_lineFeed, htokens, hwidth]

/-- Lexemes that are written out are read as tokens of the same kinds and texts. The induction is on
the tokens. -/
theorem tokens_writesOut {dialect : Dialect} {tokens : List Token} {text : List Char}
    (h : WritesOut tokens text)
    (hfronts : ∀ token ∈ tokens, token.kind ≠ .error .unterminatedString ∧
      ∃ rest, Lexeme.Fronts dialect token.kind token.text.toList rest)
    (offset : Nat) (comments : List Comment) :
    ∃ tokens', (Scanner.mk dialect offset text comments).tokens.1 =
        tokens' ++ [Token.atEnd (offset + width text)] ∧
      List.Forall₂ Token.SameLexeme tokens tokens' := by
  induction h generalizing offset comments with
  | nil => exact ⟨[], by rw [tokens_nil]; rfl, .nil⟩
  | @cons token tokens gap more hgap hblank _ ih =>
    obtain ⟨⟨hclosed, later, hfirst⟩, hmore⟩ := List.forall_mem_cons.mp hfronts
    have hagain := hfirst.andThen hclosed hblank
    obtain ⟨comments', hskipped⟩ :=
      tokens_trivia hgap dialect (offset + width token.text.toList) more comments
    obtain ⟨tokens', htokens, hsame⟩ :=
      ih hmore (offset + width token.text.toList + width gap) comments'
    let span : Span := ⟨offset, offset + width token.text.toList⟩
    have hwidth : offset + width (token.text.toList ++ (gap ++ more)) =
        offset + width token.text.toList + width gap + width more := by
      simp [Nat.add_assoc]
    refine ⟨⟨token.kind, token.text, span⟩ :: tokens', ?_, .cons ⟨rfl, rfl⟩ hsame⟩
    rw [tokens_lexeme dialect offset comments hagain hagain.kind_ne_endOfInput]
    dsimp only
    rw [hskipped, htokens, String.ofList_toList, hwidth]
    rfl

/-- A text of the same lexemes has tokens of the same kinds and texts. -/
theorem tokens_laysOut {text text' : String} {dialect : Dialect}
    (hclosed : ∀ token ∈ (ofText text dialect).tokens.1.dropLast,
      token.kind ≠ .error .unterminatedString ∧ token.kind ≠ .error .unterminatedComment)
    (h : LaysOut text' (ofText text dialect).tokens.1.dropLast) :
    List.Forall₂ Token.SameLexeme (ofText text dialect).tokens.1.dropLast
      (ofText text' dialect).tokens.1.dropLast := by
  obtain ⟨tiles, tokens, htokens, hbetween⟩ := tokens_between (ofText text dialect)
  rw [htokens, List.dropLast_concat] at hclosed h ⊢
  have hfronts : ∀ token ∈ tokens, token.kind ≠ .error .unterminatedString ∧
      ∃ rest, Lexeme.Fronts dialect token.kind token.text.toList rest := by
    intro token hmem
    obtain ⟨hstring, hcomment⟩ := hclosed token hmem
    rw [← hbetween.tokens] at hmem
    obtain ⟨kind, chars, hplaced, htoken⟩ := Tile.exists_of_mem_tokens hmem
    have hgenuine := hbetween.genuine _ (Tile.mem_of_mem_placed hplaced)
    rw [htoken] at hstring hcomment ⊢
    rw [String.toList_ofList]
    exact ⟨hstring, hgenuine.resolve_right fun hopen => hcomment hopen.1⟩
  obtain ⟨leading, more, htext, hleading, hwrites⟩ := h
  obtain ⟨comments, hskipped⟩ := tokens_trivia hleading dialect 0 more []
  obtain ⟨tokens', htokens', hsame⟩ := tokens_writesOut hwrites hfronts (0 + width leading) comments
  have hagain : (ofText text' dialect).tokens.1.dropLast = tokens' := by
    rw [ofText, htext, hskipped, htokens', List.dropLast_concat]
  rw [hagain]
  exact hsame

end Scanner
end EdgeQuery
