import EdgeQuery.Proofs.Token.Place

/-!
Texts behind a semicolon. A semicolon belongs to no other token and opens no comment, so where the
last token of a text is the semicolon at its end, the text is scanned in the same way whatever
stands behind it, and what stands behind it is scanned as it is by itself, only at other places.
-/

namespace EdgeQuery

section Ends

variable {α : Type} {p : α → Bool} {front rest : List Char}

/-- The text ends with a semicolon. -/
def EndsSegment (text : List Char) : Prop :=
  text.getLast? = some ';'

theorem EndsSegment.of_append (h : EndsSegment (front ++ rest)) (hne : rest ≠ []) :
    EndsSegment rest := by
  rw [EndsSegment, List.getLast?_append_of_ne_nil _ hne] at h
  exact h

theorem EndsSegment.tail {c : Char} (h : EndsSegment (c :: rest)) (hne : rest ≠ []) :
    EndsSegment rest :=
  EndsSegment.of_append (show EndsSegment ([c] ++ rest) from h) hne

theorem EndsSegment.eq_of_singleton {c : Char} (h : EndsSegment [c]) : c = ';' :=
  Option.some.inj h

theorem EndsSegment.dropWhile {text : List Char} {p : Char → Bool} (h : EndsSegment text)
    (hne : text.dropWhile p ≠ []) : EndsSegment (text.dropWhile p) := by
  rw [← List.takeWhile_append_dropWhile (p := p) (l := text)] at h
  exact h.of_append hne

/-- What is taken from a text that is not used up does not depend on what follows the text. -/
theorem takeWhile_append_more {text : List α} (more : List α) (h : text.dropWhile p ≠ []) :
    (text ++ more).takeWhile p = text.takeWhile p ∧
      (text ++ more).dropWhile p = text.dropWhile p ++ more := by
  have hall : ∀ c ∈ text.takeWhile p, p c = true :=
    fun c => List.all_eq_true.mp List.all_takeWhile c
  have hstop : ∀ c ∈ (text.dropWhile p ++ more).head?, p c = false := by
    rw [List.head?_append_of_ne_nil _ h, List.head?_eq_some_head h]
    rintro c ⟨⟩
    exact List.head_dropWhile_not p h
  have hsplit : text ++ more = text.takeWhile p ++ (text.dropWhile p ++ more) := by
    rw [← List.append_assoc, List.takeWhile_append_dropWhile]
  rw [hsplit]
  exact takeWhile_append_stop hall hstop

theorem eq_nil_of_width_eq_zero {text : List Char} (h : width text = 0) : text = [] := by
  cases text with
  | nil => rfl
  | cons c text =>
    have hpos := c.utf8Size_pos
    rw [width_cons] at h
    omega

end Ends

namespace Lexeme

/-- The lexeme with more text behind it. -/
def before (lexeme : Lexeme) (more : List Char) : Lexeme :=
  { lexeme with rest := lexeme.rest ++ more }

variable {c : Char} {text more : List Char}

theorem word_before (dialect : Dialect) (h : (word dialect text).rest ≠ []) :
    word dialect (text ++ more) = (word dialect text).before more := by
  obtain ⟨htake, hdrop⟩ := takeWhile_append_more more h
  rw [word, htake, hdrop]
  rfl

/-- What does not contain a semicolon is found in front of one, or not at all. -/
theorem after?_append_more {front : List Char} (hfront : ';' ∉ front) (h : EndsSegment text) :
    after? front (text ++ more) = (after? front text).map (· ++ more) ∧
      ∀ rest ∈ after? front text, EndsSegment rest := by
  induction front generalizing text with
  | nil =>
    refine ⟨rfl, ?_⟩
    rintro rest ⟨⟩
    exact h
  | cons c front ih =>
    obtain ⟨hc, hfront⟩ := List.ne_and_not_mem_of_not_mem_cons hfront
    cases text with
    | nil => cases h
    | cons d text =>
      rw [List.cons_append, after?, after?]
      by_cases hcd : c = d
      · rw [if_pos hcd, if_pos hcd]
        refine ih hfront (h.tail ?_)
        rintro rfl
        exact hc (hcd.trans h.eq_of_singleton).symm
      · rw [if_neg hcd, if_neg hcd]
        exact ⟨rfl, by simp⟩

theorem endsName_append {rest : List Char} (h : EndsSegment rest) :
    endsName (rest ++ more) = endsName rest := by
  cases rest with
  | nil => cases h
  | cons d rest => rfl

theorem not_mem_suffixes : ∀ entry ∈ DurationUnit.suffixes, ';' ∉ entry.1 := by
  decide

/-- A unit of time is found in front of a semicolon, or not at all. -/
theorem unit?_append_more (h : EndsSegment text) :
    unit? (text ++ more) =
      (unit? text).map fun (suffix, unit, rest) => (suffix, unit, rest ++ more) := by
  have hnot := not_mem_suffixes
  unfold unit?
  generalize DurationUnit.suffixes = entries at hnot ⊢
  induction entries with
  | nil => rfl
  | cons entry entries ih =>
    obtain ⟨suffix, unit⟩ := entry
    obtain ⟨hentry, hentries⟩ := List.forall_mem_cons.mp hnot
    obtain ⟨hafter, hends⟩ := after?_append_more hentry h
    rw [List.findSome?_cons, List.findSome?_cons, ih hentries]
    dsimp only
    rw [hafter]
    cases hrest : after? suffix text with
    | none => rfl
    | some rest =>
      dsimp only [Option.map_some]
      rw [endsName_append (hends rest hrest)]
      cases endsName rest <;> rfl

theorem number_before (hends : EndsSegment text) (h : (number text).rest ≠ []) :
    number (text ++ more) = (number text).before more := by
  have hdrop : text.dropWhile Char.isDigit ≠ [] := by
    intro hnil
    unfold number at h
    simp only [hnil] at h
    split at h <;> exact h rfl
  have hrest := hends.dropWhile hdrop
  obtain ⟨htake, hdrop'⟩ := takeWhile_append_more more hdrop
  rw [number, number, htake, hdrop', unit?_append_more hrest]
  dsimp only
  split
  · cases unit? (text.dropWhile Char.isDigit) <;> rfl
  · rfl

theorem string_before {mark : Char} (h : (string mark text).rest ≠ []) :
    string mark (text ++ more) = (string mark text).before more := by
  rcases string_cases mark text with ⟨content, rest, hnot, rfl, hstring⟩ | ⟨-, hstring⟩
  · rw [hstring, List.append_assoc, List.cons_append, string_closed (rest ++ more) hnot]
    rfl
  · rw [hstring] at h
    exact absurd rfl h

theorem variableName_before (hne : text ≠ []) (h : (variableName text).rest ≠ []) :
    variableName (text ++ more) = (variableName text).before more := by
  have hhead : (text ++ more).head? = text.head? := List.head?_append_of_ne_nil _ hne
  rw [variableName, hhead]
  rw [variableName] at h ⊢
  split at h
  · next hstart =>
    obtain ⟨htake, hdrop⟩ := takeWhile_append_more more h
    rw [if_pos hstart, if_pos hstart, htake, hdrop]
    rfl
  · next hstart =>
    rw [if_neg hstart, if_neg hstart]
    rfl

/-- No symbol is longer than two characters. -/
theorem longest?_cons (c d : Char) (left right : List Char) :
    Symbol.longest? c (d :: left) = Symbol.longest? c (d :: right) := by
  unfold Symbol.longest?
  split
  case h_1 | h_2 | h_3 | h_4 | h_5 | h_6 | h_7 | h_8 => rename_i h; cases h; rfl
  -- Here a longer symbol begins with the same character, or no symbol at all is found.
  case h_10 | h_15 | h_16 | h_26 | h_27 => simp_all
  all_goals rfl

theorem symbol_before (hne : text ≠ []) :
    symbol c (text ++ more) = (symbol c text).before more := by
  cases text with
  | nil => exact absurd rfl hne
  | cons d text =>
    rw [List.cons_append, symbol, symbol, longest?_cons c d (text ++ more) text]
    cases hsymbol : Symbol.longest? c (d :: text) with
    | none => rfl
    | some s =>
      have hlength := congrArg List.length (symbol_append c (d :: text))
      rw [symbol, hsymbol] at hlength
      dsimp only at hlength
      simp only [List.length_append, List.length_drop, List.length_cons] at hlength
      have hle : s.text.toList.length - 1 ≤ (d :: text).length := by
        rw [List.length_cons]
        omega
      have hdrop : (d :: (text ++ more)).drop (s.text.toList.length - 1) =
          (d :: text).drop (s.text.toList.length - 1) ++ more :=
        List.drop_append_of_le_length hle
      dsimp only
      rw [hdrop]
      rfl

/-- A semicolon is read from the character for it, and from nothing else. -/
theorem scan_semicolon {dialect : Dialect}
    (h : (scan dialect c text).kind = .symbol .semicolon) : c = ';' := by
  have hbegins := scan_begins dialect c text
  rw [h] at hbegins
  cases hbegins with
  | symbol _ hfirst => exact (Option.some.inj hfirst).symm

/-- A lexeme in front of others is read in the same way whatever stands behind them; a semicolon is
so by itself. -/
theorem scan_before (dialect : Dialect) (more : List Char) (hends : EndsSegment (c :: text))
    (h : (scan dialect c text).rest ≠ [] ∨ (scan dialect c text).kind = .symbol .semicolon) :
    scan dialect c (text ++ more) = (scan dialect c text).before more := by
  by_cases hsemicolon : c = ';'
  · subst hsemicolon
    rfl
  have hrest : (scan dialect c text).rest ≠ [] :=
    h.resolve_right fun hkind => hsemicolon (scan_semicolon hkind)
  have hne : text ≠ [] := by
    rintro rfl
    exact hsemicolon hends.eq_of_singleton
  unfold scan at hrest ⊢
  split at hrest
  · next hstart => rw [if_pos hstart, if_pos hstart]; exact word_before dialect hrest
  next hstart =>
  rw [if_neg hstart, if_neg hstart]
  split at hrest
  · next hdigit => rw [if_pos hdigit, if_pos hdigit]; exact number_before hends hrest
  next hdigit =>
  rw [if_neg hdigit, if_neg hdigit]
  split at hrest
  · next hquote => rw [if_pos hquote, if_pos hquote]; exact string_before hrest
  next hquote =>
  rw [if_neg hquote, if_neg hquote]
  split at hrest
  · next hdollar => rw [if_pos hdollar, if_pos hdollar]; exact variableName_before hne hrest
  next hdollar =>
  rw [if_neg hdollar, if_neg hdollar]
  exact symbol_before hne

end Lexeme

namespace CommentScan

variable {text more chars rest : List Char}

theorem scan_noComment_more (h : EndsSegment text) (hscan : scan text = .noComment) :
    scan (text ++ more) = .noComment := by
  match text with
  | [] => cases h
  | [c] =>
    obtain rfl := h.eq_of_singleton
    rfl
  | c :: d :: tail =>
    unfold scan at hscan
    split at hscan
    · split at hscan <;> cases hscan
    · cases hscan
    · cases hscan
    · cases hscan
    · next hblock hslashes hdashes hhash =>
      rw [List.cons_append, List.cons_append, scan]
      · rintro body heq
        simp only [List.cons.injEq] at heq
        obtain ⟨rfl, rfl, -⟩ := heq
        exact hblock tail rfl
      · rintro body heq
        simp only [List.cons.injEq] at heq
        obtain ⟨rfl, rfl, -⟩ := heq
        exact hslashes tail rfl
      · rintro body heq
        simp only [List.cons.injEq] at heq
        obtain ⟨rfl, rfl, -⟩ := heq
        exact hdashes tail rfl
      · rintro body heq
        simp only [List.cons.injEq] at heq
        obtain ⟨rfl, -⟩ := heq
        exact hhash (d :: tail) rfl

theorem scan_closed_more (hscan : scan text = .closed chars rest) (hne : rest ≠ []) :
    scan (text ++ more) = .closed chars (rest ++ more) := by
  rcases closed_cases hscan with ⟨body, front, rfl, rfl, hend⟩ | ⟨opener, hopener, body, rfl, hline⟩
  · have hmore : blockEnd? (body ++ more) = some (front, rest ++ more) := by
      rw [← blockEnd?_append hend, List.append_assoc]
      exact blockEnd?_front hend (rest ++ more)
    simp only [List.cons_append, scan, hmore]
  · obtain ⟨rfl, rfl⟩ := CommentScan.closed.inj hline
    obtain ⟨htake, hdrop⟩ := takeWhile_append_more more hne
    rw [List.append_assoc, scan_opener _ hopener, ← List.append_assoc, line, htake, hdrop]

end CommentScan

namespace Gap

/-- The gap with more text behind what follows it. -/
def before (gap : Gap) (more : List Char) : Gap :=
  { gap with rest := gap.rest ++ more }

theorem rest_ne_nil {offset : Nat} {text : List Char} (h : (Gap.scan offset text).rest ≠ []) :
    text ≠ [] := by
  rintro rfl
  exact h (congrArg Gap.rest (scan_noComment offset rfl))

/-- What stands behind a comment that is closed ends as the text does. -/
theorem endsSegment_of_closed {text chars rest : List Char} (h : EndsSegment text)
    (hscan : CommentScan.scan (text.dropWhile Text.isBlank) = .closed chars rest)
    (hne : rest ≠ []) : EndsSegment rest := by
  have hchars := CommentScan.scan_append hscan
  have hdropped : text.dropWhile Text.isBlank ≠ [] := by
    rw [← hchars]
    exact List.append_ne_nil_of_right_ne_nil chars hne
  have hends := h.dropWhile hdropped
  rw [← hchars] at hends
  exact hends.of_append hne

/-- A gap in front of a lexeme is the same whatever stands behind the text. -/
theorem scan_before {offset : Nat} {text : List Char} (more : List Char) (hends : EndsSegment text)
    (hclosed : (Gap.scan offset text).unclosed = false) (hne : (Gap.scan offset text).rest ≠ []) :
    Gap.scan offset (text ++ more) = (Gap.scan offset text).before more := by
  fun_induction Gap.scan offset text with
  | case1 offset text start hscan =>
    obtain ⟨htake, hdrop⟩ := takeWhile_append_more more hne
    rw [scan_noComment, htake, hdrop]
    · rfl
    · rw [hdrop]
      exact CommentScan.scan_noComment_more (hends.dropWhile hne) hscan
  | case2 => cases hclosed
  | case3 offset text start chars rest hscan stop gap ih =>
    have hrest : rest ≠ [] := rest_ne_nil hne
    have hdropped : text.dropWhile Text.isBlank ≠ [] := by
      rw [← CommentScan.scan_append hscan]
      exact List.append_ne_nil_of_right_ne_nil chars hrest
    obtain ⟨htake, hdrop⟩ := takeWhile_append_more more hdropped
    have hmore : CommentScan.scan ((text ++ more).dropWhile Text.isBlank) =
        .closed chars (rest ++ more) := by
      rw [hdrop]
      exact CommentScan.scan_closed_more hscan hrest
    have hlater : Gap.scan stop (rest ++ more) = gap.before more :=
      ih (endsSegment_of_closed hends hscan hrest) hclosed hne
    rw [scan_closed offset hmore, htake]
    show Gap.mk (_ :: (Gap.scan stop (rest ++ more)).comments) (Gap.scan stop (rest ++ more)).offset
      (Gap.scan stop (rest ++ more)).rest (Gap.scan stop (rest ++ more)).unclosed = _
    rw [hlater]
    rfl

theorem scan_endsSegment {offset : Nat} {text : List Char} (h : EndsSegment text)
    (hne : (Gap.scan offset text).rest ≠ []) : EndsSegment (Gap.scan offset text).rest := by
  fun_induction Gap.scan offset text with
  | case1 offset text => exact h.dropWhile hne
  | case2 offset text => exact h.dropWhile hne
  | case3 offset text start chars rest hscan stop gap ih =>
    exact ih (endsSegment_of_closed h hscan (rest_ne_nil hne)) hne

end Gap

namespace Scanner

/-- The scanner with more text behind the one that is left. -/
def before (scanner : Scanner) (more : List Char) : Scanner :=
  { scanner with rest := scanner.rest ++ more }

variable {scanner : Scanner}

theorem next_endsSegment (h : EndsSegment scanner.rest) (hne : scanner.next.2.rest ≠ []) :
    EndsSegment scanner.next.2.rest := by
  rcases next_cases scanner with ⟨-, hnext⟩ | ⟨-, hrest, hnext⟩ | ⟨c, text, -, hrest, hnext⟩
  · rw [hnext] at hne
    exact absurd rfl hne
  · rw [hnext] at hne
    exact absurd hrest hne
  · have hpastNe : scanner.pastGap.rest ≠ [] := by simp [hrest]
    have hpast : EndsSegment scanner.pastGap.rest := Gap.scan_endsSegment h hpastNe
    rw [hrest, ← Lexeme.scan_append scanner.dialect c text] at hpast
    rw [hnext] at hne ⊢
    exact hpast.of_append hne

/-- The gap in front of a lexeme ends at the lexeme, whatever stands behind the segment. -/
theorem next_before_of_closed (more : List Char) (h : EndsSegment scanner.rest)
    (hclosed : (Gap.scan scanner.offset scanner.rest).unclosed = false)
    (hne : scanner.pastGap.rest ≠ []) :
    (scanner.before more).next = (scanner.pastGap.before more).handOut false := by
  have hgap : Gap.scan (scanner.before more).offset (scanner.before more).rest =
      (Gap.scan scanner.offset scanner.rest).before more := Gap.scan_before more h hclosed hne
  have hpast : (scanner.before more).pastGap = scanner.pastGap.before more := by
    rw [pastGap, hgap]
    rfl
  have hunclosed : (Gap.scan (scanner.before more).offset (scanner.before more).rest).unclosed =
      false := by
    rw [hgap]
    exact hclosed
  rw [next_eq, hunclosed, hpast]

/-- A token that is not the last of its segment, or is the semicolon that ends it, is the same
whatever stands behind the segment. -/
theorem next_before (more : List Char) (h : EndsSegment scanner.rest)
    (hinside : scanner.next.2.rest ≠ [] ∨ scanner.next.1.kind = .symbol .semicolon) :
    (scanner.before more).next = (scanner.next.1, scanner.next.2.before more) := by
  rcases next_cases scanner with ⟨-, hnext⟩ | ⟨-, hrest, hnext⟩ | ⟨c, text, hclosed, hrest, hnext⟩
  · rw [hnext] at hinside
    rcases hinside with hne | hkind
    · exact absurd rfl hne
    · cases hkind
  · rw [hnext] at hinside
    rcases hinside with hne | hkind
    · exact absurd hrest hne
    · cases hkind
  · have hne : scanner.pastGap.rest ≠ [] := by simp [hrest]
    have hpast : EndsSegment scanner.pastGap.rest := Gap.scan_endsSegment h hne
    have hmore : (scanner.pastGap.before more).rest = c :: (text ++ more) := by
      rw [before, hrest]
      rfl
    rw [hrest] at hpast
    rw [hnext] at hinside
    rw [hnext, next_before_of_closed more h hclosed hne, handOut, hmore]
    show (let lexeme := Lexeme.scan scanner.dialect c (text ++ more)
      emit (scanner.pastGap.before more) lexeme.kind lexeme.chars lexeme.rest) = _
    rw [Lexeme.scan_before scanner.dialect more hpast hinside]
    rfl

theorem tokens_before_cons (more : List Char) (h : EndsSegment scanner.rest)
    (hne : scanner.next.1.kind ≠ .endOfInput)
    (hinside : scanner.next.2.rest ≠ [] ∨ scanner.next.1.kind = .symbol .semicolon) :
    (scanner.before more).tokens = (scanner.next.1 :: (scanner.next.2.before more).tokens.1,
      (scanner.next.2.before more).tokens.2) := by
  have hnext := next_before more h hinside
  have hne' : (scanner.before more).next.1.kind ≠ .endOfInput := by
    rw [hnext]
    exact hne
  rw [tokens, dif_neg hne', hnext]

theorem tokens_of_rest_nil (h : scanner.rest = []) :
    scanner.tokens = ([Token.atEnd scanner.offset], scanner) := by
  obtain ⟨dialect, offset, rest, comments⟩ := scanner
  obtain rfl : rest = [] := h
  exact tokens_nil dialect offset comments

/-- Where the last token of a text is the semicolon at its end, more text behind it adds its own
tokens and leaves those before as they are. The induction is on the tokens of the text. -/
theorem tokens_before (more : List Char) {front : List Token} {token mark : Token}
    (hends : EndsSegment scanner.rest) (htokens : scanner.tokens.1 = front ++ [token, mark])
    (hkind : token.kind = .symbol .semicolon) (hstop : token.span.stop = scanner.extent) :
    (scanner.before more).tokens =
      (front ++ token :: (scanner.tokens.2.before more).tokens.1,
        (scanner.tokens.2.before more).tokens.2) := by
  fun_induction tokens scanner generalizing front with
  | case1 =>
    have hlength := congrArg List.length htokens
    simp at hlength
  | case2 scanner step hne later =>
    rename_i ih
    obtain ⟨-, -, hbehind, hextent⟩ := next_within scanner
    have hnil (hrest : step.2.rest = []) : later = ([Token.atEnd step.2.offset], step.2) :=
      tokens_of_rest_nil hrest
    cases front with
    | nil =>
      -- Behind the semicolon nothing is left, since it ends where the text does.
      obtain ⟨rfl, -⟩ := List.cons.inj htokens
      have hwidth : width step.2.rest = 0 := by
        have hextent : step.2.offset + width step.2.rest = scanner.extent := hextent
        have hbehind : step.1.span.stop = step.2.offset := hbehind
        omega
      rw [tokens_before_cons more hends hne (.inr hkind), hnil (eq_nil_of_width_eq_zero hwidth)]
      rfl
    | cons first front =>
      obtain ⟨rfl, hlater⟩ := List.cons.inj htokens
      have hrest : step.2.rest ≠ [] := by
        intro hrest
        rw [hnil hrest] at hlater
        have hlength := congrArg List.length hlater
        simp at hlength
      rw [tokens_before_cons more hends hne (.inl hrest),
        ih (next_endsSegment hends hrest) hlater (hstop.trans hextent.symm)]
      rfl

/-- The last token of the text is the semicolon that stands at its end. -/
def ClosedBySemicolon (scanner : Scanner) : Prop :=
  ∃ token ∈ scanner.tokens.1.dropLast.getLast?,
    token.kind = .symbol .semicolon ∧ token.span.stop = scanner.extent

/-- Two texts are scanned one after the other if a semicolon separates them. -/
theorem tokens_append {dialect : Dialect} {text : String} (more : String)
    (hends : EndsSegment text.toList) (h : (ofText text dialect).ClosedBySemicolon) :
    (ofText (text ++ more) dialect).tokens =
      ((ofText text dialect).tokens.1.dropLast ++
          (ofText more dialect).tokens.1.map (·.shifted (width text.toList)),
        ((ofText more dialect).tokens.2.shifted (width text.toList)).behind
          (ofText text dialect).tokens.2.comments) := by
  obtain ⟨token, hlast, hkind, hstop⟩ := h
  obtain ⟨ahead, htokens, -⟩ := tokens_eq (ofText text dialect)
  rw [htokens, List.dropLast_concat] at hlast ⊢
  obtain ⟨front, rfl⟩ := List.getLast?_eq_some_iff.mp hlast
  obtain ⟨hrest, hoffset⟩ := tokens_atEnd (ofText text dialect)
  have hdialect := tokens_dialect (ofText text dialect)
  have hextent : (ofText text dialect).extent = width text.toList := Nat.zero_add _
  have hbehind : (ofText text dialect).tokens.2.before more.toList =
      ((ofText more dialect).shifted (width text.toList)).behind
        (ofText text dialect).tokens.2.comments := by
    rw [← hextent]
    generalize (ofText text dialect).tokens.2 = later at hrest hoffset hdialect
    obtain ⟨dialect', offset, rest, comments⟩ := later
    obtain rfl : rest = [] := hrest
    obtain rfl : offset = _ := hoffset
    obtain rfl : dialect' = dialect := hdialect
    simp [before, behind, shifted, ofText]
  have hwhole : ofText (text ++ more) dialect = (ofText text dialect).before more.toList := by
    rw [ofText, String.toList_append]
    rfl
  rw [List.append_assoc] at htokens
  rw [hwhole, tokens_before more.toList hends htokens hkind hstop, hbehind, tokens_behind,
    tokens_shifted, List.append_assoc]
  rfl

end Scanner
end EdgeQuery
