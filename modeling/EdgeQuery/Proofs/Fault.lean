import Mathlib
import EdgeQuery.Proofs.OpenDelimiters
import EdgeQuery.Proofs.SourceFile.Rounds
import EdgeQuery.Proofs.ViablePrefix

/-!
What a fault tells of a text. Characters that form no token are tokens of their own kind, and no
reader passes one of these; so a text that has one is not read, and a fault has its cause in what
stands before the first of them: in the token where reading stops, or, at the end of the text, in a
delimiter that has been passed.
-/

namespace EdgeQuery

open Cursor Parse

/-- Whether a token of the kind stands for characters that form none. -/
def TokenKind.isFaulty : TokenKind → Bool
  | .error _ => true
  | _ => false

theorem TokenKind.isFaulty_iff {kind : TokenKind} :
    kind.isFaulty = true ↔ ∃ error, kind = .error error := by
  cases kind <;> simp [isFaulty]

theorem TokenKind.isFaulty_of_essential? {kind : TokenKind} {error : LexicalError}
    (h : kind.essential? = some (.error error)) : kind.isFaulty = true := by
  unfold essential? at h
  split at h
  any_goals cases h
  rfl

/-- The tokens all have been formed. -/
def Flawless (tokens : List Token) : Prop :=
  ∀ token ∈ tokens, token.kind.isFaulty = false

section Spelling

variable {piece : Piece} {pieces : List Piece} {tokens : List Token}

theorem Keyword.isFaulty_of_spellings {k : Keyword} :
    ∀ spelling ∈ k.spellings, ∀ kind ∈ spelling, kind.isFaulty = false := by
  cases k <;> decide

theorem Token.isFaulty_of_name? {token : Token} {name : String} (h : token.name? = some name) :
    token.kind.isFaulty = false := by
  unfold Token.name? at h
  split at h
  · next hkind => rw [hkind]; rfl
  · next hkind => rw [hkind]; rfl
  · cases h

theorem Piece.SpelledBy.flawless (h : piece.SpelledBy tokens) : Flawless tokens := by
  intro token hmem
  cases piece with
  | keyword k => exact Keyword.isFaulty_of_spellings _ h _ (List.mem_map_of_mem hmem)
  | word name =>
    obtain ⟨only, rfl, hname⟩ := h
    obtain rfl := List.mem_singleton.mp hmem
    exact Token.isFaulty_of_name? hname
  | space =>
    rw [show tokens = [] from h] at hmem
    cases hmem
  | lineEnd =>
    rw [show tokens = [] from h] at hmem
    cases hmem
  | comment content => exact h.elim
  | _ =>
    obtain ⟨only, rfl, hkind⟩ := h
    obtain rfl := List.mem_singleton.mp hmem
    rw [hkind]
    rfl

/-- Nothing that has been read is written with faulty tokens. -/
theorem Spells.flawless (h : Spells pieces tokens) : Flawless tokens := by
  induction pieces generalizing tokens with
  | nil =>
    rw [spells_nil.mp h]
    exact List.forall_mem_nil _
  | cons piece pieces ih =>
    obtain ⟨front, back, rfl, hpiece, hback⟩ := h
    exact List.forall_mem_append.mpr ⟨hpiece.flawless, ih hback⟩

/-- What can be continued to something that is written has no faulty tokens either. -/
theorem Opens.flawless {α : Type} {dialect : Dialect} {levels : Nat} {written : α → List Piece}
    {fits : Nat → α → Prop} (h : Opens dialect (Spelled levels written fits) tokens) :
    Flawless tokens := by
  obtain ⟨more, -, room, value, -, -, hspells⟩ := h
  exact (List.forall_mem_append.mp hspells.flawless).1

end Spelling

/-- Why a reader stops with a fault: the tokens are those that it has passed, and the last one is
the one it stands at. -/
inductive Cause (passed : List Token) (current : Token) : SyntaxError → Prop
  | faulty {error : LexicalError} : current.kind = .error error →
      Cause passed current (.ofLexical error current.span)
  | unexpected (choices : List Expectation) : current.kind.isFaulty = false →
      Cause passed current (.unexpected choices current.kind current.span)
  | unclosed {opening : Token} {delimiter : Delimiter} : opening ∈ passed →
      opening.kind = .symbol (.opening delimiter) → current.kind = .endOfInput →
      Cause passed current (.unterminated (.delimited delimiter) opening.span)
  | tooDeep : Cause passed current (.tooDeep current.span)

section Causes

variable {passed : List Token} {current : Token} {error : SyntaxError}

theorem Cause.mono (h : Cause passed current error) {more : List Token} (hsub : passed ⊆ more) :
    Cause more current error := by
  cases h with
  | faulty hkind => exact .faulty hkind
  | unexpected choices hsound => exact .unexpected choices hsound
  | unclosed hmem hkind hend => exact .unclosed (hsub hmem) hkind hend
  | tooDeep => exact .tooDeep

/-- What is noted as open has been opened by a token. -/
theorem Cursor.mem_openedAfter {opened : List (Delimiter × Span)} {tokens : List Token}
    {delimiter : Delimiter} {span : Span} (h : (delimiter, span) ∈ openedAfter opened tokens) :
    (delimiter, span) ∈ opened ∨
      ∃ opening ∈ tokens, opening.kind = .symbol (.opening delimiter) ∧ opening.span = span := by
  induction tokens generalizing opened with
  | nil => exact .inl h
  | cons token tokens ih =>
    have hlater {earlier : List (Delimiter × Span)}
        (hmem : (delimiter, span) ∈ openedAfter earlier tokens) :
        (delimiter, span) ∈ earlier ∨ ∃ opening ∈ token :: tokens,
          opening.kind = .symbol (.opening delimiter) ∧ opening.span = span :=
      (ih hmem).imp_right fun ⟨opening, hopening, hrest⟩ =>
        ⟨opening, List.mem_cons_of_mem token hopening, hrest⟩
    rw [openedAfter] at h
    split at h
    · next other hkind =>
      rcases hlater h with hmem | hfound
      · rcases List.mem_cons.mp hmem with heq | hmem
        · cases heq
          exact .inr ⟨token, List.mem_cons_self, hkind, rfl⟩
        · exact .inl hmem
      · exact .inr hfound
    · exact (hlater h).imp_left List.mem_of_mem_tail
    · exact hlater h

/-- What is wrong at a cursor where nothing is open but what the tokens have opened. -/
theorem Cause.fault {cursor : Cursor} (hopened : cursor.opened = openedAfter [] passed)
    (choices : List Expectation) : Cause passed cursor.current (cursor.fault choices) := by
  unfold Cursor.fault
  dsimp only
  split
  · next hkind => exact .faulty hkind
  · next delimiter span outer hkind hopen =>
    have hmem : (delimiter, span) ∈ openedAfter [] passed := by
      rw [← hopened, hopen]
      exact List.mem_cons_self
    obtain hnone | ⟨opening, hopening, hsymbol, rfl⟩ := mem_openedAfter hmem
    · cases hnone
    · exact .unclosed hopening hsymbol hkind
  · next hfaulty _ =>
    refine .unexpected choices (Bool.eq_false_iff.mpr fun h => ?_)
    obtain ⟨error, hkind⟩ := TokenKind.isFaulty_iff.mp h
    exact hfaulty error hkind

/-- The fault is where a token stands that has been passed, or where reading has stopped. -/
theorem Cause.exists_span (h : Cause passed current error) :
    ∃ token, (token ∈ passed ∨ token = current) ∧ error.span = token.span := by
  cases h with
  | @faulty cause _ => exact ⟨current, .inr rfl, by cases cause <;> rfl⟩
  | unexpected choices _ => exact ⟨current, .inr rfl, rfl⟩
  | @unclosed opening _ hmem _ _ => exact ⟨opening, .inl hmem, rfl⟩
  | tooDeep => exact ⟨current, .inr rfl, rfl⟩

end Causes

/-- The tokens are those that have been passed on the way to the later cursor, and none is
faulty. -/
structure Cursor.Clears (cursor : Cursor) (tokens : List Token) (later : Cursor) : Prop where
  ahead_eq : cursor.ahead = tokens ++ later.ahead
  size_eq : later.size = cursor.size
  flawless : Flawless tokens

theorem Cursor.Clears.refl (cursor : Cursor) : cursor.Clears [] cursor :=
  ⟨rfl, rfl, List.forall_mem_nil _⟩

theorem Cursor.Clears.trans {cursor mid later : Cursor} {front back : List Token}
    (hfront : cursor.Clears front mid) (hback : mid.Clears back later) :
    cursor.Clears (front ++ back) later := by
  refine ⟨?_, hback.size_eq.trans hfront.size_eq,
    List.forall_mem_append.mpr ⟨hfront.flawless, hback.flawless⟩⟩
  rw [hfront.ahead_eq, hback.ahead_eq, List.append_assoc]

theorem Cursor.Clears.of_passes {cursor later : Cursor} {tokens : List Token}
    (h : cursor.Passes tokens later) (hflawless : Flawless tokens) :
    cursor.Clears tokens later :=
  ⟨h.1, h.size_eq, hflawless⟩

namespace Parse

/-- Whatever comes of the parse, the tokens passed are not faulty, and a fault has its cause there.
No delimiter is open at first, nor behind what has been read. -/
def Explains {α : Type} (parser : Parse α) (cursor : Cursor) : Prop :=
  match parser cursor with
  | .ok _ later => later.opened = [] ∧ ∃ tokens, cursor.Clears tokens later
  | .error error later => ∃ tokens, cursor.Clears tokens later ∧ Cause tokens later.current error

section Rules

variable {α β : Type} {parser : Parse α} {next : α → Parse β} {cursor later : Cursor}
  {dialect : Dialect} {levels : Nat} {value : α} {error : SyntaxError}

theorem Explains.of_ok (h : parser.Explains cursor) (hrun : parser cursor = .ok value later) :
    later.opened = [] ∧ ∃ tokens, cursor.Clears tokens later := by
  unfold Explains at h
  rwa [hrun] at h

theorem Explains.of_error (h : parser.Explains cursor)
    (hrun : parser cursor = .error error later) :
    ∃ tokens, cursor.Clears tokens later ∧ Cause tokens later.current error := by
  unfold Explains at h
  rwa [hrun] at h

theorem Explains.pure (h : cursor.opened = []) : (Pure.pure value : Parse α).Explains cursor :=
  ⟨h, [], .refl cursor⟩

theorem Explains.bind (h : parser.Explains cursor)
    (hnext : ∀ value mid, mid.opened = [] → parser cursor = .ok value mid →
      (next value).Explains mid) : (parser >>= next).Explains cursor := by
  unfold Explains
  cases hrun : parser cursor with
  | error error mid =>
    rw [bind_of_error hrun]
    exact h.of_error hrun
  | ok value mid =>
    obtain ⟨hopened, front, hfront⟩ := h.of_ok hrun
    have hmore := hnext value mid hopened hrun
    rw [bind_of_ok hrun]
    unfold Explains at hmore
    split at hmore
    · obtain ⟨hopened, back, hback⟩ := hmore
      exact ⟨hopened, front ++ back, hfront.trans hback⟩
    · obtain ⟨back, hback, hcause⟩ := hmore
      exact ⟨front ++ back, hfront.trans hback,
        hcause.mono (List.subset_append_right front back)⟩

/-- A parser that reads what is written for its values, and stops where none goes on. -/
theorem Prompt.explains {written : α → List Piece} {valid : α → Prop} {fits : Nat → α → Prop}
    (h : parser.Prompt dialect levels written fits)
    (hsound : parser.Sound dialect levels written valid) (hat : cursor.At dialect levels)
    (hopened : cursor.opened = []) : parser.Explains cursor := by
  unfold Explains
  cases hrun : parser cursor with
  | ok value later =>
    obtain ⟨tokens, hpass, -, hspells, -⟩ := (hsound cursor hat).of_ok hrun
    exact ⟨hpass.opened_eq.trans hopened, tokens, .of_passes hpass hspells.flawless⟩
  | error error later =>
    obtain ⟨front, hahead, hopens, -⟩ := h cursor hat error later hrun
    obtain ⟨-, ⟨passed, hpassed, hlater⟩, hwhy⟩ := (hsound cursor hat).of_error hrun
    obtain rfl : passed = front := List.append_cancel_right (hpassed.symm.trans hahead)
    have hopen : later.opened = openedAfter [] passed := by
      rw [hlater, ← hopened]
    refine ⟨passed, ⟨hahead, by rw [hlater]; rfl, hopens.flawless⟩, ?_⟩
    rcases hwhy with ⟨choices, rfl⟩ | rfl
    · exact .fault hopen choices
    · exact .tooDeep

theorem eatSymbol_explains {s : Symbol} (hflat : IsFlat (.symbol s)) (h : cursor.opened = []) :
    (eatSymbol s).Explains cursor := by
  obtain ⟨found, later, hrun⟩ := eatSymbol_total s cursor
  obtain ⟨tokens, hpass, -, hfound⟩ := (eatSymbol_reads hflat cursor).of_ok hrun
  have hflawless : Flawless tokens := by
    rcases hfound with ⟨-, rfl, hkind⟩ | ⟨-, rfl, -⟩
    · refine List.forall_mem_singleton.mpr ?_
      rw [show cursor.current.kind = .symbol s from hkind]
      rfl
    · exact List.forall_mem_nil _
  unfold Explains
  rw [hrun]
  exact ⟨hpass.opened_eq.trans h, tokens, .of_passes hpass hflawless⟩

theorem endOfInput_explains (h : cursor.opened = []) : endOfInput.Explains cursor := by
  show (if cursor.atEnd then (Pure.pure () : Parse Unit) else expected [.endOfInput]).Explains cursor
  split
  · exact .pure h
  · exact ⟨[], .refl cursor, .fault h [.endOfInput]⟩

end Rules
end Parse

section Readers

variable {dialect : Dialect} {limit : Nat} {cursor later : Cursor} {error : SyntaxError}

theorem Statement.parseTerminated_explains (h : cursor.Between dialect limit) :
    (parseAt cursor.limit >>= fun statement => eatSymbol .semicolon >>= fun _ =>
      pure statement).Explains (start cursor) := by
  have hsemicolon : IsFlat (.symbol .semicolon) := isFlat_symbol (by simp) (by simp)
  rw [h.limit_eq]
  refine ((parseAt_prompt dialect limit).explains (parseAt_sound dialect limit) (start_at h)
    rfl).bind fun statement mid hopened _ => ?_
  exact (eatSymbol_explains hsemicolon hopened).bind fun _ _ hopened _ => .pure hopened

theorem Statement.parseSingle_explains (h : cursor.Between dialect limit) :
    ((parseAt cursor.limit >>= fun statement => eatSymbol .semicolon >>= fun _ =>
      pure statement) >>= fun statement => endOfInput >>= fun _ => pure statement).Explains
        (start cursor) :=
  (parseTerminated_explains h).bind fun _ _ hopened _ =>
    (endOfInput_explains hopened).bind fun _ _ hopened _ => .pure hopened

theorem Expr.parseSingle_explains (text : String) (dialect : Dialect) (limit : Nat) :
    Expr.parseSingle.Explains (Cursor.ofText text dialect limit) :=
  ((parseRanked_zero_prompt dialect limit).explains (parseRanked_zero_sound dialect limit)
    (ofText_at text dialect limit) rfl).bind fun _ _ hopened _ =>
      (endOfInput_explains hopened).bind fun _ _ hopened _ => .pure hopened

/-- No token before the statement is faulty. The induction is on the statements before it. -/
theorem SourceFile.Begins.clears {start : Cursor} (h : cursor.Between dialect limit)
    (hbegins : Begins cursor start) :
    start.Between dialect limit ∧ ∃ tokens, cursor.Clears tokens start := by
  induction hbegins with
  | first => exact ⟨h.droppingUpTo _, [], rfl, rfl, List.forall_mem_nil _⟩
  | @next start later statement _ hrun ih =>
    obtain ⟨hstart, front, hfront⟩ := ih
    obtain ⟨tokens, hskips, -, -⟩ := Statement.parseTerminated_skips_of_ok hstart hrun
    obtain ⟨-, back, hback⟩ := (Statement.parseTerminated_explains hstart).of_ok hrun
    refine ⟨((hstart.leaves hskips.toLeaves).droppingUpTo _).droppingUpTo _, front ++ back, ?_⟩
    exact hfront.trans ⟨hback.ahead_eq, hback.size_eq, hback.flawless⟩

/-- What a file is not read for is explained by the tokens before. -/
theorem SourceFile.explained (h : cursor.Between dialect limit)
    (hrun : parse cursor = .error error later) :
    ∃ tokens, cursor.Clears tokens later ∧ Cause tokens later.current error := by
  obtain ⟨start, hbegins, hfails⟩ := exists_begins_of_error hrun
  obtain ⟨hstart, front, hfront⟩ := hbegins.clears h
  obtain ⟨back, hback, hcause⟩ := (Statement.parseTerminated_explains hstart).of_error hfails
  exact ⟨front ++ back, hfront.trans ⟨hback.ahead_eq, hback.size_eq, hback.flawless⟩,
    hcause.mono (List.subset_append_right front back)⟩

end Readers

/-- The tokens of a text stand one behind another, the mark at its end behind all of them. -/
theorem Scanner.tokens_inOrder (text : String) (dialect : Dialect) :
    (ofText text dialect).tokens.1.Pairwise fun token other => token.span.Before other.span := by
  obtain ⟨tokens, htokens, htiling⟩ := exists_tiling text dialect
  rw [htokens]
  refine List.pairwise_append.mpr ⟨htiling.tokens_inOrder, List.pairwise_singleton _ _, ?_⟩
  intro token hmem other hother
  obtain rfl := List.mem_singleton.mp hother
  exact (htiling.token_extent token hmem).2

/-- A token of a text does not end before it begins. -/
theorem Scanner.start_le_stop {text : String} {dialect : Dialect} {token : Token}
    (h : token ∈ (ofText text dialect).tokens.1) : token.span.start ≤ token.span.stop := by
  obtain ⟨tokens, htokens, htiling⟩ := exists_tiling text dialect
  rw [htokens] at h
  rcases List.mem_append.mp h with hmem | hmem
  · exact Nat.le_of_lt (htiling.token_extent token hmem).1
  · obtain rfl := List.mem_singleton.mp hmem
    exact Nat.le_refl _

/-- Whether the fault is one of the characters that form no token. -/
def SyntaxError.isLexical : SyntaxError → Bool
  | .invalidCharacter _ _ | .numberOutOfRange _ | .unterminated .string _
  | .unterminated .comment _ => true
  | _ => false

theorem SyntaxError.isLexical_ofLexical (error : LexicalError) (span : Span) :
    (ofLexical error span).isLexical = true := by
  cases error <;> rfl

@[simp]
theorem SyntaxError.span_ofLexical (error : LexicalError) (span : Span) :
    (ofLexical error span).span = span := by
  cases error <;> rfl

theorem SyntaxError.ofLexical_ne {error : SyntaxError} (h : error.isLexical = false)
    (cause : LexicalError) (span : Span) : ofLexical cause span ≠ error := by
  rintro rfl
  rw [isLexical_ofLexical] at h
  cases h

/-- The fault tells of the tokens of a text what is true of them. -/
structure SyntaxError.Describes (error : SyntaxError) (tokens : List Token) : Prop where
  /-- No faulty token begins before the fault. -/
  first : ∀ token ∈ tokens, token.kind.isFaulty → error.span.start ≤ token.span.start
  /-- Characters that form no token are at fault exactly if the fault stands for a faulty token. -/
  lexical : error.isLexical ↔ ∃ token ∈ tokens, ∃ cause,
    token.kind = .error cause ∧ error = .ofLexical cause token.span
  /-- What has been found is the token that stands there, and it is not faulty. -/
  unexpected : ∀ choices found span, error = .unexpected choices found span →
    (∃ token ∈ tokens, token.span = span) ∧
      (∀ token ∈ tokens, token.span = span → token.kind = found) ∧ found.isFaulty = false
  /-- What is not closed has been opened there, and no token is faulty. -/
  unclosed : ∀ delimiter span, error = .unterminated (.delimited delimiter) span →
    (∃ token ∈ tokens, token.kind = .symbol (.opening delimiter) ∧ token.span = span) ∧
      Flawless tokens
  /-- Nesting is too deep at a token. -/
  tooDeep : ∀ span, error = .tooDeep span → ∃ token ∈ tokens, token.span = span

section Texts

variable {text : String} {dialect : Dialect} {limit : Nat} {later : Cursor} {passed : List Token}
  {error : SyntaxError}

/-- The tokens of a text, parted where a reader has stopped. -/
theorem Cursor.Clears.exists_tokens (h : (ofText text dialect limit).Clears passed later) :
    ∃ behind, (Scanner.ofText text dialect).tokens.1 = passed ++ later.current :: behind := by
  have htokens : (Scanner.ofText text dialect).tokens.1 =
      passed ++ (later.ahead ++ [Token.atEnd later.size]) := by
    rw [tokens_ofText text dialect limit, h.ahead_eq, h.size_eq, List.append_assoc]
  rw [htokens, current, peek]
  cases later.ahead with
  | nil => exact ⟨[], rfl⟩
  | cons token rest => exact ⟨rest ++ [Token.atEnd later.size], rfl⟩

/-- Where a reader has come to the end of a text, no token of it is faulty. -/
theorem Cursor.Clears.flawless_of_atEnd (h : (ofText text dialect limit).Clears passed later)
    (hend : later.current.kind = .endOfInput) :
    Flawless (Scanner.ofText text dialect).tokens.1 := by
  have hahead : later.ahead = [] := by
    cases hrest : later.ahead with
    | nil => rfl
    | cons token rest =>
      have hgenuine : token.Genuine dialect := by
        refine (ofText_between text dialect limit).genuine token ?_
        rw [h.ahead_eq, hrest]
        exact List.mem_append_right _ List.mem_cons_self
      have hkind : token.kind = .endOfInput := by
        rw [← hend, current, peek_of_ahead hrest]
      rw [Token.Genuine, hkind] at hgenuine
      exact hgenuine.elim
  rw [tokens_ofText text dialect limit, h.ahead_eq, hahead, List.append_nil]
  exact List.forall_mem_append.mpr ⟨h.flawless, List.forall_mem_singleton.mpr rfl⟩

/-- A faulty token does not stand before the one where a reader has stopped. -/
theorem Cursor.Clears.start_le_of_isFaulty {token : Token}
    (h : (ofText text dialect limit).Clears passed later)
    (hmem : token ∈ (Scanner.ofText text dialect).tokens.1) (hfaulty : token.kind.isFaulty) :
    later.current.span.start ≤ token.span.start := by
  obtain ⟨behind, htokens⟩ := h.exists_tokens
  have horder := Scanner.tokens_inOrder text dialect
  have hcurrent : later.current ∈ (Scanner.ofText text dialect).tokens.1 := by simp [htokens]
  rw [htokens] at hmem horder
  rcases List.mem_append.mp hmem with hpassed | hrest
  · rw [h.flawless token hpassed] at hfaulty
    cases hfaulty
  rcases List.mem_cons.mp hrest with rfl | hlater
  · exact Nat.le_refl _
  · have hbefore := List.rel_of_pairwise_cons (List.pairwise_append.mp horder).2.1 hlater
    exact (Scanner.start_le_stop hcurrent).trans hbefore

/-- The cause of a fault is found again among the tokens of the text. -/
theorem Cause.describes (h : Cause passed later.current error)
    (hclears : (ofText text dialect limit).Clears passed later) :
    error.Describes (Scanner.ofText text dialect).tokens.1 := by
  obtain ⟨behind, htokens⟩ := hclears.exists_tokens
  obtain ⟨hhere, -⟩ := tokens_of_ahead hclears.ahead_eq hclears.size_eq.symm
  have hcurrent := List.mem_of_getElem? hhere
  have hbehind : ∀ token ∈ (Scanner.ofText text dialect).tokens.1, token.kind.isFaulty →
      later.current.span.start ≤ token.span.start :=
    fun _ hmem hfaulty => hclears.start_le_of_isFaulty hmem hfaulty
  -- Other faults than those of characters stand for no faulty token.
  have hother (hlexical : error.isLexical = false) :
      error.isLexical ↔ ∃ token ∈ (Scanner.ofText text dialect).tokens.1, ∃ cause,
        token.kind = .error cause ∧ error = .ofLexical cause token.span := by
    refine iff_of_false (by simp [hlexical]) ?_
    rintro ⟨token, -, cause, -, heq⟩
    exact SyntaxError.ofLexical_ne hlexical cause token.span heq.symm
  cases h with
  | @faulty cause hkind =>
    have hlexical := SyntaxError.isLexical_ofLexical cause later.current.span
    refine ⟨?_, iff_of_true hlexical ⟨later.current, hcurrent, cause, hkind, rfl⟩, ?_, ?_, ?_⟩
    · rwa [SyntaxError.span_ofLexical]
    · exact fun _ _ _ heq => absurd heq (SyntaxError.ofLexical_ne rfl _ _)
    · exact fun _ _ heq => absurd heq (SyntaxError.ofLexical_ne rfl _ _)
    · exact fun _ heq => absurd heq (SyntaxError.ofLexical_ne rfl _ _)
  | unexpected choices hsound =>
    refine ⟨hbehind, hother rfl, ?_, nofun, nofun⟩
    rintro _ _ _ ⟨⟩
    refine ⟨⟨later.current, hcurrent, rfl⟩, fun token hmem hspan => ?_, hsound⟩
    obtain ⟨q, hq⟩ := List.getElem?_of_mem hmem
    obtain rfl := (Scanner.span_eq_iff hhere hq).mp hspan
    rw [Option.some.inj (hq.symm.trans hhere)]
  | @unclosed opening delimiter hmem hkind hend =>
    have hflawless := hclears.flawless_of_atEnd hend
    refine ⟨fun token hmem hfaulty => ?_, hother rfl, nofun, ?_, nofun⟩
    · rw [hflawless token hmem] at hfaulty
      cases hfaulty
    · rintro _ _ ⟨⟩
      exact ⟨⟨opening, htokens ▸ List.mem_append_left _ hmem, hkind, rfl⟩, hflawless⟩
  | tooDeep =>
    refine ⟨hbehind, hother rfl, nofun, nofun, ?_⟩
    rintro _ ⟨⟩
    exact ⟨later.current, hcurrent, rfl⟩

/-- A text that is read as a file has no faulty tokens. -/
theorem SourceFile.flawless_of_ok {file : SourceFile} (h : ofText text dialect = .ok file) :
    Flawless (Scanner.ofText text dialect).tokens.1 := by
  have hmeans := (ofText_account h).essentials_eq
  rw [tokens_ofText text dialect nestingLimit]
  refine List.forall_mem_append.mpr ⟨fun token hmem => ?_, List.forall_mem_singleton.mpr rfl⟩
  refine Bool.eq_false_iff.mpr fun hfaulty => ?_
  obtain ⟨cause, hkind⟩ := TokenKind.isFaulty_iff.mp hfaulty
  -- A faulty token would mean something that no piece of the file does.
  have hfound : TokenKind.error cause ∈
      essentials (Cursor.ofText text dialect nestingLimit).ahead :=
    List.mem_filterMap.mpr ⟨token, hmem, by rw [hkind]; rfl⟩
  rw [hmeans] at hfound
  obtain ⟨piece, -, hpiece⟩ := List.mem_filterMap.mp hfound
  obtain ⟨kind, hpiece, hessential⟩ := Option.bind_eq_some_iff.mp hpiece
  have hspelled : piece.SpelledBy [⟨kind, piece.text, 0, 0⟩] :=
    Piece.spelledBy_of_kind? hpiece fun _ _ => rfl
  have hsound : kind.isFaulty = false := hspelled.flawless _ List.mem_cons_self
  rw [TokenKind.isFaulty_of_essential? hessential] at hsound
  cases hsound

theorem Statement.flawless_of_ok {s : Statement} (h : ofText text dialect = .ok s) :
    Flawless (Scanner.ofText text dialect).tokens.1 := by
  obtain ⟨-, front, back, hahead, hspells, hback⟩ := parseSingle_run_iff.mp h
  rw [tokens_ofText text dialect nestingLimit, hahead, List.append_assoc]
  refine List.forall_mem_append.mpr ⟨hspells.flawless, List.forall_mem_append.mpr ⟨?_, ?_⟩⟩
  · rcases hback with rfl | ⟨token, rfl, hkind⟩
    · exact List.forall_mem_nil _
    · refine List.forall_mem_singleton.mpr ?_
      rw [hkind]
      rfl
  · exact List.forall_mem_singleton.mpr rfl

theorem Expr.flawless_of_ok {e : Expr} (h : ofText text dialect = .ok e) :
    Flawless (Scanner.ofText text dialect).tokens.1 := by
  rw [tokens_ofText text dialect nestingLimit]
  exact List.forall_mem_append.mpr
    ⟨(parseSingle_run_iff.mp h).1.flawless, List.forall_mem_singleton.mpr rfl⟩

end Texts

/-- Why a text is not read. A text with characters that form no token is neither a file nor a
statement nor an expression; and whichever of these it is read as, a fault tells of its tokens what
is true of them. -/
theorem faults_describe (text : String) (dialect : Dialect) :
    let tokens := (Scanner.ofText text dialect).tokens.1
    ((∃ token ∈ tokens, token.kind.isFaulty) →
      (∃ error, SourceFile.ofText text dialect = .error error) ∧
      (∃ error, Statement.ofText text dialect = .error error) ∧
      ∃ error, Expr.ofText text dialect = .error error) ∧
    ∀ error, SourceFile.ofText text dialect = .error error ∨
        Statement.ofText text dialect = .error error ∨ Expr.ofText text dialect = .error error →
      error.Describes tokens := by
  intro tokens
  have hbetween := ofText_between text dialect nestingLimit
  refine ⟨?_, ?_⟩
  · rintro ⟨token, hmem, hfaulty⟩
    have hflaw (h : Flawless tokens) : False := by
      rw [h token hmem] at hfaulty
      cases hfaulty
    have hfails {α : Type} {result : Except SyntaxError α}
        (h : ∀ value, result = .ok value → Flawless tokens) : ∃ error, result = .error error := by
      cases result with
      | error error => exact ⟨error, rfl⟩
      | ok value => exact (hflaw (h value rfl)).elim
    exact ⟨hfails fun _ => SourceFile.flawless_of_ok, hfails fun _ => Statement.flawless_of_ok,
      hfails fun _ => Expr.flawless_of_ok⟩
  · rintro error (hfile | hstatement | hexpr)
    · obtain ⟨later, hrun⟩ := run_eq_error.mp hfile
      obtain ⟨passed, hclears, hcause⟩ := SourceFile.explained hbetween hrun
      exact hcause.describes hclears
    · obtain ⟨later, hrun⟩ := run_eq_error.mp hstatement
      obtain ⟨passed, hclears, hcause⟩ := (Statement.parseSingle_explains hbetween).of_error hrun
      exact hcause.describes ⟨hclears.ahead_eq, hclears.size_eq, hclears.flawless⟩
    · obtain ⟨later, hrun⟩ := run_eq_error.mp hexpr
      obtain ⟨passed, hclears, hcause⟩ :=
        (Expr.parseSingle_explains text dialect nestingLimit).of_error hrun
      exact hcause.describes hclears

set_option maxRecDepth 8192 in
/-- A file is read up to the character that forms no token; a single statement is given up before
it. -/
theorem faults_describe_invalid :
    let tokens := (Scanner.ofText "a b @" .strict).tokens.1
    let invalid := SyntaxError.invalidCharacter '@' ⟨4, 5⟩
    let unexpected := SyntaxError.unexpected [.endOfInput] (.identifier "b") ⟨2, 3⟩
    (∃ token ∈ tokens, token.kind.isFaulty) ∧
      ((∃ error, SourceFile.ofText "a b @" .strict = .error error) ∧
        (∃ error, Statement.ofText "a b @" .strict = .error error) ∧
        ∃ error, Expr.ofText "a b @" .strict = .error error) ∧
      SourceFile.ofText "a b @" .strict = .error invalid ∧ invalid.Describes tokens ∧
      Statement.ofText "a b @" .strict = .error unexpected ∧ unexpected.Describes tokens := by
  intro tokens invalid unexpected
  have hthird : (Scanner.ofText "a b @" .strict).tokens.1[2]? =
      some ⟨.error (.invalidCharacter '@'), "@", ⟨4, 5⟩⟩ := by cbv
  have hfaulty : ∃ token ∈ tokens, token.kind.isFaulty :=
    ⟨_, List.mem_of_getElem? hthird, rfl⟩
  have hfile : SourceFile.ofText "a b @" .strict = .error invalid := by cbv
  have hstatement : Statement.ofText "a b @" .strict = .error unexpected := by cbv
  obtain ⟨hfails, hdescribes⟩ := faults_describe "a b @" .strict
  exact ⟨hfaulty, hfails hfaulty, hfile, hdescribes _ (.inl hfile), hstatement,
    hdescribes _ (.inr (.inl hstatement))⟩

end EdgeQuery
