import EdgeQuery.Proofs.Parse.Outcome
import EdgeQuery.Proofs.Spelling

/-!
Parsers that read what their values are written as. `Parse.Sound` says that the tokens passed spell
the pieces of the value; there is a rule for each step of a parser and for each of the ways in which
parsers are put together.
-/

namespace EdgeQuery

open Cursor Walk

namespace Parse

/-- Whatever tokens of the dialect lie ahead, a success comes with a value and tokens passed that
fulfil the condition. -/
def Yields {α : Type} (dialect : Dialect) (levels : Nat) (parser : Parse α)
    (post : α → List Token → Prop) : Prop :=
  ∀ cursor : Cursor, cursor.At dialect levels →
    parser.Reads cursor fun value tokens _ => post value tokens

/-- The tokens passed spell what the value is written as, and the value is a valid one. -/
def Sound {α : Type} (dialect : Dialect) (levels : Nat) (parser : Parse α)
    (written : α → List Piece) (valid : α → Prop) : Prop :=
  Yields dialect levels parser fun value tokens => Spells (written value) tokens ∧ valid value

section Steps

variable {cursor : Cursor} {dialect : Dialect} {levels : Nat}

theorem get_run (cursor : Cursor) : (get : Parse Cursor) cursor = .ok cursor cursor := rfl

theorem kind_run (n : Nat) (cursor : Cursor) : kind n cursor = .ok (cursor.kind n) cursor := rfl

theorem atSymbol_run (s : Symbol) (cursor : Cursor) :
    atSymbol s cursor = .ok (cursor.atSymbol s) cursor := rfl

theorem atKeyword_run (k : Keyword) (cursor : Cursor) :
    atKeyword k cursor = .ok (cursor.atKeyword k) cursor := rfl

theorem atSymbol_iff {s : Symbol} : cursor.atSymbol s = true ↔ cursor.kind 0 = .symbol s :=
  decide_eq_true_iff

theorem atKeyword_iff {k : Keyword} : cursor.atKeyword k = true ↔ cursor.kind 0 = .keyword k :=
  decide_eq_true_iff

theorem isFlat_symbol {s : Symbol} (hopening : ∀ delimiter, s ≠ .opening delimiter)
    (hclosing : ∀ delimiter, s ≠ .closing delimiter) : IsFlat (.symbol s) := by
  intro delimiter
  refine ⟨?_, ?_⟩
  · intro heq
    exact hopening delimiter (TokenKind.symbol.inj heq)
  · intro heq
    exact hclosing delimiter (TokenKind.symbol.inj heq)

theorem isFlat_of_symbol? {kind : TokenKind} (h : kind.symbol? = none) : IsFlat kind := by
  intro delimiter
  refine ⟨?_, ?_⟩ <;> rintro rfl <;> cases h

theorem current_genuine (hat : cursor.At dialect levels) (hend : cursor.kind 0 ≠ .endOfInput) :
    cursor.current.Genuine dialect := by
  obtain ⟨token, rest, hahead, hcurrent, -⟩ := exists_ahead rfl hend
  rw [hcurrent]
  exact hat.genuine token (by simp [hahead])

/-- Reading the current token, which is no delimiter. -/
theorem advance_reads (hend : cursor.kind 0 ≠ .endOfInput) (hflat : IsFlat (cursor.kind 0)) :
    Parse.advance.Reads cursor fun _ tokens mid =>
      tokens = [cursor.current] ∧ mid = cursor.advanced := by
  obtain ⟨token, rest, hahead, hcurrent, hkind⟩ := exists_ahead rfl hend
  exact .advance hahead (hkind ▸ hflat) ⟨by rw [hcurrent], rfl⟩

theorem eatSymbol_reads {s : Symbol} (hflat : IsFlat (.symbol s)) (cursor : Cursor) :
    (eatSymbol s).Reads cursor fun found tokens _ =>
      found = true ∧ tokens = [cursor.current] ∧ cursor.kind 0 = .symbol s ∨
      found = false ∧ tokens = [] ∧ cursor.kind 0 ≠ .symbol s := by
  refine Reads.look (atSymbol_run s cursor) ?_
  by_cases hkind : cursor.kind 0 = .symbol s
  · rw [atSymbol_iff.mpr hkind]
    refine (advance_reads (by simp [hkind]) (hkind ▸ hflat)).bind ?_
    rintro _ tokens mid hpass ⟨rfl, -⟩
    exact .pure (.inl ⟨rfl, rfl, hkind⟩)
  · rw [Bool.eq_false_iff.mpr (mt atSymbol_iff.mp hkind)]
    exact .pure (.inr ⟨rfl, rfl, hkind⟩)

theorem eatKeyword_reads (k : Keyword) (cursor : Cursor) :
    (eatKeyword k).Reads cursor fun found tokens _ =>
      found = true ∧ tokens = [cursor.current] ∧ cursor.kind 0 = .keyword k ∨
      found = false ∧ tokens = [] ∧ cursor.kind 0 ≠ .keyword k := by
  refine Reads.look (atKeyword_run k cursor) ?_
  by_cases hkind : cursor.kind 0 = .keyword k
  · rw [atKeyword_iff.mpr hkind]
    refine (advance_reads (by simp [hkind]) (isFlat_of_symbol? (by rw [hkind]; rfl))).bind ?_
    rintro _ tokens mid hpass ⟨rfl, -⟩
    exact .pure (.inl ⟨rfl, rfl, hkind⟩)
  · rw [Bool.eq_false_iff.mpr (mt atKeyword_iff.mp hkind)]
    exact .pure (.inr ⟨rfl, rfl, hkind⟩)

/-- A keyword that is read if it stands here is a flag. -/
theorem eatKeyword_yields {k : Keyword} (h : k.spellings = [[.keyword k]]) :
    (eatKeyword k).Yields dialect levels fun found tokens => Spells (Piece.flag k found) tokens := by
  intro cursor hat
  refine (eatKeyword_reads k cursor).mono ?_
  rintro found tokens later - (⟨rfl, rfl, hkind⟩ | ⟨rfl, rfl, -⟩)
  · exact (spells_flag h).mpr (.inr ⟨rfl, cursor.current, rfl, hkind⟩)
  · exact (spells_flag h).mpr (.inl ⟨rfl, rfl⟩)

theorem symbol_reads {s : Symbol} (hflat : IsFlat (.symbol s)) (cursor : Cursor) :
    (symbol s).Reads cursor fun _ tokens _ =>
      tokens = [cursor.current] ∧ cursor.current.kind = .symbol s := by
  refine Reads.look (atSymbol_run s cursor) ?_
  by_cases hkind : cursor.kind 0 = .symbol s
  · rw [atSymbol_iff.mpr hkind]
    exact (advance_reads (by simp [hkind]) (hkind ▸ hflat)).mono
      fun _ _ _ _ h => ⟨h.1, hkind⟩
  · rw [Bool.eq_false_iff.mpr (mt atSymbol_iff.mp hkind)]
    exact .expected _

theorem keyword_reads (k : Keyword) (cursor : Cursor) :
    (keyword k).Reads cursor fun _ tokens _ =>
      tokens = [cursor.current] ∧ cursor.current.kind = .keyword k := by
  refine Reads.look (atKeyword_run k cursor) ?_
  by_cases hkind : cursor.kind 0 = .keyword k
  · rw [atKeyword_iff.mpr hkind]
    exact (advance_reads (by simp [hkind]) (isFlat_of_symbol? (by rw [hkind]; rfl))).mono
      fun _ _ _ _ h => ⟨h.1, hkind⟩
  · rw [Bool.eq_false_iff.mpr (mt atKeyword_iff.mp hkind)]
    exact .expected _

theorem identifier_reads (hat : cursor.At dialect levels) :
    identifier.Reads cursor fun name tokens _ =>
      ∃ token, tokens = [token] ∧ token.kind = .identifier name ∧ dialect.IsFree name := by
  refine Reads.look (kind_run 0 cursor) ?_
  split
  · next name hkind =>
    have hgenuine := current_genuine hat (by simp [hkind])
    have hfree : dialect.IsFree name := by
      rw [Token.Genuine, show cursor.current.kind = .identifier name from hkind] at hgenuine
      exact hgenuine
    refine (advance_reads (by simp [hkind]) (isFlat_of_symbol? (by rw [hkind]; rfl))).bind ?_
    rintro _ tokens mid hpass ⟨rfl, -⟩
    exact .pure ⟨cursor.current, rfl, hkind, hfree⟩
  · exact .expected _

/-- A name is read from an identifier or a keyword. -/
theorem kind_of_name? {token : Token} {name : String} (h : token.name? = some name) :
    token.kind = .identifier name ∨ ∃ k, token.kind = .keyword k := by
  unfold Token.name? at h
  split at h
  · next hkind => exact .inl (by rw [hkind, Option.some.inj h])
  · next k hkind => exact .inr ⟨k, hkind⟩
  · cases h

/-- A token that a name can be read from is no delimiter. -/
theorem isFlat_of_name? {token : Token} {name : String} (h : token.name? = some name) :
    IsFlat token.kind ∧ token.kind ≠ .endOfInput := by
  rcases kind_of_name? h with hkind | ⟨k, hkind⟩ <;> rw [hkind] <;>
    exact ⟨isFlat_of_symbol? rfl, TokenKind.noConfusion⟩

theorem name_reads (hat : cursor.At dialect levels) :
    name.Reads cursor fun text tokens _ =>
      ∃ token, tokens = [token] ∧ token.name? = some text ∧ isName text := by
  refine Reads.look (get_run cursor) ?_
  split
  · next text hname =>
    obtain ⟨hflat, hend⟩ := isFlat_of_name? hname
    have hgenuine := current_genuine hat hend
    refine (advance_reads hend hflat).bind ?_
    rintro _ tokens mid hpass ⟨rfl, -⟩
    exact .pure ⟨cursor.current, rfl, hname, hgenuine.isName_of_name? hname⟩
  · exact .expected _

theorem duration_reads (cursor : Cursor) :
    duration.Reads cursor fun value tokens _ =>
      ∃ token, tokens = [token] ∧ token.kind = .duration value := by
  refine Reads.look (kind_run 0 cursor) ?_
  split
  · next value hkind =>
    refine (advance_reads (by simp [hkind]) (isFlat_of_symbol? (by rw [hkind]; rfl))).bind ?_
    rintro _ tokens mid hpass ⟨rfl, -⟩
    exact .pure ⟨cursor.current, rfl, hkind⟩
  · exact .expected _

end Steps

section Combinations

variable {α : Type} {cursor : Cursor} {dialect : Dialect} {levels : Nat} {parser : Parse α}
  {post : α → List Token → Prop} {written : α → List Piece} {valid : α → Prop}

/-- A parse one level deeper comes back to the level that it left. -/
theorem Reads.nested {goal : α → List Token → Cursor → Prop} (hlevels : cursor.levels = levels + 1)
    (h : parser.Reads { cursor with levels := levels } fun value tokens later =>
      goal value tokens { later with levels := levels + 1 }) :
    (Parse.nested levels parser).Reads cursor goal := by
  have hstart : (modify fun cursor : Cursor => { cursor with levels := levels } : Parse Unit) cursor =
      .ok () { cursor with levels := levels } := rfl
  unfold Reads Parse.nested
  rw [bind_of_ok hstart]
  cases hrun : parser { cursor with levels := levels } with
  | error error later =>
    rw [bind_of_error hrun]
    obtain ⟨hle, htokens, herror⟩ := h.of_error hrun
    refine ⟨?_, htokens, herror⟩
    rw [hlevels]
    exact Nat.le_succ_of_le hle
  | ok value later =>
    rw [bind_of_ok hrun]
    obtain ⟨tokens, hpass, hbalanced, hpost⟩ := h.of_ok hrun
    refine ⟨tokens, ?_, hbalanced, hpost⟩
    have hcursor : { cursor with levels := levels + 1 } = cursor := by rw [← hlevels]
    have hback := hpass.withLevels (levels + 1)
    exact hcursor ▸ hback

theorem symbol_ok {s : Symbol} (h : cursor.kind 0 = .symbol s) :
    symbol s cursor = .ok () cursor.advanced := by
  rw [symbol, bind_of_ok (atSymbol_run s cursor), atSymbol_iff.mpr h]
  rfl

theorem symbol_error {s : Symbol} (h : cursor.kind 0 ≠ .symbol s) :
    symbol s cursor = .error (cursor.fault [.symbol s]) cursor := by
  rw [symbol, bind_of_ok (atSymbol_run s cursor), Bool.eq_false_iff.mpr (mt atSymbol_iff.mp h)]
  rfl

theorem within_start (delimiter : Delimiter) (cursor : Cursor) :
    (modify fun cursor : Cursor =>
      { cursor.advanced with
        opened := (delimiter, cursor.current.span) :: cursor.opened } : Parse Unit) cursor =
      .ok () (cursor.entered delimiter) := rfl

theorem within_ok {delimiter : Delimiter} {value : α} {mid : Cursor}
    (hinner : parser (cursor.entered delimiter) = .ok value mid)
    (hclosing : mid.kind 0 = .symbol (.closing delimiter)) :
    within delimiter parser cursor =
      .ok value { mid.advanced with opened := mid.advanced.opened.tail } := by
  rw [within, bind_of_ok (within_start delimiter cursor), bind_of_ok hinner,
    bind_of_ok (symbol_ok hclosing)]
  rfl

/-- What is between delimiters is read behind the first and before the last of them. -/
theorem within_reads {delimiter : Delimiter} (hat : cursor.At dialect levels)
    (hkind : cursor.kind 0 = .symbol (.opening delimiter))
    (h : parser.Yields dialect levels post) :
    (within delimiter parser).Reads cursor fun value tokens _ =>
      ∃ opening inner closing, tokens = opening :: inner ++ [closing] ∧
        opening.kind = .symbol (.opening delimiter) ∧ post value inner ∧
        closing.kind = .symbol (.closing delimiter) := by
  obtain ⟨opening, rest, hahead, -, hopening⟩ := exists_ahead hkind TokenKind.noConfusion
  have hfirst := Passes.advanced hahead
  have hentered : (cursor.entered delimiter).At dialect levels :=
    ⟨(hat.passes hfirst).genuine, (hat.passes hfirst).levels_eq⟩
  have hinner := h _ hentered
  cases hrun : parser (cursor.entered delimiter) with
  | error error later =>
    unfold Reads
    rw [within, bind_of_ok (within_start delimiter cursor), bind_of_error hrun]
    exact .of_entered hkind (hinner.of_error hrun)
  | ok value mid =>
    obtain ⟨inner, hpass, hbalanced, hpost⟩ := hinner.of_ok hrun
    by_cases hclosing : mid.kind 0 = .symbol (.closing delimiter)
    · obtain ⟨closing, rest', hahead', -, hlast⟩ := exists_ahead hclosing TokenKind.noConfusion
      have hmiddle : cursor.advanced.Passes inner { mid with opened := cursor.opened } := by
        have hcursor : { cursor.advanced with opened := cursor.opened } = cursor.advanced := by
          rw [← hfirst.opened_eq]
        have hback : Passes { cursor.advanced with opened := cursor.opened } inner _ :=
          hpass.withOpened cursor.opened
        rwa [hcursor] at hback
      have hend := (Passes.advanced hahead').withOpened cursor.opened
      have hopened : mid.advanced.opened.tail = cursor.opened := by
        rw [(Passes.advanced hahead').opened_eq, hpass.opened_eq]
        rfl
      unfold Reads
      rw [within_ok hrun hclosing, hopened]
      exact ⟨opening :: inner ++ [closing], (hfirst.trans hmiddle).trans hend,
        .enclosed hopening hbalanced hlast, opening, inner, closing, rfl, hopening, hpost, hlast⟩
    · have hfault := symbol_error hclosing
      unfold Reads
      rw [within, bind_of_ok (within_start delimiter cursor), bind_of_ok hrun,
        bind_of_error hfault]
      exact .of_entered hkind (.after hpass hbalanced (.here (.inl ⟨_, rfl⟩)))

/-- Something that is read behind a keyword, where the keyword stands. -/
theorem Sound.onlyIf_eatKeyword {k : Keyword} (hspelling : k.spellings = [[.keyword k]])
    (h : parser.Sound dialect levels written valid) :
    (onlyIf (eatKeyword k) parser).Sound dialect levels
      (fun value => value.elim [] fun v => Piece.after k (written v))
      (fun value => ∀ v ∈ value, valid v) := by
  intro cursor hat
  refine (eatKeyword_reads k cursor).bind ?_
  rintro found tokens mid hpass (⟨rfl, rfl, hkind⟩ | ⟨rfl, rfl, -⟩)
  · refine (h mid (hat.passes hpass)).bind ?_
    rintro value more later - ⟨hspells, hvalid⟩
    refine .pure ⟨?_, by simpa using hvalid⟩
    rw [List.append_nil]
    exact (spells_keyword hspelling).mpr ⟨cursor.current, more, rfl, hkind, spells_space.mpr hspells⟩
  · exact .pure ⟨rfl, by simp⟩

/-- Something that is read behind a symbol, where the symbol stands. -/
theorem Sound.onlyIf_eatSymbol {s : Symbol} (hflat : IsFlat (.symbol s))
    (h : parser.Sound dialect levels written valid) :
    (onlyIf (eatSymbol s) parser).Sound dialect levels
      (fun value => value.elim [] fun v => .symbol s :: written v)
      (fun value => ∀ v ∈ value, valid v) := by
  intro cursor hat
  refine (eatSymbol_reads hflat cursor).bind ?_
  rintro found tokens mid hpass (⟨rfl, rfl, hkind⟩ | ⟨rfl, rfl, -⟩)
  · refine (h mid (hat.passes hpass)).bind ?_
    rintro value more later - ⟨hspells, hvalid⟩
    refine .pure ⟨?_, by simpa using hvalid⟩
    rw [List.append_nil]
    exact spells_symbol.mpr ⟨cursor.current, more, rfl, hkind, hspells⟩
  · exact .pure ⟨rfl, by simp⟩

/-- The rounds of a loop, each of which reads a value. The induction is on the number of rounds. -/
theorem Sound.repeatUpTo {item? : Parse (Option α)}
    (h : item?.Sound dialect levels (fun value => value.elim [] written)
      (fun value => ∀ v ∈ value, valid v)) (rounds : Nat) :
    Sound dialect levels (Walk.repeatUpTo item? rounds) (fun values => values.flatMap written)
      (fun values => ∀ v ∈ values, valid v) := by
  intro cursor hat
  induction rounds generalizing cursor with
  | zero => exact .pure ⟨rfl, by simp⟩
  | succ rounds ih =>
    refine (h cursor hat).bind ?_
    rintro value tokens mid hpass ⟨hspells, hvalid⟩
    cases value with
    | none =>
      obtain rfl : tokens = [] := hspells
      exact .pure ⟨rfl, by simp⟩
    | some v =>
      refine (ih mid (hat.passes hpass)).bind ?_
      rintro values more later - ⟨hmore, hvalids⟩
      refine .pure ⟨?_, ?_⟩
      · rw [List.append_nil]
        exact Spells.append hspells hmore
      · simpa using ⟨hvalid v rfl, hvalids⟩

theorem Sound.repeated {item? : Parse (Option α)}
    (h : item?.Sound dialect levels (fun value => value.elim [] written)
      (fun value => ∀ v ∈ value, valid v)) :
    Sound dialect levels (Walk.repeated item?) (fun values => values.flatMap written)
      (fun values => ∀ v ∈ values, valid v) :=
  fun cursor hat => .look (get_run cursor) (Sound.repeatUpTo h _ cursor hat)

theorem Sound.mono {other : α → List Piece} {weaker : α → Prop}
    (h : parser.Sound dialect levels written valid)
    (hwritten : ∀ value tokens, Spells (written value) tokens → Spells (other value) tokens)
    (hvalid : ∀ value, valid value → weaker value) : parser.Sound dialect levels other weaker :=
  fun cursor hat => (h cursor hat).mono fun value tokens _ _ hpost =>
    ⟨hwritten value tokens hpost.1, hvalid value hpost.2⟩

theorem commaList_map_cons (first : α) (more : List α) :
    Piece.commaList ((first :: more).map written) =
      written first ++ more.flatMap fun v => .symbol .comma :: .space :: written v := by
  rw [List.map_cons, Piece.commaList_cons, List.flatMap_map]
  rfl

theorem Sound.commaList (h : parser.Sound dialect levels written valid) :
    (commaList parser).Sound dialect levels (fun values => Piece.commaList (values.map written))
      (fun values => values ≠ [] ∧ ∀ v ∈ values, valid v) := by
  have hcomma : IsFlat (.symbol .comma) := isFlat_symbol (by simp) (by simp)
  have hspaced : parser.Sound dialect levels (fun v => .space :: written v) valid :=
    h.mono (fun _ _ => spells_space.mpr) (fun _ => id)
  intro cursor hat
  refine (h cursor hat).bind ?_
  rintro first tokens mid hpass ⟨hfirst, hvalid⟩
  refine (Sound.repeated (hspaced.onlyIf_eatSymbol hcomma) mid (hat.passes hpass)).bind ?_
  rintro more tokens' later - ⟨hmore, hvalids⟩
  refine .pure ⟨?_, List.cons_ne_nil first more, ?_⟩
  · show Spells (Piece.commaList ((first :: more).map written)) _
    rw [List.append_nil, commaList_map_cons]
    exact hfirst.append hmore
  · simpa using ⟨hvalid, hvalids⟩

theorem delimitedList_reads {delimiter : Delimiter} (hat : cursor.At dialect levels)
    (hkind : cursor.kind 0 = .symbol (.opening delimiter))
    (h : parser.Sound dialect levels written valid) :
    (delimitedList delimiter parser).Reads cursor fun values tokens _ =>
      Spells (Piece.enclosed delimiter (Piece.commaList (values.map written))) tokens ∧
        ∀ v ∈ values, valid v := by
  have hinner : Yields dialect levels
      (do if ← atSymbol (.closing delimiter) then return [] else commaList parser)
      (fun values tokens => Spells (Piece.commaList (values.map written)) tokens ∧
        ∀ v ∈ values, valid v) := by
    intro cursor hat
    refine .look (atSymbol_run _ cursor) ?_
    split
    · exact .pure ⟨rfl, by simp⟩
    · exact (h.commaList cursor hat).mono fun _ _ _ _ hlist => ⟨hlist.1, hlist.2.2⟩
  refine (within_reads hat hkind hinner).mono ?_
  rintro values _ later - ⟨opening, inner, closing, rfl, hopening, ⟨hspells, hvalid⟩, hclosing⟩
  exact ⟨spells_enclosed.mpr ⟨opening, inner, closing, rfl, hopening, hspells, hclosing⟩, hvalid⟩

end Combinations
end Parse
end EdgeQuery
