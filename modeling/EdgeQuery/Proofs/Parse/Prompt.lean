import EdgeQuery.Proofs.Parse.Sound

/-!
Parsers that report a fault at the first token that cannot stand where it stands. What such a parser
has read before the fault can be continued to what is written for one of its values, and so it can
with a keyword or a symbol that the fault asks for. The tokens of the continuation take the place of
those that lie ahead, and the value may need more nesting levels than there are.
-/

namespace EdgeQuery

open Cursor Walk

/-- The kind of the token that is asked for by its spelling. -/
def Expectation.kind? : Expectation → Option TokenKind
  | .keyword k => some (.keyword k)
  | .symbol s => some (.symbol s)
  | _ => none

namespace Piece

/-- Whether tokens of every dialect can be given for the piece. -/
def isWritable : Piece → Bool
  | .word name => isName name
  | .symbol _ | .keyword _ | .number _ | .duration _ | .space => true
  | _ => false

theorem isWritable_iff {piece : Piece} (h : piece.isWritable = true) :
    piece.isComment = false ∧ piece.Readable := by
  cases piece with
  | word name => exact ⟨rfl, h⟩
  | «variable» name => cases h
  | string content => cases h
  | comment content => cases h
  | lineEnd => cases h
  | _ => exact ⟨rfl, trivial⟩

theorem tokens_genuine {pieces : List Piece} (h : ∀ piece ∈ pieces, piece.Readable)
    (dialect : Dialect) (offset : Nat) :
    ∀ token ∈ tokens dialect offset pieces, token.Genuine dialect := by
  induction pieces generalizing offset with
  | nil => exact List.forall_mem_nil _
  | cons piece pieces ih =>
    have hlater := ih fun other hmem => h other (List.mem_cons_of_mem piece hmem)
    rw [tokens]
    split
    · next kind hkind =>
      refine List.forall_mem_cons.mpr ⟨?_, hlater _⟩
      have hreadable := h piece List.mem_cons_self
      have hfronts : Lexeme.Fronts dialect kind piece.text.toList [] :=
        piece.fronts hkind hreadable (by simp [StopsBefore])
      obtain ⟨c, tail, htext, -, -, hscan⟩ := hfronts
      have hgenuine := Lexeme.scan_genuine dialect c (tail ++ [])
      rw [hscan, Lexeme.Genuine, String.ofList_toList] at hgenuine
      exact hgenuine
    · exact hlater _

/-- There are tokens to write the pieces with. -/
theorem exists_spells {pieces : List Piece} (dialect : Dialect)
    (h : pieces.all isWritable = true) :
    ∃ tokens, (∀ token ∈ tokens, token.Genuine dialect) ∧ Spells pieces tokens := by
  have hall : ∀ piece ∈ pieces, piece.isComment = false ∧ piece.Readable :=
    fun piece hmem => isWritable_iff (List.all_eq_true.mp h piece hmem)
  exact ⟨tokens dialect 0 pieces, tokens_genuine (fun piece hmem => (hall piece hmem).2) dialect 0,
    spells_tokens (fun piece hmem => (hall piece hmem).1) dialect 0⟩

end Piece

/-- Something asked for by its spelling can be given. -/
theorem Expectation.exists_token {choice : Expectation} {kind : TokenKind} (dialect : Dialect)
    (h : choice.kind? = some kind) :
    ∃ token : Token, token.Genuine dialect ∧ token.kind = kind := by
  cases choice with
  | keyword k =>
    obtain rfl := Option.some.inj h
    refine ⟨⟨.keyword k, k.text, 0, 0⟩, ⟨?_, dialect.keyword?_text k⟩, rfl⟩
    cases k <;> decide
  | symbol s =>
    obtain rfl := Option.some.inj h
    exact ⟨⟨.symbol s, s.text, 0, 0⟩, trivial, rfl⟩
  | _ => cases h

/-- What the fault asks for. -/
def SyntaxError.choices : SyntaxError → List Expectation
  | .unexpected choices _ _ => choices
  | _ => []

/-- Nothing but what is asked for is asked for by the fault. -/
theorem Cursor.choices_fault (cursor : Cursor) (choices : List Expectation) :
    ∀ choice ∈ (cursor.fault choices).choices, choice ∈ choices := by
  unfold fault
  dsimp only
  split
  · next error _ => cases error <;> exact List.forall_mem_nil _
  · exact List.forall_mem_nil _
  · exact fun _ => id

/-- Something unexpected is the current token. -/
theorem Cursor.of_fault {cursor : Cursor} {choices others : List Expectation} {found : TokenKind}
    {span : Span} (h : cursor.fault choices = .unexpected others found span) :
    choices = others ∧ cursor.current.kind = found ∧ cursor.current.span = span := by
  unfold fault at h
  dsimp only at h
  split at h
  · unfold SyntaxError.ofLexical at h
    split at h <;> cases h
  · cases h
  · exact SyntaxError.unexpected.inj h

/-- The tokens can be continued to some that fulfil the condition. -/
def Opens (dialect : Dialect) (goal : List Token → Prop) (tokens : List Token) : Prop :=
  ∃ more, (∀ token ∈ more, token.Genuine dialect) ∧ goal (tokens ++ more)

section Opening

variable {dialect : Dialect} {goal stronger : List Token → Prop} {tokens front back : List Token}

theorem Opens.whole (h : goal tokens) : Opens dialect goal tokens :=
  ⟨[], List.forall_mem_nil _, by rwa [List.append_nil]⟩

theorem Opens.of_append (h : Opens dialect goal (front ++ back))
    (hgenuine : ∀ token ∈ back, token.Genuine dialect) : Opens dialect goal front := by
  obtain ⟨more, hmore, hgoal⟩ := h
  exact ⟨back ++ more, List.forall_mem_append.mpr ⟨hgenuine, hmore⟩, by rwa [← List.append_assoc]⟩

/-- The tokens are continued by what is written for pieces that are always the same. -/
theorem Opens.ending (rest : List Piece) (hrest : rest.all Piece.isWritable = true)
    (h : ∀ more, Spells rest more → goal (tokens ++ more)) : Opens dialect goal tokens := by
  obtain ⟨more, hgenuine, hmore⟩ := Piece.exists_spells dialect hrest
  exact ⟨more, hgenuine, h more hmore⟩

theorem Opens.mono (h : Opens dialect stronger tokens)
    (himp : ∀ tokens, stronger tokens → Opens dialect goal tokens) : Opens dialect goal tokens := by
  obtain ⟨more, hmore, hstronger⟩ := h
  exact (himp _ hstronger).of_append hmore

theorem Opens.behind (h : Opens dialect (fun tokens => goal (front ++ tokens)) tokens) :
    Opens dialect goal (front ++ tokens) := by
  obtain ⟨more, hmore, hgoal⟩ := h
  exact ⟨more, hmore, by rwa [List.append_assoc]⟩

end Opening

/-- The tokens are what can be written for a value that fits more than so many nesting levels. -/
def Spelled {α : Type} (levels : Nat) (written : α → List Piece) (fits : Nat → α → Prop)
    (tokens : List Token) : Prop :=
  ∃ room value, levels < room ∧ fits room value ∧ Spells (written value) tokens

namespace Parse

/-- Where the parser fails, what it has read can be continued to tokens that fulfil the condition;
and so it can together with any token that the fault asks for. -/
def Stops {α : Type} (dialect : Dialect) (parser : Parse α) (cursor : Cursor)
    (goal : List Token → Prop) : Prop :=
  ∀ error later, parser cursor = .error error later →
    ∃ front, cursor.ahead = front ++ later.ahead ∧ Opens dialect goal front ∧
      ∀ choice ∈ error.choices, ∀ token : Token, choice.kind? = some token.kind →
        Opens dialect goal (front ++ [token])

/-- Wherever the parser begins, what it has read before a fault can be continued to what is written
for a value that fits more nesting levels. -/
def Prompt {α : Type} (dialect : Dialect) (levels : Nat) (parser : Parse α)
    (written : α → List Piece) (fits : Nat → α → Prop) : Prop :=
  ∀ cursor : Cursor, cursor.At dialect levels →
    parser.Stops dialect cursor (Spelled levels written fits)

section Rules

variable {α β : Type} {dialect : Dialect} {levels : Nat} {parser : Parse α} {next : α → Parse β}
  {cursor : Cursor} {goal stronger : List Token → Prop} {post : α → List Token → Cursor → Prop}
  {value : α}

theorem Stops.of_ok {later : Cursor} (h : parser cursor = .ok value later) :
    parser.Stops dialect cursor goal := by
  intro error other hrun
  rw [h] at hrun
  cases hrun

theorem Stops.pure : Stops dialect (Pure.pure value : Parse α) cursor goal :=
  .of_ok rfl

theorem Stops.tooDeep (hhere : Opens dialect goal []) :
    Stops dialect (Parse.tooDeep : Parse α) cursor goal := by
  intro error later hrun
  cases hrun
  exact ⟨[], rfl, hhere, List.forall_mem_nil _⟩

theorem Stops.mono (h : parser.Stops dialect cursor stronger)
    (himp : ∀ tokens, stronger tokens → Opens dialect goal tokens) :
    parser.Stops dialect cursor goal := by
  intro error later hrun
  obtain ⟨front, hahead, hopens, hall⟩ := h error later hrun
  exact ⟨front, hahead, hopens.mono himp, fun choice hmem token hkind =>
    (hall choice hmem token hkind).mono himp⟩

/-- Either the first part finds the fault, or it is found behind what the first part has read. -/
theorem Stops.bind (hread : parser.Reads cursor post) (hfirst : parser.Stops dialect cursor goal)
    (hnext : ∀ value tokens mid, cursor.Passes tokens mid → post value tokens mid →
      (next value).Stops dialect mid fun more => goal (tokens ++ more)) :
    (parser >>= next).Stops dialect cursor goal := by
  intro error later hrun
  cases hparser : parser cursor with
  | error fault mid =>
    rw [bind_of_error hparser] at hrun
    obtain ⟨rfl, rfl⟩ := EStateM.Result.error.inj hrun
    exact hfirst fault mid hparser
  | ok value mid =>
    rw [bind_of_ok hparser] at hrun
    obtain ⟨tokens, hpass, -, hpost⟩ := hread.of_ok hparser
    obtain ⟨front, hahead, hopens, hall⟩ :=
      hnext value tokens mid hpass hpost error later hrun
    refine ⟨tokens ++ front, ?_, hopens.behind, ?_⟩
    · rw [hpass.1, hahead, List.append_assoc]
    · intro choice hmem token hkind
      rw [List.append_assoc]
      exact (hall choice hmem token hkind).behind

/-- What comes behind the parser never fails. -/
theorem Stops.front (h : parser.Stops dialect cursor goal)
    (hnext : ∀ value mid, ∃ result later, next value mid = .ok result later) :
    (parser >>= next).Stops dialect cursor goal := by
  intro error later hrun
  cases hparser : parser cursor with
  | error fault mid =>
    rw [bind_of_error hparser] at hrun
    obtain ⟨rfl, rfl⟩ := EStateM.Result.error.inj hrun
    exact h fault mid hparser
  | ok value mid =>
    obtain ⟨result, last, hresult⟩ := hnext value mid
    cases ((bind_of_ok hparser).trans hresult).symm.trans hrun

/-- A parser whose value is only wrapped. -/
theorem Stops.wrapped (make : α → β) (h : parser.Stops dialect cursor goal) :
    (parser >>= fun value => Pure.pure (make value)).Stops dialect cursor goal :=
  h.front fun value mid => ⟨make value, mid, rfl⟩

/-- A step that only looks. -/
theorem Stops.look (hlook : parser cursor = .ok value cursor)
    (hnext : (next value).Stops dialect cursor goal) :
    (parser >>= next).Stops dialect cursor goal := by
  intro error later hrun
  rw [bind_of_ok hlook] at hrun
  exact hnext error later hrun

theorem Stops.expected {choices : List Expectation} (hhere : Opens dialect goal [])
    (hchoices : ∀ choice ∈ choices, ∀ token : Token, choice.kind? = some token.kind →
      Opens dialect goal [token]) :
    (Parse.expected choices : Parse α).Stops dialect cursor goal := by
  intro error later hrun
  cases hrun
  exact ⟨[], rfl, hhere, fun choice hmem => hchoices choice (cursor.choices_fault choices _ hmem)⟩

/-- Nothing is asked for by its spelling. -/
theorem Stops.expected_described {choice : Expectation} (hchoice : choice.kind? = none)
    (hhere : Opens dialect goal []) :
    (Parse.expected [choice] : Parse α).Stops dialect cursor goal := by
  refine .expected hhere ?_
  intro other hmem token hkind
  obtain rfl := List.mem_singleton.mp hmem
  rw [hchoice] at hkind
  cases hkind

/-- A single token is asked for. -/
theorem Stops.expected_one {choice : Expectation} {kind : TokenKind}
    (hchoice : choice.kind? = some kind)
    (h : ∀ token : Token, token.kind = kind → Opens dialect goal [token]) :
    (Parse.expected [choice] : Parse α).Stops dialect cursor goal := by
  obtain ⟨sample, hgenuine, hkind⟩ := choice.exists_token dialect hchoice
  have hempty : Opens dialect goal ([] ++ [sample]) := h sample hkind
  refine .expected (hempty.of_append (by simpa using hgenuine)) ?_
  intro other hmem token hother
  obtain rfl := List.mem_singleton.mp hmem
  exact h token (Option.some.inj (hother.symm.trans hchoice))

theorem symbol_stops {s : Symbol}
    (h : ∀ token : Token, token.kind = .symbol s → Opens dialect goal [token]) :
    (symbol s).Stops dialect cursor goal := by
  refine .look (atSymbol_run s cursor) ?_
  split
  · exact .of_ok rfl
  · exact .expected_one rfl h

theorem keyword_stops {k : Keyword}
    (h : ∀ token : Token, token.kind = .keyword k → Opens dialect goal [token]) :
    (keyword k).Stops dialect cursor goal := by
  refine .look (atKeyword_run k cursor) ?_
  split
  · exact .of_ok rfl
  · exact .expected_one rfl h

theorem identifier_stops (h : Opens dialect goal []) : identifier.Stops dialect cursor goal := by
  refine .look (kind_run 0 cursor) ?_
  split
  · exact .of_ok rfl
  · exact .expected_described rfl h

theorem duration_stops (h : Opens dialect goal []) : duration.Stops dialect cursor goal := by
  refine .look (kind_run 0 cursor) ?_
  split
  · exact .of_ok rfl
  · exact .expected_described rfl h

theorem endOfInput_stops (h : Opens dialect goal []) : endOfInput.Stops dialect cursor goal := by
  refine .look (get_run cursor) ?_
  split
  · exact .of_ok rfl
  · exact .expected_described rfl h

theorem Stops.nested (h : parser.Stops dialect { cursor with levels := levels } goal) :
    (Parse.nested levels parser).Stops dialect cursor goal := by
  have hstops : (parser >>= fun value => (modify fun cursor : Cursor =>
      { cursor with levels := levels + 1 }) >>= fun _ => Pure.pure value).Stops dialect
      { cursor with levels := levels } goal :=
    h.front fun value mid => ⟨value, { mid with levels := levels + 1 }, rfl⟩
  exact hstops

/-- The parser reads behind a token that stands here and is no delimiter. -/
theorem Stops.advance {next : Unit → Parse β} (hend : cursor.kind 0 ≠ .endOfInput)
    (hflat : IsFlat (cursor.kind 0))
    (h : ∀ mid : Cursor, cursor.Passes [cursor.current] mid →
      (next ()).Stops dialect mid fun more => goal (cursor.current :: more)) :
    (Parse.advance >>= next).Stops dialect cursor goal := by
  refine .bind (advance_reads hend hflat) (.of_ok rfl) ?_
  rintro _ _ mid hpass ⟨rfl, -⟩
  exact h mid hpass

end Rules

/-- The parser never fails. -/
def Total {ε α : Type} (walk : Walk ε α) : Prop :=
  ∀ cursor, ∃ value later, walk cursor = .ok value later

section Totality

variable {ε α β : Type} {walk : Walk ε α} {next : α → Walk ε β}

theorem Total.pure (value : α) : Total (Pure.pure value : Walk ε α) :=
  fun cursor => ⟨value, cursor, rfl⟩

theorem Total.bind (h : Total walk) (hnext : ∀ value, Total (next value)) :
    Total (walk >>= next) := by
  intro cursor
  obtain ⟨value, mid, hrun⟩ := h cursor
  obtain ⟨result, later, hresult⟩ := hnext value mid
  exact ⟨result, later, (bind_of_ok hrun).trans hresult⟩

theorem Total.repeatUpTo {item? : Walk ε (Option α)} (h : Total item?) (rounds : Nat) :
    Total (Walk.repeatUpTo item? rounds) := by
  induction rounds with
  | zero => exact .pure []
  | succ rounds ih =>
    refine h.bind fun value => ?_
    cases value with
    | none => exact .pure []
    | some v => exact ih.bind fun values => .pure (v :: values)

theorem Total.repeated {item? : Walk ε (Option α)} (h : Total item?) :
    Total (Walk.repeated item?) :=
  fun cursor => Total.repeatUpTo h cursor.ahead.length cursor

theorem eatKeyword_total (k : Keyword) : Total (eatKeyword k) := by
  intro cursor
  rw [eatKeyword, bind_of_ok (atKeyword_run k cursor)]
  cases cursor.atKeyword k <;> exact ⟨_, _, rfl⟩

theorem eatSymbol_total (s : Symbol) : Total (eatSymbol s) := by
  intro cursor
  rw [eatSymbol, bind_of_ok (atSymbol_run s cursor)]
  cases cursor.atSymbol s <;> exact ⟨_, _, rfl⟩

theorem Total.stops {parser : Parse α} (h : Total parser) {dialect : Dialect} {cursor : Cursor}
    {goal : List Token → Prop} : parser.Stops dialect cursor goal := by
  obtain ⟨value, later, hrun⟩ := h cursor
  exact .of_ok hrun

end Totality

section Combinations

variable {α : Type} {dialect : Dialect} {levels : Nat} {parser : Parse α} {cursor : Cursor}
  {goal : List Token → Prop} {written : α → List Piece} {valid : α → Prop}
  {fits : Nat → α → Prop}

/-- Something that is read behind a keyword, where the keyword stands. -/
theorem Stops.onlyIf_eatKeyword {k : Keyword}
    (h : cursor.kind 0 = .keyword k → ∀ mid : Cursor, cursor.Passes [cursor.current] mid →
      parser.Stops dialect mid fun more => goal (cursor.current :: more)) :
    (onlyIf (eatKeyword k) parser).Stops dialect cursor goal := by
  refine .bind (eatKeyword_reads k cursor) (eatKeyword_total k).stops ?_
  rintro found tokens mid hpass (⟨rfl, rfl, hkind⟩ | ⟨rfl, rfl, -⟩)
  · exact (h hkind mid hpass).wrapped some
  · exact .of_ok rfl

/-- Something that is read behind a symbol, where the symbol stands. -/
theorem Stops.onlyIf_eatSymbol {s : Symbol} (hflat : IsFlat (.symbol s))
    (h : cursor.kind 0 = .symbol s → ∀ mid : Cursor, cursor.Passes [cursor.current] mid →
      parser.Stops dialect mid fun more => goal (cursor.current :: more)) :
    (onlyIf (eatSymbol s) parser).Stops dialect cursor goal := by
  refine .bind (eatSymbol_reads hflat cursor) (eatSymbol_total s).stops ?_
  rintro found tokens mid hpass (⟨rfl, rfl, hkind⟩ | ⟨rfl, rfl, -⟩)
  · exact (h hkind mid hpass).wrapped some
  · exact .of_ok rfl

/-- What is between delimiters can be continued by the closing one. -/
theorem Stops.within {delimiter : Delimiter} (whole : List Token → Prop)
    (hat : cursor.At dialect levels)
    (hkind : cursor.kind 0 = .symbol (.opening delimiter))
    (hread : ∀ mid : Cursor, mid.At dialect levels →
      parser.Reads mid fun _ tokens _ => whole tokens)
    (hinner : ∀ mid : Cursor, mid.At dialect levels → parser.Stops dialect mid whole)
    (h : ∀ opening tokens closing, opening.kind = .symbol (.opening delimiter) → whole tokens →
      closing.kind = .symbol (.closing delimiter) →
      Opens dialect goal (opening :: tokens ++ [closing])) :
    (Parse.within delimiter parser).Stops dialect cursor goal := by
  obtain ⟨opening, rest, hahead, -, hopening⟩ := exists_ahead hkind TokenKind.noConfusion
  have hfirst := Passes.advanced hahead
  have hentered : (cursor.entered delimiter).At dialect levels :=
    ⟨(hat.passes hfirst).genuine, (hat.passes hfirst).levels_eq⟩
  have hrest : cursor.ahead = opening :: (cursor.entered delimiter).ahead := by
    rw [hahead, entered, advanced_of_ahead hahead]
  -- Whatever is read inside is a part of what the delimiters enclose.
  have hclose (tokens : List Token) (hwhole : whole tokens) (closing : Token)
      (hclosing : closing.kind = .symbol (.closing delimiter)) :
      Opens dialect goal (opening :: (tokens ++ [closing])) :=
    h opening tokens closing hopening hwhole hclosing
  have hstops : (parser >>= fun value => symbol (.closing delimiter) >>= fun _ =>
      (modify fun cursor : Cursor => { cursor with opened := cursor.opened.tail }) >>= fun _ =>
        Pure.pure value).Stops dialect (cursor.entered delimiter)
      fun more => Opens dialect goal ([opening] ++ more) := by
    refine .bind (hread _ hentered) ((hinner _ hentered).mono fun tokens hwhole => ?_) ?_
    · obtain ⟨sample, hgenuine, hsample⟩ :=
        (Expectation.symbol (.closing delimiter)).exists_token dialect rfl
      have hall := hclose tokens hwhole sample hsample
      rw [← List.cons_append] at hall
      exact .whole (hall.of_append (by simpa using hgenuine))
    · intro value tokens mid _ hwhole
      refine .front (symbol_stops fun token htoken => .whole (hclose tokens hwhole token htoken)) ?_
      exact fun _ last => ⟨value, _, rfl⟩
  intro error later hrun
  rw [Parse.within, bind_of_ok (within_start delimiter cursor)] at hrun
  obtain ⟨front, hfront, hopens, hall⟩ := hstops error later hrun
  refine ⟨opening :: front, ?_, hopens.behind.mono fun _ => id, fun choice hmem token hchoice => ?_⟩
  · rw [hrest, hfront, List.cons_append]
  · exact (hall choice hmem token hchoice).behind.mono fun _ => id

/-- A fault in one of the rounds of a loop. The induction is on the number of rounds. -/
theorem Stops.repeatUpTo {item? : Parse (Option α)}
    (hsound : item?.Sound dialect levels (fun value => value.elim [] written)
      (fun value => ∀ v ∈ value, valid v)) (rounds : Nat) (hat : cursor.At dialect levels)
    (hround : ∀ (values : List α) tokens mid, cursor.Passes tokens mid →
      Spells (values.flatMap written) tokens → (∀ v ∈ values, valid v) →
      item?.Stops dialect mid fun more => goal (tokens ++ more)) :
    Stops dialect (Walk.repeatUpTo item? rounds) cursor goal := by
  induction rounds generalizing cursor goal with
  | zero => exact .pure
  | succ rounds ih =>
    refine .bind (hsound cursor hat)
      (hround [] [] cursor (.refl cursor) rfl (List.forall_mem_nil _)) ?_
    rintro value tokens mid hpass ⟨hspells, hvalid⟩
    cases value with
    | none => exact .pure
    | some v =>
      refine .wrapped (List.cons v) (ih (hat.passes hpass) ?_)
      intro values tokens' mid' hpass' hspells' hvalids
      have hall : ∀ other ∈ v :: values, valid other :=
        List.forall_mem_cons.mpr ⟨hvalid v rfl, hvalids⟩
      have hmore := hround (v :: values) (tokens ++ tokens') mid' (hpass.trans hpass')
        (Spells.append hspells hspells') hall
      simpa only [List.append_assoc] using hmore

theorem Stops.repeated {item? : Parse (Option α)}
    (hsound : item?.Sound dialect levels (fun value => value.elim [] written)
      (fun value => ∀ v ∈ value, valid v)) (hat : cursor.At dialect levels)
    (hround : ∀ (values : List α) tokens mid, cursor.Passes tokens mid →
      Spells (values.flatMap written) tokens → (∀ v ∈ values, valid v) →
      item?.Stops dialect mid fun more => goal (tokens ++ more)) :
    Stops dialect (Walk.repeated item?) cursor goal :=
  .look (get_run cursor) (.repeatUpTo hsound _ hat hround)

section Lists

variable (hsound : parser.Sound dialect levels written valid)
  (h : parser.Prompt dialect levels written fits)
  (hroom : ∀ value room, valid value → levels < room → fits room value)

include hsound h hroom

theorem Prompt.commaList :
    (commaList parser).Prompt dialect levels
      (fun values : List α => Piece.commaList (values.map written))
      (fun room values => values ≠ [] ∧ ∀ v ∈ values, fits room v) := by
  have hcomma : IsFlat (.symbol .comma) := isFlat_symbol (by simp) (by simp)
  have hspaced : parser.Sound dialect levels (fun v => .space :: written v) valid :=
    hsound.mono (fun _ _ => spells_space.mpr) (fun _ => id)
  intro cursor hat
  refine .bind (hsound cursor hat) ((h cursor hat).mono ?_) ?_
  · rintro tokens ⟨room, v, hlevels, hfits, hspells⟩
    refine .whole ⟨room, [v], hlevels, ⟨List.cons_ne_nil v [], by simpa using hfits⟩, ?_⟩
    show Spells (Piece.commaList ([v].map written)) tokens
    rwa [commaList_map_cons, List.flatMap_nil, List.append_nil]
  rintro first tokens mid hpass ⟨hfirst, hvalid⟩
  have hat := hat.passes hpass
  refine .wrapped (List.cons first)
    (.repeated (hspaced.onlyIf_eatSymbol hcomma) hat fun values tokens' mid' hpass hmore hvalids =>
      .onlyIf_eatSymbol hcomma fun hkind last hlast => ?_)
  refine (h last ((hat.passes hpass).passes hlast)).mono ?_
  rintro tokens'' ⟨room, v, hlevels, hfits, hspells⟩
  refine .whole ⟨room, first :: (values ++ [v]), hlevels, ⟨List.cons_ne_nil first _, ?_⟩, ?_⟩
  · refine List.forall_mem_cons.mpr ⟨hroom first room hvalid hlevels, ?_⟩
    refine List.forall_mem_append.mpr ⟨fun v hmem => hroom v room (hvalids v hmem) hlevels, ?_⟩
    simpa using hfits
  · show Spells (Piece.commaList ((first :: (values ++ [v])).map written)) _
    rw [commaList_map_cons, List.flatMap_append, List.flatMap_singleton]
    refine hfirst.append (hmore.append (spells_symbol.mpr ?_))
    exact ⟨mid'.current, tokens'', rfl, hkind, spells_space.mpr hspells⟩

/-- The list ends with its closing delimiter, whichever items have been read. -/
theorem Prompt.delimitedList {delimiter : Delimiter} (hat : cursor.At dialect levels)
    (hkind : cursor.kind 0 = .symbol (.opening delimiter)) :
    (delimitedList delimiter parser).Stops dialect cursor
      (Spelled levels
        (fun values : List α => Piece.enclosed delimiter (Piece.commaList (values.map written)))
        (fun room values => ∀ v ∈ values, fits room v)) := by
  have hempty : Spelled levels (fun values : List α => Piece.commaList (values.map written))
      (fun room values => ∀ v ∈ values, fits room v) [] :=
    ⟨levels + 1, [], Nat.lt_succ_self levels, List.forall_mem_nil _, rfl⟩
  refine .within (Spelled levels (fun values : List α => Piece.commaList (values.map written))
    (fun room values => ∀ v ∈ values, fits room v)) hat hkind ?_ ?_ ?_
  · intro mid hat
    refine .look (atSymbol_run _ mid) ?_
    split
    · exact .pure hempty
    · refine (hsound.commaList mid hat).mono ?_
      rintro values tokens later - ⟨hspells, -, hvalid⟩
      exact ⟨levels + 1, values, Nat.lt_succ_self levels,
        fun v hmem => hroom v _ (hvalid v hmem) (Nat.lt_succ_self levels), hspells⟩
  · intro mid hat
    refine .look (atSymbol_run _ mid) ?_
    split
    · exact .pure
    · refine (Prompt.commaList hsound h hroom mid hat).mono ?_
      rintro tokens ⟨room, values, hlevels, ⟨-, hfits⟩, hspells⟩
      exact .whole ⟨room, values, hlevels, hfits, hspells⟩
  · rintro opening tokens closing hopening ⟨room, values, hlevels, hfits, hspells⟩ hclosing
    refine .whole ⟨room, values, hlevels, hfits, ?_⟩
    exact spells_enclosed.mpr ⟨opening, tokens, closing, rfl, hopening, hspells, hclosing⟩

end Lists
end Combinations
end Parse
end EdgeQuery
