import EdgeQuery.Proofs.Calls

/-!
Other spellings of a statement. Some keywords can be written as marks, some can be left out, and
behind some a word may stand that means nothing. Whichever of these are chosen, one by one and at
every depth, the statement that is read is the same.
-/

namespace EdgeQuery

open Cursor Parse Walk

/-- The mark that can be written for a keyword between two operands. -/
def Keyword.mark? : Keyword → Option Symbol
  | .OR => some .bars
  | .AND => some .ampersands
  | _ => none

/-- The word that means nothing behind a keyword that begins a clause. -/
def Keyword.filler? : Keyword → Option Keyword
  | .LIMIT => some .BY
  | .START => some .AT
  | _ => none

/-- The kinds of the tokens that the pieces are read as, with some of the keywords spelled
otherwise. A piece is a keyword only where the keyword has its meaning: a name that is spelled like
one is a word, and is kept as it is. -/
inductive Respelled : List Piece → List TokenKind → Prop
  | nil : Respelled [] []
  | same {pieces kinds} (piece : Piece) : Respelled pieces kinds →
      Respelled (piece :: pieces) ((piece.kind? .strict).toList ++ kinds)
  /-- `OR` as `||`, and `AND` as `&&`. -/
  | mark {pieces kinds k s} : Keyword.mark? k = some s → Respelled pieces kinds →
      Respelled (.keyword k :: pieces) (.symbol s :: kinds)
  /-- `GROUP` and `ORDER` without `BY`. -/
  | withoutBy {pieces kinds k} : k ∈ [Keyword.GROUP, Keyword.ORDER] → Respelled pieces kinds →
      Respelled (.keyword k :: .space :: .keyword .BY :: pieces) (.keyword k :: kinds)
  /-- `GROUP ALL` as `GROUP BY ALL`. -/
  | groupByAll {pieces kinds} : Respelled pieces kinds →
      Respelled (.keyword .GROUP :: .space :: .keyword .ALL :: pieces)
        (.keyword .GROUP :: .keyword .BY :: .keyword .ALL :: kinds)
  /-- `LIMIT` as `LIMIT BY`, and `START` as `START AT`. -/
  | filler {pieces kinds k other} : Keyword.filler? k = some other → Respelled pieces kinds →
      Respelled (.keyword k :: pieces) (.keyword k :: .keyword other :: kinds)

/-- The kinds of the tokens that the pieces are read as. -/
def Piece.kinds (dialect : Dialect) (pieces : List Piece) : List TokenKind :=
  pieces.flatMap fun piece => (piece.kind? dialect).toList

/-- The kinds of the tokens of a text, with the mark of its end. -/
def Text.kinds (text : String) (dialect : Dialect) : List TokenKind :=
  (Scanner.ofText text dialect).tokens.1.map Token.kind

section Spelled

/-- A keyword that is a token in the strict dialect is written in capitals. -/
theorem Token.Genuine.text_of_keyword {token : Token} {k : Keyword} (h : token.Genuine .strict)
    (hkind : token.kind = .keyword k) : token.text = k.text := by
  rw [Token.Genuine, hkind] at h
  exact (Keyword.text_of_ofText? h.2).symm

/-- In the strict dialect the kind of a token settles which piece it can be read for. -/
theorem Piece.spelledBy_of_strict {piece : Piece} {token : Token}
    (hkind : piece.kind? .strict = some token.kind) (hgenuine : token.Genuine .strict) :
    piece.SpelledBy [token] := by
  refine spelledBy_of_kind? hkind fun k hk => ?_
  rw [hgenuine.text_of_keyword hk]
  rw [hk] at hkind
  cases piece with
  | keyword other =>
    obtain rfl : other = k := TokenKind.keyword.inj (Option.some.inj hkind)
    rfl
  | word name =>
    have hword : Dialect.strict.wordKind name = .keyword k := Option.some.inj hkind
    rw [Dialect.wordKind] at hword
    split at hword
    · next other hother =>
      obtain rfl := TokenKind.keyword.inj hword
      exact Keyword.text_of_ofText? hother
    · cases hword
  | _ => cases hkind

theorem Keyword.mark_mem_spellings {k : Keyword} {s : Symbol} (h : k.mark? = some s) :
    [TokenKind.symbol s] ∈ k.spellings := by
  cases k <;> cases h <;> decide

theorem Keyword.filler_mem_spellings {k other : Keyword} (h : k.filler? = some other) :
    [TokenKind.keyword k, .keyword other] ∈ k.spellings := by
  cases k <;> cases h <;> decide

/-- Tokens of these kinds can be written for the pieces, whatever tokens they are. -/
def AreSpelled (pieces : List Piece) (kinds : List TokenKind) : Prop :=
  ∀ tokens : List Token, (∀ token ∈ tokens, token.Genuine .strict) →
    tokens.map Token.kind = kinds → Spells pieces tokens

variable {piece : Piece} {pieces : List Piece} {kinds : List TokenKind} {k : Keyword}

theorem AreSpelled.cons {spelling : List TokenKind}
    (hpiece : ∀ tokens : List Token, (∀ token ∈ tokens, token.Genuine .strict) →
      tokens.map Token.kind = spelling → piece.SpelledBy tokens)
    (h : AreSpelled pieces kinds) : AreSpelled (piece :: pieces) (spelling ++ kinds) := by
  intro tokens hgenuine htokens
  obtain ⟨front, back, rfl, hfront, hback⟩ := List.map_eq_append_iff.mp htokens
  obtain ⟨hgenuine, hrest⟩ := List.forall_mem_append.mp hgenuine
  exact .cons (hpiece front hgenuine hfront) (h back hrest hback)

theorem AreSpelled.keyword {spelling : List TokenKind} (hk : spelling ∈ k.spellings)
    (h : AreSpelled pieces kinds) : AreSpelled (.keyword k :: pieces) (spelling ++ kinds) :=
  h.cons fun tokens _ htokens => by
    show tokens.map Token.kind ∈ k.spellings
    rwa [htokens]

theorem AreSpelled.space (h : AreSpelled pieces kinds) : AreSpelled (.space :: pieces) kinds :=
  fun tokens hgenuine htokens => spells_space.mpr (h tokens hgenuine htokens)

/-- A piece can be spelled as it is read. -/
theorem AreSpelled.same (hpiece : piece.isComment = false) (h : AreSpelled pieces kinds) :
    AreSpelled (piece :: pieces) ((piece.kind? .strict).toList ++ kinds) := by
  refine h.cons fun tokens hgenuine htokens => ?_
  cases hkind : piece.kind? .strict with
  | none =>
    rw [hkind] at htokens
    rw [List.map_eq_nil_iff.mp htokens]
    exact Piece.spelledBy_nil hpiece hkind
  | some kind =>
    rw [hkind] at htokens
    obtain ⟨token, rfl, rfl⟩ := List.map_eq_singleton_iff.mp htokens
    exact Piece.spelledBy_of_strict hkind (hgenuine token List.mem_cons_self)

/-- By induction on what has been chosen. Every choice is one of the ways to spell the keyword that
it is made for, or the keyword behind it. -/
theorem Respelled.areSpelled (h : Respelled pieces kinds)
    (hplain : ∀ piece ∈ pieces, piece.isComment = false) : AreSpelled pieces kinds := by
  induction h with
  | nil => exact fun tokens _ htokens => List.map_eq_nil_iff.mp htokens
  | same piece _ ih =>
    obtain ⟨hpiece, hrest⟩ := List.forall_mem_cons.mp hplain
    exact (ih hrest).same hpiece
  | mark hmark _ ih =>
    have hrest := ih fun piece hmem => hplain piece (by simp [hmem])
    exact hrest.keyword (Keyword.mark_mem_spellings hmark)
  | @withoutBy _ _ k _ _ ih =>
    have hrest := ih fun piece hmem => hplain piece (by simp [hmem])
    have hnothing : [] ∈ Keyword.BY.spellings := by decide
    exact (hrest.keyword hnothing).space.keyword k.keyword_mem_spellings
  | groupByAll _ ih =>
    have hrest := ih fun piece hmem => hplain piece (by simp [hmem])
    have hall : [TokenKind.keyword .BY, .keyword .ALL] ∈ Keyword.ALL.spellings := by decide
    exact (hrest.keyword hall).space.keyword (Keyword.keyword_mem_spellings .GROUP)
  | filler hfiller _ ih =>
    have hrest := ih fun piece hmem => hplain piece (by simp [hmem])
    exact hrest.keyword (Keyword.filler_mem_spellings hfiller)

end Spelled

section Written

variable {dialect : Dialect} {piece : Piece} {pieces : List Piece} {kinds : List TokenKind}

/-- There are pieces that are read as tokens of these kinds. -/
def Writable (kinds : List TokenKind) : Prop :=
  ∃ pieces, Piece.Plain pieces ∧ Piece.kinds .strict pieces = kinds

theorem Writable.cons (hpiece : piece.IsPlain) (h : Writable kinds) :
    Writable ((piece.kind? .strict).toList ++ kinds) := by
  obtain ⟨pieces, hplain, rfl⟩ := h
  exact ⟨piece :: pieces, Piece.plain_cons.mpr ⟨hpiece, hplain⟩, rfl⟩

theorem Writable.keyword (k : Keyword) (h : Writable kinds) : Writable (.keyword k :: kinds) :=
  h.cons (Piece.isPlain_keyword k)

/-- Whatever is chosen can be written. -/
theorem Respelled.writable (h : Respelled pieces kinds) (hplain : Piece.Plain pieces) :
    Writable kinds := by
  induction h with
  | nil => exact ⟨[], Piece.plain_nil, rfl⟩
  | same piece _ ih =>
    obtain ⟨hpiece, hrest⟩ := Piece.plain_cons.mp hplain
    exact (ih hrest).cons hpiece
  | @mark _ _ _ s _ _ ih =>
    have hrest := ih fun piece hmem => hplain piece (by simp [hmem])
    exact hrest.cons (Piece.isPlain_symbol s)
  | withoutBy _ _ ih =>
    have hrest := ih fun piece hmem => hplain piece (by simp [hmem])
    exact hrest.keyword _
  | groupByAll _ ih =>
    have hrest := ih fun piece hmem => hplain piece (by simp [hmem])
    exact ((hrest.keyword .ALL).keyword .BY).keyword .GROUP
  | filler _ _ ih =>
    have hrest := ih fun piece hmem => hplain piece (by simp [hmem])
    exact (hrest.keyword _).keyword _

theorem Piece.map_kind_tokens (offset : Nat) (pieces : List Piece) :
    (Piece.tokens dialect offset pieces).map Token.kind = Piece.kinds dialect pieces := by
  induction pieces generalizing offset with
  | nil => rfl
  | cons piece pieces ih =>
    rw [Piece.tokens, Piece.kinds, List.flatMap_cons]
    cases piece.kind? dialect with
    | none => exact ih _
    | some kind => exact congrArg (kind :: ·) (ih _)

/-- The tokens of a text of which the pieces do not run together. -/
theorem Text.kinds_join (dialect : Dialect) (hreadable : ∀ piece ∈ pieces, piece.Readable)
    (hjoins : pieces.IsChain Piece.Joins) :
    Text.kinds (Piece.join pieces) dialect = Piece.kinds dialect pieces ++ [.endOfInput] := by
  rw [Text.kinds, tokens_ofText _ _ nestingLimit, (ofText_join dialect _ hreadable hjoins).1,
    List.map_append, Piece.map_kind_tokens]
  rfl

/-- A space behind every piece. -/
def Piece.spaced (pieces : List Piece) : List Piece :=
  pieces.flatMap fun piece => [piece, .space]

theorem Piece.joins_space (h : piece.isComment = false) : piece.Joins .space := by
  intro c hc
  obtain rfl : ' ' = c := Option.some.inj hc
  cases piece with
  | symbol s => cases s <;> rfl
  | comment content => cases h
  | _ => rfl

theorem Piece.joins_spaced (h : ∀ piece ∈ pieces, piece.isComment = false) :
    (Piece.spaced pieces).IsChain Piece.Joins := by
  induction pieces with
  | nil => exact .nil
  | cons piece pieces ih =>
    obtain ⟨hpiece, hrest⟩ := List.forall_mem_cons.mp h
    have hspace : (Piece.space :: Piece.spaced pieces).IsChain Piece.Joins :=
      List.isChain_cons.mpr ⟨fun next _ c _ => rfl, ih hrest⟩
    exact List.isChain_cons_cons.mpr ⟨Piece.joins_space hpiece, hspace⟩

theorem Piece.kinds_spaced (dialect : Dialect) (pieces : List Piece) :
    Piece.kinds dialect (Piece.spaced pieces) = Piece.kinds dialect pieces := by
  induction pieces with
  | nil => rfl
  | cons piece pieces ih =>
    show (piece.kind? dialect).toList ++ Piece.kinds dialect (Piece.spaced pieces) = _
    rw [ih]
    rfl

/-- There is a text for any pieces that can be read. -/
theorem Piece.Plain.exists_text (h : Piece.Plain pieces) (dialect : Dialect) :
    ∃ text, Text.kinds text dialect = Piece.kinds dialect pieces ++ [.endOfInput] := by
  refine ⟨Piece.join (Piece.spaced pieces), ?_⟩
  have hreadable : ∀ piece ∈ Piece.spaced pieces, piece.Readable := by
    intro other hmem
    obtain ⟨piece, hpiece, hother⟩ := List.mem_flatMap.mp hmem
    obtain rfl | rfl : other = piece ∨ other = .space := by simpa using hother
    · exact (h other hpiece).1
    · trivial
  rw [Text.kinds_join dialect hreadable (joins_spaced fun piece hmem => (h piece hmem).2),
    kinds_spaced]

end Written

section Returned

variable {dialect : Dialect} {limit : Nat} {cursor : Cursor}

theorem Walk.exists_ok_of_mem_answer {ε α : Type} {walk : Walk ε α} {trees : α → List Statement}
    {s : Statement} (h : s ∈ (walk.answer trees cursor).1) :
    ∃ value later, walk cursor = .ok value later ∧ s ∈ trees value := by
  unfold answer at h
  split at h
  · next value later hrun => exact ⟨value, later, hrun, h⟩
  · cases h

/-- A statement that is written for tokens of a text can be read back from its own text. -/
theorem Statement.Fits.valid {s : Statement} {tokens : List Token} (hfits : s.Fits dialect limit)
    (hspells : Spells s.pieces tokens) (hgenuine : ∀ token ∈ tokens, token.Genuine dialect) :
    (SourceItem.statement s).Valid dialect limit :=
  ⟨hfits, hspells.isComment_eq_false, hspells.readable hgenuine⟩

/-- What a request yields takes no more levels than a statement has, whatever has been asked for
before. -/
theorem Request.answer_valid (request : Request) (h : cursor.Bounded dialect limit) :
    ∀ s ∈ (request.answer cursor).1, (SourceItem.statement s).Valid dialect limit := by
  intro s hs
  have hat : cursor.At dialect cursor.levels := ⟨h.genuine, rfl⟩
  have hitem {file : SourceFile} (hvalid : ∀ item ∈ file.items, item.Valid dialect limit)
      (hmem : s ∈ file.statements) : (SourceItem.statement s).Valid dialect limit := by
    obtain ⟨item, hitem, hs⟩ := List.mem_filterMap.mp hmem
    cases item with
    | statement other =>
      obtain rfl : other = s := Option.some.inj hs
      exact hvalid _ hitem
    | comment comment => cases hs
  cases request with
  | expression =>
    obtain ⟨e, later, hrun, hs⟩ := exists_ok_of_mem_answer hs
    obtain rfl := List.mem_singleton.mp hs
    obtain ⟨tokens, hpass, -, hspells, hfits⟩ :=
      (Expr.parseRanked_zero_sound dialect cursor.levels cursor hat).of_ok hrun
    exact Statement.Fits.valid (Expr.Fits.mono hfits h.levels_le) hspells (hat.tokens_genuine hpass)
  | statement =>
    obtain ⟨s', later, hrun, hs⟩ := exists_ok_of_mem_answer hs
    obtain rfl := List.mem_singleton.mp hs
    obtain ⟨tokens, hpass, -, hspells, hfits⟩ :=
      (Statement.parseAt_sound dialect cursor.levels cursor hat).of_ok hrun
    exact (hfits.mono h.levels_le).valid hspells (hat.tokens_genuine hpass)
  | single =>
    obtain ⟨s', later, hrun, hs⟩ := exists_ok_of_mem_answer hs
    obtain rfl := List.mem_singleton.mp hs
    obtain ⟨s', mid, hfirst, hrest⟩ := bind_ok hrun
    obtain ⟨_, last, -, hpure⟩ := bind_ok hrest
    cases hpure
    obtain ⟨tokens, -, -, haccount⟩ := Statement.parseTerminated_skips_of_ok h.toBetween hfirst
    exact haccount.valid _ List.mem_cons_self
  | file =>
    obtain ⟨file, later, hrun, hs⟩ := exists_ok_of_mem_answer hs
    exact hitem (SourceFile.parse_account h.toBetween hrun).valid hs
  | recovery =>
    obtain ⟨result, later, hrun, hs⟩ := exists_ok_of_mem_answer hs
    obtain ⟨-, -, -, hvalid⟩ := SourceFile.recover_takes cursor later result h.toBetween hrun
    exact hitem hvalid hs

end Returned

/-- Another spelling of a statement is read as the statement, with and without a semicolon. -/
theorem Statement.ofText_of_kinds {text : String} {s : Statement} {kinds ending : List TokenKind}
    (hvalid : (SourceItem.statement s).Valid .strict nestingLimit) (h : Respelled s.pieces kinds)
    (hending : ending ∈ [[], [TokenKind.symbol .semicolon]])
    (htext : Text.kinds text .strict = kinds ++ ending ++ [.endOfInput]) :
    Statement.ofText text .strict = .ok s := by
  have hahead : (Cursor.ofText text .strict nestingLimit).ahead.map Token.kind = kinds ++ ending := by
    rw [Text.kinds, tokens_ofText text .strict nestingLimit, List.map_append] at htext
    exact List.append_inj_left' htext rfl
  obtain ⟨front, back, hsplit, hfront, hback⟩ := List.map_eq_append_iff.mp hahead
  have hspells : Spells s.pieces front := by
    refine h.areSpelled hvalid.2.1 front (fun token hmem => ?_) hfront
    exact (ofText_between text .strict nestingLimit).genuine token
      (hsplit ▸ List.mem_append_left back hmem)
  refine parseSingle_run_iff.mpr ⟨hvalid.1, front, back, hsplit, hspells, ?_⟩
  obtain rfl | rfl : ending = [] ∨ ending = [.symbol .semicolon] := by simpa using hending
  · exact .inl (List.map_eq_nil_iff.mp hback)
  · exact .inr (List.map_eq_singleton_iff.mp hback)

/-- Other spellings do not change the tree. Take a statement that the strict parser yields, whatever
it is asked for and has been asked for before. The tokens of its canonical text are those of its
pieces; spell them otherwise at any of the places where that can be done, and write a semicolon
behind them or none. There are texts with these tokens, and each of them is the statement again. -/
theorem Statement.ofText_of_respelled (source : String) (calls : List Call) (request : Request) :
    ∀ s ∈ (request.answer (Call.after calls (Cursor.ofText source .strict nestingLimit))).1,
      Text.kinds s.text .strict = Piece.kinds .strict s.pieces ++ [.endOfInput] ∧
        ∀ kinds, Respelled s.pieces kinds → ∀ ending ∈ [[], [TokenKind.symbol .semicolon]],
          (∃ text, Text.kinds text .strict = kinds ++ ending ++ [.endOfInput]) ∧
            ∀ text, Text.kinds text .strict = kinds ++ ending ++ [.endOfInput] →
              Statement.ofText text .strict = .ok s := by
  intro s hs
  have hbounded := Call.after_bounded calls (ofText_clean source .strict nestingLimit).bounded
  have hvalid := request.answer_valid hbounded s hs
  have ⟨_, hcomment, hreadable⟩ := hvalid
  refine ⟨Text.kinds_join .strict hreadable (Piece.joins_of_adjoins s.laid.1 hreadable), ?_⟩
  intro kinds hrespelled ending hending
  refine ⟨?_, fun text => ofText_of_kinds hvalid hrespelled hending⟩
  obtain ⟨others, hothers, rfl⟩ :=
    hrespelled.writable fun piece hmem => ⟨hreadable piece hmem, hcomment piece hmem⟩
  obtain rfl | rfl : ending = [] ∨ ending = [.symbol .semicolon] := by simpa using hending
  · rw [List.append_nil]
    exact hothers.exists_text .strict
  · have hmark : Piece.Plain [.symbol .semicolon] :=
      Piece.plain_cons.mpr ⟨Piece.isPlain_symbol .semicolon, Piece.plain_nil⟩
    obtain ⟨text, htext⟩ := (Piece.plain_append.mpr ⟨hothers, hmark⟩).exists_text .strict
    rw [Piece.kinds, List.flatMap_append] at htext
    exact ⟨text, htext⟩

set_option maxRecDepth 8192 in
/-- Only the second `OR` stands between operands. -/
theorem Statement.ofText_of_respelled_or :
    let s : Statement := .select ⟨.fields (some .wildcard) none,
      ⟨false, [.reference (.identifier (.raw "a"))], none⟩,
      [.condition (.binary (.reference (.identifier (.dotted ["b", "OR"]))) .or
        (.reference (.identifier (.raw "c")))), .group .all]⟩
    let kinds : List TokenKind := [.keyword .SELECT, .symbol .star, .keyword .FROM, .identifier "a",
      .keyword .WHERE, .identifier "b", .symbol .dot, .keyword .OR, .symbol .bars, .identifier "c",
      .keyword .GROUP, .keyword .BY, .keyword .ALL]
    s ∈ (Request.single.answer (Call.after []
        (Cursor.ofText "SELECT * FROM a WHERE b.OR OR c GROUP ALL" .strict nestingLimit))).1 ∧
      Respelled s.pieces kinds ∧
      Text.kinds "SELECT * FROM a WHERE b.OR || c GROUP BY ALL;" .strict =
        kinds ++ [.symbol .semicolon] ++ [.endOfInput] ∧
      Statement.ofText "SELECT * FROM a WHERE b.OR || c GROUP BY ALL;" .strict = .ok s := by
  intro s kinds
  have hread : (Request.single.answer (Call.after []
      (Cursor.ofText "SELECT * FROM a WHERE b.OR OR c GROUP ALL" .strict nestingLimit))).1 =
      [s] := by cbv
  have hs := hread ▸ List.mem_cons_self
  have hrespelled : Respelled s.pieces kinds := by
    iterate 14 apply Respelled.same
    refine .mark rfl ?_
    iterate 3 apply Respelled.same
    exact .groupByAll .nil
  have htext : Text.kinds "SELECT * FROM a WHERE b.OR || c GROUP BY ALL;" .strict =
      kinds ++ [.symbol .semicolon] ++ [.endOfInput] := by cbv
  have hall := (ofText_of_respelled _ [] .single s hs).2 kinds hrespelled [.symbol .semicolon]
    (by simp)
  exact ⟨hs, hrespelled, htext, hall.2 _ htext⟩

end EdgeQuery
