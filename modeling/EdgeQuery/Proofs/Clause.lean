import EdgeQuery.Clause.Parse
import EdgeQuery.Proofs.Expr.Sound

/-!
The clauses that can be read, and that they are read as they are written. The words that mean
nothing are among the ways to spell the words before or behind them.
-/

namespace EdgeQuery

open Cursor Parse Walk

/-- The values that rows are grouped by. -/
def Grouping.keys : Grouping → List Expr
  | .all => []
  | .by keys => keys

section Validity

variable (dialect : Dialect) (levels : Nat)

def OmitItem.Valid (item : OmitItem) : Prop :=
  item.field.Valid dialect ∧
    ∀ names ∈ item.nested, names ≠ [] ∧ ∀ name ∈ names, dialect.IsFree name

def OrderTarget.Fits : OrderTarget → Prop
  | .value e => e.Fits dialect levels
  | .rand => True

def Grouping.Fits : Grouping → Prop
  | .all => True
  | .by keys => keys ≠ [] ∧ ∀ key ∈ keys, key.Fits dialect levels

def FetchItem.Valid : FetchItem → Prop
  | .field id => id.Valid dialect
  | .edge path name => path.Valid dialect ∧ ∀ id ∈ name, id.Valid dialect

def IndexHint.Valid : IndexHint → Prop
  | .noIndex => True
  | .index names => names ≠ [] ∧ ∀ id ∈ names, id.Valid dialect

/-- The clause is one that can be read with so many nesting levels. -/
def Clause.Fits : Clause → Prop
  | .condition e | .limit e | .start e => e.Fits dialect levels
  | .split field => field.Valid dialect
  | .omission items => items ≠ [] ∧ ∀ item ∈ items, item.Valid dialect
  | .group grouping => grouping.Fits dialect levels
  | .order items => items ≠ [] ∧ ∀ item ∈ items, item.target.Fits dialect levels
  | .fetch items => items ≠ [] ∧ ∀ item ∈ items, item.Valid dialect
  | .hint index => index.Valid dialect
  | .timeout _ | .parallel | .tempfiles | .explain _ => True

end Validity

section Strict

variable {dialect : Dialect} {levels : Nat}

theorem Expr.Fits.strict {e : Expr} (h : e.Fits dialect levels) : e.Fits .strict levels :=
  ⟨h.1.strict, h.2⟩

theorem OmitItem.Valid.strict {item : OmitItem} (h : item.Valid dialect) : item.Valid .strict := by
  refine ⟨h.1.strict, ?_⟩
  intro names hnames
  exact ⟨(h.2 names hnames).1, fun name hmem => ((h.2 names hnames).2 name hmem).strict⟩

theorem FetchItem.Valid.strict {item : FetchItem} (h : item.Valid dialect) :
    item.Valid .strict := by
  cases item with
  | field id => exact Identifier.Valid.strict h
  | edge path name => exact ⟨h.1.strict, fun id hmem => (h.2 id hmem).strict⟩

theorem IndexHint.Valid.strict {index : IndexHint} (h : index.Valid dialect) :
    index.Valid .strict := by
  cases index with
  | noIndex => trivial
  | index names => exact ⟨h.1, fun id hmem => (h.2 id hmem).strict⟩

theorem Clause.Fits.strict {clause : Clause} (h : clause.Fits dialect levels) :
    clause.Fits .strict levels := by
  cases clause with
  | condition e => exact Expr.Fits.strict h
  | limit e => exact Expr.Fits.strict h
  | start e => exact Expr.Fits.strict h
  | split field => exact FieldReference.Valid.strict h
  | omission items => exact ⟨h.1, fun item hmem => (h.2 item hmem).strict⟩
  | group grouping =>
    cases grouping with
    | all => trivial
    | «by» keys => exact ⟨h.1, fun key hmem => (h.2 key hmem).strict⟩
  | order items =>
    refine ⟨h.1, fun item hmem => ?_⟩
    have hitem := h.2 item hmem
    obtain ⟨target, modifier⟩ := item
    cases target with
    | value e => exact Expr.Fits.strict hitem
    | rand => trivial
  | fetch items => exact ⟨h.1, fun item hmem => (h.2 item hmem).strict⟩
  | hint index => exact IndexHint.Valid.strict h
  | _ => trivial

end Strict

section Monotone

variable {dialect : Dialect} {levels room : Nat}

theorem OrderTarget.Fits.mono {target : OrderTarget} (h : target.Fits dialect levels)
    (hle : levels ≤ room) : target.Fits dialect room := by
  cases target with
  | value e => exact Expr.Fits.mono h hle
  | rand => trivial

/-- What can be read with some nesting levels can be read with more. -/
theorem Clause.Fits.mono {clause : Clause} (h : clause.Fits dialect levels) (hle : levels ≤ room) :
    clause.Fits dialect room := by
  cases clause with
  | condition e => exact Expr.Fits.mono h hle
  | limit e => exact Expr.Fits.mono h hle
  | start e => exact Expr.Fits.mono h hle
  | group grouping =>
    cases grouping with
    | all => trivial
    | «by» keys => exact ⟨h.1, fun key hmem => (h.2 key hmem).mono hle⟩
  | order items => exact ⟨h.1, fun item hmem => (h.2 item hmem).mono hle⟩
  | _ => exact h

end Monotone

section Spelling

variable {tokens : List Token}

theorem spells_words {ks : List Keyword} :
    Spells (Piece.words ks) tokens ↔ Spells (ks.map Piece.keyword) tokens := by
  have hspaced (ks : List Keyword) (tokens : List Token) :
      Spells (ks.flatMap fun k => [.space, .keyword k]) tokens ↔
        Spells (ks.map Piece.keyword) tokens := by
    induction ks generalizing tokens with
    | nil => rfl
    | cons k ks ih =>
      show Spells (.space :: .keyword k :: ks.flatMap _) tokens ↔ _
      rw [spells_space]
      exact exists_congr fun front => exists_congr fun back =>
        and_congr_right fun _ => and_congr_right fun _ => ih back
  cases ks with
  | nil => rfl
  | cons k ks =>
    rw [Piece.words, List.map_cons, intercalate_cons_eq_flatMap, List.flatMap_map]
    exact exists_congr fun front => exists_congr fun back =>
      and_congr_right fun _ => and_congr_right fun _ => hspaced ks back

/-- A keyword that is always written as itself, and what is written behind it. -/
theorem spells_after {k : Keyword} {inner : List Piece} (h : k.spellings = [[.keyword k]]) :
    Spells (Piece.after k inner) tokens ↔
      ∃ token back, tokens = token :: back ∧ token.kind = .keyword k ∧ Spells inner back := by
  simp only [Piece.after, spells_keyword h, spells_space]

/-- The tokens spell the pieces, perhaps behind a word that means nothing. -/
def SpellsBehind (filler : Keyword) (pieces : List Piece) (tokens : List Token) : Prop :=
  Spells pieces tokens ∨
    ∃ word back, tokens = word :: back ∧ word.kind = .keyword filler ∧ Spells pieces back

/-- A word that may be left out. -/
theorem spells_by {inner : List Piece} :
    Spells (Piece.after .BY inner) tokens ↔ SpellsBehind .BY inner tokens := by
  constructor
  · rintro ⟨front, back, rfl, hfront, hback⟩
    have hfront : front.map Token.kind ∈ [[], [TokenKind.keyword .BY]] := hfront
    rcases List.mem_pair.mp hfront with hnil | hword
    · obtain rfl := List.map_eq_nil_iff.mp hnil
      exact .inl (spells_space.mp hback)
    · obtain ⟨word, rfl, hkind⟩ := List.map_eq_singleton_iff.mp hword
      exact .inr ⟨word, back, rfl, hkind, spells_space.mp hback⟩
  · rintro (h | ⟨word, back, rfl, hkind, hback⟩)
    · exact ⟨[], tokens, rfl, List.mem_cons_self .., spells_space.mpr h⟩
    · refine ⟨[word], back, rfl, ?_, spells_space.mpr hback⟩
      show [word.kind] ∈ [[], [TokenKind.keyword .BY]]
      simp [hkind]

/-- A keyword behind which a word may stand that means nothing. -/
theorem spells_filled {k filler : Keyword} {inner : List Piece}
    (h : k.spellings = [[.keyword k], [.keyword k, .keyword filler]]) :
    Spells (Piece.after k inner) tokens ↔
      ∃ token back, tokens = token :: back ∧ token.kind = .keyword k ∧
        SpellsBehind filler inner back := by
  constructor
  · rintro ⟨front, back, rfl, hfront, hback⟩
    have hback := spells_space.mp hback
    rw [Piece.SpelledBy, h, List.mem_pair] at hfront
    rcases hfront with hfront | hfront
    · obtain ⟨token, rfl, hkind⟩ := List.map_eq_singleton_iff.mp hfront
      exact ⟨token, back, rfl, hkind, .inl hback⟩
    · obtain ⟨token, more, rfl, hkind, hmore⟩ := List.map_eq_cons_iff.mp hfront
      obtain ⟨word, rfl, hword⟩ := List.map_eq_singleton_iff.mp hmore
      exact ⟨token, word :: back, rfl, hkind, .inr ⟨word, back, rfl, hword, hback⟩⟩
  · rintro ⟨token, back, rfl, hkind, hback | ⟨word, back, rfl, hword, hback⟩⟩
    · refine ⟨[token], back, rfl, ?_, spells_space.mpr hback⟩
      rw [Piece.SpelledBy, h]
      simp [hkind]
    · refine ⟨[token, word], back, rfl, ?_, spells_space.mpr hback⟩
      rw [Piece.SpelledBy, h]
      simp [hkind, hword]

/-- BY may stand in front of ALL. -/
theorem spells_groupAll :
    Spells (Piece.words [.GROUP, .ALL]) tokens ↔
      ∃ token back last, tokens = token :: back ∧ token.kind = .keyword .GROUP ∧
        last.kind = .keyword .ALL ∧
        (back = [last] ∨ ∃ word, back = [word, last] ∧ word.kind = .keyword .BY) := by
  have hall (back : List Token) : Spells [.keyword .ALL] back ↔
      ∃ last, last.kind = .keyword .ALL ∧
        (back = [last] ∨ ∃ word, back = [word, last] ∧ word.kind = .keyword .BY) := by
    rw [spells_singleton]
    show back.map Token.kind ∈ [[.keyword .ALL], [.keyword .BY, .keyword .ALL]] ↔ _
    rw [List.mem_pair]
    constructor
    · rintro (h | h)
      · obtain ⟨last, rfl, hkind⟩ := List.map_eq_singleton_iff.mp h
        exact ⟨last, hkind, .inl rfl⟩
      · obtain ⟨word, more, rfl, hword, hmore⟩ := List.map_eq_cons_iff.mp h
        obtain ⟨last, rfl, hkind⟩ := List.map_eq_singleton_iff.mp hmore
        exact ⟨last, hkind, .inr ⟨word, rfl, hword⟩⟩
    · rintro ⟨last, hkind, rfl | ⟨word, rfl, hword⟩⟩
      · simp [hkind]
      · simp [hkind, hword]
  rw [spells_words, List.map_cons, List.map_cons, List.map_nil, spells_keyword rfl]
  simp only [hall]
  constructor
  · rintro ⟨token, back, rfl, hkind, last, hlast, hback⟩
    exact ⟨token, back, last, rfl, hkind, hlast, hback⟩
  · rintro ⟨token, back, last, rfl, hkind, hlast, hback⟩
    exact ⟨token, back, rfl, hkind, last, hlast, hback⟩

end Spelling

namespace Clause

/-- The keywords that clauses begin with. -/
def leads : List Keyword :=
  [.WHERE, .SPLIT, .OMIT, .GROUP, .ORDER, .LIMIT, .START, .FETCH, .TIMEOUT, .PARALLEL, .TEMPFILES,
    .EXPLAIN, .WITH]

/-- The keyword that the clause begins with. -/
def lead : Clause → Keyword
  | .condition _ => .WHERE
  | .split _ => .SPLIT
  | .omission _ => .OMIT
  | .group _ => .GROUP
  | .order _ => .ORDER
  | .limit _ => .LIMIT
  | .start _ => .START
  | .fetch _ => .FETCH
  | .timeout _ => .TIMEOUT
  | .parallel => .PARALLEL
  | .tempfiles => .TEMPFILES
  | .explain _ => .EXPLAIN
  | .hint _ => .WITH

theorem lead_mem (clause : Clause) : clause.lead ∈ leads := by
  cases clause <;> simp [lead, leads]

theorem exists_lead (clause : Clause) {tokens : List Token} (h : Spells clause.pieces tokens) :
    ∃ token back, tokens = token :: back ∧ token.kind = .keyword clause.lead := by
  have hpieces : ∃ inner, clause.pieces = .keyword clause.lead :: inner := by
    cases clause with
    | group grouping => cases grouping <;> exact ⟨_, rfl⟩
    | hint index => cases index <;> exact ⟨_, rfl⟩
    | _ => exact ⟨_, rfl⟩
  obtain ⟨inner, hinner⟩ := hpieces
  have hleads : ∀ k ∈ leads, ∀ spelling ∈ k.spellings, spelling.head? = some (.keyword k) := by
    decide
  rw [hinner] at h
  exact h.exists_keyword (hleads _ clause.lead_mem)

end Clause

section Sound

variable {dialect : Dialect} {levels : Nat} {cursor : Cursor} {expression : Parse Expr}

theorem identifier_sound :
    Parse.identifier.Sound dialect levels (fun name => [.word name]) dialect.IsFree := by
  intro cursor hat
  refine (identifier_reads hat).mono ?_
  rintro name _ later - ⟨token, rfl, hkind, hfree⟩
  exact ⟨spells_singleton.mpr ⟨token, rfl, by rw [Token.name?, hkind]⟩, hfree⟩

/-- What is read behind a keyword that stands here. -/
theorem behind_keyword {α : Type} {k : Keyword} {next : Parse α}
    {goal : α → List Token → Cursor → Prop} (hat : cursor.At dialect levels)
    (hkind : cursor.kind 0 = .keyword k)
    (h : ∀ mid : Cursor, mid.At dialect levels →
      next.Reads mid fun value tokens later => goal value (cursor.current :: tokens) later) :
    (advance >>= fun _ => next).Reads cursor goal := by
  refine (advance_reads (by simp [hkind]) (isFlat_of_symbol? (by rw [hkind]; rfl))).bind ?_
  rintro _ _ mid hpass ⟨rfl, -⟩
  exact h mid (hat.passes hpass)

theorem OmitItem.pieces_mk (field : FieldReference) (nested : Option (List String)) :
    OmitItem.pieces ⟨field, nested⟩ = field.pieces ++ nested.elim [] fun names =>
      .symbol .dot :: Piece.enclosed .brace (Piece.commaList (names.map fun name => [.word name])) := by
  cases nested <;> rfl

theorem OmitItem.parse_sound :
    OmitItem.parse.Sound dialect levels OmitItem.pieces (OmitItem.Valid dialect) := by
  have hdot : IsFlat (.symbol .dot) := isFlat_symbol (by simp) (by simp)
  intro cursor hat
  refine (FieldReference.parse_sound cursor hat).bind ?_
  rintro field tokens mid hpass ⟨hfield, hvalid⟩
  have hat := hat.passes hpass
  refine .look (kind_run 0 mid) (.look (kind_run 1 mid) ?_)
  split
  · next hkind hnext =>
    refine (advance_reads (by simp [hkind]) (hkind ▸ hdot)).bind ?_
    rintro _ _ mid' hpass ⟨rfl, rfl⟩
    have hbrace : mid.advanced.kind 0 = .symbol (.opening .brace) := by
      rw [Cursor.kind, peek_advanced]
      exact hnext
    refine (within_reads (hat.passes hpass) hbrace identifier_sound.commaList).bind ?_
    rintro names _ later - ⟨opening, inner, closing, rfl, hopening, ⟨hnames, hfree⟩, hclosing⟩
    refine .pure ⟨?_, hvalid, by simpa using hfree⟩
    rw [OmitItem.pieces_mk, List.append_nil]
    refine hfield.append (spells_symbol.mpr ⟨mid.current, _, rfl, hkind, ?_⟩)
    exact spells_enclosed.mpr ⟨opening, inner, closing, rfl, hopening, hnames, hclosing⟩
  · refine .pure ⟨?_, hvalid, by simp⟩
    rw [OmitItem.pieces_mk]
    exact hfield.append rfl

theorem OrderDirection.parse?_sound :
    OrderDirection.parse?.Sound dialect levels
      (fun direction => (direction.map OrderDirection.keyword).toList.map Piece.keyword)
      (fun _ => True) := by
  intro cursor hat
  refine (eatKeyword_reads .ASC cursor).bind ?_
  rintro found tokens mid hpass (⟨rfl, rfl, hkind⟩ | ⟨rfl, rfl, -⟩)
  · exact .pure ⟨(spells_keyword rfl).mpr ⟨cursor.current, [], rfl, hkind, rfl⟩, trivial⟩
  · refine (eatKeyword_reads .DESC mid).bind ?_
    rintro found tokens later hpass (⟨rfl, rfl, hkind⟩ | ⟨rfl, rfl, -⟩)
    · exact .pure ⟨(spells_keyword rfl).mpr ⟨mid.current, [], rfl, hkind, rfl⟩, trivial⟩
    · exact .pure ⟨rfl, trivial⟩

theorem OrderModifier.parse?_sound :
    OrderModifier.parse?.Sound dialect levels
      (fun modifier => (modifier.elim [] OrderModifier.keywords).map Piece.keyword)
      (fun _ => True) := by
  intro cursor hat
  refine .look (kind_run 0 cursor) ?_
  split
  · next hkind =>
    refine behind_keyword hat hkind fun mid hat => (OrderDirection.parse?_sound mid hat).bind ?_
    rintro direction tokens later - ⟨hspells, -⟩
    refine .pure ⟨?_, trivial⟩
    rw [List.append_nil]
    exact (spells_keyword rfl).mpr ⟨cursor.current, tokens, rfl, hkind, hspells⟩
  · next hkind =>
    refine behind_keyword hat hkind fun mid hat => (OrderDirection.parse?_sound mid hat).bind ?_
    rintro direction tokens later - ⟨hspells, -⟩
    refine .pure ⟨?_, trivial⟩
    rw [List.append_nil]
    exact (spells_keyword rfl).mpr ⟨cursor.current, tokens, rfl, hkind, hspells⟩
  · refine (OrderDirection.parse?_sound cursor hat).bind ?_
    rintro direction tokens later - ⟨hspells, -⟩
    refine .pure ⟨?_, trivial⟩
    rw [List.append_nil]
    cases direction <;> exact hspells

theorem OrderTarget.parse_sound
    (h : expression.Sound dialect levels Expr.pieces (Expr.Fits dialect levels)) :
    (OrderTarget.parse expression).Sound dialect levels OrderTarget.pieces
      (OrderTarget.Fits dialect levels) := by
  intro cursor hat
  refine .look (kind_run 0 cursor) (.look (kind_run 1 cursor) ?_)
  split
  · next hkind hnext =>
    have hparen : cursor.advanced.kind 0 = .symbol (.opening .paren) := by
      rw [Cursor.kind, peek_advanced]
      exact hnext
    have hnothing : (pure () : Parse Unit).Yields dialect levels fun _ tokens => tokens = [] :=
      fun _ _ => .pure rfl
    refine (advance_reads (by simp [hkind]) (isFlat_of_symbol? (by rw [hkind]; rfl))).bind ?_
    rintro _ _ mid hpass ⟨rfl, rfl⟩
    refine (within_reads (hat.passes hpass) hparen hnothing).bind ?_
    rintro _ _ later - ⟨opening, inner, closing, rfl, hopening, rfl, hclosing⟩
    refine .pure ⟨(spells_keyword rfl).mpr ⟨cursor.current, _, rfl, hkind, ?_⟩, trivial⟩
    rw [List.append_nil]
    exact spells_enclosed.mpr ⟨opening, [], closing, rfl, hopening, rfl, hclosing⟩
  · refine (h cursor hat).bind ?_
    rintro e tokens later - ⟨hspells, hfits⟩
    exact .pure ⟨by rwa [List.append_nil], hfits⟩

theorem OrderItem.spells_mk {target : OrderTarget} {modifier : Option OrderModifier}
    {tokens : List Token} :
    Spells (OrderItem.pieces ⟨target, modifier⟩) tokens ↔
      Spells (target.pieces ++ (modifier.elim [] OrderModifier.keywords).map Piece.keyword)
        tokens := by
  rw [OrderItem.pieces, spells_append, spells_append]
  simp only [spells_optional]
  cases modifier with
  | none => rfl
  | some modifier => simp only [Option.elim, spells_words]

theorem OrderItem.parse_sound
    (h : expression.Sound dialect levels Expr.pieces (Expr.Fits dialect levels)) :
    (OrderItem.parse expression).Sound dialect levels OrderItem.pieces
      (fun item => item.target.Fits dialect levels) := by
  intro cursor hat
  refine (OrderTarget.parse_sound h cursor hat).bind ?_
  rintro target tokens mid hpass ⟨htarget, hfits⟩
  refine (OrderModifier.parse?_sound mid (hat.passes hpass)).bind ?_
  rintro modifier tokens' later - ⟨hmodifier, -⟩
  refine .pure ⟨?_, hfits⟩
  rw [List.append_nil]
  exact OrderItem.spells_mk.mpr (htarget.append hmodifier)

theorem FetchItem.spells_edge {path : EdgePath} {name : Option Identifier} {tokens : List Token} :
    Spells (FetchItem.pieces (.edge path name)) tokens ↔
      Spells (path.pieces ++ name.elim [] fun id => Piece.after .AS id.pieces) tokens := by
  simp only [FetchItem.pieces, Piece.naming, spells_append, spells_optional]

theorem FetchItem.parse_sound :
    FetchItem.parse.Sound dialect levels FetchItem.pieces (FetchItem.Valid dialect) := by
  intro cursor hat
  refine .look (get_run cursor) ?_
  split
  · refine (Identifier.parse_sound cursor hat).bind ?_
    rintro id tokens later - ⟨hspells, hvalid⟩
    exact .pure ⟨by rwa [List.append_nil], hvalid⟩
  · next direction harrow =>
    refine (EdgePath.parse_reads hat (arrow?_eq_some.mp harrow)).bind ?_
    rintro path tokens mid hpass ⟨hpath, hvalid⟩
    refine (Identifier.parseNaming_sound mid (hat.passes hpass)).bind ?_
    rintro name tokens' later - ⟨hname, hvalids⟩
    refine .pure ⟨?_, hvalid, hvalids⟩
    rw [List.append_nil]
    exact FetchItem.spells_edge.mpr (hpath.append hname)

theorem IndexHint.parse_sound :
    IndexHint.parse.Sound dialect levels IndexHint.pieces (IndexHint.Valid dialect) := by
  intro cursor hat
  refine (keyword_reads .WITH cursor).bind ?_
  rintro _ _ mid hpass ⟨rfl, hwith⟩
  have hat := hat.passes hpass
  refine (eatKeyword_reads .NOINDEX mid).bind ?_
  rintro found tokens mid' hpass (⟨rfl, rfl, hkind⟩ | ⟨rfl, rfl, -⟩)
  · refine .pure ⟨spells_words.mpr ?_, trivial⟩
    refine (spells_keyword rfl).mpr ⟨cursor.current, _, rfl, hwith, ?_⟩
    exact (spells_keyword rfl).mpr ⟨mid.current, [], rfl, hkind, rfl⟩
  · have hat := hat.passes hpass
    refine (eatKeyword_reads .INDEX mid').bind ?_
    rintro found tokens mid'' hpass (⟨rfl, rfl, hkind⟩ | ⟨rfl, rfl, -⟩)
    · refine (Identifier.parse_sound.commaList mid'' (hat.passes hpass)).bind ?_
      rintro names tokens later - ⟨hspells, hvalid⟩
      refine .pure ⟨?_, hvalid⟩
      rw [List.append_nil]
      refine (spells_after rfl).mpr ⟨cursor.current, _, rfl, hwith, ?_⟩
      exact (spells_after rfl).mpr ⟨mid'.current, tokens, rfl, hkind, hspells⟩
    · exact .expected _

namespace Clause

theorem skipping_yields {α : Type} {inner : Parse α} {written : α → List Piece}
    {valid : α → Prop} (filler : Keyword) (h : inner.Sound dialect levels written valid) :
    (skipping filler inner).Yields dialect levels
      fun value tokens => SpellsBehind filler (written value) tokens ∧ valid value := by
  intro cursor hat
  refine (eatKeyword_reads filler cursor).bind ?_
  rintro found tokens mid hpass (⟨rfl, rfl, hkind⟩ | ⟨rfl, rfl, -⟩)
  · refine (h mid (hat.passes hpass)).mono ?_
    rintro value tokens later - ⟨hspells, hvalid⟩
    exact ⟨.inr ⟨cursor.current, tokens, rfl, hkind, hspells⟩, hvalid⟩
  · refine (h mid (hat.passes hpass)).mono ?_
    rintro value tokens later - ⟨hspells, hvalid⟩
    exact ⟨.inl hspells, hvalid⟩

/-- What is read behind BY, or where BY is left out. -/
theorem grouping_behind
    (h : expression.Sound dialect levels Expr.pieces (Expr.Fits dialect levels))
    {front : List Token} (hfront : front = [] ∨ ∃ word, front = [word] ∧ word.kind = .keyword .BY)
    {mid : Cursor} (hat : mid.At dialect levels) :
    (Grouping.parse expression).Reads mid fun grouping tokens _ =>
      ∀ token : Token, token.kind = .keyword .GROUP →
        Spells (Clause.group grouping).pieces (token :: (front ++ tokens)) ∧
          grouping.Fits dialect levels := by
  refine (eatKeyword_reads .ALL mid).bind ?_
  rintro found tokens mid' hpass (⟨rfl, rfl, hkind⟩ | ⟨rfl, rfl, -⟩)
  · refine .pure fun token htoken => ⟨spells_groupAll.mpr ?_, trivial⟩
    refine ⟨token, front ++ [mid.current], mid.current, rfl, htoken, hkind, ?_⟩
    rcases hfront with rfl | ⟨word, rfl, hword⟩
    · exact .inl rfl
    · exact .inr ⟨word, rfl, hword⟩
  · refine (h.commaList mid' (hat.passes hpass)).bind ?_
    rintro keys tokens later - ⟨hspells, hfits⟩
    refine .pure fun token htoken => ⟨?_, hfits⟩
    rw [Clause.pieces, Expr.itemPieces_eq, spells_after rfl]
    refine ⟨token, _, rfl, htoken, spells_by.mpr ?_⟩
    rw [List.append_nil]
    rcases hfront with rfl | ⟨word, rfl, hword⟩
    · exact .inl hspells
    · exact .inr ⟨word, tokens, rfl, hword, hspells⟩

theorem grouping_yields
    (h : expression.Sound dialect levels Expr.pieces (Expr.Fits dialect levels)) :
    (skipping .BY (Grouping.parse expression)).Yields dialect levels fun grouping tokens =>
      ∀ token : Token, token.kind = .keyword .GROUP →
        Spells (Clause.group grouping).pieces (token :: tokens) ∧
          grouping.Fits dialect levels := by
  intro cursor hat
  refine (eatKeyword_reads .BY cursor).bind ?_
  rintro found tokens mid hpass (⟨rfl, rfl, hkind⟩ | ⟨rfl, rfl, -⟩)
  · exact grouping_behind h (.inr ⟨cursor.current, rfl, hkind⟩) (hat.passes hpass)
  · exact grouping_behind h (.inl rfl) (hat.passes hpass)

/-- A clause that begins with a keyword of its own, whatever is read behind it. -/
theorem parse?_behind {α : Type} {k : Keyword} {parser : Parse α}
    {post : α → List Token → Prop} (make : α → Clause) (hat : cursor.At dialect levels)
    (hkind : cursor.kind 0 = .keyword k) (h : parser.Yields dialect levels post)
    (hmake : ∀ value back, post value back →
      Spells (make value).pieces (cursor.current :: back) ∧ (make value).Fits dialect levels) :
    (advance >>= fun _ => parser >>= fun value => pure (some (make value))).Reads cursor
      fun clause tokens _ => Spells (clause.elim [] fun c => .space :: c.pieces) tokens ∧
        ∀ c ∈ clause, c.Fits dialect levels := by
  refine behind_keyword hat hkind fun mid hat => (h mid hat).bind ?_
  rintro value tokens later - hpost
  obtain ⟨hspells, hfits⟩ := hmake value tokens hpost
  refine .pure ⟨?_, by simpa using hfits⟩
  rw [List.append_nil]
  exact spells_space.mpr hspells

/-- A clause that is one word. -/
theorem parse?_word {k : Keyword} (clause : Clause) (hat : cursor.At dialect levels)
    (hkind : cursor.kind 0 = .keyword k) (hspelling : k.spellings = [[.keyword k]])
    (hpieces : clause.pieces = [.keyword k]) (hfits : clause.Fits dialect levels) :
    (advance >>= fun _ => pure (some clause)).Reads cursor
      fun clause tokens _ => Spells (clause.elim [] fun c => .space :: c.pieces) tokens ∧
        ∀ c ∈ clause, c.Fits dialect levels := by
  refine behind_keyword hat hkind fun mid hat => .pure ⟨?_, by simpa using hfits⟩
  refine spells_space.mpr ?_
  rw [hpieces]
  exact (spells_keyword hspelling).mpr ⟨cursor.current, [], rfl, hkind, rfl⟩

theorem parse?_sound (h : expression.Sound dialect levels Expr.pieces (Expr.Fits dialect levels)) :
    (parse? expression).Sound dialect levels (fun clause => clause.elim [] fun c => .space :: c.pieces)
      (fun clause => ∀ c ∈ clause, c.Fits dialect levels) := by
  intro cursor hat
  refine .look (kind_run 0 cursor) ?_
  split
  · next hkind =>
    refine parse?_behind .condition hat hkind h fun e back hpost => ⟨?_, hpost.2⟩
    exact (spells_after rfl).mpr ⟨_, back, rfl, hkind, hpost.1⟩
  · next hkind =>
    refine parse?_behind .split hat hkind FieldReference.parse_sound fun field back hpost =>
      ⟨?_, hpost.2⟩
    exact (spells_after rfl).mpr ⟨_, back, rfl, hkind, hpost.1⟩
  · next hkind =>
    refine parse?_behind .omission hat hkind OmitItem.parse_sound.commaList
      fun items back hpost => ⟨?_, hpost.2⟩
    exact (spells_after rfl).mpr ⟨_, back, rfl, hkind, hpost.1⟩
  · next hkind =>
    exact parse?_behind .group hat hkind (grouping_yields h)
      fun grouping back hpost => hpost cursor.current hkind
  · next hkind =>
    refine parse?_behind .order hat hkind (skipping_yields .BY (OrderItem.parse_sound h).commaList)
      fun items back hpost => ⟨?_, hpost.2⟩
    exact (spells_after rfl).mpr ⟨_, back, rfl, hkind, spells_by.mpr hpost.1⟩
  · next hkind =>
    refine parse?_behind .limit hat hkind (skipping_yields .BY h) fun e back hpost => ⟨?_, hpost.2⟩
    exact (spells_filled rfl).mpr ⟨_, back, rfl, hkind, hpost.1⟩
  · next hkind =>
    refine parse?_behind .start hat hkind (skipping_yields .AT h) fun e back hpost => ⟨?_, hpost.2⟩
    exact (spells_filled rfl).mpr ⟨_, back, rfl, hkind, hpost.1⟩
  · next hkind =>
    refine parse?_behind .fetch hat hkind FetchItem.parse_sound.commaList
      fun items back hpost => ⟨?_, hpost.2⟩
    exact (spells_after rfl).mpr ⟨_, back, rfl, hkind, hpost.1⟩
  · next hkind =>
    have hduration : duration.Yields dialect levels fun value tokens =>
        ∃ token, tokens = [token] ∧ token.kind = .duration value :=
      fun cursor _ => duration_reads cursor
    refine parse?_behind .timeout hat hkind hduration ?_
    rintro value _ ⟨token, rfl, htoken⟩
    refine ⟨(spells_after rfl).mpr ⟨_, [token], rfl, hkind, ?_⟩, trivial⟩
    exact spells_singleton.mpr ⟨token, rfl, htoken⟩
  · next hkind => exact parse?_word .parallel hat hkind rfl rfl trivial
  · next hkind => exact parse?_word .tempfiles hat hkind rfl rfl trivial
  · next hkind =>
    refine parse?_behind .explain hat hkind (eatKeyword_yields rfl) fun full back hpost =>
      ⟨?_, trivial⟩
    exact (spells_keyword rfl).mpr ⟨_, back, rfl, hkind, hpost⟩
  · refine (IndexHint.parse_sound cursor hat).bind ?_
    rintro index tokens later - ⟨hspells, hvalid⟩
    refine .pure ⟨?_, by simpa [Fits] using hvalid⟩
    rw [List.append_nil]
    exact spells_space.mpr hspells
  · exact .pure ⟨rfl, by simp⟩

end Clause
end Sound
end EdgeQuery
