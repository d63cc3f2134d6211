import EdgeQuery.Proofs.Clause
import EdgeQuery.Proofs.Expr.Prompt

/-!
Clauses are given up at the first token that cannot stand where it stands. A clause that has been
begun can be completed to one of its kind, since its keyword is read before anything can be wrong.
-/

namespace EdgeQuery

open Cursor Parse Walk

section Items

variable {dialect : Dialect} {levels : Nat}

theorem identifier_prompt :
    Parse.identifier.Prompt dialect levels (fun name => [.word name])
      (fun _ name => dialect.IsFree name) := by
  intro cursor _
  exact identifier_stops (.ending [.word "a"] (by decide) fun more hmore =>
    ⟨levels + 1, "a", Nat.lt_succ_self levels, dialect.isFree_a, hmore⟩)

theorem duration_prompt :
    Parse.duration.Prompt dialect levels (fun value => [.duration value]) (fun _ _ => True) := by
  intro cursor _
  exact duration_stops (.ending [.duration ⟨0, .seconds⟩] (by decide) fun more hmore =>
    ⟨levels + 1, ⟨0, .seconds⟩, Nat.lt_succ_self levels, trivial, hmore⟩)

theorem OmitItem.parse_prompt :
    OmitItem.parse.Prompt dialect levels OmitItem.pieces (fun _ item => item.Valid dialect) := by
  have hdot : IsFlat (.symbol .dot) := isFlat_symbol (by simp) (by simp)
  intro cursor hat
  refine .bind (FieldReference.parse_sound cursor hat)
    ((FieldReference.parse_prompt cursor hat).mono ?_) ?_
  · rintro tokens ⟨room, field, hlevels, hvalid, hspells⟩
    refine .whole ⟨room, ⟨field, none⟩, hlevels, ⟨hvalid, by simp⟩, ?_⟩
    rwa [OmitItem.pieces_mk, Option.elim, List.append_nil]
  rintro field tokens mid hpass ⟨hfield, hvalid⟩
  have hat := hat.passes hpass
  refine .look (kind_run 0 mid) (.look (kind_run 1 mid) ?_)
  split
  · next hkind hnext =>
    refine .advance (by simp [hkind]) (hkind ▸ hdot) fun mid' hpass => ?_
    have hbrace : mid'.kind 0 = .symbol (.opening .brace) := by
      rw [hpass.advanced_eq, Cursor.kind, peek_advanced]
      exact hnext
    refine .wrapped _ (.within (Spelled levels
      (fun names : List String => Piece.commaList (names.map fun name => [.word name]))
      fun _ names => names ≠ [] ∧ ∀ name ∈ names, dialect.IsFree name) (hat.passes hpass) hbrace
      ?_ ?_ ?_)
    · intro mid hat
      refine (identifier_sound.commaList mid hat).mono ?_
      rintro names tokens later - ⟨hspells, hnames⟩
      exact ⟨levels + 1, names, Nat.lt_succ_self levels, hnames, hspells⟩
    · exact Prompt.commaList identifier_sound identifier_prompt fun _ _ hname _ => hname
    · rintro opening inner closing hopening ⟨room, names, hlevels, hnames, hspells⟩ hclosing
      refine .whole ⟨room, ⟨field, some names⟩, hlevels, ⟨hvalid, by simpa using hnames⟩, ?_⟩
      rw [OmitItem.pieces_mk]
      refine hfield.append (spells_symbol.mpr ⟨mid.current, _, rfl, hkind, ?_⟩)
      exact spells_enclosed.mpr ⟨opening, inner, closing, rfl, hopening, hspells, hclosing⟩
  · exact .pure

theorem OrderDirection.parse?_total : Total OrderDirection.parse? := by
  refine (eatKeyword_total .ASC).bind fun found => ?_
  cases found with
  | true => exact .pure _
  | false =>
    refine (eatKeyword_total .DESC).bind fun found => ?_
    cases found <;> exact .pure _

theorem OrderModifier.parse?_total : Total OrderModifier.parse? := by
  have hlook : Total (kind 0) := fun cursor => ⟨cursor.kind 0, cursor, rfl⟩
  have hadvance : Total Parse.advance := fun cursor => ⟨(), cursor.advanced, rfl⟩
  refine hlook.bind fun found => ?_
  split
  · exact hadvance.bind fun _ => OrderDirection.parse?_total.bind fun _ => .pure _
  · exact hadvance.bind fun _ => OrderDirection.parse?_total.bind fun _ => .pure _
  · exact OrderDirection.parse?_total.bind fun _ => .pure _

theorem FetchItem.parse_prompt :
    FetchItem.parse.Prompt dialect levels FetchItem.pieces (fun _ item => item.Valid dialect) := by
  intro cursor hat
  refine .look (get_run cursor) ?_
  split
  · refine .wrapped FetchItem.field ((Identifier.parse_prompt cursor hat).mono ?_)
    rintro tokens ⟨room, id, hlevels, hvalid, hspells⟩
    exact .whole ⟨room, .field id, hlevels, hvalid, hspells⟩
  · next direction harrow =>
    have hkind := arrow?_eq_some.mp harrow
    refine .bind (EdgePath.parse_reads hat hkind) ((EdgePath.parse_stops hat hkind).mono ?_) ?_
    · rintro tokens ⟨room, path, hlevels, hvalid, hspells⟩
      refine .whole ⟨room, .edge path none, hlevels, ⟨hvalid, by simp⟩, ?_⟩
      rwa [FetchItem.spells_edge, Option.elim, List.append_nil]
    rintro path tokens mid hpass ⟨hpath, hvalid⟩
    refine .wrapped _ (.onlyIf_eatKeyword fun has last hlast => ?_)
    refine (Identifier.parse_prompt last ((hat.passes hpass).passes hlast)).mono ?_
    rintro more ⟨room, name, hlevels, hname, hspells⟩
    refine .whole ⟨room, .edge path (some name), hlevels, ⟨hvalid, by simpa using hname⟩, ?_⟩
    refine FetchItem.spells_edge.mpr (hpath.append ?_)
    exact (spells_after rfl).mpr ⟨mid.current, more, rfl, has, hspells⟩

theorem IndexHint.spelled_noIndex {first second : Token}
    (hfirst : first.kind = .keyword .WITH) (hsecond : second.kind = .keyword .NOINDEX) :
    Spelled levels IndexHint.pieces (fun _ index => index.Valid dialect) [first, second] :=
  ⟨levels + 1, .noIndex, Nat.lt_succ_self levels, trivial, spells_words.mpr
    ((spells_keyword rfl).mpr ⟨first, _, rfl, hfirst,
      (spells_keyword rfl).mpr ⟨second, [], rfl, hsecond, rfl⟩⟩)⟩

theorem IndexHint.spelled_index {first second : Token} {tokens : List Token} {room : Nat}
    (names : List Identifier) (hroom : levels < room) (hfirst : first.kind = .keyword .WITH)
    (hsecond : second.kind = .keyword .INDEX)
    (hvalid : names ≠ [] ∧ ∀ id ∈ names, id.Valid dialect)
    (hspells : Spells (Piece.commaList (names.map Identifier.pieces)) tokens) :
    Spelled levels IndexHint.pieces (fun _ index => index.Valid dialect)
      (first :: second :: tokens) :=
  ⟨room, .index names, hroom, hvalid, (spells_after rfl).mpr ⟨first, _, rfl, hfirst,
    (spells_after rfl).mpr ⟨second, tokens, rfl, hsecond, hspells⟩⟩⟩

/-- A hint can go on behind WITH with either word. -/
theorem IndexHint.opens_with {first : Token} (hfirst : first.kind = .keyword .WITH) :
    Opens dialect (fun more => Spelled levels IndexHint.pieces
      (fun _ index => index.Valid dialect) ([first] ++ more)) [] :=
  .ending [.keyword .NOINDEX] (by decide) fun more hmore => by
    obtain ⟨second, _, rfl, hsecond, rfl⟩ := (spells_keyword rfl).mp hmore
    exact spelled_noIndex hfirst hsecond

theorem IndexHint.opens_index {first second : Token} (hfirst : first.kind = .keyword .WITH)
    (hsecond : second.kind = .keyword .INDEX) :
    Opens dialect (fun more => Spelled levels IndexHint.pieces
      (fun _ index => index.Valid dialect) ([first] ++ more)) [second] :=
  .ending [.word "a"] (by decide) fun more hmore =>
    spelled_index [.raw "a"] (Nat.lt_succ_self levels) hfirst hsecond
      ⟨by simp, List.forall_mem_singleton.mpr dialect.isFree_a⟩ hmore

theorem IndexHint.parse_prompt :
    IndexHint.parse.Prompt dialect levels IndexHint.pieces
      (fun _ index => index.Valid dialect) := by
  intro cursor hat
  refine .bind (keyword_reads .WITH cursor) (keyword_stops fun token hwith => ?_) ?_
  · exact .behind (opens_with hwith)
  rintro _ _ mid hpass ⟨rfl, hwith⟩
  have hat := hat.passes hpass
  refine .bind (eatKeyword_reads .NOINDEX mid) (eatKeyword_total .NOINDEX).stops ?_
  rintro found tokens mid' hpass (⟨rfl, rfl, -⟩ | ⟨rfl, rfl, -⟩)
  · exact .pure
  have hat := hat.passes hpass
  refine .bind (eatKeyword_reads .INDEX mid') (eatKeyword_total .INDEX).stops ?_
  rintro found tokens mid'' hpass (⟨rfl, rfl, hindex⟩ | ⟨rfl, rfl, -⟩)
  · refine .wrapped IndexHint.index ((Prompt.commaList Identifier.parse_sound
      Identifier.parse_prompt (fun _ _ hvalid _ => hvalid) mid'' (hat.passes hpass)).mono ?_)
    rintro more ⟨room, names, hlevels, hall, hspells⟩
    exact .whole (spelled_index names hlevels hwith hindex hall hspells)
  · refine .expected (opens_with hwith) fun choice hmem token htoken => ?_
    rcases List.mem_pair.mp hmem with rfl | rfl
    · exact .whole (spelled_noIndex hwith (Option.some.inj htoken).symm)
    · exact opens_index hwith (Option.some.inj htoken).symm

end Items

section Clauses

variable {dialect : Dialect} {levels : Nat} {cursor : Cursor} {expression : Parse Expr}
  (hsound : expression.Sound dialect levels Expr.pieces (Expr.Fits dialect levels))
  (h : expression.Prompt dialect levels Expr.pieces fun room e => e.Fits dialect room)

include h

theorem OrderTarget.parse_prompt :
    (OrderTarget.parse expression).Prompt dialect levels OrderTarget.pieces
      (fun room target => target.Fits dialect room) := by
  intro cursor hat
  refine .look (kind_run 0 cursor) (.look (kind_run 1 cursor) ?_)
  split
  · next hkind hnext =>
    refine .advance (by simp [hkind]) (isFlat_of_symbol? (by rw [hkind]; rfl)) fun mid hpass => ?_
    have hparen : mid.kind 0 = .symbol (.opening .paren) := by
      rw [hpass.advanced_eq, Cursor.kind, peek_advanced]
      exact hnext
    refine .wrapped _ (.within (· = []) (hat.passes hpass) hparen (fun _ _ => .pure rfl)
      (fun _ _ => .pure) ?_)
    rintro opening _ closing hopening rfl hclosing
    refine .whole ⟨levels + 1, .rand, Nat.lt_succ_self levels, trivial, ?_⟩
    refine (spells_keyword rfl).mpr ⟨cursor.current, _, rfl, hkind, ?_⟩
    exact spells_enclosed.mpr ⟨opening, [], closing, rfl, hopening, rfl, hclosing⟩
  · refine .wrapped OrderTarget.value ((h cursor hat).mono ?_)
    rintro tokens ⟨room, e, hlevels, hfits, hspells⟩
    exact .whole ⟨room, .value e, hlevels, hfits, hspells⟩

include hsound

theorem OrderItem.parse_prompt :
    (OrderItem.parse expression).Prompt dialect levels OrderItem.pieces
      (fun room item => item.target.Fits dialect room) := by
  intro cursor hat
  refine .bind (OrderTarget.parse_sound hsound cursor hat)
    ((OrderTarget.parse_prompt h cursor hat).mono ?_) fun target tokens mid _ _ =>
      Total.stops (OrderModifier.parse?_total.bind fun _ => .pure _)
  rintro tokens ⟨room, target, hlevels, hfits, hspells⟩
  refine .whole ⟨room, ⟨target, none⟩, hlevels, hfits, ?_⟩
  rwa [OrderItem.spells_mk, Option.elim, List.map_nil, List.append_nil]

namespace Clause

omit hsound h in
theorem skipping_stops {α β : Type} {inner : Parse α} {written : β → List Piece}
    {fits : Nat → β → Prop} (filler : Keyword)
    (h : ∀ mid : Cursor, mid.At dialect levels →
      inner.Stops dialect mid (Spelled levels written fits)) (hat : cursor.At dialect levels) :
    (skipping filler inner).Stops dialect cursor fun tokens => ∃ room value, levels < room ∧
      fits room value ∧ SpellsBehind filler (written value) tokens := by
  refine .bind (eatKeyword_reads filler cursor) (eatKeyword_total filler).stops ?_
  rintro found tokens mid hpass (⟨rfl, rfl, hkind⟩ | ⟨rfl, rfl, -⟩)
  · refine (h mid (hat.passes hpass)).mono ?_
    rintro more ⟨room, value, hlevels, hfits, hspells⟩
    exact .whole ⟨room, value, hlevels, hfits, .inr ⟨cursor.current, more, rfl, hkind, hspells⟩⟩
  · refine (h mid (hat.passes hpass)).mono ?_
    rintro more ⟨room, value, hlevels, hfits, hspells⟩
    exact .whole ⟨room, value, hlevels, hfits, .inl hspells⟩

/-- Nothing is wrong behind ALL, so it is the values to group by that can be completed. -/
theorem grouping_stops (hat : cursor.At dialect levels) :
    (Grouping.parse expression).Stops dialect cursor
      (Spelled levels (fun keys : List Expr => Piece.commaList (keys.map Expr.pieces))
        (fun room keys => keys ≠ [] ∧ ∀ key ∈ keys, key.Fits dialect room)) := by
  refine .bind (eatKeyword_reads .ALL cursor) (eatKeyword_total .ALL).stops ?_
  rintro found tokens mid hpass (⟨rfl, rfl, -⟩ | ⟨rfl, rfl, -⟩)
  · exact .pure
  · exact .wrapped Grouping.by (Prompt.commaList hsound h Expr.fits_room mid (hat.passes hpass))

omit hsound h in
/-- A clause that begins with a keyword of its own, whatever is read behind it. -/
theorem parse?_behind_stops {α β : Type} {k : Keyword} {parser : Parse α} {make : α → Option Clause}
    {spells : β → List Token → Prop} {fits : Nat → β → Prop} (clause : β → Clause)
    (hat : cursor.At dialect levels) (hkind : cursor.kind 0 = .keyword k)
    (h : ∀ mid : Cursor, mid.At dialect levels → parser.Stops dialect mid fun tokens =>
      ∃ room value, levels < room ∧ fits room value ∧ spells value tokens)
    (hlead : ∀ value, (clause value).lead = k)
    (hclause : ∀ room value back, fits room value → spells value back →
      (clause value).Fits dialect room ∧ Spells (clause value).pieces (cursor.current :: back)) :
    (advance >>= fun _ => parser >>= fun value => pure (make value)).Stops dialect cursor
      fun tokens => ∃ room clause, levels < room ∧ Clause.Fits dialect room clause ∧
        cursor.kind 0 = .keyword clause.lead ∧ Spells clause.pieces tokens := by
  refine .advance (by simp [hkind]) (isFlat_of_symbol? (by rw [hkind]; rfl)) fun mid hpass => ?_
  refine .wrapped make ((h mid (hat.passes hpass)).mono ?_)
  rintro tokens ⟨room, value, hlevels, hfits, hspells⟩
  obtain ⟨hfits', hpieces⟩ := hclause room value tokens hfits hspells
  exact .whole ⟨room, clause value, hlevels, hfits', by rw [hkind, hlead], hpieces⟩

/-- A fault in a clause is found behind its keyword, so what can be completed is a clause that
begins with the keyword that stands here. -/
theorem parse?_stops (hat : cursor.At dialect levels) :
    (parse? expression).Stops dialect cursor fun tokens =>
      ∃ room clause, levels < room ∧ Clause.Fits dialect room clause ∧
        cursor.kind 0 = .keyword clause.lead ∧ Spells clause.pieces tokens := by
  have hword (clause : Clause) : Total (advance >>= fun _ => pure (some clause) : Parse _) :=
    fun cursor => ⟨_, _, rfl⟩
  refine .look (kind_run 0 cursor) ?_
  split
  · next hkind =>
    refine parse?_behind_stops Clause.condition hat hkind h (fun _ => rfl) ?_
    exact fun _ _ back hfits hspells =>
      ⟨hfits, (spells_after rfl).mpr ⟨_, back, rfl, hkind, hspells⟩⟩
  · next hkind =>
    exact parse?_behind_stops Clause.split hat hkind FieldReference.parse_prompt (fun _ => rfl)
      fun _ _ back hfits hspells =>
        ⟨hfits, (spells_after rfl).mpr ⟨_, back, rfl, hkind, hspells⟩⟩
  · next hkind =>
    exact parse?_behind_stops Clause.omission hat hkind
      (Prompt.commaList OmitItem.parse_sound OmitItem.parse_prompt fun _ _ hvalid _ => hvalid)
      (fun _ => rfl) fun _ _ back hfits hspells =>
        ⟨hfits, (spells_after rfl).mpr ⟨_, back, rfl, hkind, hspells⟩⟩
  · next hkind =>
    refine parse?_behind_stops (fun keys => .group (.by keys)) hat hkind
      (fun mid hat => skipping_stops .BY (fun _ => grouping_stops hsound h) hat) (fun _ => rfl)
      fun room keys back hfits hspells => ⟨hfits, ?_⟩
    rw [Clause.pieces, Expr.itemPieces_eq, spells_after rfl]
    exact ⟨_, back, rfl, hkind, spells_by.mpr hspells⟩
  · next hkind =>
    exact parse?_behind_stops Clause.order hat hkind
      (fun mid hat => skipping_stops .BY (Prompt.commaList (OrderItem.parse_sound hsound)
        (OrderItem.parse_prompt hsound h) fun _ _ hfits hlevels =>
          hfits.mono (Nat.le_of_lt hlevels)) hat) (fun _ => rfl)
      fun _ _ back hfits hspells =>
        ⟨hfits, (spells_after rfl).mpr ⟨_, back, rfl, hkind, spells_by.mpr hspells⟩⟩
  · next hkind =>
    exact parse?_behind_stops Clause.limit hat hkind (fun mid hat => skipping_stops .BY h hat)
      (fun _ => rfl) fun _ _ back hfits hspells =>
        ⟨hfits, (spells_filled rfl).mpr ⟨_, back, rfl, hkind, hspells⟩⟩
  · next hkind =>
    exact parse?_behind_stops Clause.start hat hkind (fun mid hat => skipping_stops .AT h hat)
      (fun _ => rfl) fun _ _ back hfits hspells =>
        ⟨hfits, (spells_filled rfl).mpr ⟨_, back, rfl, hkind, hspells⟩⟩
  · next hkind =>
    exact parse?_behind_stops Clause.fetch hat hkind
      (Prompt.commaList FetchItem.parse_sound FetchItem.parse_prompt fun _ _ hvalid _ => hvalid)
      (fun _ => rfl) fun _ _ back hfits hspells =>
        ⟨hfits, (spells_after rfl).mpr ⟨_, back, rfl, hkind, hspells⟩⟩
  · next hkind =>
    exact parse?_behind_stops Clause.timeout hat hkind duration_prompt (fun _ => rfl)
      fun _ _ back _ hspells => ⟨trivial, (spells_after rfl).mpr ⟨_, back, rfl, hkind, hspells⟩⟩
  · exact (hword .parallel).stops
  · exact (hword .tempfiles).stops
  · exact Total.stops (Total.bind (fun cursor => ⟨_, _, rfl⟩) fun _ =>
      (eatKeyword_total .FULL).bind fun _ => .pure _)
  · next hkind =>
    refine .wrapped _ ((IndexHint.parse_prompt cursor hat).mono ?_)
    rintro tokens ⟨room, index, hlevels, hvalid, hspells⟩
    exact .whole ⟨room, .hint index, hlevels, hvalid, hkind, hspells⟩
  · exact .pure

end Clause
end Clauses
end EdgeQuery
