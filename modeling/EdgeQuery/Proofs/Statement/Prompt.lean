import EdgeQuery.Proofs.Clause.Prompt
import EdgeQuery.Proofs.Statement

/-!
Statements are given up at the first token that cannot stand where it stands. The end of a statement
that has been begun is as short as its kind allows: a SELECT needs a source, a CREATE needs data,
and an UPDATE needs nothing but a target.
-/

namespace EdgeQuery

open Cursor Parse Walk

theorem Identifier.valid_a (dialect : Dialect) : (Identifier.raw "a").Valid dialect :=
  dialect.isFree_a

theorem FieldReference.valid_a (dialect : Dialect) :
    (FieldReference.identifier (.raw "a")).Valid dialect :=
  dialect.isFree_a

section Parts

-- Parts that stand one behind the other, all of which fit the same number of levels: those that have
-- been read already are taken to what the last one needs.

variable {dialect : Dialect} {levels room : Nat} {token : Token}
  {front middle back behind rest : List Token}

theorem SelectItem.spelled_named {e : Expr} {id : Identifier} (hlevels : levels < room)
    (hfits : e.Fits dialect room) (hid : id.Valid dialect) (he : Spells e.pieces front)
    (has : token.kind = .keyword .AS) (hname : Spells id.pieces back) :
    Spelled levels SelectItem.pieces (fun room item => item.Fits dialect room)
      (front ++ token :: back) := by
  refine ⟨room, .value e (some id), hlevels, ⟨hfits, by simpa using hid, by simp⟩, ?_⟩
  refine spells_naming.mpr (he.append ?_)
  exact (spells_after rfl).mpr ⟨token, back, rfl, has, hname⟩

theorem Source.spelled (source : Source) (hlevels : levels < room)
    (hfrom : token.kind = .keyword .FROM)
    (htables : source.tables ≠ [] ∧ ∀ table ∈ source.tables, table.Fits dialect room)
    (hhint : ∀ index ∈ source.hint, index.Valid dialect)
    (honly : Spells (Piece.flag .ONLY source.only) front)
    (hlist : Spells (Piece.commaList (source.tables.map SourceTable.pieces)) back)
    (hrest : Spells (source.hint.elim [] IndexHint.pieces) rest) :
    Spelled levels Source.pieces (fun room source => source.Fits dialect room)
      (token :: (front ++ (back ++ rest))) := by
  obtain ⟨only, tables, hint⟩ := source
  refine ⟨room, ⟨only, tables, hint⟩, hlevels,
    ⟨htables.1, SourceTable.listFits_iff.mpr htables.2, hhint⟩, ?_⟩
  refine Source.spells_mk.mpr ((spells_keyword rfl).mpr ?_)
  exact ⟨token, _, rfl, hfrom, honly.append (hlist.append hrest)⟩

theorem Select.spelled (query : Select) (hlevels : levels < room)
    (hselect : token.kind = .keyword .SELECT) (hfits : query.Fits dialect room)
    (hprojection : Spells query.projection.pieces front)
    (hsource : Spells query.source.pieces back)
    (hrest : Spells (query.clauses.flatMap fun clause => .space :: clause.pieces) rest) :
    Spelled levels Select.pieces (fun room query => query.Fits dialect room)
      (token :: (front ++ (back ++ rest))) := by
  obtain ⟨projection, source, clauses⟩ := query
  refine ⟨room, ⟨projection, source, clauses⟩, hlevels, hfits, ?_⟩
  rw [Select.pieces_mk, spells_keyword rfl]
  exact ⟨token, _, rfl, hselect, hprojection.append (spells_space.mpr (hsource.append hrest))⟩

theorem Assignment.spelled (assignment : Assignment) (hlevels : levels < room)
    (hfits : assignment.Fits dialect room) (hfield : Spells assignment.field.pieces front)
    (hequal : token.kind = .symbol .equal) (hvalue : Spells assignment.value.pieces back) :
    Spelled levels Assignment.pieces (fun room assignment => assignment.Fits dialect room)
      (front ++ token :: back) := by
  refine ⟨room, assignment, hlevels, hfits, ?_⟩
  rw [Assignment.pieces, List.append_assoc]
  refine hfield.append (spells_space.mpr (spells_symbol.mpr ?_))
  exact ⟨token, back, rfl, hequal, spells_space.mpr hvalue⟩

theorem Create.spelled (query : Create) (hlevels : levels < room)
    (hcreate : token.kind = .keyword .CREATE) (hfits : query.Fits dialect room)
    (honly : Spells (Piece.flag .ONLY query.only) front)
    (htargets : Spells (Piece.commaList (query.targets.map Identifier.pieces)) middle)
    (hdata : Spells query.data.pieces back)
    (hrest : Spells (Output.tailPieces query.output query.timeout query.parallel) rest) :
    Spelled levels Create.pieces (fun room query => query.Fits dialect room)
      (token :: (front ++ (middle ++ (back ++ rest)))) := by
  refine ⟨room, query, hlevels, hfits, ?_⟩
  have hfront := (spells_targets rfl).mpr ((spells_keyword rfl).mpr
    ⟨token, _, rfl, hcreate, honly.append htargets⟩)
  have hall := (hfront.append (spells_space.mpr hdata)).append hrest
  simpa [Create.pieces] using hall

theorem Update.spelled (query : Update) (hlevels : levels < room)
    (hupdate : token.kind = .keyword .UPDATE) (hfits : query.Fits dialect room)
    (honly : Spells (Piece.flag .ONLY query.only) front)
    (htargets : Spells (Piece.commaList (query.targets.map Expr.pieces)) middle)
    (hdata : Spells (query.data.elim [] Data.pieces) back)
    (hcondition : Spells (query.condition.elim [] fun e => Piece.after .WHERE e.pieces) behind)
    (hrest : Spells (Output.tailPieces query.output query.timeout query.parallel) rest) :
    Spelled levels Update.pieces (fun room query => query.Fits dialect room)
      (token :: (front ++ (middle ++ (back ++ (behind ++ rest))))) := by
  refine ⟨room, query, hlevels, hfits, ?_⟩
  have hfront := (spells_targets rfl).mpr ((spells_keyword rfl).mpr
    ⟨token, _, rfl, hupdate, honly.append htargets⟩)
  have hall := ((hfront.append (spells_optional.mpr hdata)).append
    (spells_optional.mpr hcondition)).append hrest
  rw [← Expr.itemPieces_eq] at hall
  simpa [Update.pieces] using hall

/-- A query that completes what lacks one. -/
def Select.shortest : Select :=
  ⟨.fields none none, ⟨false, [.reference (.identifier (.raw "a"))], none⟩, []⟩

theorem Select.shortest_fits (levels : Nat) : Select.shortest.Fits dialect levels :=
  ⟨⟨by simp, by simp⟩, ⟨by simp, ⟨FieldReference.valid_a dialect, trivial⟩, by simp⟩, by simp,
    by simp⟩

/-- What is completed to a query that may stand between parentheses. -/
abbrev Subquery (dialect : Dialect) (levels : Nat) : List Token → Prop :=
  Spelled levels Select.pieces fun room query =>
    ∃ below, room = below + 1 ∧ query.Fits dialect below

theorem Subquery.shortest (hselect : token.kind = .keyword .SELECT)
    (hrest : Spells [.space, .keyword .FROM, .space, .word "a"] rest) :
    Subquery dialect levels (token :: rest) :=
  ⟨levels + 1, Select.shortest, Nat.lt_succ_self levels,
    ⟨levels, rfl, Select.shortest_fits levels⟩,
    (spells_keyword rfl).mpr ⟨token, rest, rfl, hselect, hrest⟩⟩

theorem SourceTable.spelled_subquery {opening closing : Token} {tokens : List Token}
    (hopening : opening.kind = .symbol (.opening .paren)) (hquery : Subquery dialect levels tokens)
    (hclosing : closing.kind = .symbol (.closing .paren)) :
    Spelled levels SourceTable.pieces (fun room table => table.Fits dialect room)
      (opening :: tokens ++ [closing]) := by
  obtain ⟨room, query, hlevels, hfits, hspells⟩ := hquery
  exact ⟨room, .subquery query, hlevels, hfits,
    spells_enclosed.mpr ⟨opening, tokens, closing, rfl, hopening, hspells, hclosing⟩⟩

end Parts

section Queries

variable {dialect : Dialect} {levels : Nat} {cursor : Cursor} {expression : Parse Expr}
  (hsound : expression.Sound dialect levels Expr.pieces (Expr.Fits dialect levels))
  (h : expression.Prompt dialect levels Expr.pieces fun room e => e.Fits dialect room)

include hsound h

/-- A value that is not named yet can be named, whether or not it has to be. -/
theorem SelectItem.parse_prompt :
    (SelectItem.parse expression).Prompt dialect levels SelectItem.pieces
      (fun room item => item.Fits dialect room) := by
  have hstar : IsFlat (.symbol .star) := isFlat_symbol (by simp) (by simp)
  intro cursor hat
  refine .bind (eatSymbol_reads hstar cursor) (eatSymbol_total .star).stops ?_
  rintro found tokens mid hpass (⟨rfl, rfl, -⟩ | ⟨rfl, rfl, -⟩)
  · exact .pure
  have hat := hat.passes hpass
  refine .bind (hsound mid hat) ((h mid hat).mono ?_) ?_
  · rintro tokens ⟨room, e, hlevels, hfits, he⟩
    refine .ending [.keyword .AS, .word "a"] (by decide) fun more hmore => ?_
    obtain ⟨token, last, rfl, has, hlast⟩ := (spells_keyword rfl).mp hmore
    exact SelectItem.spelled_named hlevels hfits (Identifier.valid_a dialect) he has hlast
  rintro e tokens mid' hpass ⟨he, hfits⟩
  have hat := hat.passes hpass
  have hfits' := hfits.mono (Nat.le_succ levels)
  refine .bind (Identifier.parseNaming_sound mid' hat)
    (.onlyIf_eatKeyword fun has last hlast => ?_) ?_
  · refine (Identifier.parse_prompt last (hat.passes hlast)).mono ?_
    rintro more ⟨room, id, hlevels, hid, hspells⟩
    exact .whole (SelectItem.spelled_named hlevels (hfits.mono (Nat.le_of_lt hlevels)) hid he has
      hspells)
  rintro name more later - ⟨hname, -⟩
  split
  · next hneeded =>
    obtain rfl : name = none := by
      rw [Bool.and_eq_true] at hneeded
      exact Option.isNone_iff_eq_none.mp hneeded.1
    obtain rfl : more = [] := hname
    refine .expected_one rfl fun token has => .ending [.word "a"] (by decide) fun last hlast => ?_
    exact SelectItem.spelled_named (Nat.lt_succ_self levels) hfits' (Identifier.valid_a dialect) he
      has hlast
  · exact .pure

/-- A star is a list of its own, so one that has been read can be left as it is. -/
theorem SelectList.parse_prompt :
    (SelectList.parse expression).Prompt dialect levels SelectList.pieces
      (fun room list => list.Fits dialect room) := by
  intro cursor hat
  have hlist : (Parse.commaList (SelectItem.parse expression) >>= fun list =>
      pure (SelectList.items list)).Stops dialect cursor
      (Spelled levels SelectList.pieces fun room list => list.Fits dialect room) := by
    refine .wrapped SelectList.items ((Prompt.commaList (SelectItem.parse_sound hsound)
      (SelectItem.parse_prompt hsound h)
      (fun _ _ hfits hlevels => hfits.mono (Nat.le_of_lt hlevels)) cursor hat).mono ?_)
    rintro tokens ⟨room, list, hlevels, ⟨hne, hfits⟩, hspells⟩
    by_cases hall : list = [.all]
    · subst hall
      exact .whole ⟨room, .wildcard, hlevels, trivial, hspells⟩
    · exact .whole ⟨room, .items list, hlevels, ⟨hne, hall, hfits⟩, hspells⟩
  refine .look (kind_run 0 cursor) (.look (kind_run 1 cursor) ?_)
  split
  · exact hlist
  · exact .of_ok rfl
  · exact hlist

theorem Projection.parse_prompt :
    (Projection.parse expression).Prompt dialect levels Projection.pieces
      (fun room projection => projection.Fits dialect room) := by
  intro cursor hat
  refine .bind (eatKeyword_reads .VALUE cursor) (eatKeyword_total .VALUE).stops ?_
  rintro found tokens mid hpass (⟨rfl, rfl, hkind⟩ | ⟨rfl, rfl, -⟩)
  · have hat := hat.passes hpass
    have hvalue {room : Nat} {e : Expr} (name : Option Identifier) {tokens : List Token}
        (hlevels : levels < room) (hfits : e.Fits dialect room)
        (hname : ∀ id ∈ name, id.Valid dialect)
        (hspells : Spells (e.pieces ++ Piece.naming name) tokens) :
        Spelled levels Projection.pieces (fun room projection => projection.Fits dialect room)
          (cursor.current :: tokens) :=
      ⟨room, .value e name, hlevels, ⟨hfits, hname⟩,
        spells_space.mpr ((spells_after rfl).mpr ⟨cursor.current, tokens, rfl, hkind, hspells⟩)⟩
    refine .bind (hsound mid hat) ((h mid hat).mono ?_) ?_
    · rintro tokens ⟨room, e, hlevels, hfits, he⟩
      refine .whole (hvalue none hlevels hfits (by simp) ?_)
      rwa [spells_naming, Option.elim, List.append_nil]
    rintro e tokens mid' hpass ⟨he, hfits⟩
    refine .wrapped _ (.onlyIf_eatKeyword fun has last hlast => ?_)
    refine (Identifier.parse_prompt last ((hat.passes hpass).passes hlast)).mono ?_
    rintro more ⟨room, id, hlevels, hid, hspells⟩
    refine .whole (hvalue (some id) hlevels (hfits.mono (Nat.le_of_lt hlevels))
      (by simpa using hid) (spells_naming.mpr (he.append ?_)))
    exact (spells_after rfl).mpr ⟨mid'.current, more, rfl, has, hspells⟩
  · have hat := hat.passes hpass
    refine .bind (Projection.list_sound hsound mid hat) ?_ ?_
    · obtain ⟨found, hfound⟩ := atSelectList_run mid
      refine .look hfound ?_
      cases found with
      | false => exact .of_ok rfl
      | true =>
        refine .wrapped some ((SelectList.parse_prompt hsound h mid hat).mono ?_)
        rintro tokens ⟨room, list, hlevels, hfits, hspells⟩
        refine .whole ⟨room, .fields (some list) none, hlevels, ⟨by simpa using hfits, by simp⟩, ?_⟩
        show Spells (Piece.optional ((some list).map SelectList.pieces) ++ []) tokens
        rw [List.append_nil]
        exact spells_optional.mpr hspells
    rintro list tokens mid' hpass ⟨hlist, hfits⟩
    refine .wrapped _ (.onlyIf_eatKeyword fun homit last hlast => ?_)
    refine (Prompt.commaList OmitItem.parse_sound OmitItem.parse_prompt (fun _ _ hvalid _ => hvalid)
      last ((hat.passes hpass).passes hlast)).mono ?_
    rintro more ⟨room, items, hlevels, hvalid, hspells⟩
    refine .whole ⟨room, .fields list (some items), hlevels,
      ⟨fun list hmem => (hfits list hmem).mono (Nat.le_of_lt hlevels), by simpa using hvalid⟩, ?_⟩
    rw [Projection.pieces]
    refine (spells_optional.mpr hlist).append (spells_optional.mpr ?_)
    exact (spells_after rfl).mpr ⟨mid'.current, more, rfl, homit, hspells⟩

variable {subquery : Parse Select} (hsubsound : subquery.Sound dialect levels Select.pieces
    fun query => ∃ below, levels = below + 1 ∧ query.Fits dialect below)
  (hsubquery : subquery.Prompt dialect levels Select.pieces
    fun room query => ∃ below, room = below + 1 ∧ query.Fits dialect below)

include hsubquery

omit hsound h in
/-- The query between parentheses. -/
theorem SourceTable.subquery_stops (hat : cursor.At dialect levels) :
    (do if ← atKeyword .SELECT then return SourceTable.subquery (← subquery)
        else expected [.keyword .SELECT] : Parse SourceTable).Stops dialect cursor
      (Subquery dialect levels) := by
  refine .look (atKeyword_run .SELECT cursor) ?_
  split
  · exact .wrapped SourceTable.subquery (hsubquery cursor hat)
  · refine .expected_one rfl fun token htoken => ?_
    exact .ending [.space, .keyword .FROM, .space, .word "a"] (by decide) fun more hmore =>
      .shortest htoken hmore

omit hsound h hsubquery in
/-- Where no source begins, a name would be one, as would a query or a list between brackets. -/
theorem SourceTable.expected_stops :
    (expected [.tableName, .symbol (.opening .paren), .symbol (.opening .bracket)] :
      Parse SourceTable).Stops dialect cursor
      (Spelled levels SourceTable.pieces fun room table => table.Fits dialect room) := by
  refine .expected (.ending [.word "a"] (by decide) fun more hmore => ?_) ?_
  · exact ⟨levels + 1, .reference (.identifier (.raw "a")), Nat.lt_succ_self levels,
      FieldReference.valid_a dialect, hmore⟩
  intro choice hmem token htoken
  simp only [List.mem_cons, List.not_mem_nil, or_false] at hmem
  rcases hmem with rfl | rfl | rfl
  · cases htoken
  · refine .ending ([.keyword .SELECT, .space, .keyword .FROM, .space, .word "a"] ++
      [.symbol (.closing .paren)]) (by decide) fun more hmore => ?_
    obtain ⟨front, back, rfl, hfront, hback⟩ := spells_append.mp hmore
    obtain ⟨closing, rfl, hclosing⟩ := spells_singleton.mp hback
    obtain ⟨first, rest, rfl, hfirst, hrest⟩ := (spells_keyword rfl).mp hfront
    exact SourceTable.spelled_subquery (Option.some.inj htoken).symm (.shortest hfirst hrest)
      hclosing
  · refine .ending [.symbol (.closing .bracket)] (by decide) fun more hmore => ?_
    refine ⟨levels + 1, .array [], Nat.lt_succ_self levels, by simp [SourceTable.Fits], ?_⟩
    exact spells_symbol.mpr ⟨token, more, rfl, (Option.some.inj htoken).symm, hmore⟩

include hsubsound

theorem SourceTable.parse_prompt :
    (SourceTable.parse expression subquery).Prompt dialect levels SourceTable.pieces
      (fun room table => table.Fits dialect room) := by
  have hreference {cursor : Cursor} (hat : cursor.At dialect levels) :
      (FieldReference.parse >>= fun field => pure (SourceTable.reference field)).Stops dialect
        cursor (Spelled levels SourceTable.pieces fun room table => table.Fits dialect room) := by
    refine .wrapped SourceTable.reference ((FieldReference.parse_prompt cursor hat).mono ?_)
    rintro tokens ⟨room, field, hlevels, hvalid, hspells⟩
    exact .whole ⟨room, .reference field, hlevels, hvalid, hspells⟩
  intro cursor hat
  refine .look (kind_run 0 cursor) ?_
  split
  · next hkind =>
    refine .within (Subquery dialect levels) hat hkind (fun mid hat => ?_)
      (fun mid hat => SourceTable.subquery_stops hsubquery hat)
      fun opening tokens closing hopening hquery hclosing =>
        .whole (SourceTable.spelled_subquery hopening hquery hclosing)
    refine (SourceTable.subquery_yields hsubsound mid hat).mono ?_
    rintro _ tokens later - ⟨query, rfl, hspells, below, hlevels, hfits⟩
    exact ⟨levels + 1, query, Nat.lt_succ_self levels, ⟨levels, rfl, hfits.mono (by omega)⟩,
      hspells⟩
  · next hkind =>
    refine .wrapped SourceTable.array ((Expr.parseItems_stops hsound h hat hkind).mono ?_)
    rintro tokens ⟨room, items, hlevels, hfits, hspells⟩
    exact .whole ⟨room, .array items, hlevels, hfits, hspells⟩
  · exact hreference hat
  · exact hreference hat
  · exact SourceTable.expected_stops

theorem Source.parse_prompt :
    (Source.parse expression subquery).Prompt dialect levels Source.pieces
      (fun room source => source.Fits dialect room) := by
  intro cursor hat
  refine .bind (keyword_reads .FROM cursor) (keyword_stops fun token hfrom => ?_) ?_
  · refine .ending [.word "a"] (by decide) fun more hmore => ?_
    have hall := Source.spelled Select.shortest.source (Nat.lt_succ_self levels) hfrom
      ⟨by simp [Select.shortest], List.forall_mem_singleton.mpr (FieldReference.valid_a dialect)⟩
      (by simp [Select.shortest]) rfl hmore rfl
    rwa [List.nil_append, List.append_nil] at hall
  rintro _ _ mid hpass ⟨rfl, hfrom⟩
  have hat := hat.passes hpass
  refine .bind (eatKeyword_yields (k := .ONLY) rfl mid hat) (eatKeyword_total .ONLY).stops ?_
  rintro only tokens mid' hpass honly
  have hat := hat.passes hpass
  refine .bind ((SourceTable.parse_sound hsound hsubsound).commaList mid' hat)
    ((Prompt.commaList (SourceTable.parse_sound hsound hsubsound)
      (SourceTable.parse_prompt hsound h hsubsound hsubquery)
      (fun _ _ hfits hlevels => hfits.mono (Nat.le_of_lt hlevels)) mid' hat).mono ?_) ?_
  · rintro more ⟨room, tables, hlevels, htables, hmore⟩
    have hall := Source.spelled ⟨only, tables, none⟩ hlevels hfrom htables (by simp) honly hmore rfl
    rw [List.append_nil] at hall
    exact .whole hall
  rintro tables more mid'' hpass ⟨hmore, hne, hfits⟩
  have hat := hat.passes hpass
  refine .wrapped _ (.look (atKeyword_run .WITH mid'') ?_)
  split
  · refine .wrapped some ((IndexHint.parse_prompt mid'' hat).mono ?_)
    rintro rest ⟨room, index, hlevels, hvalid, hspells⟩
    have hall := Source.spelled ⟨only, tables, some index⟩ hlevels hfrom
      ⟨hne, fun table hmem => (hfits table hmem).mono (Nat.le_of_lt hlevels)⟩
      (by simpa using hvalid) honly hmore hspells
    exact .whole hall
  · exact .pure

omit hsubsound hsubquery in
/-- A fault behind some clauses is found in one that has been begun. The first of them all begins
with the keyword that stands here. -/
theorem Clause.repeated_stops (hat : cursor.At dialect levels) :
    Stops dialect (repeated (Clause.parse? expression)) cursor fun tokens =>
      ∃ room, ∃ clauses : List Clause, levels < room ∧
        (∀ clause ∈ clauses, clause.Fits dialect room) ∧
        (cursor.kind 0 ≠ .keyword .WITH → ∀ first ∈ clauses.head?, first.lead ≠ .WITH) ∧
        Spells (clauses.flatMap fun clause => .space :: clause.pieces) tokens := by
  refine .repeated (Clause.parse?_sound hsound) hat ?_
  intro clauses front mid hpass hclauses hall
  refine (Clause.parse?_stops hsound h (hat.passes hpass)).mono ?_
  rintro back ⟨room, clause, hlevels, hfits, hlead, hspells⟩
  refine .whole ⟨room, clauses ++ [clause], hlevels, ?_, ?_, ?_⟩
  · exact List.forall_mem_append.mpr
      ⟨fun other hmem => (hall other hmem).mono (Nat.le_of_lt hlevels),
        List.forall_mem_singleton.mpr hfits⟩
  · intro hwith first hmem
    cases clauses with
    | nil =>
      obtain rfl := Option.some.inj hmem
      obtain rfl : front = [] := hclauses
      rwa [← hpass.eq_of_nil, hlead, Ne, TokenKind.keyword.injEq] at hwith
    | cons other clauses => exact Clause.lead_of_kind hpass hclauses hwith first hmem
  · rw [List.flatMap_append, List.flatMap_singleton]
    exact hclauses.append (spells_space.mpr hspells)

theorem Select.parseWith_prompt :
    (Select.parseWith expression subquery).Prompt dialect levels Select.pieces
      (fun room query => query.Fits dialect room) := by
  intro cursor hat
  refine .bind (keyword_reads .SELECT cursor) (keyword_stops fun token hselect => ?_) ?_
  · refine .ending [.keyword .FROM, .space, .word "a"] (by decide) fun more hmore => ?_
    have hfits : Select.shortest.Fits dialect (levels + 1) := Select.shortest_fits (levels + 1)
    have hall := Select.spelled Select.shortest (Nat.lt_succ_self levels) hselect hfits rfl hmore
      rfl
    rwa [List.nil_append, List.append_nil] at hall
  rintro _ _ mid hpass ⟨rfl, hselect⟩
  have hat := hat.passes hpass
  refine .bind (Projection.parse_sound hsound mid hat)
    ((Projection.parse_prompt hsound h mid hat).mono ?_) ?_
  · rintro tokens ⟨room, projection, hlevels, hfits, hspells⟩
    refine .ending [.keyword .FROM, .space, .word "a"] (by decide) fun more hmore => ?_
    have hall := Select.spelled ⟨projection, Select.shortest.source, []⟩ hlevels hselect
      ⟨hfits, (Select.shortest_fits room).2.1, by simp, by simp⟩ hspells hmore rfl
    rwa [List.append_nil] at hall
  rintro projection tokens mid' hpass ⟨hprojection, hfits⟩
  have hat := hat.passes hpass
  refine .bind (Source.parse_reads hsound hsubsound hat)
    ((Source.parse_prompt hsound h hsubsound hsubquery mid' hat).mono ?_) ?_
  · rintro more ⟨room, source, hlevels, hsource, hspells⟩
    have hall := Select.spelled ⟨projection, source, []⟩ hlevels hselect
      ⟨hfits.mono (Nat.le_of_lt hlevels), hsource, by simp, by simp⟩ hprojection hspells rfl
    rw [List.append_nil] at hall
    exact .whole hall
  rintro source more mid'' hpass ⟨hsource, hfits', hnone⟩
  have hat := hat.passes hpass
  refine .wrapped _ ((Clause.repeated_stops hsound h hat).mono ?_)
  rintro rest ⟨room, clauses, hlevels, hclauses, hfirst, hrest⟩
  -- The source would have read WITH, so the first clause begins with another word.
  have hwhole := Select.spelled ⟨projection, source, clauses⟩ hlevels hselect
    ⟨hfits.mono (Nat.le_of_lt hlevels), hfits'.mono (Nat.le_of_lt hlevels), hclauses,
      fun hhint => hfirst (hnone hhint)⟩ hprojection hsource hrest
  exact .whole hwhole

omit hsound hsubsound hsubquery in
theorem Assignment.parse_prompt :
    (Assignment.parse expression).Prompt dialect levels Assignment.pieces
      (fun room assignment => assignment.Fits dialect room) := by
  have hequal : IsFlat (.symbol .equal) := isFlat_symbol (by simp) (by simp)
  intro cursor hat
  refine .bind (FieldReference.parse_sound cursor hat)
    ((FieldReference.parse_prompt cursor hat).mono ?_) ?_
  · rintro tokens ⟨room, field, hlevels, hvalid, hfield⟩
    refine .ending [.symbol .equal, .number 0] (by decide) fun more hmore => ?_
    obtain ⟨token, last, rfl, hkind, hlast⟩ := spells_symbol.mp hmore
    exact Assignment.spelled ⟨field, .zero⟩ hlevels ⟨hvalid, Expr.zero_fits hlevels⟩ hfield hkind
      hlast
  rintro field tokens mid hpass ⟨hfield, hvalid⟩
  have hat := hat.passes hpass
  refine .bind (symbol_reads hequal mid) (symbol_stops fun token hkind => ?_) ?_
  · exact .ending [.number 0] (by decide) fun more hmore =>
      Assignment.spelled ⟨field, .zero⟩ (Nat.lt_succ_self levels)
        ⟨hvalid, Expr.zero_fits (Nat.lt_succ_self levels)⟩ hfield hkind hmore
  rintro _ _ mid' hpass ⟨rfl, hkind⟩
  refine .wrapped _ ((h mid' (hat.passes hpass)).mono ?_)
  rintro more ⟨room, e, hlevels, hfits, he⟩
  exact .whole (Assignment.spelled ⟨field, e⟩ hlevels ⟨hvalid, hfits⟩ hfield hkind he)

end Queries

theorem Select.parse_prompt (dialect : Dialect) (levels : Nat) :
    (Select.parse levels).Prompt dialect levels Select.pieces
      (fun room query => query.Fits dialect room) := by
  induction levels with
  | zero =>
    refine Select.parseWith_prompt (Expr.parseRanked_zero_sound dialect 0)
      (Expr.parseRanked_zero_prompt dialect 0) (fun _ _ => .tooDeep) fun _ _ =>
        .tooDeep (.ending Select.shortest.pieces (by decide) fun more hmore => ?_)
    exact ⟨1, Select.shortest, Nat.zero_lt_one, ⟨0, rfl, Select.shortest_fits 0⟩, hmore⟩
  | succ levels ih =>
    refine Select.parseWith_prompt (Expr.parseRanked_zero_sound dialect (levels + 1))
      (Expr.parseRanked_zero_prompt dialect (levels + 1)) ?_ ?_
    · exact Select.nested_sound (Select.parse_sound dialect levels)
    · intro cursor hat
      have hat' : At dialect levels { cursor with levels := levels } := ⟨hat.genuine, rfl⟩
      refine .nested ((ih _ hat').mono ?_)
      rintro tokens ⟨room, query, hlevels, hfits, hspells⟩
      exact .whole ⟨room + 1, query, Nat.succ_lt_succ hlevels, ⟨room, rfl, hfits⟩, hspells⟩

section Changes

variable {dialect : Dialect} {levels : Nat} {cursor : Cursor} {expression : Parse Expr}
  (hsound : expression.Sound dialect levels Expr.pieces (Expr.Fits dialect levels))
  (h : expression.Prompt dialect levels Expr.pieces fun room e => e.Fits dialect room)

include hsound h

theorem Output.parse_prompt :
    (Output.parse expression).Prompt dialect levels Output.body
      (fun room output => output.Fits dialect room) := by
  intro cursor hat
  refine .look (kind_run 0 cursor) ?_
  split
  · exact .of_ok rfl
  · exact .of_ok rfl
  · exact .of_ok rfl
  · refine .wrapped Output.fields ((SelectList.parse_prompt hsound h cursor hat).mono ?_)
    rintro tokens ⟨room, list, hlevels, hfits, hspells⟩
    exact .whole ⟨room, .fields list, hlevels, hfits, hspells⟩

/-- The end of a CREATE or UPDATE can be completed by what is being read of it. -/
theorem Output.tail_stops {α : Type} {make : Option Output → Option Duration → Bool → α}
    {goal : List Token → Prop} (hat : cursor.At dialect levels)
    (hgoal : ∀ room output timeout tokens, levels < room →
      (∀ o ∈ output, Output.Fits dialect room o) →
      Spells (Output.tailPieces output timeout false) tokens → goal tokens) :
    (Output.parse? expression >>= fun output => timeout? >>= fun timeout =>
      eatKeyword .PARALLEL >>= fun parallel => pure (make output timeout parallel)).Stops dialect
      cursor goal := by
  have htail {output : Option Output} {timeout : Option Duration} {tokens more : List Token}
      (houtput : Spells (output.elim [] fun o => Piece.after .RETURN o.body) tokens)
      (htimeout : Spells
        (timeout.elim [] fun value => Piece.after .TIMEOUT [.duration value]) more) :
      Spells (Output.tailPieces output timeout false) (tokens ++ more) := by
    rw [Output.tailPieces, Piece.flag, if_neg Bool.false_ne_true, List.append_nil]
    refine Spells.append (spells_optional.mpr ?_) (spells_optional.mpr htimeout)
    rw [show Output.pieces = fun output => Piece.after .RETURN output.body from
      funext Output.pieces_eq]
    exact houtput
  refine .bind ((Output.parse_sound hsound).onlyIf_eatKeyword (k := .RETURN) rfl cursor hat)
    (.onlyIf_eatKeyword fun hreturn last hlast => ?_) ?_
  · refine (Output.parse_prompt hsound h last (hat.passes hlast)).mono ?_
    rintro tokens ⟨room, output, hlevels, hfits, hspells⟩
    have hall := @htail (some output) none (cursor.current :: tokens) []
      ((spells_after rfl).mpr ⟨cursor.current, tokens, rfl, hreturn, hspells⟩) rfl
    rw [List.append_nil] at hall
    exact .whole (hgoal room (some output) none _ hlevels (by simpa using hfits) hall)
  rintro output tokens mid hpass ⟨houtput, hfits⟩
  have hat := hat.passes hpass
  refine .bind (duration_sound.onlyIf_eatKeyword (k := .TIMEOUT) rfl mid hat)
    (.onlyIf_eatKeyword fun htimeout last hlast => ?_) fun _ _ _ _ _ =>
      Total.stops ((eatKeyword_total .PARALLEL).bind fun _ => .pure _)
  refine (duration_prompt last (hat.passes hlast)).mono ?_
  rintro more ⟨room, timeout, hlevels, -, hspells⟩
  refine .whole (hgoal room output (some timeout) _ hlevels
    (fun o hmem => (hfits o hmem).mono (Nat.le_of_lt hlevels)) (htail houtput ?_))
  exact (spells_after rfl).mpr ⟨mid.current, more, rfl, htimeout, hspells⟩

omit hsound h in
/-- Data that begins with a keyword of its own, whatever is read behind it. -/
theorem Data.behind_stops {α β : Type} {k : Keyword} {parser : Parse α} {written : α → List Piece}
    {fits : Nat → α → Prop} {goal : List Token → Prop} {wrap : α → β} (make : α → Data)
    (hat : cursor.At dialect levels) (hkind : cursor.kind 0 = .keyword k)
    (hspelling : k.spellings = [[.keyword k]]) (hparser : parser.Prompt dialect levels written fits)
    (hpieces : ∀ value, (make value).pieces = Piece.after k (written value))
    (hgoal : ∀ room value tokens, levels < room → fits room value →
      Spells (make value).pieces tokens → goal tokens) :
    (advance >>= fun _ => parser >>= fun value => pure (wrap value)).Stops dialect cursor goal := by
  refine .advance (by simp [hkind]) (isFlat_of_symbol? (by rw [hkind]; rfl)) fun mid hpass => ?_
  refine .wrapped wrap ((hparser mid (hat.passes hpass)).mono ?_)
  rintro tokens ⟨room, value, hlevels, hfits, hspells⟩
  refine .whole (hgoal room value _ hlevels hfits ?_)
  rw [hpieces, spells_after hspelling]
  exact ⟨cursor.current, tokens, rfl, hkind, hspells⟩

theorem Data.parseEntries_prompt :
    (Expr.parseEntries expression).Prompt dialect levels Expr.objectPieces
      (fun room entries => ∀ entry ∈ entries, entry.1.Valid ∧ entry.2.Fits dialect room) := by
  intro cursor hat
  refine (Expr.parseEntries_prompt hsound h cursor hat).mono ?_
  rintro tokens ⟨room, entries, hlevels, hfits, hspells⟩
  refine .whole ⟨room, entries, hlevels, hfits, ?_⟩
  rwa [Expr.objectPieces, Expr.entryPieces_eq]

theorem Update.parsePatch_prompt :
    (Update.parsePatch expression).Prompt dialect levels Expr.arrayPieces
      (fun room items => ∀ item ∈ items, item.Fits dialect room) := by
  intro cursor hat
  refine .look (atSymbol_run _ cursor) ?_
  split
  · next hkind => exact Expr.parseItems_stops hsound h hat (atSymbol_iff.mp hkind)
  · refine .expected_one rfl fun token hkind => ?_
    refine .ending [.symbol (.closing .bracket)] (by decide) fun more hmore => ?_
    exact ⟨levels + 1, [], Nat.lt_succ_self levels, List.forall_mem_nil _,
      spells_symbol.mpr ⟨token, more, rfl, hkind, hmore⟩⟩

theorem Assignment.list_prompt :
    (Parse.commaList (Assignment.parse expression)).Prompt dialect levels
      (fun assignments => Piece.commaList (assignments.map Assignment.pieces))
      (fun room assignments => assignments ≠ [] ∧
        ∀ assignment ∈ assignments, assignment.Fits dialect room) :=
  Prompt.commaList (Assignment.parse_sound hsound) (Assignment.parse_prompt h)
    fun _ _ hfits hlevels => hfits.mono (Nat.le_of_lt hlevels)

omit hsound h in
/-- The keyword of some data is completed by the rest of the data. -/
theorem Data.opens_of_keyword {k : Keyword} {token : Token} {inner : List Piece} (data : Data)
    (hinner : inner.all Piece.isWritable = true) (hpieces : data.pieces = Piece.after k inner)
    (hspelling : k.spellings = [[.keyword k]])
    (hfits : data.Fits dialect (levels + 1) ∧ data.Creates) (hkind : token.kind = .keyword k) :
    Opens dialect (Spelled levels Data.pieces fun room data =>
      data.Fits dialect room ∧ data.Creates) [token] := by
  refine .ending inner hinner fun more hmore => ?_
  refine ⟨levels + 1, data, Nat.lt_succ_self levels, hfits, ?_⟩
  rw [hpieces]
  exact (spells_after hspelling).mpr ⟨token, more, rfl, hkind, hmore⟩

theorem Create.parseData_prompt :
    (Create.parseData expression).Prompt dialect levels Data.pieces
      (fun room data => data.Fits dialect room ∧ data.Creates) := by
  intro cursor hat
  refine .look (kind_run 0 cursor) ?_
  split
  · next hkind =>
    exact Data.behind_stops Data.content hat hkind rfl (Data.parseEntries_prompt hsound h)
      (fun _ => rfl) fun room entries _ hlevels hfits hspells =>
        ⟨room, .content entries, hlevels, ⟨hfits, trivial⟩, hspells⟩
  · next hkind =>
    exact Data.behind_stops Data.set hat hkind rfl (Assignment.list_prompt hsound h)
      (fun _ => rfl) fun room assignments _ hlevels hfits hspells =>
        ⟨room, .set assignments, hlevels, ⟨hfits, trivial⟩, hspells⟩
  · next hkind =>
    exact Data.behind_stops Data.unset hat hkind rfl (Assignment.list_prompt hsound h)
      (fun _ => rfl) fun room assignments _ hlevels hfits hspells =>
        ⟨room, .unset assignments, hlevels, ⟨hfits, trivial⟩, hspells⟩
  · -- An empty object or a single assignment will do.
    have hassignment : (⟨.identifier (.raw "a"), .zero⟩ : Assignment).Fits dialect (levels + 1) :=
      ⟨FieldReference.valid_a dialect, Expr.zero_fits (Nat.lt_succ_self levels)⟩
    have hassignments : [(⟨.identifier (.raw "a"), .zero⟩ : Assignment)] ≠ [] ∧
        ∀ assignment ∈ [(⟨.identifier (.raw "a"), .zero⟩ : Assignment)],
          assignment.Fits dialect (levels + 1) :=
      ⟨by simp, List.forall_mem_singleton.mpr hassignment⟩
    have hcontent (token : Token) (hkind : token.kind = .keyword .CONTENT) :
        Opens dialect (Spelled levels Data.pieces fun room data =>
          data.Fits dialect room ∧ data.Creates) [token] :=
      Data.opens_of_keyword (.content []) (by decide) rfl rfl ⟨List.forall_mem_nil _, trivial⟩ hkind
    obtain ⟨sample, hgenuine, hsample⟩ :=
      (Expectation.keyword .CONTENT).exists_token dialect rfl
    have hempty : Opens dialect _ ([] ++ [sample]) := hcontent sample hsample
    refine .expected (hempty.of_append (by simpa using hgenuine)) ?_
    intro choice hmem token hkind
    simp only [List.mem_cons, List.not_mem_nil, or_false] at hmem
    rcases hmem with rfl | rfl | rfl
    · exact hcontent token (Option.some.inj hkind).symm
    · exact Data.opens_of_keyword (.set _) (by decide) rfl rfl ⟨hassignments, trivial⟩
        (Option.some.inj hkind).symm
    · exact Data.opens_of_keyword (.unset _) (by decide) rfl rfl ⟨hassignments, trivial⟩
        (Option.some.inj hkind).symm

theorem Update.parseData?_stops (hat : cursor.At dialect levels) :
    (Update.parseData? expression).Stops dialect cursor
      (Spelled levels Data.pieces fun room data => data.Fits dialect room) := by
  refine .look (kind_run 0 cursor) ?_
  split
  · next hkind =>
    exact Data.behind_stops Data.content hat hkind rfl (Data.parseEntries_prompt hsound h)
      (fun _ => rfl) fun room entries _ hlevels hfits hspells =>
        ⟨room, .content entries, hlevels, hfits, hspells⟩
  · next hkind =>
    exact Data.behind_stops Data.merge hat hkind rfl (Data.parseEntries_prompt hsound h)
      (fun _ => rfl) fun room entries _ hlevels hfits hspells =>
        ⟨room, .merge entries, hlevels, hfits, hspells⟩
  · next hkind =>
    exact Data.behind_stops Data.patch hat hkind rfl (Update.parsePatch_prompt hsound h)
      (fun _ => rfl) fun room items _ hlevels hfits hspells =>
        ⟨room, .patch items, hlevels, hfits, hspells⟩
  · next hkind =>
    exact Data.behind_stops Data.set hat hkind rfl (Assignment.list_prompt hsound h)
      (fun _ => rfl) fun room assignments _ hlevels hfits hspells =>
        ⟨room, .set assignments, hlevels, hfits, hspells⟩
  · next hkind =>
    exact Data.behind_stops Data.unset hat hkind rfl (Assignment.list_prompt hsound h)
      (fun _ => rfl) fun room assignments _ hlevels hfits hspells =>
        ⟨room, .unset assignments, hlevels, hfits, hspells⟩
  · exact .pure

omit hsound h in
theorem Create.parseTarget_prompt :
    Create.parseTarget.Prompt dialect levels Identifier.pieces
      (fun _ target => Create.TargetValid dialect target) := by
  intro cursor hat
  refine .look (kind_run 0 cursor) ?_
  split
  · exact .of_ok rfl
  · refine (Identifier.parse_prompt cursor hat).mono ?_
    rintro tokens ⟨room, id, hlevels, hvalid, hspells⟩
    exact .whole ⟨room, id, hlevels, .inr hvalid, hspells⟩
  · refine .expected (.ending [.word "a"] (by decide) fun more hmore => ?_) ?_
    · exact ⟨levels + 1, .raw "a", Nat.lt_succ_self levels, .inr (Identifier.valid_a dialect),
        hmore⟩
    · intro choice hmem token hkind
      rcases List.mem_pair.mp hmem with rfl | rfl <;> cases hkind

theorem Create.parse_prompt :
    (Create.parse expression).Prompt dialect levels Create.pieces
      (fun room query => query.Fits dialect room) := by
  -- What completes a statement that lacks its data.
  have hbraces : (Data.content []).pieces.all Piece.isWritable = true := by decide
  intro cursor hat
  refine .bind (keyword_reads .CREATE cursor) (keyword_stops fun token hkind => ?_) ?_
  · refine .ending (Piece.word "a" :: (Data.content []).pieces) (by decide) fun more hmore => ?_
    obtain ⟨last, back, rfl, hlast, hback⟩ := spells_word.mp hmore
    have hwhole := Create.spelled ⟨false, [.raw "a"], .content [], none, none, false⟩
      (Nat.lt_succ_self levels) hkind
      ⟨by simp, List.forall_mem_singleton.mpr (.inr (Identifier.valid_a dialect)),
        List.forall_mem_nil _, trivial, by simp⟩ rfl
      (spells_word.mpr ⟨last, [], rfl, hlast, rfl⟩) hback rfl
    rwa [List.append_nil] at hwhole
  rintro _ _ mid hpass ⟨rfl, hkind⟩
  have hat := hat.passes hpass
  refine .bind (eatKeyword_yields (k := .ONLY) rfl mid hat) (eatKeyword_total .ONLY).stops ?_
  rintro only front mid' hpass honly
  have hat := hat.passes hpass
  refine .bind (Create.parseTarget_sound.commaList mid' hat)
    ((Prompt.commaList Create.parseTarget_sound Create.parseTarget_prompt
      (fun _ _ hvalid _ => hvalid) mid' hat).mono ?_) ?_
  · rintro middle ⟨room, targets, hlevels, htargets, hspells⟩
    refine .ending (Data.content []).pieces hbraces fun back hback => ?_
    have hwhole := Create.spelled ⟨only, targets, .content [], none, none, false⟩ hlevels hkind
      ⟨htargets.1, htargets.2, List.forall_mem_nil _, trivial, by simp⟩ honly hspells hback rfl
    rwa [List.append_nil] at hwhole
  rintro targets middle mid'' hpass ⟨htargets, hne, hvalid⟩
  have hat := hat.passes hpass
  refine .bind (Create.parseData_sound hsound mid'' hat)
    ((Create.parseData_prompt hsound h mid'' hat).mono ?_) ?_
  · rintro back ⟨room, data, hlevels, hfits, hspells⟩
    have hwhole := Create.spelled ⟨only, targets, data, none, none, false⟩ hlevels hkind
      ⟨hne, hvalid, hfits.1, hfits.2, by simp⟩ honly htargets hspells rfl
    rw [List.append_nil] at hwhole
    exact .whole hwhole
  rintro data back later hpass ⟨hdata, hfits, hcreates⟩
  refine Output.tail_stops hsound h (hat.passes hpass) ?_
  intro room output timeout rest hlevels ho hrest
  have hwhole := Create.spelled ⟨only, targets, data, output, timeout, false⟩ hlevels hkind
    ⟨hne, hvalid, hfits.mono (Nat.le_of_lt hlevels), hcreates, ho⟩ honly htargets hdata hrest
  exact hwhole

theorem Update.parse_prompt :
    (Update.parse expression).Prompt dialect levels Update.pieces
      (fun room query => query.Fits dialect room) := by
  intro cursor hat
  refine .bind (keyword_reads .UPDATE cursor) (keyword_stops fun token hkind => ?_) ?_
  · refine .ending [.number 0] (by decide) fun more hmore => ?_
    have hzero : Expr.zero.Fits dialect (levels + 1) := Expr.zero_fits (Nat.lt_succ_self levels)
    have hwhole := Update.spelled ⟨false, [.zero], none, none, none, none, false⟩
      (Nat.lt_succ_self levels) hkind
      ⟨by simp, List.forall_mem_singleton.mpr hzero, by simp, by simp, by simp⟩ rfl hmore rfl rfl
      rfl
    simp only [List.append_nil, List.nil_append] at hwhole
    exact hwhole
  rintro _ _ mid hpass ⟨rfl, hkind⟩
  have hat := hat.passes hpass
  refine .bind (eatKeyword_yields (k := .ONLY) rfl mid hat) (eatKeyword_total .ONLY).stops ?_
  rintro only front mid' hpass honly
  have hat := hat.passes hpass
  refine .bind (hsound.commaList mid' hat)
    ((Prompt.commaList hsound h Expr.fits_room mid' hat).mono ?_) ?_
  · rintro middle ⟨room, targets, hlevels, htargets, hspells⟩
    have hwhole := Update.spelled ⟨only, targets, none, none, none, none, false⟩ hlevels hkind
      ⟨htargets.1, htargets.2, by simp, by simp, by simp⟩ honly hspells rfl rfl rfl
    simp only [List.append_nil] at hwhole
    exact .whole hwhole
  rintro targets middle mid'' hpass ⟨htargets, hne, hvalid⟩
  have hat := hat.passes hpass
  have hvalid' {room : Nat} (hlevels : levels < room) :
      ∀ target ∈ targets, target.Fits dialect room :=
    fun target hmem => (hvalid target hmem).mono (Nat.le_of_lt hlevels)
  refine .bind (Update.parseData?_sound hsound mid'' hat)
    ((Update.parseData?_stops hsound h hat).mono ?_) ?_
  · rintro back ⟨room, data, hlevels, hfits, hspells⟩
    have hwhole := Update.spelled ⟨only, targets, some data, none, none, none, false⟩ hlevels hkind
      ⟨hne, hvalid' hlevels, by simpa using hfits, by simp, by simp⟩ honly htargets hspells rfl rfl
    simp only [List.append_nil] at hwhole
    exact .whole hwhole
  rintro data back afterData hpass ⟨hdata, hfits⟩
  have hat := hat.passes hpass
  have hfits' {room : Nat} (hlevels : levels < room) : ∀ d ∈ data, Data.Fits dialect room d :=
    fun d hmem => (hfits d hmem).mono (Nat.le_of_lt hlevels)
  refine .bind (hsound.onlyIf_eatKeyword (k := .WHERE) rfl afterData hat)
    (.onlyIf_eatKeyword fun hwhere last hlast => ?_) ?_
  · refine (h last (hat.passes hlast)).mono ?_
    rintro behind ⟨room, e, hlevels, he, hspells⟩
    have hwhole := Update.spelled ⟨only, targets, data, some e, none, none, false⟩ hlevels hkind
      ⟨hne, hvalid' hlevels, hfits' hlevels, by simpa using he, by simp⟩ honly htargets hdata
      ((spells_after rfl).mpr ⟨afterData.current, behind, rfl, hwhere, hspells⟩) rfl
    simp only [List.append_nil] at hwhole
    exact .whole hwhole
  rintro condition behind later hpass ⟨hcondition, hfits''⟩
  refine Output.tail_stops hsound h (hat.passes hpass) ?_
  intro room output timeout rest hlevels ho hrest
  have hwhole := Update.spelled ⟨only, targets, data, condition, output, timeout, false⟩ hlevels
    hkind ⟨hne, hvalid' hlevels, hfits' hlevels,
      fun e hmem => (hfits'' e hmem).mono (Nat.le_of_lt hlevels), ho⟩ honly htargets hdata
    hcondition hrest
  exact hwhole

end Changes

/-- Statements are given up at the first token that cannot stand where it stands. -/
theorem Statement.parseAt_prompt (dialect : Dialect) (levels : Nat) :
    (Statement.parseAt levels).Prompt dialect levels Statement.pieces
      (fun room statement => statement.Fits dialect room) := by
  have hsound := Expr.parseRanked_zero_sound dialect levels
  have h := Expr.parseRanked_zero_prompt dialect levels
  intro cursor hat
  refine .look (kind_run 0 cursor) ?_
  split
  · refine .wrapped Statement.select ((Select.parse_prompt dialect levels cursor hat).mono ?_)
    rintro tokens ⟨room, query, hlevels, hfits, hspells⟩
    exact .whole ⟨room, .select query, hlevels, hfits, hspells⟩
  · refine .wrapped Statement.create ((Create.parse_prompt hsound h cursor hat).mono ?_)
    rintro tokens ⟨room, query, hlevels, hfits, hspells⟩
    exact .whole ⟨room, .create query, hlevels, hfits, hspells⟩
  · refine .wrapped Statement.update ((Update.parse_prompt hsound h cursor hat).mono ?_)
    rintro tokens ⟨room, query, hlevels, hfits, hspells⟩
    exact .whole ⟨room, .update query, hlevels, hfits, hspells⟩
  · refine .wrapped Statement.value ((h cursor hat).mono ?_)
    rintro tokens ⟨room, e, hlevels, hfits, hspells⟩
    exact .whole ⟨room, .value e, hlevels, hfits, hspells⟩

end EdgeQuery
