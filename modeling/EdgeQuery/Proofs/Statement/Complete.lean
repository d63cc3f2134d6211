import EdgeQuery.Proofs.Clause.Complete
import EdgeQuery.Proofs.Statement

/-!
Statements are read back from what is written for them. Each optional part begins with a keyword of
its own, by which it is told from the parts behind it.
-/

namespace EdgeQuery

open Cursor Parse Walk

namespace Cursor

variable {dialect : Dialect} {levels : Nat} {cursor later : Cursor} {ks : List Keyword}
  {k : Keyword}

theorem closes_of_keyword (h : cursor.kind 0 = .keyword k) (hk : k ∈ ks) :
    (cursor.kind 0).closes ks = true := by
  rw [h]
  exact decide_eq_true hk

/-- An optional part stands here, or what follows it. -/
theorem closes_of_optional {α : Type} {written : α → List Piece} {value : Option α}
    (hfaces : cursor.Faces dialect levels (value.elim [] written) later)
    (hwritten : ∀ v, ∃ k inner, written v = .keyword k :: inner ∧ k ∈ ks ∧
      ∀ spelling ∈ k.spellings, spelling.head? = some (.keyword k))
    (hlater : (later.kind 0).closes ks = true) : (cursor.kind 0).closes ks = true := by
  cases value with
  | none =>
    obtain rfl := hfaces.eq_of_nil
    exact hlater
  | some v =>
    obtain ⟨k, inner, hv, hk, hhead⟩ := hwritten v
    have hfaces : cursor.Faces dialect levels (written v) later := hfaces
    rw [hv] at hfaces
    exact closes_of_keyword (hfaces.lead hhead) hk

theorem closes_of_flag {flag : Bool} (hspelling : k.spellings = [[.keyword k]])
    (hfaces : cursor.Faces dialect levels (Piece.flag k flag) later) (hk : k ∈ ks)
    (hlater : (later.kind 0).closes ks = true) : (cursor.kind 0).closes ks = true := by
  cases flag with
  | false =>
    obtain rfl := hfaces.eq_of_nil
    exact hlater
  | true =>
    have hfaces : cursor.Faces dialect levels [.space, .keyword k] later := hfaces
    exact closes_of_keyword (hfaces.space.keyword hspelling).1 hk

/-- What may stand behind a list of what is selected. -/
def EndsSelected (cursor : Cursor) : Prop :=
  (cursor.kind 0).endsExpr = true ∧ cursor.kind 0 ≠ .keyword .AS

theorem EndsSelected.of_closes (h : (cursor.kind 0).closes ks = true)
    (hks : ∀ k ∈ ks, BinaryOp.ofToken? (.keyword k) = none) (has : .AS ∉ ks) :
    cursor.EndsSelected :=
  ⟨TokenKind.endsExpr_of_closes h hks, TokenKind.ne_keyword_of_closes h has⟩

end Cursor

/-- ONLY is read back in front of a list that does not begin with it. -/
theorem Parse.only_complete {α : Type} {dialect : Dialect} {levels : Nat} {cursor later : Cursor}
    {item : Parse α} {written : α → List Piece} {valid : List α → Prop} {stop : Cursor → Prop}
    {only : Bool} {values : List α}
    (hlist : (Parse.commaList item).Completes dialect levels
      (fun values => Piece.commaList (values.map written)) valid stop)
    (hbegins : ∀ {cursor later : Cursor} {value : α}, item cursor = .ok value later →
      cursor.kind 0 ≠ .keyword .ONLY)
    (hfaces : cursor.Faces dialect levels
      (Piece.flag .ONLY only ++ Piece.commaList (values.map written)) later)
    (hvalid : valid values) (hlater : stop later) :
    ∃ mid, eatKeyword .ONLY cursor = .ok only mid ∧
      Parse.commaList item mid = .ok values later := by
  obtain ⟨mid, hflag, hvalues⟩ := hfaces.split
  have hrun := hlist.run hvalues hvalid hlater
  obtain ⟨first, next, hfirst⟩ := exists_first hrun
  exact ⟨mid, (eatKeyword_completes rfl).run hflag trivial (hbegins hfirst), hrun⟩

theorem Select.lead_of_faces {dialect : Dialect} {levels : Nat} {cursor later : Cursor}
    {query : Select} (hfaces : cursor.Faces dialect levels query.pieces later) :
    cursor.kind 0 = .keyword .SELECT := by
  obtain ⟨-, tokens, hpass, hspells⟩ := hfaces
  obtain ⟨token, back, rfl, htoken⟩ := query.exists_lead hspells
  exact hpass.kind_eq.trans htoken

section Queries

variable {dialect : Dialect} {levels : Nat} {cursor later : Cursor} {expression : Parse Expr}
  (h : expression.Completes dialect levels Expr.pieces (Expr.Fits dialect levels) (EndsRanked 0))
  (hbegins : ∀ (cursor later : Cursor) (e : Expr), expression cursor = .ok e later →
    (cursor.kind 0).startsExpr = true)

include h hbegins

omit hbegins in
/-- A value is read back with the name behind it. -/
theorem named_complete {e : Expr} {name : Option Identifier}
    (hfaces : cursor.Faces dialect levels (e.pieces ++ Piece.naming name) later)
    (hfits : e.Fits dialect levels) (hvalid : ∀ id ∈ name, id.Valid dialect)
    (hlater : later.EndsSelected) :
    ∃ mid, expression cursor = .ok e mid ∧ Identifier.parseNaming mid = .ok name later := by
  obtain ⟨mid, hfront, hback⟩ := (hfaces.mono fun _ => spells_naming.mp).split
  have hmid : (mid.kind 0).endsExpr = true := by
    cases name with
    | none =>
      obtain rfl := hback.eq_of_nil
      exact hlater.1
    | some id =>
      rw [(hback.after rfl).1]
      rfl
  exact ⟨mid, h.run hfront hfits (.of_endsExpr hmid),
    Identifier.parseNaming_completes.run hback hvalid
      ⟨(endsReference_of_endsExpr hlater.1).1, hlater.2⟩⟩

theorem SelectItem.parse_completes :
    (SelectItem.parse expression).Completes dialect levels SelectItem.pieces
      (SelectItem.Fits dialect levels) EndsSelected := by
  refine .of_faces fun item cursor later hfaces hfits hlater => ?_
  cases item with
  | all =>
    obtain ⟨hkind, hnothing⟩ := hfaces.symbol
    rw [SelectItem.parse_star hkind, hnothing.eq_of_nil]
  | value e name =>
    obtain ⟨hfits, hvalid, hneeded⟩ := hfits
    obtain ⟨mid, hrun, hname⟩ := named_complete h hfaces hfits hvalid hlater
    have hstar : cursor.kind 0 ≠ .symbol .star := by
      have hstarts := hbegins _ _ _ hrun
      intro hkind
      rw [hkind] at hstarts
      cases hstarts
    have hgiven : (name.isNone && !e.isReferenceOrCall) = false := by
      cases name with
      | none => simp [hneeded rfl]
      | some id => rfl
    rw [SelectItem.parse, bind_of_ok (eatSymbol_false hstar)]
    show (expression >>= fun value => Identifier.parseNaming >>= fun name =>
      if (name.isNone && !value.isReferenceOrCall) = true then expected [.keyword .AS]
      else pure (SelectItem.value value name)) cursor = _
    rw [bind_of_ok hrun, bind_of_ok hname, hgiven]
    rfl

omit h in
/-- Nothing that is selected begins with a keyword. -/
theorem SelectItem.parse_begins {item : SelectItem}
    (hok : SelectItem.parse expression cursor = .ok item later) (k : Keyword) :
    cursor.kind 0 ≠ .keyword k := by
  intro hkind
  rw [SelectItem.parse, bind_of_ok (eatSymbol_false (s := .star) (by simp [hkind]))] at hok
  cases hrun : expression cursor with
  | ok e mid => exact TokenKind.ne_keyword_of_startsExpr (hbegins _ _ _ hrun) k hkind
  | error error mid =>
    have hfails : (expression >>= fun value => Identifier.parseNaming >>= fun name =>
        if (name.isNone && !value.isReferenceOrCall) = true then expected [.keyword .AS]
        else pure (SelectItem.value value name)) cursor = .error error mid :=
      bind_of_error hrun
    cases hfails.symm.trans hok

omit h hbegins in
/-- If a star is not all that is selected, a comma stands behind it. -/
theorem SelectList.comma_behind_star {list : List SelectItem}
    (hrun : Parse.commaList (SelectItem.parse expression) cursor = .ok list later)
    (hlist : list ≠ [.all]) (hstar : cursor.kind 0 = .symbol .star) :
    cursor.kind 1 = .symbol .comma := by
  by_contra hnext
  rw [Cursor.kind, ← peek_advanced] at hnext
  have hnone : repeated (onlyIf (eatSymbol .comma) (SelectItem.parse expression))
      cursor.advanced = .ok [] cursor.advanced :=
    repeated_none (onlyIf_false (eatSymbol_false hnext))
  rw [Parse.commaList, bind_of_ok (SelectItem.parse_star hstar)] at hrun
  have hrun : (repeated (onlyIf (eatSymbol .comma) (SelectItem.parse expression)) >>=
    fun more => pure (SelectItem.all :: more)) cursor.advanced = .ok list later := hrun
  rw [bind_of_ok hnone] at hrun
  cases hrun
  exact hlist rfl

theorem SelectList.parse_completes :
    (SelectList.parse expression).Completes dialect levels SelectList.pieces
      (SelectList.Fits dialect levels)
      (fun later => later.EndsSelected ∧ later.kind 0 ≠ .symbol .comma) := by
  refine .of_faces fun list cursor later hfaces hfits hlater => ?_
  rw [SelectList.parse, bind_of_ok (kind_run 0 cursor), bind_of_ok (kind_run 1 cursor)]
  cases list with
  | wildcard =>
    obtain ⟨hstar, hnothing⟩ := hfaces.symbol
    obtain rfl := hnothing.eq_of_nil
    have hnext : cursor.kind 1 ≠ .symbol .comma := by
      rw [Cursor.kind, ← peek_advanced]
      exact hlater.2
    rw [hstar]
    cases hkind : cursor.kind 1 with
    | symbol s =>
      cases s with
      | comma => exact absurd hkind hnext
      | _ => rfl
    | _ => rfl
  | items list =>
    obtain ⟨hne, hall, hitems⟩ := hfits
    have hcommas := (SelectItem.parse_completes h hbegins).commaList
      (fun later => later.EndsSelected ∧ later.kind 0 ≠ .symbol .comma)
      (fun cursor hcursor => ⟨by rw [hcursor]; rfl, by simp [hcursor]⟩) (fun _ => id)
    have hrun := hcommas.run hfaces ⟨hne, hitems⟩ hlater
    have hlist : (Parse.commaList (SelectItem.parse expression) >>= fun list =>
        pure (SelectList.items list)) cursor = .ok (.items list) later :=
      bind_pure_of_ok _ hrun
    by_cases hstar : cursor.kind 0 = .symbol .star
    · rw [hstar, SelectList.comma_behind_star hrun hall hstar]
      exact hlist
    · cases hkind : cursor.kind 0 with
      | symbol s =>
        cases s with
        | star => exact absurd hkind hstar
        | _ => exact hlist
      | _ => exact hlist

omit h in
theorem SelectList.parse_begins {list : SelectList}
    (hok : SelectList.parse expression cursor = .ok list later) (k : Keyword) :
    cursor.kind 0 ≠ .keyword k := by
  intro hkind
  rw [SelectList.parse, bind_of_ok (kind_run 0 cursor), bind_of_ok (kind_run 1 cursor), hkind] at hok
  have hok : (Parse.commaList (SelectItem.parse expression) >>= fun list =>
    pure (SelectList.items list)) cursor = .ok list later := hok
  cases hrun : Parse.commaList (SelectItem.parse expression) cursor with
  | ok items mid =>
    obtain ⟨first, mid, hfirst⟩ := exists_first hrun
    exact SelectItem.parse_begins hbegins hfirst k hkind
  | error error mid =>
    rw [bind_of_error hrun] at hok
    cases hok

omit h hbegins in
theorem atSelectList_true (hfrom : cursor.kind 0 ≠ .keyword .FROM)
    (homit : cursor.kind 0 ≠ .keyword .OMIT) : atSelectList cursor = .ok true cursor := by
  rw [atSelectList, bind_of_ok (atKeyword_run .FROM cursor),
    Bool.eq_false_iff.mpr (mt atKeyword_iff.mp hfrom)]
  show (atKeyword .OMIT >>= fun found => pure (!false && !found)) cursor = _
  rw [bind_of_ok (atKeyword_run .OMIT cursor), Bool.eq_false_iff.mpr (mt atKeyword_iff.mp homit)]
  rfl

omit h hbegins in
theorem atSelectList_false
    (hkind : cursor.kind 0 = .keyword .FROM ∨ cursor.kind 0 = .keyword .OMIT) :
    atSelectList cursor = .ok false cursor := by
  rw [atSelectList, bind_of_ok (atKeyword_run .FROM cursor)]
  show (atKeyword .OMIT >>= fun found => pure (!cursor.atKeyword .FROM && !found)) cursor = _
  rw [bind_of_ok (atKeyword_run .OMIT cursor)]
  rcases hkind with hkind | hkind
  · rw [atKeyword_iff.mpr hkind]
    rfl
  · rw [atKeyword_iff.mpr hkind]
    cases cursor.atKeyword .FROM <;> rfl

/-- What is selected is read back, or left out, in front of what is left out of it and of FROM. -/
theorem Projection.list_complete {list : Option SelectList}
    (hfaces : cursor.Faces dialect levels (list.elim [] SelectList.pieces) later)
    (hfits : ∀ items ∈ list, items.Fits dialect levels)
    (hlater : later.kind 0 = .keyword .FROM ∨ later.kind 0 = .keyword .OMIT) :
    cursor.kind 0 ≠ .keyword .VALUE ∧
      onlyIf atSelectList (SelectList.parse expression) cursor = .ok list later := by
  cases list with
  | none =>
    obtain rfl := hfaces.eq_of_nil
    refine ⟨?_, onlyIf_false (atSelectList_false hlater)⟩
    rcases hlater with hkind | hkind <;> simp [hkind]
  | some items =>
    have hends : later.EndsSelected ∧ later.kind 0 ≠ .symbol .comma := by
      rcases hlater with hkind | hkind <;>
        exact ⟨⟨by rw [hkind]; rfl, by simp [hkind]⟩, by simp [hkind]⟩
    have hrun := (SelectList.parse_completes h hbegins).run hfaces (hfits items rfl) hends
    have hnot := SelectList.parse_begins hbegins hrun
    exact ⟨hnot .VALUE, onlyIf_true (atSelectList_true (hnot .FROM) (hnot .OMIT)) hrun⟩

theorem Projection.parse_completes :
    (Projection.parse expression).Completes dialect levels Projection.pieces
      (Projection.Fits dialect levels) (fun later => later.kind 0 = .keyword .FROM) := by
  refine .of_faces fun projection cursor later hfaces hfits hlater => ?_
  cases projection with
  | value e name =>
    have hselected : later.EndsSelected := ⟨by rw [hlater]; rfl, by simp [hlater]⟩
    obtain ⟨hkind, hbehind⟩ := hfaces.space.after rfl
    obtain ⟨mid, hrun, hname⟩ := named_complete h hbehind hfits.1 hfits.2 hselected
    rw [Projection.parse, bind_of_ok (eatKeyword_true hkind)]
    show (expression >>= fun value => Identifier.parseNaming >>= fun name =>
      pure (Projection.value value name)) cursor.advanced = _
    rw [bind_of_ok hrun, bind_of_ok hname]
    rfl
  | fields list omitted =>
    obtain ⟨mid, hfront, hback⟩ := hfaces.split
    have hfront := hfront.optional
    have hback := hback.optional
    have hmid : mid.kind 0 = .keyword .FROM ∨ mid.kind 0 = .keyword .OMIT := by
      cases omitted with
      | none =>
        obtain rfl := hback.eq_of_nil
        exact .inl hlater
      | some items => exact .inr (hback.after rfl).1
    obtain ⟨hvalue, hlist⟩ := Projection.list_complete h hbegins hfront hfits.1 hmid
    have homitted : (onlyIf (eatKeyword .OMIT) (Parse.commaList OmitItem.parse)).Completes dialect
        levels _ _ (fun cursor => cursor.kind 0 = .keyword .FROM) :=
      OmitItem.list_completes.onlyIf_eatKeyword rfl fun cursor hcursor =>
        ⟨⟨by rw [hcursor]; rfl, by simp [hcursor]⟩, by simp [hcursor]⟩
    rw [Projection.parse, bind_of_ok (eatKeyword_false hvalue)]
    show (onlyIf atSelectList (SelectList.parse expression) >>= fun list =>
      onlyIf (eatKeyword .OMIT) (Parse.commaList OmitItem.parse) >>= fun omitted =>
        pure (Projection.fields list omitted)) cursor = _
    rw [bind_of_ok hlist, bind_of_ok (homitted.run hback hfits.2 hlater)]
    rfl

section Sources

variable {subquery : Parse Select}
  (hsubquery : subquery.Completes dialect levels Select.pieces
    (fun query => ∃ below, levels = below + 1 ∧ query.Fits dialect below)
    (fun later => (later.kind 0).closes [] = true))

include hsubquery

theorem SourceTable.parse_completes :
    (SourceTable.parse expression subquery).Completes dialect levels SourceTable.pieces
      (SourceTable.Fits dialect levels) (fun later => (later.kind 0).endsExpr = true) := by
  refine .of_faces fun table cursor later hfaces hfits hlater => ?_
  cases table with
  | reference field =>
    have hrun := FieldReference.parse_completes.run hfaces hfits (endsReference_of_endsExpr hlater)
    have htable : (FieldReference.parse >>= fun field => pure (SourceTable.reference field)) cursor =
        .ok (.reference field) later :=
      bind_pure_of_ok _ hrun
    rw [SourceTable.parse, bind_of_ok (kind_run 0 cursor)]
    rcases FieldReference.parse_starts hrun with ⟨direction, hkind⟩ | ⟨name, hkind, -⟩
    · rw [hkind]
      exact htable
    · rw [hkind]
      exact htable
  | subquery query =>
    have hinner : Completes dialect levels
        (do if ← atKeyword .SELECT then return SourceTable.subquery (← subquery)
            else expected [.keyword .SELECT])
        (fun _ => query.pieces)
        (fun table => table = .subquery query ∧ table.Fits dialect levels)
        (fun later => (later.kind 0).closes [] = true) := by
      refine .of_faces fun table cursor later hfaces hfits hlater => ?_
      obtain ⟨rfl, hfits⟩ := hfits
      have hkind := Select.lead_of_faces hfaces
      rw [bind_of_ok (atKeyword_run .SELECT cursor), atKeyword_iff.mpr hkind]
      exact bind_pure_of_ok SourceTable.subquery (hsubquery.run hfaces hfits hlater)
    have hwithin := hinner.within .paren fun cursor hcursor => by rw [hcursor]; rfl
    have htable : SourceTable.subquery query = .subquery query ∧
      (SourceTable.subquery query).Fits dialect levels := ⟨rfl, hfits⟩
    rw [SourceTable.parse, bind_of_ok (kind_run 0 cursor), hfaces.opening]
    exact hwithin.run hfaces htable trivial
  | array items =>
    have hfaces : cursor.Faces dialect levels (Expr.arrayPieces items) later := hfaces
    rw [Expr.arrayPieces, Expr.itemPieces_eq] at hfaces
    have hrun := (Expr.parseList_completes h hbegins .bracket).run hfaces hfits trivial
    rw [SourceTable.parse, bind_of_ok (kind_run 0 cursor), hfaces.opening]
    exact bind_pure_of_ok SourceTable.array hrun

omit h hbegins hsubquery in
/-- No source begins with a keyword. -/
theorem SourceTable.parse_begins {table : SourceTable}
    (hok : SourceTable.parse expression subquery cursor = .ok table later) (k : Keyword) :
    cursor.kind 0 ≠ .keyword k := by
  intro hkind
  rw [SourceTable.parse, bind_of_ok (kind_run 0 cursor), hkind] at hok
  cases hok

omit h hbegins hsubquery in
/-- What is said about indexes is read back behind the sources, or left out. -/
theorem Source.hint_complete {hint : Option IndexHint}
    (hfaces : cursor.Faces dialect levels (hint.elim [] IndexHint.pieces) later)
    (hvalid : ∀ index ∈ hint, index.Valid dialect)
    (hlater : (later.kind 0).closes Clause.leads = true)
    (hnone : hint = none → later.kind 0 ≠ .keyword .WITH) :
    (cursor.kind 0).closes Clause.leads = true ∧
      onlyIf (atKeyword .WITH) IndexHint.parse cursor = .ok hint later := by
  cases hint with
  | none =>
    obtain rfl := hfaces.eq_of_nil
    have hfound : atKeyword .WITH later = .ok false later := by
      rw [atKeyword_run, Bool.eq_false_iff.mpr (mt atKeyword_iff.mp (hnone rfl))]
    exact ⟨hlater, onlyIf_false hfound⟩
  | some index =>
    have hkind := IndexHint.lead_of_faces hfaces
    have hfound : atKeyword .WITH cursor = .ok true cursor := by
      rw [atKeyword_run, atKeyword_iff.mpr hkind]
    exact ⟨closes_of_keyword hkind (by decide), onlyIf_true hfound
      (IndexHint.parse_completes.run hfaces (hvalid index rfl)
        ⟨TokenKind.endsExpr_of_closes hlater (by decide), TokenKind.ne_comma_of_closes hlater⟩)⟩

theorem Source.parse_complete {source : Source}
    (hfaces : cursor.Faces dialect levels source.pieces later) (hfits : source.Fits dialect levels)
    (hlater : (later.kind 0).closes Clause.leads = true)
    (hhint : source.hint = none → later.kind 0 ≠ .keyword .WITH) :
    cursor.kind 0 = .keyword .FROM ∧ Source.parse expression subquery cursor = .ok source later := by
  obtain ⟨only, tables, hint⟩ := source
  obtain ⟨hne, htables, hindex⟩ := hfits
  obtain ⟨hfrom, hbehind⟩ := (hfaces.mono fun _ => Source.spells_mk.mp).keyword rfl
  rw [← List.append_assoc] at hbehind
  obtain ⟨mid, hsources, hrest⟩ := hbehind.split
  obtain ⟨hmid, hindexed⟩ := Source.hint_complete hrest hindex hlater hhint
  have hlist := (SourceTable.parse_completes h hbegins hsubquery).commaList
    (fun later => (later.kind 0).closes Clause.leads = true)
    (fun cursor hcursor => by rw [hcursor]; rfl)
    (fun cursor hcursor => ⟨TokenKind.endsExpr_of_closes hcursor (by decide),
      TokenKind.ne_comma_of_closes hcursor⟩)
  obtain ⟨behind, honly, hrun⟩ := only_complete hlist
    (fun hok => SourceTable.parse_begins hok .ONLY) hsources
    ⟨hne, SourceTable.listFits_iff.mp htables⟩ hmid
  refine ⟨hfrom, ?_⟩
  rw [Source.parse, bind_of_ok (keyword_ok hfrom), bind_of_ok honly, bind_of_ok hrun,
    bind_of_ok hindexed]
  rfl

theorem Select.parseWith_completes :
    (Select.parseWith expression subquery).Completes dialect levels Select.pieces
      (Select.Fits dialect levels) (fun later => (later.kind 0).closes [] = true) := by
  refine .of_faces fun query cursor later hfaces hfits hlater => ?_
  obtain ⟨projection, source, clauses⟩ := query
  obtain ⟨hprojection, hsource, hclauses, hhint⟩ := hfits
  rw [Select.pieces_mk] at hfaces
  obtain ⟨hselect, hbehind⟩ := hfaces.keyword rfl
  obtain ⟨mid, hfront, hmore⟩ := hbehind.split
  obtain ⟨behind, hmiddle, hrest⟩ := hmore.space.split
  -- Behind the source stands its first clause, or what follows the query.
  have hbehind : (behind.kind 0).closes Clause.leads = true ∧
      (source.hint = none → behind.kind 0 ≠ .keyword .WITH) := by
    cases clauses with
    | nil =>
      obtain rfl := hrest.eq_of_nil
      exact ⟨TokenKind.closes_mono hlater (List.nil_subset _),
        fun _ => TokenKind.ne_keyword_of_closes hlater (by simp)⟩
    | cons first clauses =>
      obtain ⟨_, hfirst, -⟩ := hrest.split
      have hkind := Clause.lead_of_faces hfirst.space
      refine ⟨closes_of_keyword hkind first.lead_mem, fun hnone heq => ?_⟩
      exact hhint hnone first (by simp) (TokenKind.keyword.inj (hkind.symm.trans heq))
  obtain ⟨hfrom, hsourced⟩ := Source.parse_complete h hbegins hsubquery hmiddle hsource
    hbehind.1 hbehind.2
  have hclauses := (Clause.clauses_completes h hbegins).run hrest hclauses hlater
  rw [Select.parseWith, bind_of_ok (keyword_ok hselect),
    bind_of_ok ((Projection.parse_completes h hbegins).run hfront hprojection hfrom),
    bind_of_ok hsourced, bind_of_ok hclauses]
  rfl

end Sources

omit hbegins in
theorem Assignment.parse_completes :
    (Assignment.parse expression).Completes dialect levels Assignment.pieces
      (Assignment.Fits dialect levels) (fun later => (later.kind 0).endsExpr = true) := by
  refine .of_faces fun assignment cursor later hfaces hfits hlater => ?_
  rw [Assignment.pieces, List.append_assoc] at hfaces
  obtain ⟨mid, hfield, hback⟩ := hfaces.split
  obtain ⟨hkind, hvalue⟩ := hback.space.symbol
  have hends : mid.EndsReference := (EndsOperand.of_kind (by rw [hkind]; rfl)).1
  rw [Assignment.parse, bind_of_ok (FieldReference.parse_completes.run hfield hfits.1 hends),
    bind_of_ok (symbol_ok hkind), bind_of_ok (h.run hvalue.space hfits.2 (.of_endsExpr hlater))]
  rfl

theorem Output.parse_completes :
    (Output.parse expression).Completes dialect levels Output.body (Output.Fits dialect levels)
      (fun later => later.EndsSelected ∧ later.kind 0 ≠ .symbol .comma) := by
  refine .of_faces fun output cursor later hfaces hfits hlater => ?_
  rw [Output.parse, bind_of_ok (kind_run 0 cursor)]
  cases output with
  | before =>
    obtain ⟨hkind, hnothing⟩ := hfaces.keyword (k := .BEFORE) rfl
    rw [hkind, hnothing.eq_of_nil]
    rfl
  | after =>
    obtain ⟨hkind, hnothing⟩ := hfaces.keyword (k := .AFTER) rfl
    rw [hkind, hnothing.eq_of_nil]
    rfl
  | diff =>
    obtain ⟨hkind, hnothing⟩ := hfaces.keyword (k := .DIFF) rfl
    rw [hkind, hnothing.eq_of_nil]
    rfl
  | fields list =>
    have hrun := (SelectList.parse_completes h hbegins).run hfaces hfits hlater
    have hfields : (SelectList.parse expression >>= fun list => pure (Output.fields list)) cursor =
        .ok (.fields list) later :=
      bind_pure_of_ok _ hrun
    cases hkind : cursor.kind 0 with
    | keyword k => exact absurd hkind (SelectList.parse_begins hbegins hrun k)
    | _ => exact hfields

/-- RETURN and what it asks for are read back, or left out, in front of TIMEOUT and PARALLEL. -/
theorem Output.parse?_completes :
    (Output.parse? expression).Completes dialect levels
      (fun output => output.elim [] Output.pieces)
      (fun output => ∀ o ∈ output, o.Fits dialect levels)
      (fun later => (later.kind 0).closes [.TIMEOUT, .PARALLEL] = true) := by
  rw [show Output.pieces = _ from funext Output.pieces_eq]
  exact (Output.parse_completes h hbegins).onlyIf_eatKeyword rfl fun _ hcursor =>
    ⟨⟨.of_closes hcursor (by decide) (by decide), TokenKind.ne_comma_of_closes hcursor⟩,
      TokenKind.ne_keyword_of_closes hcursor (by decide)⟩

omit h hbegins in
theorem timeout?_completes :
    timeout?.Completes dialect levels (fun value => value.elim [] Piece.timeout) (fun _ => True)
      (fun later => (later.kind 0).closes [.PARALLEL] = true) := by
  have htimeout : timeout?.Completes dialect levels (fun value => value.elim [] Piece.timeout)
      (fun value => ∀ v ∈ value, True) (fun later => (later.kind 0).closes [.PARALLEL] = true) :=
    duration_completes.onlyIf_eatKeyword rfl fun _ hcursor =>
      ⟨trivial, TokenKind.ne_keyword_of_closes hcursor (by decide)⟩
  exact htimeout.mono (fun _ _ => id) (fun _ _ _ _ => trivial) (fun _ => id)

/-- The keywords that the parts at the end of a CREATE or UPDATE begin with. -/
def Output.tailLeads : List Keyword :=
  [.RETURN, .TIMEOUT, .PARALLEL]

/-- The end of a CREATE or UPDATE is read back, and what stands before it is told from it. -/
theorem Output.tail_complete {α : Type} (make : Option Output → Option Duration → Bool → α)
    {output : Option Output} {timeout : Option Duration} {parallel : Bool}
    (hfaces : cursor.Faces dialect levels (Output.tailPieces output timeout parallel) later)
    (hfits : ∀ o ∈ output, o.Fits dialect levels) (hlater : (later.kind 0).closes [] = true) :
    (cursor.kind 0).closes Output.tailLeads = true ∧
      (Output.parse? expression >>= fun output => timeout? >>= fun timeout =>
        eatKeyword .PARALLEL >>= fun parallel => pure (make output timeout parallel)) cursor =
        .ok (make output timeout parallel) later := by
  rw [Output.tailPieces, List.append_assoc] at hfaces
  obtain ⟨mid, hfront, hmore⟩ := hfaces.split
  obtain ⟨behind, hmiddle, hflag⟩ := hmore.split
  have hfront := hfront.optional
  have hmiddle := hmiddle.optional
  -- What is left at each part, from the last one on.
  have hbehind : (behind.kind 0).closes [.PARALLEL] = true :=
    closes_of_flag rfl hflag (by decide) (TokenKind.closes_mono hlater (List.nil_subset _))
  have hmid : (mid.kind 0).closes [.TIMEOUT, .PARALLEL] = true :=
    closes_of_optional hmiddle (fun v => ⟨.TIMEOUT, _, rfl, by decide, by decide⟩)
      (TokenKind.closes_mono hbehind (by decide))
  have hcursor : (cursor.kind 0).closes Output.tailLeads = true :=
    closes_of_optional hfront (fun o => ⟨.RETURN, _, o.pieces_eq, by decide, by decide⟩)
      (TokenKind.closes_mono hmid (by decide))
  have hparallel := (eatKeyword_completes rfl).run hflag trivial
    (TokenKind.ne_keyword_of_closes hlater (k := .PARALLEL) (by simp))
  refine ⟨hcursor, ?_⟩
  rw [bind_of_ok ((Output.parse?_completes h hbegins).run hfront hfits hmid),
    bind_of_ok (timeout?_completes.run hmiddle trivial hbehind), bind_of_ok hparallel]
  rfl

omit hbegins in
theorem Data.parseEntries_completes :
    (Expr.parseEntries expression).Completes dialect levels Expr.objectPieces
      (fun entries => ∀ entry ∈ entries, entry.1.Valid ∧ entry.2.Fits dialect levels)
      (fun _ => True) := by
  refine (Expr.parseEntries_completes h).mono ?_ (fun _ => id) (fun _ => id)
  intro entries tokens hspells
  rwa [Expr.objectPieces, Expr.entryPieces_eq] at hspells

omit hbegins in
theorem Data.parseAssignments_completes (ks : List Keyword)
    (hks : ∀ k ∈ ks, BinaryOp.ofToken? (.keyword k) = none) :
    (Parse.commaList (Assignment.parse expression)).Completes dialect levels
      (fun assignments => Piece.commaList (assignments.map Assignment.pieces))
      (fun assignments => assignments ≠ [] ∧
        ∀ assignment ∈ assignments, assignment.Fits dialect levels)
      (fun later => (later.kind 0).closes ks = true) :=
  (Assignment.parse_completes h).commaList _ (fun cursor hcursor => by rw [hcursor]; rfl)
    fun cursor hcursor => ⟨TokenKind.endsExpr_of_closes hcursor hks,
      TokenKind.ne_comma_of_closes hcursor⟩

theorem Update.parsePatch_completes :
    (Update.parsePatch expression).Completes dialect levels Expr.arrayPieces
      (fun items => ∀ item ∈ items, item.Fits dialect levels) (fun _ => True) := by
  refine .of_faces fun items cursor later hfaces hfits hlater => ?_
  rw [Expr.arrayPieces, Expr.itemPieces_eq] at hfaces
  rw [Update.parsePatch, bind_of_ok (atSymbol_run _ cursor), atSymbol_iff.mpr hfaces.opening]
  exact (Expr.parseList_completes h hbegins .bracket).run hfaces hfits hlater

omit hbegins in
theorem Create.parseData_completes :
    (Create.parseData expression).Completes dialect levels Data.pieces
      (fun data => data.Fits dialect levels ∧ data.Creates)
      (fun later => (later.kind 0).closes Output.tailLeads = true) := by
  have hset := Data.parseAssignments_completes h Output.tailLeads (by decide)
  refine .of_faces fun data cursor later hfaces hdata hlater => ?_
  obtain ⟨hfits, hcreates⟩ := hdata
  rw [Create.parseData, bind_of_ok (kind_run 0 cursor)]
  cases data with
  | content entries =>
    obtain ⟨hkind, hbehind⟩ := hfaces.after rfl
    rw [hkind]
    exact advance_ok Data.content ((Data.parseEntries_completes h).run hbehind hfits trivial)
  | set assignments =>
    obtain ⟨hkind, hbehind⟩ := hfaces.after rfl
    rw [hkind]
    exact advance_ok Data.set (hset.run hbehind hfits hlater)
  | unset assignments =>
    obtain ⟨hkind, hbehind⟩ := hfaces.after rfl
    rw [hkind]
    exact advance_ok Data.unset (hset.run hbehind hfits hlater)
  | merge entries => exact hcreates.elim
  | patch items => exact hcreates.elim

/-- The keywords that what stands behind the data of an UPDATE may begin with. -/
def Update.conditionLeads : List Keyword :=
  .WHERE :: Output.tailLeads

/-- The keywords that what stands behind the targets of an UPDATE may begin with. -/
def Update.dataLeads : List Keyword :=
  [.CONTENT, .MERGE, .PATCH, .SET, .UNSET] ++ Update.conditionLeads

omit h hbegins in
theorem Data.exists_lead (data : Data) :
    ∃ k inner, data.pieces = .keyword k :: inner ∧ k ∈ Update.dataLeads ∧
      ∀ spelling ∈ k.spellings, spelling.head? = some (.keyword k) := by
  cases data <;> exact ⟨_, _, rfl, by decide, by decide⟩

omit h hbegins in
/-- No data is read where none of its keywords stands. -/
theorem Update.parseData?_none (hcursor : (cursor.kind 0).closes Update.conditionLeads = true) :
    Update.parseData? expression cursor = .ok none cursor := by
  have hnot : ∀ k ∈ [Keyword.CONTENT, .MERGE, .PATCH, .SET, .UNSET],
      cursor.kind 0 ≠ .keyword k := by
    intro k hk
    have hall : ∀ k ∈ [Keyword.CONTENT, .MERGE, .PATCH, .SET, .UNSET],
        k ∉ Update.conditionLeads := by decide
    exact TokenKind.ne_keyword_of_closes hcursor (hall k hk)
  rw [Update.parseData?, bind_of_ok (kind_run 0 cursor)]
  cases hkind : cursor.kind 0 with
  | keyword k =>
    cases k with
    | CONTENT => exact absurd hkind (hnot _ (by simp))
    | MERGE => exact absurd hkind (hnot _ (by simp))
    | PATCH => exact absurd hkind (hnot _ (by simp))
    | SET => exact absurd hkind (hnot _ (by simp))
    | UNSET => exact absurd hkind (hnot _ (by simp))
    | _ => rfl
  | _ => rfl

theorem Update.parseData?_completes :
    (Update.parseData? expression).Completes dialect levels (fun data => data.elim [] Data.pieces)
      (fun data => ∀ d ∈ data, d.Fits dialect levels)
      (fun later => (later.kind 0).closes Update.conditionLeads = true) := by
  have hset := Data.parseAssignments_completes h Update.conditionLeads (by decide)
  have hentries := Data.parseEntries_completes h
  refine .of_faces fun data cursor later hfaces hdata hlater => ?_
  cases data with
  | none =>
    obtain rfl := hfaces.eq_of_nil
    exact Update.parseData?_none hlater
  | some data =>
    have hfits := hdata data rfl
    rw [Update.parseData?, bind_of_ok (kind_run 0 cursor)]
    cases data with
    | content entries =>
      obtain ⟨hkind, hbehind⟩ := hfaces.after rfl
      rw [hkind]
      exact advance_ok (some ∘ Data.content) (hentries.run hbehind hfits trivial)
    | merge entries =>
      obtain ⟨hkind, hbehind⟩ := hfaces.after rfl
      rw [hkind]
      exact advance_ok (some ∘ Data.merge) (hentries.run hbehind hfits trivial)
    | patch items =>
      obtain ⟨hkind, hbehind⟩ := hfaces.after rfl
      rw [hkind]
      exact advance_ok (some ∘ Data.patch)
        ((Update.parsePatch_completes h hbegins).run hbehind hfits trivial)
    | set assignments =>
      obtain ⟨hkind, hbehind⟩ := hfaces.after rfl
      rw [hkind]
      exact advance_ok (some ∘ Data.set) (hset.run hbehind hfits hlater)
    | unset assignments =>
      obtain ⟨hkind, hbehind⟩ := hfaces.after rfl
      rw [hkind]
      exact advance_ok (some ∘ Data.unset) (hset.run hbehind hfits hlater)

omit h hbegins in
theorem Create.parseTarget_completes :
    Create.parseTarget.Completes dialect levels Identifier.pieces (Create.TargetValid dialect)
      EndsName := by
  refine .of_faces fun target cursor later hfaces hvalid hlater => ?_
  rw [Create.parseTarget, bind_of_ok (kind_run 0 cursor)]
  rcases hvalid with ⟨name, rfl⟩ | hvalid
  · obtain ⟨-, tokens, hpass, hspells⟩ := hfaces
    obtain ⟨token, rfl, htoken⟩ := spells_singleton.mp hspells
    rw [hpass.kind_eq.trans htoken, hpass.advanced_eq]
    rfl
  · have hrun := Identifier.parse_completes.run hfaces hvalid hlater
    obtain ⟨name, hkind⟩ := Identifier.parse_starts hrun
    rw [hkind]
    exact hrun

omit h hbegins in
theorem Create.parseTarget_begins {target : Identifier}
    (hok : Create.parseTarget cursor = .ok target later) (k : Keyword) :
    cursor.kind 0 ≠ .keyword k := by
  intro hkind
  rw [Create.parseTarget, bind_of_ok (kind_run 0 cursor), hkind] at hok
  cases hok

theorem Create.parse_completes :
    (Create.parse expression).Completes dialect levels Create.pieces (Create.Fits dialect levels)
      (fun later => (later.kind 0).closes [] = true) := by
  refine .of_faces fun query cursor later hfaces hfits hlater => ?_
  obtain ⟨only, targets, data, output, timeout, parallel⟩ := query
  obtain ⟨hne, htargets, hdata, hcreates, houtput⟩ := hfits
  rw [Create.pieces, List.append_assoc] at hfaces
  obtain ⟨mid, hfront, hmore⟩ := hfaces.split
  obtain ⟨behind, hmiddle, hrest⟩ := hmore.space.split
  obtain ⟨hcreate, hlist⟩ := (hfront.mono fun _ => (spells_targets rfl).mp).keyword rfl
  obtain ⟨hbehind, htail⟩ := Output.tail_complete h hbegins
    (fun output timeout parallel => Create.mk only targets data output timeout parallel)
    hrest houtput hlater
  have hmid : (mid.kind 0).closes Update.dataLeads = true := by
    obtain ⟨k, inner, hpieces, hk, hhead⟩ := data.exists_lead
    rw [hpieces] at hmiddle
    exact closes_of_keyword (hmiddle.lead hhead) hk
  have hlisted : (Parse.commaList Create.parseTarget).Completes dialect levels _ _ _ :=
    Create.parseTarget_completes.commaList
    (fun later => (later.kind 0).closes Update.dataLeads = true)
    (fun cursor hcursor => .of_kind (by simp [hcursor]) (by simp [hcursor]))
    (fun cursor hcursor =>
      ⟨(endsReference_of_endsExpr (TokenKind.endsExpr_of_closes hcursor (by decide))).1,
        TokenKind.ne_comma_of_closes hcursor⟩)
  obtain ⟨next, honly, hrun⟩ := only_complete hlisted
    (fun hok => Create.parseTarget_begins hok .ONLY) hlist ⟨hne, htargets⟩ hmid
  rw [Create.parse, bind_of_ok (keyword_ok hcreate), bind_of_ok honly, bind_of_ok hrun,
    bind_of_ok ((Create.parseData_completes h).run hmiddle ⟨hdata, hcreates⟩ hbehind)]
  exact htail

theorem Update.parse_completes :
    (Update.parse expression).Completes dialect levels Update.pieces (Update.Fits dialect levels)
      (fun later => (later.kind 0).closes [] = true) := by
  refine .of_faces fun query cursor later hfaces hfits hlater => ?_
  obtain ⟨only, targets, data, condition, output, timeout, parallel⟩ := query
  obtain ⟨hne, htargets, hdata, hcondition, houtput⟩ := hfits
  rw [Update.pieces, List.append_assoc, List.append_assoc, Expr.itemPieces_eq] at hfaces
  obtain ⟨mid, hfront, hmore⟩ := hfaces.split
  obtain ⟨next, hchanged, hlast⟩ := hmore.split
  obtain ⟨behind, hwanted, hrest⟩ := hlast.split
  obtain ⟨hupdate, hlist⟩ := (hfront.mono fun _ => (spells_targets rfl).mp).keyword rfl
  have hchanged := hchanged.optional
  have hwanted := hwanted.optional
  -- What is left at each part, from the last one on.
  obtain ⟨hbehind, htail⟩ := Output.tail_complete h hbegins
    (fun output timeout parallel =>
      Update.mk only targets data condition output timeout parallel)
    hrest houtput hlater
  have hnext : (next.kind 0).closes Update.conditionLeads = true :=
    closes_of_optional hwanted (fun e => ⟨.WHERE, _, rfl, by decide, by decide⟩)
      (TokenKind.closes_mono hbehind (by decide))
  have hmid : (mid.kind 0).closes Update.dataLeads = true :=
    closes_of_optional hchanged Data.exists_lead (TokenKind.closes_mono hnext (by decide))
  have hlisted := h.commaList (fun later => (later.kind 0).closes Update.dataLeads = true)
    (fun cursor hcursor => .of_endsExpr (by rw [hcursor]; rfl))
    (fun cursor hcursor => ⟨.of_endsExpr (TokenKind.endsExpr_of_closes hcursor (by decide)),
      TokenKind.ne_comma_of_closes hcursor⟩)
  obtain ⟨first, honly, hrun⟩ := only_complete hlisted
    (fun hok => TokenKind.ne_keyword_of_startsExpr (hbegins _ _ _ hok) .ONLY) hlist
    ⟨hne, htargets⟩ hmid
  have hwhere : (onlyIf (eatKeyword .WHERE) expression).Completes dialect levels _ _
      (fun cursor => (cursor.kind 0).closes Output.tailLeads = true) :=
    h.onlyIf_eatKeyword rfl fun _ hcursor =>
      ⟨.of_endsExpr (TokenKind.endsExpr_of_closes hcursor (by decide)),
        TokenKind.ne_keyword_of_closes hcursor (by decide)⟩
  rw [Update.parse, bind_of_ok (keyword_ok hupdate), bind_of_ok honly, bind_of_ok hrun,
    bind_of_ok ((Update.parseData?_completes h hbegins).run hchanged hdata hnext),
    bind_of_ok (hwhere.run hwanted hcondition hbehind)]
  exact htail

end Queries

theorem Select.parse_completes (dialect : Dialect) (levels : Nat) :
    (Select.parse levels).Completes dialect levels Select.pieces (Select.Fits dialect levels)
      (fun later => (later.kind 0).closes [] = true) := by
  induction levels with
  | zero =>
    refine Select.parseWith_completes (Expr.parseRanked_zero_completes dialect 0)
      (fun _ _ _ => Expr.parseRanked_starts) ?_
    rintro query cursor tokens later - - - ⟨below, hlevels, -⟩ -
    cases hlevels
  | succ levels ih =>
    refine Select.parseWith_completes (Expr.parseRanked_zero_completes dialect (levels + 1))
      (fun _ _ _ => Expr.parseRanked_starts) (.of_faces ?_)
    rintro query cursor later hfaces ⟨below, hlevels, hfits⟩ hlater
    obtain rfl := Nat.succ.inj hlevels
    exact nested_of_faces hfaces (ih.run (hfaces.withLevels levels) hfits hlater)

/-- A statement is read back from what is written for it, up to an end. -/
theorem Statement.parseAt_completes (dialect : Dialect) (levels : Nat) :
    (Statement.parseAt levels).Completes dialect levels Statement.pieces
      (Statement.Fits dialect levels) (fun later => (later.kind 0).closes [] = true) := by
  have h := Expr.parseRanked_zero_completes dialect levels
  have hbegins : ∀ (cursor later : Cursor) (e : Expr),
      Expr.parseRanked levels 0 cursor = .ok e later → (cursor.kind 0).startsExpr = true :=
    fun _ _ _ => Expr.parseRanked_starts
  refine .of_faces fun statement cursor later hfaces hfits hlater => ?_
  rw [Statement.parseAt, bind_of_ok (kind_run 0 cursor)]
  cases statement with
  | select query =>
    rw [Select.lead_of_faces hfaces]
    exact bind_pure_of_ok Statement.select
      ((Select.parse_completes dialect levels).run hfaces hfits hlater)
  | create query =>
    have hfaces : cursor.Faces dialect levels query.pieces later := hfaces
    have hkind : cursor.kind 0 = .keyword .CREATE := by
      have hlead := hfaces
      rw [Create.pieces, List.append_assoc] at hlead
      exact hlead.lead (by decide)
    rw [hkind]
    exact bind_pure_of_ok Statement.create
      ((Create.parse_completes h hbegins).run hfaces hfits hlater)
  | update query =>
    have hfaces : cursor.Faces dialect levels query.pieces later := hfaces
    have hkind : cursor.kind 0 = .keyword .UPDATE := by
      have hlead := hfaces
      rw [Update.pieces, List.append_assoc, List.append_assoc] at hlead
      exact hlead.lead (by decide)
    rw [hkind]
    exact bind_pure_of_ok Statement.update
      ((Update.parse_completes h hbegins).run hfaces hfits hlater)
  | value e =>
    have hrun := h.run hfaces hfits (.of_endsExpr (TokenKind.endsExpr_of_closes hlater (by simp)))
    have hvalue : (Expr.parseRanked levels 0 >>= fun e => pure (Statement.value e)) cursor =
        .ok (.value e) later :=
      bind_pure_of_ok _ hrun
    cases hkind : cursor.kind 0 with
    | keyword k => exact absurd hkind (TokenKind.ne_keyword_of_startsExpr (hbegins _ _ _ hrun) k)
    | _ => exact hvalue

end EdgeQuery
