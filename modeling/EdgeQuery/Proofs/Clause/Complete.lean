import EdgeQuery.Proofs.Clause
import EdgeQuery.Proofs.Expr.Complete

/-!
Clauses are read back from what is written for them. What may stand behind a clause, or behind a
part of a statement, is the end of the statement or one of a few keywords; an item of a list may
also be followed by a comma.
-/

namespace EdgeQuery

open Cursor Parse Walk

namespace TokenKind

/-- Whether the token is an end, or one of the keywords. -/
def closes (ks : List Keyword) : TokenKind → Bool
  | .keyword k => decide (k ∈ ks)
  | .symbol .semicolon | .symbol (.closing _) | .endOfInput => true
  | _ => false

variable {kind : TokenKind} {ks : List Keyword}

theorem closes_mono {more : List Keyword} (h : kind.closes ks = true) (hsub : ks ⊆ more) :
    kind.closes more = true := by
  cases kind with
  | keyword k => exact decide_eq_true (hsub (of_decide_eq_true h))
  | symbol s => cases s <;> exact h
  | _ => exact h

theorem ne_keyword_of_closes {k : Keyword} (h : kind.closes ks = true) (hk : k ∉ ks) :
    kind ≠ .keyword k := by
  rintro rfl
  exact hk (of_decide_eq_true h)

theorem ne_comma_of_closes (h : kind.closes ks = true) : kind ≠ .symbol .comma := by
  rintro rfl
  cases h

theorem endsExpr_of_closes (h : kind.closes ks = true)
    (hks : ∀ k ∈ ks, BinaryOp.ofToken? (.keyword k) = none) : kind.endsExpr = true := by
  cases kind with
  | keyword k => exact Option.isNone_iff_eq_none.mpr (hks k (of_decide_eq_true h))
  | symbol s => cases s <;> first | rfl | cases h
  | endOfInput => rfl
  | _ => cases h

theorem ne_keyword_of_startsExpr (h : kind.startsExpr = true) (k : Keyword) :
    kind ≠ .keyword k := by
  rintro rfl
  cases h

end TokenKind

section Items

variable {dialect : Dialect} {levels : Nat} {cursor later : Cursor} {expression : Parse Expr}

theorem endsReference_of_endsExpr (h : (cursor.kind 0).endsExpr = true) : cursor.EndsReference :=
  (EndsOperand.of_kind (endsOperand_of_endsExpr h)).1

theorem identifier_completes :
    Parse.identifier.Completes dialect levels (fun name => [.word name]) dialect.IsFree
      (fun _ => True) := by
  refine .of_faces fun name cursor later hfaces hfree _ => ?_
  obtain ⟨hkind, hnothing⟩ := hfaces.free hfree
  obtain rfl := hnothing.eq_of_nil
  exact identifier_ok hkind

theorem OmitItem.parse_completes :
    OmitItem.parse.Completes dialect levels OmitItem.pieces (OmitItem.Valid dialect)
      (fun later => (later.kind 0).endsExpr = true) := by
  refine .of_faces fun item cursor later hfaces hvalid hlater => ?_
  obtain ⟨field, nested⟩ := item
  rw [OmitItem.pieces_mk] at hfaces
  obtain ⟨mid, hfront, hback⟩ := hfaces.split
  cases nested with
  | none =>
    obtain rfl := hback.eq_of_nil
    have hfield := FieldReference.parse_completes.run hfront hvalid.1
      (endsReference_of_endsExpr hlater)
    rw [OmitItem.parse, bind_of_ok hfield, bind_of_ok (kind_run 0 _), bind_of_ok (kind_run 1 _)]
    cases hkind : later.kind 0 with
    | symbol s =>
      cases s with
      | dot => rw [hkind] at hlater; cases hlater
      | _ => rfl
    | _ => rfl
  | some names =>
    obtain ⟨hkind, hnames⟩ := hback.symbol
    have hbrace : mid.kind 1 = .symbol (.opening .brace) := by
      rw [Cursor.kind, ← peek_advanced]
      exact hnames.opening
    -- A brace is no name, so the reference does not go on behind the dot.
    have hends : mid.EndsReference := by
      have hname : mid.name? 1 = none := by
        have hkind : (mid.peek 1).kind = .symbol (.opening .brace) := hbrace
        rw [Cursor.name?, Token.name?, hkind]
      refine ⟨⟨?_, by simp [hkind]⟩, by rw [arrow?, hkind]⟩
      rw [atChainDot, hname]
      exact Bool.and_false _
    have hlist : (Parse.commaList Parse.identifier).Completes dialect levels _ _ _ :=
      identifier_completes.commaList
      (fun cursor => cursor.kind 0 = .symbol (.closing .brace)) (fun _ _ => trivial)
      (fun cursor hcursor => ⟨trivial, by simp [hcursor]⟩)
    have hnested := (hlist.within .brace fun _ => id).run hnames (hvalid.2 names rfl) trivial
    rw [OmitItem.parse, bind_of_ok (FieldReference.parse_completes.run hfront hvalid.1 hends),
      bind_of_ok (kind_run 0 _), bind_of_ok (kind_run 1 _), hkind, hbrace]
    exact advance_ok (fun names => OmitItem.mk field (some names)) hnested

theorem OmitItem.list_completes :
    (Parse.commaList OmitItem.parse).Completes dialect levels
      (fun items => Piece.commaList (items.map OmitItem.pieces))
      (fun items => items ≠ [] ∧ ∀ item ∈ items, item.Valid dialect)
      (fun later => (later.kind 0).endsExpr = true ∧ later.kind 0 ≠ .symbol .comma) :=
  OmitItem.parse_completes.commaList _ (fun cursor hcursor => by rw [hcursor]; rfl) fun _ => id

/-- What may follow a value to order by: none of the words that say how to order. -/
def EndsOrder (cursor : Cursor) : Prop :=
  (cursor.kind 0).endsExpr = true ∧
    ∀ k ∈ [Keyword.COLLATE, .NUMERIC, .ASC, .DESC], cursor.kind 0 ≠ .keyword k

theorem OrderDirection.spellings_keyword (direction : OrderDirection) :
    direction.keyword.spellings = [[.keyword direction.keyword]] := by
  cases direction <;> rfl

theorem OrderDirection.parse?_completes :
    OrderDirection.parse?.Completes dialect levels
      (fun direction => (direction.map OrderDirection.keyword).toList.map Piece.keyword)
      (fun _ => True) EndsOrder := by
  refine .of_faces fun direction cursor later hfaces _ hlater => ?_
  rw [OrderDirection.parse?]
  cases direction with
  | none =>
    obtain rfl := hfaces.eq_of_nil
    rw [bind_of_ok (eatKeyword_false (hlater.2 .ASC (by simp)))]
    show (eatKeyword .DESC >>= _) later = _
    rw [bind_of_ok (eatKeyword_false (hlater.2 .DESC (by simp)))]
    rfl
  | some direction =>
    obtain ⟨hkind, hnothing⟩ := hfaces.keyword direction.spellings_keyword
    obtain rfl := hnothing.eq_of_nil
    cases direction with
    | ascending =>
      have hkind : cursor.kind 0 = .keyword .ASC := hkind
      rw [bind_of_ok (eatKeyword_true hkind)]
      rfl
    | descending =>
      have hkind : cursor.kind 0 = .keyword .DESC := hkind
      rw [bind_of_ok (eatKeyword_false (k := .ASC) (by simp [hkind]))]
      show (eatKeyword .DESC >>= _) cursor = _
      rw [bind_of_ok (eatKeyword_true hkind)]
      rfl

/-- A direction is read where it stands by itself, or where none does. -/
theorem OrderModifier.parse?_direction {direction : Option OrderDirection}
    (hcollate : cursor.kind 0 ≠ .keyword .COLLATE) (hnumeric : cursor.kind 0 ≠ .keyword .NUMERIC)
    (hrun : OrderDirection.parse? cursor = .ok direction later) :
    OrderModifier.parse? cursor = .ok (direction.map .direction) later := by
  have hdefault : (OrderDirection.parse? >>= fun direction =>
      pure (direction.map OrderModifier.direction)) cursor =
      .ok (direction.map .direction) later :=
    bind_pure_of_ok _ hrun
  rw [OrderModifier.parse?, bind_of_ok (kind_run 0 cursor)]
  cases hcursor : cursor.kind 0 with
  | keyword k =>
    cases k with
    | COLLATE => exact absurd hcursor hcollate
    | NUMERIC => exact absurd hcursor hnumeric
    | _ => exact hdefault
  | _ => exact hdefault

theorem OrderModifier.parse?_completes :
    OrderModifier.parse?.Completes dialect levels
      (fun modifier => (modifier.elim [] OrderModifier.keywords).map Piece.keyword)
      (fun _ => True) EndsOrder := by
  refine .of_faces fun modifier cursor later hfaces _ hlater => ?_
  have hrun (direction : Option OrderDirection) {cursor : Cursor}
      (hfaces : cursor.Faces dialect levels
        ((direction.map OrderDirection.keyword).toList.map Piece.keyword) later) :=
    OrderDirection.parse?_completes.run hfaces trivial hlater
  cases modifier with
  | none =>
    obtain rfl := hfaces.eq_of_nil
    exact OrderModifier.parse?_direction (hlater.2 .COLLATE (by simp))
      (hlater.2 .NUMERIC (by simp)) (hrun none hfaces)
  | some modifier =>
    cases modifier with
    | collate direction =>
      obtain ⟨hkind, hbehind⟩ := hfaces.keyword rfl
      rw [OrderModifier.parse?, bind_of_ok (kind_run 0 cursor), hkind]
      exact advance_ok (fun direction => some (OrderModifier.collate direction))
        (hrun direction hbehind)
    | numeric direction =>
      obtain ⟨hkind, hbehind⟩ := hfaces.keyword rfl
      rw [OrderModifier.parse?, bind_of_ok (kind_run 0 cursor), hkind]
      exact advance_ok (fun direction => some (OrderModifier.numeric direction))
        (hrun direction hbehind)
    | direction direction =>
      obtain ⟨hkind, -⟩ := hfaces.keyword direction.spellings_keyword
      have hother {k : Keyword} (hk : direction.keyword ≠ k) : cursor.kind 0 ≠ .keyword k := by
        rw [hkind]
        exact fun heq => hk (TokenKind.keyword.inj heq)
      exact OrderModifier.parse?_direction (hother (by cases direction <;> decide))
        (hother (by cases direction <;> decide)) (hrun (some direction) hfaces)

theorem FetchItem.parse_completes :
    FetchItem.parse.Completes dialect levels FetchItem.pieces (FetchItem.Valid dialect)
      (fun later => (later.kind 0).endsExpr = true ∧ later.kind 0 ≠ .keyword .AS) := by
  refine .of_faces fun item cursor later hfaces hvalid hlater => ?_
  have hends := endsReference_of_endsExpr hlater.1
  cases item with
  | field id =>
    have hrun := Identifier.parse_completes.run hfaces hvalid hends.1
    obtain ⟨name, hkind⟩ := Identifier.parse_starts hrun
    have harrow : cursor.arrow? = none := by rw [arrow?, hkind]
    rw [FetchItem.parse, bind_of_ok (get_run cursor), harrow]
    exact bind_pure_of_ok FetchItem.field hrun
  | edge path name =>
    obtain ⟨mid, hfront, hback⟩ := (hfaces.mono fun _ => FetchItem.spells_edge.mp).split
    have hmid : mid.EndsReference := by
      cases name with
      | none =>
        obtain rfl := hback.eq_of_nil
        exact hends
      | some id =>
        obtain ⟨hkind, -⟩ := hback.after rfl
        exact endsReference_of_endsExpr (by rw [hkind]; rfl)
    have hpath := (EdgePath.parse_completes path.direction).run hfront ⟨hvalid.1, rfl⟩ hmid
    have hname := Identifier.parseNaming_completes.run hback hvalid.2 ⟨hends.1, hlater.2⟩
    rw [FetchItem.parse, bind_of_ok (get_run cursor), arrow?_eq_some.mpr hfront.symbol.1]
    show (EdgePath.parse path.direction >>= fun path => Identifier.parseNaming >>= fun name =>
      pure (FetchItem.edge path name)) cursor = _
    rw [bind_of_ok hpath, bind_of_ok hname]
    rfl

theorem FetchItem.list_completes :
    (Parse.commaList FetchItem.parse).Completes dialect levels
      (fun items => Piece.commaList (items.map FetchItem.pieces))
      (fun items => items ≠ [] ∧ ∀ item ∈ items, item.Valid dialect)
      (fun later => ((later.kind 0).endsExpr = true ∧ later.kind 0 ≠ .keyword .AS) ∧
        later.kind 0 ≠ .symbol .comma) :=
  FetchItem.parse_completes.commaList _
    (fun cursor hcursor => ⟨by rw [hcursor]; rfl, by simp [hcursor]⟩) fun _ => id

theorem IndexHint.lead_of_faces {index : IndexHint}
    (hfaces : cursor.Faces dialect levels index.pieces later) : cursor.kind 0 = .keyword .WITH := by
  cases index with
  | noIndex => exact hfaces.lead (by decide)
  | index names => exact hfaces.lead (by decide)

theorem IndexHint.parse_completes :
    IndexHint.parse.Completes dialect levels IndexHint.pieces (IndexHint.Valid dialect)
      (fun later => (later.kind 0).endsExpr = true ∧ later.kind 0 ≠ .symbol .comma) := by
  refine .of_faces fun index cursor later hfaces hvalid hlater => ?_
  cases index with
  | noIndex =>
    have hfaces : cursor.Faces dialect levels (Piece.after .WITH [.keyword .NOINDEX]) later :=
      hfaces
    obtain ⟨hkind, hbehind⟩ := hfaces.after rfl
    obtain ⟨hlast, hnothing⟩ := hbehind.keyword rfl
    obtain rfl := hnothing.eq_of_nil
    rw [IndexHint.parse, bind_of_ok (keyword_ok hkind), bind_of_ok (eatKeyword_true hlast)]
    rfl
  | index names =>
    obtain ⟨hkind, hbehind⟩ := hfaces.after rfl
    obtain ⟨hindex, hnames⟩ := hbehind.after rfl
    have hlist : (Parse.commaList Identifier.parse).Completes dialect levels _ _ _ :=
      Identifier.parse_completes.commaList
      (fun later => (later.kind 0).endsExpr = true ∧ later.kind 0 ≠ .symbol .comma)
      (fun cursor hcursor => .of_kind (by simp [hcursor]) (by simp [hcursor]))
      (fun cursor hcursor => ⟨(endsReference_of_endsExpr hcursor.1).1, hcursor.2⟩)
    rw [IndexHint.parse, bind_of_ok (keyword_ok hkind),
      bind_of_ok (eatKeyword_false (k := .NOINDEX) (by simp [hindex]))]
    show (eatKeyword .INDEX >>= _) cursor.advanced = _
    rw [bind_of_ok (eatKeyword_true hindex)]
    exact bind_pure_of_ok IndexHint.index (hlist.run hnames hvalid hlater)

end Items

section Clauses

variable {dialect : Dialect} {levels : Nat} {cursor later : Cursor} {expression : Parse Expr}
  (h : expression.Completes dialect levels Expr.pieces (Expr.Fits dialect levels) (EndsRanked 0))
  (hbegins : ∀ (cursor later : Cursor) (e : Expr), expression cursor = .ok e later →
    (cursor.kind 0).startsExpr = true)

include h hbegins

theorem OrderTarget.parse_completes :
    (OrderTarget.parse expression).Completes dialect levels OrderTarget.pieces
      (OrderTarget.Fits dialect levels) (fun later => (later.kind 0).endsExpr = true) := by
  refine .of_faces fun target cursor later hfaces hfits hlater => ?_
  cases target with
  | value e =>
    have hrun := h.run hfaces hfits (.of_endsExpr hlater)
    have hkind := TokenKind.ne_keyword_of_startsExpr (hbegins _ _ _ hrun) .RAND
    have hvalue : (expression >>= fun e => pure (OrderTarget.value e)) cursor =
        .ok (.value e) later :=
      bind_pure_of_ok _ hrun
    rw [OrderTarget.parse, bind_of_ok (kind_run 0 cursor), bind_of_ok (kind_run 1 cursor)]
    cases hcursor : cursor.kind 0 with
    | keyword k =>
      cases k with
      | RAND => exact absurd hcursor hkind
      | _ => exact hvalue
    | _ => exact hvalue
  | rand =>
    obtain ⟨hkind, hparens⟩ := hfaces.keyword rfl
    have hnext : cursor.kind 1 = .symbol (.opening .paren) := by
      rw [Cursor.kind, ← peek_advanced]
      exact hparens.opening
    have hnothing : (pure () : Parse Unit).Completes dialect levels (fun _ => []) (fun _ => True)
        (fun _ => True) := by
      refine .of_faces fun _ cursor later hfaces _ _ => ?_
      obtain rfl := hfaces.eq_of_nil
      rfl
    have hrun : within .paren (pure ()) cursor.advanced = .ok () later :=
      (hnothing.within .paren fun _ _ => trivial).run hparens trivial trivial
    rw [OrderTarget.parse, bind_of_ok (kind_run 0 cursor), bind_of_ok (kind_run 1 cursor), hkind,
      hnext]
    exact advance_ok (fun _ => OrderTarget.rand) hrun

theorem OrderItem.parse_completes :
    (OrderItem.parse expression).Completes dialect levels OrderItem.pieces
      (fun item => item.target.Fits dialect levels) EndsOrder := by
  refine .of_faces fun item cursor later hfaces hfits hlater => ?_
  obtain ⟨target, modifier⟩ := item
  obtain ⟨mid, hfront, hback⟩ := (hfaces.mono fun _ => OrderItem.spells_mk.mp).split
  have hmid : (mid.kind 0).endsExpr = true := by
    cases modifier with
    | none =>
      obtain rfl := hback.eq_of_nil
      exact hlater.1
    | some modifier =>
      have hfirst : ∃ k more, modifier.keywords = k :: more ∧ k.spellings = [[.keyword k]] ∧
          (TokenKind.keyword k).endsExpr = true := by
        cases modifier with
        | collate direction => exact ⟨.COLLATE, _, rfl, rfl, rfl⟩
        | numeric direction => exact ⟨.NUMERIC, _, rfl, rfl, rfl⟩
        | direction direction => cases direction <;> exact ⟨_, [], rfl, rfl, rfl⟩
      obtain ⟨k, more, hkeywords, hspelling, hends⟩ := hfirst
      have hback : mid.Faces dialect levels (modifier.keywords.map Piece.keyword) later := hback
      rw [hkeywords, List.map_cons] at hback
      rw [(hback.keyword hspelling).1]
      exact hends
  rw [OrderItem.parse,
    bind_of_ok ((OrderTarget.parse_completes h hbegins).run hfront hfits hmid),
    bind_of_ok (OrderModifier.parse?_completes.run hback trivial hlater)]
  rfl

theorem OrderItem.list_completes :
    (Parse.commaList (OrderItem.parse expression)).Completes dialect levels
      (fun items => Piece.commaList (items.map OrderItem.pieces))
      (fun items => items ≠ [] ∧ ∀ item ∈ items, item.target.Fits dialect levels)
      (fun later => EndsOrder later ∧ later.kind 0 ≠ .symbol .comma) :=
  (OrderItem.parse_completes h hbegins).commaList _
    (fun cursor hcursor => ⟨by rw [hcursor]; rfl, by simp [hcursor]⟩) fun _ => id

omit h in
/-- Nothing to order by begins with a keyword but RAND. -/
theorem OrderItem.parse_begins {k : Keyword} {item : OrderItem} (hk : k ≠ .RAND)
    (hok : OrderItem.parse expression cursor = .ok item later) : cursor.kind 0 ≠ .keyword k := by
  intro hkind
  have hdefault : OrderTarget.parse expression cursor =
      (expression >>= fun e => pure (OrderTarget.value e)) cursor := by
    rw [OrderTarget.parse, bind_of_ok (kind_run 0 cursor), bind_of_ok (kind_run 1 cursor), hkind]
    cases k with
    | RAND => exact absurd rfl hk
    | _ => rfl
  cases hrun : expression cursor with
  | ok e mid => exact TokenKind.ne_keyword_of_startsExpr (hbegins _ _ _ hrun) k hkind
  | error error mid =>
    rw [OrderItem.parse, bind_of_error (hdefault.trans (bind_of_error hrun))] at hok
    cases hok

omit h in
theorem OrderItem.list_begins {items : List OrderItem}
    (hok : Parse.commaList (OrderItem.parse expression) cursor = .ok items later) :
    cursor.kind 0 ≠ .keyword .BY := by
  obtain ⟨first, mid, hfirst⟩ := exists_first hok
  exact OrderItem.parse_begins hbegins (by decide) hfirst

namespace Clause

section Filler

omit h hbegins

variable {pieces : List Piece} {filler : Keyword}

/-- Something is written here, perhaps behind a word that means nothing. -/
theorem faces_of_spellsBehind {tokens : List Token} (hat : cursor.At dialect levels)
    (hpass : cursor.Passes tokens later) (hspells : SpellsBehind filler pieces tokens) :
    cursor.Faces dialect levels pieces later ∨
      cursor.kind 0 = .keyword filler ∧ cursor.advanced.Faces dialect levels pieces later := by
  rcases hspells with hspells | ⟨word, back, rfl, hword, hback⟩
  · exact .inl ⟨hat, tokens, hpass, hspells⟩
  · exact .inr ⟨hpass.kind_eq.trans hword, hat.passes (Passes.advanced hpass.1), back, hpass.tail,
      hback⟩

theorem faces_by (hfaces : cursor.Faces dialect levels (Piece.after .BY pieces) later) :
    cursor.Faces dialect levels pieces later ∨
      cursor.kind 0 = .keyword .BY ∧ cursor.advanced.Faces dialect levels pieces later := by
  obtain ⟨hat, tokens, hpass, hspells⟩ := hfaces
  exact faces_of_spellsBehind hat hpass (spells_by.mp hspells)

theorem faces_filled (k filler : Keyword)
    (hspelling : k.spellings = [[.keyword k], [.keyword k, .keyword filler]])
    (hfaces : cursor.Faces dialect levels (Piece.after k pieces) later) :
    cursor.kind 0 = .keyword k ∧ (cursor.advanced.Faces dialect levels pieces later ∨
      cursor.advanced.kind 0 = .keyword filler ∧
        cursor.advanced.advanced.Faces dialect levels pieces later) := by
  obtain ⟨hat, tokens, hpass, hspells⟩ := hfaces
  obtain ⟨token, back, rfl, htoken, hback⟩ := (spells_filled hspelling).mp hspells
  exact ⟨hpass.kind_eq.trans htoken,
    faces_of_spellsBehind (hat.passes (Passes.advanced hpass.1)) hpass.tail hback⟩

/-- A word that means nothing is passed over if what follows it never begins with it. -/
theorem skipping_complete {α : Type} {inner : Parse α} {written : α → List Piece}
    {valid : α → Prop} {follow : Cursor → Prop} {value : α}
    (hinner : inner.Completes dialect levels written valid follow)
    (hstart : ∀ {later : Cursor} {value : α}, inner cursor = .ok value later →
      cursor.kind 0 ≠ .keyword filler)
    (hfaces : cursor.Faces dialect levels (written value) later ∨
      cursor.kind 0 = .keyword filler ∧
        cursor.advanced.Faces dialect levels (written value) later)
    (hvalid : valid value) (hlater : follow later) :
    skipping filler inner cursor = .ok value later := by
  rcases hfaces with hfaces | ⟨hkind, hfaces⟩
  · have hrun := hinner.run hfaces hvalid hlater
    rw [skipping, bind_of_ok (eatKeyword_false (hstart hrun))]
    exact hrun
  · rw [skipping, bind_of_ok (eatKeyword_true hkind)]
    exact hinner.run hfaces hvalid hlater

end Filler

/-- The keys are read back behind BY, or where BY is left out. -/
theorem keys_completes :
    (Grouping.parse expression).Completes dialect levels
      (fun grouping => Piece.commaList (grouping.keys.map Expr.pieces))
      (fun grouping => ∃ keys, grouping = .by keys ∧ grouping.Fits dialect levels)
      (fun later => (later.kind 0).closes leads = true) := by
  refine .of_faces fun grouping cursor later hfaces hvalid hlater => ?_
  obtain ⟨keys, rfl, hfits⟩ := hvalid
  have hlist := h.commaList (fun later => (later.kind 0).closes leads = true)
    (fun cursor hcursor => .of_endsExpr (by rw [hcursor]; rfl))
    (fun cursor hcursor => ⟨.of_endsExpr (TokenKind.endsExpr_of_closes hcursor (by decide)),
      TokenKind.ne_comma_of_closes hcursor⟩)
  have hrun := hlist.run hfaces hfits hlater
  obtain ⟨first, mid, hfirst⟩ := exists_first hrun
  have hkind := TokenKind.ne_keyword_of_startsExpr (hbegins _ _ _ hfirst) .ALL
  rw [Grouping.parse, bind_of_ok (eatKeyword_false hkind)]
  exact bind_pure_of_ok Grouping.by hrun

omit h in
theorem grouping_begins {grouping : Grouping}
    (hok : Grouping.parse expression cursor = .ok grouping later) :
    cursor.kind 0 ≠ .keyword .BY := by
  intro hkind
  rw [Grouping.parse, bind_of_ok (eatKeyword_false (k := .ALL) (by simp [hkind]))] at hok
  have hok : (Parse.commaList expression >>= fun keys => pure (Grouping.by keys)) cursor =
    .ok grouping later := hok
  cases hrun : Parse.commaList expression cursor with
  | ok keys mid =>
    obtain ⟨first, mid, hfirst⟩ := exists_first hrun
    exact TokenKind.ne_keyword_of_startsExpr (hbegins _ _ _ hfirst) .BY hkind
  | error error mid =>
    rw [bind_of_error hrun] at hok
    cases hok

theorem group_complete {grouping : Grouping}
    (hfaces : cursor.Faces dialect levels (Clause.group grouping).pieces later)
    (hfits : grouping.Fits dialect levels) (hlater : (later.kind 0).closes leads = true) :
    cursor.kind 0 = .keyword .GROUP ∧
      skipping .BY (Grouping.parse expression) cursor.advanced = .ok grouping later := by
  cases grouping with
  | all =>
    obtain ⟨-, tokens, hpass, hspells⟩ := hfaces
    obtain ⟨token, back, last, rfl, htoken, hlast, hback⟩ := spells_groupAll.mp hspells
    refine ⟨hpass.kind_eq.trans htoken, ?_⟩
    have hall {cursor : Cursor} (hpass : cursor.Passes [last] later) :
        cursor.kind 0 = .keyword .ALL ∧ Grouping.parse expression cursor = .ok .all later := by
      have hkind := hpass.kind_eq.trans hlast
      refine ⟨hkind, ?_⟩
      rw [Grouping.parse, bind_of_ok (eatKeyword_true hkind), hpass.advanced_eq]
      rfl
    rcases hback with rfl | ⟨word, rfl, hword⟩
    · obtain ⟨hkind, hrun⟩ := hall hpass.tail
      rw [skipping, bind_of_ok (eatKeyword_false (k := .BY) (by simp [hkind]))]
      exact hrun
    · rw [skipping, bind_of_ok (eatKeyword_true (hpass.tail.kind_eq.trans hword))]
      exact (hall hpass.tail.tail).2
  | «by» keys =>
    rw [Clause.pieces, Expr.itemPieces_eq] at hfaces
    obtain ⟨hkind, hbehind⟩ := hfaces.after rfl
    exact ⟨hkind, skipping_complete (keys_completes h hbegins) (grouping_begins hbegins)
      (faces_by hbehind) ⟨keys, rfl, hfits⟩ hlater⟩

/-- A clause is read back in front of another clause, or of the end. -/
theorem parse?_complete {clause : Clause}
    (hfaces : cursor.Faces dialect levels clause.pieces later)
    (hfits : clause.Fits dialect levels) (hlater : (later.kind 0).closes leads = true) :
    parse? expression cursor = .ok (some clause) later := by
  have hends := TokenKind.endsExpr_of_closes hlater (by decide)
  have hcomma := TokenKind.ne_comma_of_closes hlater
  rw [parse?, bind_of_ok (kind_run 0 cursor)]
  cases clause with
  | condition e =>
    obtain ⟨hkind, hbehind⟩ := hfaces.after rfl
    rw [hkind]
    exact advance_ok (some ∘ condition) (h.run hbehind hfits (.of_endsExpr hends))
  | split field =>
    obtain ⟨hkind, hbehind⟩ := hfaces.after rfl
    rw [hkind]
    exact advance_ok (some ∘ split)
      (FieldReference.parse_completes.run hbehind hfits (endsReference_of_endsExpr hends))
  | omission items =>
    obtain ⟨hkind, hbehind⟩ := hfaces.after rfl
    rw [hkind]
    exact advance_ok (some ∘ omission) (OmitItem.list_completes.run hbehind hfits ⟨hends, hcomma⟩)
  | group grouping =>
    obtain ⟨hkind, hrun⟩ := group_complete h hbegins hfaces hfits hlater
    rw [hkind]
    exact advance_ok (some ∘ group) hrun
  | order items =>
    obtain ⟨hkind, hbehind⟩ := hfaces.after rfl
    have hnot : ∀ k ∈ [Keyword.COLLATE, .NUMERIC, .ASC, .DESC], k ∉ leads := by decide
    rw [hkind]
    exact advance_ok (some ∘ order) (skipping_complete (OrderItem.list_completes h hbegins)
      (OrderItem.list_begins hbegins) (faces_by hbehind) hfits
      ⟨⟨hends, fun k hk => TokenKind.ne_keyword_of_closes hlater (hnot k hk)⟩, hcomma⟩)
  | limit e =>
    obtain ⟨hkind, hbehind⟩ := faces_filled .LIMIT .BY rfl hfaces
    rw [hkind]
    exact advance_ok (some ∘ limit) (skipping_complete h
      (fun hok => TokenKind.ne_keyword_of_startsExpr (hbegins _ _ _ hok) .BY) hbehind hfits
      (.of_endsExpr hends))
  | start e =>
    obtain ⟨hkind, hbehind⟩ := faces_filled .START .AT rfl hfaces
    rw [hkind]
    exact advance_ok (some ∘ start) (skipping_complete h
      (fun hok => TokenKind.ne_keyword_of_startsExpr (hbegins _ _ _ hok) .AT) hbehind hfits
      (.of_endsExpr hends))
  | fetch items =>
    obtain ⟨hkind, hbehind⟩ := hfaces.after rfl
    rw [hkind]
    exact advance_ok (some ∘ fetch) (FetchItem.list_completes.run hbehind hfits
      ⟨⟨hends, TokenKind.ne_keyword_of_closes hlater (by decide)⟩, hcomma⟩)
  | timeout value =>
    obtain ⟨hkind, hbehind⟩ := hfaces.after (k := .TIMEOUT) rfl
    rw [hkind]
    exact advance_ok (some ∘ timeout) (duration_completes.run hbehind trivial trivial)
  | parallel =>
    obtain ⟨hkind, hnothing⟩ := hfaces.keyword rfl
    obtain rfl := hnothing.eq_of_nil
    rw [hkind]
    rfl
  | tempfiles =>
    obtain ⟨hkind, hnothing⟩ := hfaces.keyword rfl
    obtain rfl := hnothing.eq_of_nil
    rw [hkind]
    rfl
  | explain full =>
    obtain ⟨hkind, hbehind⟩ := hfaces.keyword rfl
    rw [hkind]
    exact advance_ok (some ∘ explain) ((eatKeyword_completes rfl).run hbehind trivial
      (TokenKind.ne_keyword_of_closes hlater (by decide)))
  | hint index =>
    have hrun := IndexHint.parse_completes.run hfaces hfits ⟨hends, hcomma⟩
    rw [IndexHint.lead_of_faces hfaces]
    exact bind_pure_of_ok (some ∘ hint) hrun

omit h hbegins in
theorem lead_of_faces {clause : Clause}
    (hfaces : cursor.Faces dialect levels clause.pieces later) :
    cursor.kind 0 = .keyword clause.lead := by
  obtain ⟨-, tokens, hpass, hspells⟩ := hfaces
  obtain ⟨token, back, rfl, hkind⟩ := clause.exists_lead hspells
  exact hpass.kind_eq.trans hkind

omit h hbegins in
theorem parse?_none (hcursor : (cursor.kind 0).closes [] = true) :
    parse? expression cursor = .ok none cursor := by
  rw [parse?, bind_of_ok (kind_run 0 cursor)]
  cases hkind : cursor.kind 0 with
  | keyword k => exact absurd hkind (TokenKind.ne_keyword_of_closes hcursor (by simp))
  | _ => rfl

/-- Clauses are read back up to an end. -/
theorem clauses_completes :
    Completes dialect levels (repeated (parse? expression))
      (fun clauses => clauses.flatMap fun clause => .space :: clause.pieces)
      (fun clauses => ∀ clause ∈ clauses, clause.Fits dialect levels)
      (fun later => (later.kind 0).closes [] = true) := by
  refine repeated_completes (fun later => (later.kind 0).closes leads = true) ?_ ?_ ?_ ?_
  · intro clause cursor later hfaces hfits hlater
    exact parse?_complete h hbegins hfaces.space hfits hlater
  · intro clause hspells
    obtain ⟨token, back, hnil, -⟩ := clause.exists_lead (spells_space.mp hspells)
    cases hnil
  · intro clause cursor later hfaces
    rw [lead_of_faces hfaces.space]
    exact decide_eq_true clause.lead_mem
  · intro cursor hcursor
    exact ⟨parse?_none hcursor, TokenKind.closes_mono hcursor (List.nil_subset _)⟩

end Clause
end Clauses
end EdgeQuery
