import EdgeQuery.Statement.Parse
import EdgeQuery.Proofs.Clause

/-!
The statements that can be read, and that they are read as they are written. A subquery takes one
nesting level of the query that it stands in.
-/

namespace EdgeQuery

open Cursor Parse Walk

section Validity

variable (dialect : Dialect) (levels : Nat)

/-- A value without a name is a reference or a call. -/
def SelectItem.Fits : SelectItem → Prop
  | .all => True
  | .value e name =>
    e.Fits dialect levels ∧ (∀ id ∈ name, id.Valid dialect) ∧
      (name = none → e.isReferenceOrCall = true)

/-- A star that stands alone is no list of items. -/
def SelectList.Fits : SelectList → Prop
  | .wildcard => True
  | .items list => list ≠ [] ∧ list ≠ [.all] ∧ ∀ item ∈ list, item.Fits dialect levels

def Projection.Fits : Projection → Prop
  | .value e name => e.Fits dialect levels ∧ ∀ id ∈ name, id.Valid dialect
  | .fields list omitted =>
    (∀ items ∈ list, items.Fits dialect levels) ∧
      ∀ items ∈ omitted, items ≠ [] ∧ ∀ item ∈ items, item.Valid dialect

mutual

/-- The query is one that can be read with so many nesting levels. What it says about indexes
belongs to its source if nothing stands between them. -/
def Select.Fits (levels : Nat) : Select → Prop
  | ⟨projection, source, clauses⟩ =>
    projection.Fits dialect levels ∧ Source.Fits levels source ∧
      (∀ clause ∈ clauses, clause.Fits dialect levels) ∧
      (source.hint = none → ∀ clause ∈ clauses.head?, clause.lead ≠ .WITH)
termination_by structural query => query

def Source.Fits (levels : Nat) : Source → Prop
  | ⟨_, tables, hint⟩ =>
    tables ≠ [] ∧ SourceTable.ListFits levels tables ∧ ∀ index ∈ hint, index.Valid dialect
termination_by structural source => source

def SourceTable.Fits (levels : Nat) : SourceTable → Prop
  | .reference field => field.Valid dialect
  | .subquery query => ∃ below, levels = below + 1 ∧ Select.Fits below query
  | .array items => ∀ item ∈ items, item.Fits dialect levels
termination_by structural table => table

def SourceTable.ListFits (levels : Nat) : List SourceTable → Prop
  | [] => True
  | table :: tables => SourceTable.Fits levels table ∧ SourceTable.ListFits levels tables
termination_by structural tables => tables

end

def Assignment.Fits (assignment : Assignment) : Prop :=
  assignment.field.Valid dialect ∧ assignment.value.Fits dialect levels

def Data.Fits : Data → Prop
  | .content entries | .merge entries =>
    ∀ entry ∈ entries, entry.1.Valid ∧ entry.2.Fits dialect levels
  | .patch items => ∀ item ∈ items, item.Fits dialect levels
  | .set assignments | .unset assignments =>
    assignments ≠ [] ∧ ∀ assignment ∈ assignments, assignment.Fits dialect levels

/-- Data that something can be created with. -/
def Data.Creates : Data → Prop
  | .merge _ | .patch _ => False
  | _ => True

def Output.Fits : Output → Prop
  | .fields list => list.Fits dialect levels
  | _ => True

/-- What can be created may be given by a variable. -/
def Create.TargetValid (target : Identifier) : Prop :=
  (∃ name, target = .variable name) ∨ target.Valid dialect

structure Create.Fits (query : Create) : Prop where
  targets_ne_nil : query.targets ≠ []
  targets : ∀ target ∈ query.targets, Create.TargetValid dialect target
  data : query.data.Fits dialect levels
  creates : query.data.Creates
  output : ∀ output ∈ query.output, output.Fits dialect levels

structure Update.Fits (query : Update) : Prop where
  targets_ne_nil : query.targets ≠ []
  targets : ∀ target ∈ query.targets, target.Fits dialect levels
  data : ∀ data ∈ query.data, data.Fits dialect levels
  condition : ∀ e ∈ query.condition, e.Fits dialect levels
  output : ∀ output ∈ query.output, output.Fits dialect levels

/-- The statement is one that can be read with so many nesting levels. -/
def Statement.Fits : Statement → Prop
  | .select query => query.Fits dialect levels
  | .create query => query.Fits dialect levels
  | .update query => query.Fits dialect levels
  | .value e => e.Fits dialect levels

end Validity

section Strict

variable {dialect : Dialect} {levels : Nat}

theorem SelectItem.Fits.strict {item : SelectItem} (h : item.Fits dialect levels) :
    item.Fits .strict levels := by
  cases item with
  | all => trivial
  | value e name => exact ⟨h.1.strict, fun id hmem => (h.2.1 id hmem).strict, h.2.2⟩

theorem SelectList.Fits.strict {list : SelectList} (h : list.Fits dialect levels) :
    list.Fits .strict levels := by
  cases list with
  | wildcard => trivial
  | items list => exact ⟨h.1, h.2.1, fun item hmem => (h.2.2 item hmem).strict⟩

theorem Projection.Fits.strict {projection : Projection} (h : projection.Fits dialect levels) :
    projection.Fits .strict levels := by
  cases projection with
  | value e name => exact ⟨h.1.strict, fun id hmem => (h.2 id hmem).strict⟩
  | fields list omitted =>
    refine ⟨fun items hmem => (h.1 items hmem).strict, fun items hmem => ?_⟩
    obtain ⟨hne, hall⟩ := h.2 items hmem
    exact ⟨hne, fun item hmem => (hall item hmem).strict⟩

mutual

theorem Select.Fits.strict {levels : Nat} : ∀ {query : Select},
    query.Fits dialect levels → query.Fits .strict levels
  | ⟨_, _, _⟩, ⟨hprojection, hsource, hclauses, hhint⟩ =>
    ⟨hprojection.strict, Source.Fits.strict hsource,
      fun clause hmem => (hclauses clause hmem).strict, hhint⟩
termination_by structural query => query

theorem Source.Fits.strict {levels : Nat} : ∀ {source : Source},
    source.Fits dialect levels → source.Fits .strict levels
  | ⟨_, _, _⟩, ⟨hne, htables, hhint⟩ =>
    ⟨hne, SourceTable.ListFits.strict htables, fun index hmem => (hhint index hmem).strict⟩
termination_by structural source => source

theorem SourceTable.Fits.strict {levels : Nat} : ∀ {table : SourceTable},
    table.Fits dialect levels → table.Fits .strict levels
  | .reference _, h => FieldReference.Valid.strict h
  | .subquery _, ⟨below, hlevels, hquery⟩ => ⟨below, hlevels, Select.Fits.strict hquery⟩
  | .array _, h => fun item hmem => (h item hmem).strict
termination_by structural table => table

theorem SourceTable.ListFits.strict {levels : Nat} : ∀ {tables : List SourceTable},
    SourceTable.ListFits dialect levels tables → SourceTable.ListFits .strict levels tables
  | [], _ => trivial
  | _ :: _, ⟨htable, htables⟩ =>
    ⟨SourceTable.Fits.strict htable, SourceTable.ListFits.strict htables⟩
termination_by structural tables => tables

end

theorem Data.Fits.strict {data : Data} (h : data.Fits dialect levels) : data.Fits .strict levels := by
  have hset {assignments : List Assignment}
      (h : assignments ≠ [] ∧ ∀ assignment ∈ assignments, assignment.Fits dialect levels) :
      assignments ≠ [] ∧ ∀ assignment ∈ assignments, assignment.Fits .strict levels :=
    ⟨h.1, fun assignment hmem => ⟨(h.2 assignment hmem).1.strict, (h.2 assignment hmem).2.strict⟩⟩
  cases data with
  | content entries => exact fun entry hmem => ⟨(h entry hmem).1, (h entry hmem).2.strict⟩
  | merge entries => exact fun entry hmem => ⟨(h entry hmem).1, (h entry hmem).2.strict⟩
  | patch items => exact fun item hmem => (h item hmem).strict
  | set assignments => exact hset h
  | unset assignments => exact hset h

theorem Output.Fits.strict {output : Output} (h : output.Fits dialect levels) :
    output.Fits .strict levels := by
  cases output with
  | fields list => exact SelectList.Fits.strict h
  | _ => trivial

theorem Create.TargetValid.strict {target : Identifier} (h : Create.TargetValid dialect target) :
    Create.TargetValid .strict target :=
  h.imp_right Identifier.Valid.strict

/-- What can be read in one dialect can be read in the strict one. -/
theorem Statement.Fits.strict {statement : Statement} (h : statement.Fits dialect levels) :
    statement.Fits .strict levels := by
  cases statement with
  | select query => exact Select.Fits.strict h
  | create query =>
    exact ⟨h.targets_ne_nil, fun target hmem => (h.targets target hmem).strict, h.data.strict,
      h.creates, fun output hmem => (h.output output hmem).strict⟩
  | update query =>
    exact ⟨h.targets_ne_nil, fun target hmem => (h.targets target hmem).strict,
      fun data hmem => (h.data data hmem).strict, fun e hmem => (h.condition e hmem).strict,
      fun output hmem => (h.output output hmem).strict⟩
  | value e => exact Expr.Fits.strict h

end Strict

section Monotone

variable {dialect : Dialect}

section Levels

variable {levels room : Nat}

theorem SelectItem.Fits.mono {item : SelectItem} (h : item.Fits dialect levels)
    (hle : levels ≤ room) : item.Fits dialect room := by
  cases item with
  | all => trivial
  | value e name => exact ⟨h.1.mono hle, h.2⟩

theorem SelectList.Fits.mono {list : SelectList} (h : list.Fits dialect levels)
    (hle : levels ≤ room) : list.Fits dialect room := by
  cases list with
  | wildcard => trivial
  | items list => exact ⟨h.1, h.2.1, fun item hmem => (h.2.2 item hmem).mono hle⟩

theorem Projection.Fits.mono {projection : Projection} (h : projection.Fits dialect levels)
    (hle : levels ≤ room) : projection.Fits dialect room := by
  cases projection with
  | value e name => exact ⟨h.1.mono hle, h.2⟩
  | fields list omitted => exact ⟨fun items hmem => (h.1 items hmem).mono hle, h.2⟩

end Levels

mutual

theorem Select.Fits.mono : ∀ {query : Select} {levels room : Nat},
    query.Fits dialect levels → levels ≤ room → query.Fits dialect room
  | ⟨_, _, _⟩, _, _, ⟨hprojection, hsource, hclauses, hhint⟩, hle =>
    ⟨hprojection.mono hle, Source.Fits.mono hsource hle,
      fun clause hmem => (hclauses clause hmem).mono hle, hhint⟩
termination_by structural query => query

theorem Source.Fits.mono : ∀ {source : Source} {levels room : Nat},
    source.Fits dialect levels → levels ≤ room → source.Fits dialect room
  | ⟨_, _, _⟩, _, _, ⟨hne, htables, hhint⟩, hle =>
    ⟨hne, SourceTable.ListFits.mono htables hle, hhint⟩
termination_by structural source => source

theorem SourceTable.Fits.mono : ∀ {table : SourceTable} {levels room : Nat},
    table.Fits dialect levels → levels ≤ room → table.Fits dialect room
  | .reference _, _, _, h, _ => h
  | .subquery _, _, room + 1, ⟨_, rfl, hquery⟩, hle =>
    ⟨room, rfl, Select.Fits.mono hquery (Nat.le_of_succ_le_succ hle)⟩
  | .array _, _, _, h, hle => fun item hmem => (h item hmem).mono hle
termination_by structural table => table

theorem SourceTable.ListFits.mono : ∀ {tables : List SourceTable} {levels room : Nat},
    SourceTable.ListFits dialect levels tables → levels ≤ room →
      SourceTable.ListFits dialect room tables
  | [], _, _, _, _ => trivial
  | _ :: _, _, _, ⟨htable, htables⟩, hle =>
    ⟨SourceTable.Fits.mono htable hle, SourceTable.ListFits.mono htables hle⟩
termination_by structural tables => tables

end

variable {levels room : Nat}

theorem Assignment.Fits.mono {assignment : Assignment} (h : assignment.Fits dialect levels)
    (hle : levels ≤ room) : assignment.Fits dialect room :=
  ⟨h.1, h.2.mono hle⟩

theorem Data.Fits.mono {data : Data} (h : data.Fits dialect levels) (hle : levels ≤ room) :
    data.Fits dialect room := by
  cases data with
  | content entries => exact fun entry hmem => ⟨(h entry hmem).1, (h entry hmem).2.mono hle⟩
  | merge entries => exact fun entry hmem => ⟨(h entry hmem).1, (h entry hmem).2.mono hle⟩
  | patch items => exact fun item hmem => (h item hmem).mono hle
  | set assignments => exact ⟨h.1, fun assignment hmem => (h.2 assignment hmem).mono hle⟩
  | unset assignments => exact ⟨h.1, fun assignment hmem => (h.2 assignment hmem).mono hle⟩

theorem Output.Fits.mono {output : Output} (h : output.Fits dialect levels) (hle : levels ≤ room) :
    output.Fits dialect room := by
  cases output with
  | fields list => exact SelectList.Fits.mono h hle
  | _ => trivial

theorem Create.Fits.mono {query : Create} (h : query.Fits dialect levels) (hle : levels ≤ room) :
    query.Fits dialect room :=
  ⟨h.targets_ne_nil, h.targets, h.data.mono hle, h.creates,
    fun output hmem => (h.output output hmem).mono hle⟩

theorem Update.Fits.mono {query : Update} (h : query.Fits dialect levels) (hle : levels ≤ room) :
    query.Fits dialect room :=
  ⟨h.targets_ne_nil, fun target hmem => (h.targets target hmem).mono hle,
    fun data hmem => (h.data data hmem).mono hle, fun e hmem => (h.condition e hmem).mono hle,
    fun output hmem => (h.output output hmem).mono hle⟩

/-- What can be read with some nesting levels can be read with more. -/
theorem Statement.Fits.mono {statement : Statement} (h : statement.Fits dialect levels)
    (hle : levels ≤ room) : statement.Fits dialect room := by
  cases statement with
  | select query => exact Select.Fits.mono h hle
  | create query => exact Create.Fits.mono h hle
  | update query => exact Update.Fits.mono h hle
  | value e => exact Expr.Fits.mono h hle

end Monotone

section Sound

variable {dialect : Dialect} {levels : Nat} {cursor : Cursor} {expression : Parse Expr}

/-- A name is written behind a space, if there is one. -/
theorem spells_naming {inner : List Piece} {name : Option Identifier} {tokens : List Token} :
    Spells (inner ++ Piece.naming name) tokens ↔
      Spells (inner ++ name.elim [] fun id => Piece.after .AS id.pieces) tokens := by
  simp only [Piece.naming, spells_append, spells_optional]

/-- The name behind an expression adds its pieces to those of the expression. -/
theorem parseNaming_after {e : Expr} {tokens : List Token}
    (hspells : Spells e.pieces tokens) {mid : Cursor} (hat : mid.At dialect levels) :
    Identifier.parseNaming.Reads mid fun name more _ =>
      Spells (e.pieces ++ Piece.naming name) (tokens ++ more) ∧ ∀ id ∈ name, id.Valid dialect := by
  refine (Identifier.parseNaming_sound mid hat).mono ?_
  rintro name more later - ⟨hname, hvalid⟩
  exact ⟨spells_naming.mpr (hspells.append hname), hvalid⟩

section Queries

variable (h : expression.Sound dialect levels Expr.pieces (Expr.Fits dialect levels))

include h

theorem SelectItem.parse_sound :
    (SelectItem.parse expression).Sound dialect levels SelectItem.pieces
      (SelectItem.Fits dialect levels) := by
  have hstar : IsFlat (.symbol .star) := isFlat_symbol (by simp) (by simp)
  intro cursor hat
  refine (eatSymbol_reads hstar cursor).bind ?_
  rintro found tokens mid hpass (⟨rfl, rfl, hkind⟩ | ⟨rfl, rfl, -⟩)
  · exact .pure ⟨spells_symbol.mpr ⟨cursor.current, [], rfl, hkind, rfl⟩, trivial⟩
  · have hat := hat.passes hpass
    refine (h mid hat).bind ?_
    rintro e tokens mid' hpass ⟨he, hfits⟩
    refine (parseNaming_after he (hat.passes hpass)).bind ?_
    rintro name more later - ⟨hspells, hvalid⟩
    split
    · exact .expected _
    · next hneeded =>
      refine .pure ⟨?_, hfits, hvalid, ?_⟩
      · rw [List.append_nil]
        exact hspells
      · rintro rfl
        simpa using hneeded

omit h in
/-- A star that a comma follows is the first of two items or more. -/
theorem exists_more {α : Type} {parser : Parse α} {more : List α} {later : Cursor}
    (hkind : cursor.kind 0 = .symbol .comma)
    (hok : repeated (onlyIf (eatSymbol .comma) parser) cursor = .ok more later) : more ≠ [] := by
  obtain ⟨token, rest, hahead, -, -⟩ := exists_ahead hkind TokenKind.noConfusion
  rw [repeated, bind_of_ok (get_run cursor), hahead, List.length_cons, repeatUpTo] at hok
  cases hrun : parser cursor.advanced with
  | ok value mid =>
    rw [bind_of_ok (onlyIf_true (eatSymbol_true hkind) hrun)] at hok
    have hok : (repeatUpTo (onlyIf (eatSymbol .comma) parser) rest.length >>= fun values =>
      pure (value :: values)) mid = .ok more later := hok
    cases hmore : repeatUpTo (onlyIf (eatSymbol .comma) parser) rest.length mid with
    | ok values later =>
      rw [bind_of_ok hmore] at hok
      cases hok
      exact List.cons_ne_nil value values
    | error error later =>
      rw [bind_of_error hmore] at hok
      cases hok
  | error error mid =>
    have hround : onlyIf (eatSymbol .comma) parser cursor = .error error mid := by
      rw [onlyIf, bind_of_ok (eatSymbol_true hkind)]
      exact bind_of_error hrun
    rw [bind_of_error hround] at hok
    cases hok

omit h in
theorem SelectItem.parse_star (hkind : cursor.kind 0 = .symbol .star) :
    SelectItem.parse expression cursor = .ok .all cursor.advanced := by
  rw [SelectItem.parse, bind_of_ok (eatSymbol_true hkind)]
  rfl

omit h in
/-- A star in front of a comma is not the only item. -/
theorem SelectItem.list_ne_all {list : List SelectItem} {later : Cursor}
    (hkind : cursor.kind 0 = .symbol .star) (hnext : cursor.kind 1 = .symbol .comma)
    (hok : Parse.commaList (SelectItem.parse expression) cursor = .ok list later) :
    list ≠ [.all] := by
  have hcomma : cursor.advanced.kind 0 = .symbol .comma := by
    rw [Cursor.kind, peek_advanced]
    exact hnext
  rw [Parse.commaList, bind_of_ok (SelectItem.parse_star hkind)] at hok
  have hok : (repeated (onlyIf (eatSymbol .comma) (SelectItem.parse expression)) >>= fun more =>
    pure (SelectItem.all :: more)) cursor.advanced = .ok list later := hok
  cases hmore : repeated (onlyIf (eatSymbol .comma) (SelectItem.parse expression))
      cursor.advanced with
  | ok more mid =>
    rw [bind_of_ok hmore] at hok
    cases hok
    intro hlist
    exact exists_more hcomma hmore (List.cons.inj hlist).2
  | error error mid =>
    rw [bind_of_error hmore] at hok
    cases hok

theorem SelectList.parse_sound :
    (SelectList.parse expression).Sound dialect levels SelectList.pieces
      (SelectList.Fits dialect levels) := by
  have hstar : IsFlat (.symbol .star) := isFlat_symbol (by simp) (by simp)
  intro cursor hat
  have hlist (hne : ∀ list later tokens, Parse.commaList (SelectItem.parse expression) cursor =
        .ok list later → cursor.Passes tokens later →
        Spells (Piece.commaList (list.map SelectItem.pieces)) tokens → list ≠ [.all]) :
      (Parse.commaList (SelectItem.parse expression) >>= fun list =>
        pure (SelectList.items list)).Reads cursor
        fun list tokens _ => Spells list.pieces tokens ∧ list.Fits dialect levels := by
    refine ((SelectItem.parse_sound h).commaList cursor hat).and_run.bind ?_
    rintro list tokens later hpass ⟨⟨hspells, hnil, hfits⟩, hrun⟩
    exact .pure ⟨by rwa [List.append_nil], hnil, hne list later tokens hrun hpass hspells, hfits⟩
  refine .look (kind_run 0 cursor) (.look (kind_run 1 cursor) ?_)
  split
  · next hkind hnext =>
    exact hlist fun list later _ hrun _ _ => SelectItem.list_ne_all hkind hnext hrun
  · next hkind _ =>
    refine (advance_reads (by simp [hkind]) (hkind ▸ hstar)).bind ?_
    rintro _ _ later - ⟨rfl, -⟩
    exact .pure ⟨spells_symbol.mpr ⟨cursor.current, [], rfl, hkind, rfl⟩, trivial⟩
  · next hkind _ =>
    refine hlist ?_
    rintro list later tokens - hpass hspells rfl
    obtain ⟨token, back, rfl, htoken, -⟩ := spells_symbol.mp hspells
    exact hkind (hpass.kind_eq.trans htoken)

omit h in
theorem atSelectList_run (cursor : Cursor) :
    ∃ found, atSelectList cursor = .ok found cursor := by
  refine ⟨!cursor.atKeyword .FROM && !cursor.atKeyword .OMIT, ?_⟩
  rw [atSelectList, bind_of_ok (atKeyword_run .FROM cursor)]
  rfl

/-- What is selected, unless it is left out. -/
theorem Projection.list_sound :
    (onlyIf atSelectList (SelectList.parse expression)).Sound dialect levels
      (fun list => list.elim [] SelectList.pieces)
      (fun list => ∀ items ∈ list, items.Fits dialect levels) := by
  intro cursor hat
  obtain ⟨found, hfound⟩ := atSelectList_run cursor
  refine .look hfound ?_
  cases found with
  | false => exact .pure ⟨rfl, by simp⟩
  | true =>
    refine (SelectList.parse_sound h cursor hat).bind ?_
    rintro list tokens later - ⟨hspells, hfits⟩
    refine .pure ⟨?_, by simpa using hfits⟩
    rw [List.append_nil]
    exact hspells

theorem Projection.parse_sound :
    (Projection.parse expression).Sound dialect levels Projection.pieces
      (Projection.Fits dialect levels) := by
  intro cursor hat
  refine (eatKeyword_reads .VALUE cursor).bind ?_
  rintro found tokens mid hpass (⟨rfl, rfl, hkind⟩ | ⟨rfl, rfl, -⟩)
  · have hat := hat.passes hpass
    refine (h mid hat).bind ?_
    rintro e tokens mid' hpass ⟨he, hfits⟩
    refine (parseNaming_after he (hat.passes hpass)).bind ?_
    rintro name more later - ⟨hspells, hvalid⟩
    refine .pure ⟨?_, hfits, hvalid⟩
    rw [List.append_nil]
    exact spells_space.mpr ((spells_after rfl).mpr ⟨cursor.current, _, rfl, hkind, hspells⟩)
  · have hat := hat.passes hpass
    refine (Projection.list_sound h mid hat).bind ?_
    rintro list tokens mid' hpass ⟨hlist, hfits⟩
    refine (OmitItem.parse_sound.commaList.onlyIf_eatKeyword (k := .OMIT) rfl mid'
      (hat.passes hpass)).bind ?_
    rintro omitted more later - ⟨homitted, hvalid⟩
    refine .pure ⟨?_, hfits, hvalid⟩
    rw [List.append_nil, Projection.pieces]
    exact (spells_optional.mpr hlist).append (spells_optional.mpr homitted)

variable {subquery : Parse Select} (hsubquery : subquery.Sound dialect levels Select.pieces
  fun query => ∃ below, levels = below + 1 ∧ query.Fits dialect below)

include hsubquery

omit h in
/-- The query between parentheses. -/
theorem SourceTable.subquery_yields :
    Yields dialect levels
      (do if ← atKeyword .SELECT then return SourceTable.subquery (← subquery)
          else expected [.keyword .SELECT])
      (fun table tokens => ∃ query, table = .subquery query ∧ Spells query.pieces tokens ∧
        table.Fits dialect levels) := by
  intro cursor hat
  refine .look (atKeyword_run .SELECT cursor) ?_
  split
  · refine (hsubquery cursor hat).bind ?_
    rintro query tokens later - ⟨hspells, hfits⟩
    exact .pure ⟨query, rfl, by rwa [List.append_nil], hfits⟩
  · exact .expected _

theorem SourceTable.parse_sound :
    (SourceTable.parse expression subquery).Sound dialect levels SourceTable.pieces
      (SourceTable.Fits dialect levels) := by
  intro cursor hat
  refine .look (kind_run 0 cursor) ?_
  split
  · next hkind =>
    refine (within_reads hat hkind (SourceTable.subquery_yields hsubquery)).mono ?_
    rintro _ _ later - ⟨opening, inner, closing, rfl, hopening, ⟨query, rfl, hquery, hfits⟩, hclosing⟩
    exact ⟨spells_enclosed.mpr ⟨opening, inner, closing, rfl, hopening, hquery, hclosing⟩, hfits⟩
  · next hkind =>
    refine (Expr.parseItems_sound h hat hkind).bind ?_
    rintro items tokens later - ⟨hspells, hfits⟩
    refine .pure ⟨?_, hfits⟩
    rw [List.append_nil]
    exact hspells
  · refine (FieldReference.parse_sound cursor hat).bind ?_
    rintro field tokens later - ⟨hspells, hvalid⟩
    exact .pure ⟨by rwa [List.append_nil], hvalid⟩
  · refine (FieldReference.parse_sound cursor hat).bind ?_
    rintro field tokens later - ⟨hspells, hvalid⟩
    exact .pure ⟨by rwa [List.append_nil], hvalid⟩
  · exact .expected _

omit h hsubquery in
theorem SourceTable.listPieces_eq (tables : List SourceTable) :
    SourceTable.listPieces tables = tables.map SourceTable.pieces := by
  induction tables with
  | nil => rfl
  | cons table tables ih => rw [SourceTable.listPieces, ih, List.map_cons]

omit h hsubquery in
theorem SourceTable.listFits_iff {tables : List SourceTable} :
    SourceTable.ListFits dialect levels tables ↔ ∀ table ∈ tables, table.Fits dialect levels := by
  induction tables with
  | nil => simp [SourceTable.ListFits]
  | cons table tables ih => simp [SourceTable.ListFits, ih]

omit h hsubquery in
/-- What is written for a source, with what is optional in the form in which it is read. -/
theorem Source.spells_mk {only : Bool} {tables : List SourceTable} {hint : Option IndexHint}
    {tokens : List Token} :
    Spells (Source.pieces ⟨only, tables, hint⟩) tokens ↔
      Spells (.keyword .FROM :: (Piece.flag .ONLY only ++
        (Piece.commaList (tables.map SourceTable.pieces) ++ hint.elim [] IndexHint.pieces)))
        tokens := by
  rw [Source.pieces, SourceTable.listPieces_eq, Piece.after, List.cons_append, List.cons_append,
    List.append_assoc, spells_keyword rfl, spells_keyword rfl]
  simp only [spells_space, spells_append, spells_leading (k := .ONLY) rfl, spells_optional]

omit h hsubquery in
theorem Source.hint_reads (hat : cursor.At dialect levels) :
    (onlyIf (atKeyword .WITH) IndexHint.parse).Reads cursor fun hint tokens later =>
      Spells (hint.elim [] IndexHint.pieces) tokens ∧ (∀ index ∈ hint, index.Valid dialect) ∧
        (hint = none → later.kind 0 ≠ .keyword .WITH) := by
  refine .look (atKeyword_run .WITH cursor) ?_
  by_cases hkind : cursor.kind 0 = .keyword .WITH
  · rw [atKeyword_iff.mpr hkind]
    refine (IndexHint.parse_sound cursor hat).bind ?_
    rintro index tokens later - ⟨hspells, hvalid⟩
    refine .pure ⟨?_, by simpa using hvalid, by simp⟩
    rw [List.append_nil]
    exact hspells
  · rw [Bool.eq_false_iff.mpr (mt atKeyword_iff.mp hkind)]
    exact .pure ⟨rfl, by simp, fun _ => hkind⟩

theorem Source.parse_reads (hat : cursor.At dialect levels) :
    (Source.parse expression subquery).Reads cursor fun source tokens later =>
      Spells source.pieces tokens ∧ source.Fits dialect levels ∧
        (source.hint = none → later.kind 0 ≠ .keyword .WITH) := by
  refine (keyword_reads .FROM cursor).bind ?_
  rintro _ _ mid hpass ⟨rfl, hfrom⟩
  have hat := hat.passes hpass
  refine (eatKeyword_yields (k := .ONLY) rfl mid hat).bind ?_
  rintro only tokens mid' hpass honly
  have hat := hat.passes hpass
  refine ((SourceTable.parse_sound h hsubquery).commaList mid' hat).bind ?_
  rintro tables tokens' mid'' hpass ⟨htables, hne, hfits⟩
  have hat := hat.passes hpass
  refine (Source.hint_reads hat).bind ?_
  rintro hint tokens'' later - ⟨hspells, hvalid, hnone⟩
  refine .pure ⟨Source.spells_mk.mpr ?_, ⟨hne, SourceTable.listFits_iff.mpr hfits, hvalid⟩, hnone⟩
  rw [List.append_nil]
  refine (spells_keyword rfl).mpr ⟨cursor.current, _, rfl, hfrom, ?_⟩
  exact honly.append (htables.append hspells)

omit h hsubquery in
theorem Select.pieces_mk (projection : Projection) (source : Source) (clauses : List Clause) :
    Select.pieces ⟨projection, source, clauses⟩ = .keyword .SELECT :: (projection.pieces ++
      .space :: (source.pieces ++ clauses.flatMap fun clause => .space :: clause.pieces)) := by
  simp [Select.pieces]

omit h hsubquery in
theorem Select.exists_lead (query : Select) {tokens : List Token}
    (hquery : Spells query.pieces tokens) :
    ∃ token back, tokens = token :: back ∧ token.kind = .keyword .SELECT := by
  obtain ⟨projection, source, clauses⟩ := query
  rw [Select.pieces_mk] at hquery
  exact hquery.exists_keyword (by decide)

omit h hsubquery in
/-- The first of the clauses begins with the keyword that stands in front of them. -/
theorem Clause.lead_of_kind {clauses : List Clause} {later : Cursor} {tokens : List Token}
    {k : Keyword} (hpass : cursor.Passes tokens later)
    (hclauses : Spells (clauses.flatMap fun clause => .space :: clause.pieces) tokens)
    (hkind : cursor.kind 0 ≠ .keyword k) : ∀ clause ∈ clauses.head?, clause.lead ≠ k := by
  intro clause hmem
  cases clauses with
  | nil => cases hmem
  | cons first clauses =>
    obtain rfl := Option.some.inj hmem
    obtain ⟨front, back, rfl, hfront, -⟩ := spells_append.mp hclauses
    obtain ⟨token, front, rfl, htoken⟩ := first.exists_lead (spells_space.mp hfront)
    rwa [hpass.kind_eq, htoken, Ne, TokenKind.keyword.injEq] at hkind

theorem Select.parseWith_sound :
    (Select.parseWith expression subquery).Sound dialect levels Select.pieces
      (Select.Fits dialect levels) := by
  intro cursor hat
  refine (keyword_reads .SELECT cursor).bind ?_
  rintro _ _ mid hpass ⟨rfl, hselect⟩
  have hat := hat.passes hpass
  refine (Projection.parse_sound h mid hat).bind ?_
  rintro projection tokens mid' hpass ⟨hprojection, hfits⟩
  have hat := hat.passes hpass
  refine (Source.parse_reads h hsubquery hat).bind ?_
  rintro source tokens' mid'' hpass ⟨hsource, hfits', hnone⟩
  have hat := hat.passes hpass
  refine (Sound.repeated (Clause.parse?_sound h) mid'' hat).bind ?_
  rintro clauses tokens'' later hpass ⟨hclauses, hfits''⟩
  refine .pure ⟨?_, hfits, hfits', hfits'', ?_⟩
  · rw [List.append_nil, Select.pieces_mk, spells_keyword rfl]
    refine ⟨cursor.current, _, rfl, hselect, hprojection.append ?_⟩
    exact spells_space.mpr (hsource.append hclauses)
  · exact fun hhint => Clause.lead_of_kind hpass hclauses (hnone hhint)

omit hsubquery in
theorem Assignment.parse_sound :
    (Assignment.parse expression).Sound dialect levels Assignment.pieces
      (Assignment.Fits dialect levels) := by
  have hequal : IsFlat (.symbol .equal) := isFlat_symbol (by simp) (by simp)
  intro cursor hat
  refine (FieldReference.parse_sound cursor hat).bind ?_
  rintro field tokens mid hpass ⟨hfield, hvalid⟩
  have hat := hat.passes hpass
  refine (symbol_reads hequal mid).bind ?_
  rintro _ _ mid' hpass ⟨rfl, hkind⟩
  refine (h mid' (hat.passes hpass)).bind ?_
  rintro value tokens' later - ⟨hvalue, hfits⟩
  refine .pure ⟨?_, hvalid, hfits⟩
  rw [List.append_nil, Assignment.pieces, List.append_assoc]
  refine hfield.append (spells_space.mpr (spells_symbol.mpr ?_))
  exact ⟨mid.current, tokens', rfl, hkind, spells_space.mpr hvalue⟩

end Queries

/-- A query that is read one level deeper. -/
theorem Select.nested_sound {subquery : Parse Select}
    (h : subquery.Sound dialect levels Select.pieces (Select.Fits dialect levels)) :
    (nested levels subquery).Sound dialect (levels + 1) Select.pieces
      fun query => ∃ below, levels + 1 = below + 1 ∧ query.Fits dialect below := by
  intro cursor hat
  have hat' : At dialect levels { cursor with levels := levels } := ⟨hat.genuine, rfl⟩
  refine .nested hat.levels_eq ((h _ hat').mono ?_)
  rintro query tokens later - ⟨hspells, hfits⟩
  exact ⟨hspells, levels, rfl, hfits⟩

theorem Select.parse_sound (dialect : Dialect) (levels : Nat) :
    (Select.parse levels).Sound dialect levels Select.pieces (Select.Fits dialect levels) := by
  induction levels with
  | zero =>
    exact Select.parseWith_sound (Expr.parseRanked_zero_sound dialect 0) fun cursor _ => .tooDeep
  | succ levels ih =>
    exact Select.parseWith_sound (Expr.parseRanked_zero_sound dialect (levels + 1))
      (Select.nested_sound ih)

/-- What follows the word RETURN. -/
def Output.body : Output → List Piece
  | .before => [.keyword .BEFORE]
  | .after => [.keyword .AFTER]
  | .diff => [.keyword .DIFF]
  | .fields list => list.pieces

theorem Output.pieces_eq (output : Output) : output.pieces = Piece.after .RETURN output.body := by
  cases output <;> rfl

section Changes

variable (h : expression.Sound dialect levels Expr.pieces (Expr.Fits dialect levels))

include h

theorem Output.parse_sound :
    (Output.parse expression).Sound dialect levels Output.body (Output.Fits dialect levels) := by
  intro cursor hat
  have hword {k : Keyword} (output : Output) (hkind : cursor.kind 0 = .keyword k)
      (hspelling : k.spellings = [[.keyword k]]) (hbody : output.body = [.keyword k])
      (hfits : output.Fits dialect levels) :
      (advance >>= fun _ => pure output).Reads cursor fun output tokens _ =>
        Spells output.body tokens ∧ output.Fits dialect levels := by
    refine behind_keyword hat hkind fun mid hat => .pure ⟨?_, hfits⟩
    rw [hbody]
    exact (spells_keyword hspelling).mpr ⟨cursor.current, [], rfl, hkind, rfl⟩
  refine .look (kind_run 0 cursor) ?_
  split
  · next hkind => exact hword .before hkind rfl rfl trivial
  · next hkind => exact hword .after hkind rfl rfl trivial
  · next hkind => exact hword .diff hkind rfl rfl trivial
  · refine (SelectList.parse_sound h cursor hat).bind ?_
    rintro list tokens later - ⟨hspells, hfits⟩
    refine .pure ⟨?_, hfits⟩
    rw [List.append_nil]
    exact hspells

omit h in
theorem duration_sound :
    Parse.duration.Sound dialect levels (fun value => [.duration value]) (fun _ => True) := by
  intro cursor _
  refine (duration_reads cursor).mono ?_
  rintro value _ later - ⟨token, rfl, hkind⟩
  exact ⟨spells_singleton.mpr ⟨token, rfl, hkind⟩, trivial⟩

/-- The end of a CREATE or UPDATE is read as it is written. -/
theorem Output.tail_reads {α : Type} {make : Option Output → Option Duration → Bool → α}
    {goal : α → List Token → Cursor → Prop} (hat : cursor.At dialect levels)
    (hgoal : ∀ output timeout parallel tokens later,
      Spells (Output.tailPieces output timeout parallel) tokens →
      (∀ o ∈ output, o.Fits dialect levels) → goal (make output timeout parallel) tokens later) :
    (Output.parse? expression >>= fun output => timeout? >>= fun timeout =>
      eatKeyword .PARALLEL >>= fun parallel => pure (make output timeout parallel)).Reads
      cursor goal := by
  refine ((Output.parse_sound h).onlyIf_eatKeyword (k := .RETURN) rfl cursor hat).bind ?_
  rintro output tokens mid hpass ⟨houtput, hfits⟩
  have hat := hat.passes hpass
  refine (duration_sound.onlyIf_eatKeyword (k := .TIMEOUT) rfl mid hat).bind ?_
  rintro timeout tokens' mid' hpass ⟨htimeout, -⟩
  refine (eatKeyword_yields (k := .PARALLEL) rfl mid' (hat.passes hpass)).bind ?_
  rintro parallel tokens'' later - hparallel
  refine .pure (hgoal output timeout parallel _ later ?_ hfits)
  rw [List.append_nil, Output.tailPieces, List.append_assoc]
  refine Spells.append (spells_optional.mpr ?_) ((spells_optional.mpr htimeout).append hparallel)
  cases output with
  | none => exact houtput
  | some output =>
    show Spells output.pieces tokens
    rw [Output.pieces_eq]
    exact houtput

omit h in
/-- Data that begins with a keyword of its own, whatever is read behind it. -/
theorem Data.behind_reads {α β : Type} {k : Keyword} {parser : Parse α}
    {written : α → List Piece} {valid : α → Prop} {make : α → Data} (wrap : Data → β)
    {goal : β → List Token → Cursor → Prop} (hat : cursor.At dialect levels)
    (hkind : cursor.kind 0 = .keyword k) (hspelling : k.spellings = [[.keyword k]])
    (hparser : parser.Sound dialect levels written valid)
    (hpieces : ∀ value, (make value).pieces = Piece.after k (written value))
    (hgoal : ∀ value tokens later, valid value → Spells (make value).pieces tokens →
      goal (wrap (make value)) tokens later) :
    (advance >>= fun _ => parser >>= fun value => pure (wrap (make value))).Reads cursor goal := by
  refine behind_keyword hat hkind fun mid hat => (hparser mid hat).bind ?_
  rintro value tokens later - ⟨hspells, hvalid⟩
  refine .pure (hgoal value _ later hvalid ?_)
  rw [List.append_nil, hpieces, spells_after hspelling]
  exact ⟨cursor.current, tokens, rfl, hkind, hspells⟩

theorem Data.parseEntries_sound :
    (Expr.parseEntries expression).Sound dialect levels Expr.objectPieces
      (fun entries => ∀ entry ∈ entries, entry.1.Valid ∧ entry.2.Fits dialect levels) := by
  refine (Expr.parseEntries_sound h).mono ?_ fun _ => id
  intro entries tokens hspells
  rwa [Expr.objectPieces, Expr.entryPieces_eq]

theorem Update.parsePatch_sound :
    (Update.parsePatch expression).Sound dialect levels Expr.arrayPieces
      (fun items => ∀ item ∈ items, item.Fits dialect levels) := by
  intro cursor hat
  refine .look (atSymbol_run _ cursor) ?_
  split
  · next hkind => exact Expr.parseItems_sound h hat (atSymbol_iff.mp hkind)
  · exact .expected _

theorem Create.parseData_sound :
    (Create.parseData expression).Sound dialect levels Data.pieces
      (fun data => data.Fits dialect levels ∧ data.Creates) := by
  intro cursor hat
  refine .look (kind_run 0 cursor) ?_
  split
  · next hkind =>
    exact Data.behind_reads id hat hkind rfl (Data.parseEntries_sound h)
      (fun _ => rfl) fun _ _ _ hvalid hspells => ⟨hspells, hvalid, trivial⟩
  · next hkind =>
    exact Data.behind_reads id hat hkind rfl (Assignment.parse_sound h).commaList
      (fun _ => rfl) fun _ _ _ hvalid hspells => ⟨hspells, hvalid, trivial⟩
  · next hkind =>
    exact Data.behind_reads id hat hkind rfl (Assignment.parse_sound h).commaList
      (fun _ => rfl) fun _ _ _ hvalid hspells => ⟨hspells, hvalid, trivial⟩
  · exact .expected _

theorem Update.parseData?_sound :
    (Update.parseData? expression).Sound dialect levels (fun data => data.elim [] Data.pieces)
      (fun data => ∀ d ∈ data, d.Fits dialect levels) := by
  intro cursor hat
  have hsome (data : Data) (tokens : List Token) (hfits : data.Fits dialect levels)
      (hspells : Spells data.pieces tokens) :
      Spells ((some data).elim [] Data.pieces) tokens ∧ ∀ d ∈ some data, d.Fits dialect levels :=
    ⟨hspells, by simpa using hfits⟩
  refine .look (kind_run 0 cursor) ?_
  split
  · next hkind =>
    exact Data.behind_reads some hat hkind rfl (Data.parseEntries_sound h) (fun _ => rfl)
      fun _ _ _ hvalid => hsome _ _ hvalid
  · next hkind =>
    exact Data.behind_reads some hat hkind rfl (Data.parseEntries_sound h) (fun _ => rfl)
      fun _ _ _ hvalid => hsome _ _ hvalid
  · next hkind =>
    exact Data.behind_reads some hat hkind rfl (Update.parsePatch_sound h) (fun _ => rfl)
      fun _ _ _ hvalid => hsome _ _ hvalid
  · next hkind =>
    exact Data.behind_reads some hat hkind rfl (Assignment.parse_sound h).commaList (fun _ => rfl)
      fun _ _ _ hvalid => hsome _ _ hvalid
  · next hkind =>
    exact Data.behind_reads some hat hkind rfl (Assignment.parse_sound h).commaList (fun _ => rfl)
      fun _ _ _ hvalid => hsome _ _ hvalid
  · exact .pure ⟨rfl, by simp⟩

omit h in
theorem Create.parseTarget_sound :
    Create.parseTarget.Sound dialect levels Identifier.pieces (Create.TargetValid dialect) := by
  intro cursor hat
  refine .look (kind_run 0 cursor) ?_
  split
  · next name hkind =>
    refine (advance_reads (by simp [hkind]) (isFlat_of_symbol? (by rw [hkind]; rfl))).bind ?_
    rintro _ _ later - ⟨rfl, -⟩
    exact .pure ⟨spells_singleton.mpr ⟨cursor.current, rfl, hkind⟩, .inl ⟨name, rfl⟩⟩
  · exact (Identifier.parse_sound cursor hat).mono fun _ _ _ _ hpost =>
      ⟨hpost.1, .inr hpost.2⟩
  · exact .expected _

omit h in
/-- What is written in front of the data of a CREATE or UPDATE. -/
theorem spells_targets {k : Keyword} {only : Bool} {targets : List (List Piece)}
    {tokens : List Token} (hspelling : k.spellings = [[.keyword k]]) :
    Spells (Piece.after k (Piece.leading .ONLY only ++ Piece.commaList targets)) tokens ↔
      Spells (.keyword k :: (Piece.flag .ONLY only ++ Piece.commaList targets)) tokens := by
  rw [spells_after hspelling, spells_keyword hspelling]
  simp only [spells_append, spells_leading (k := .ONLY) rfl]

theorem Create.parse_sound :
    (Create.parse expression).Sound dialect levels Create.pieces (Create.Fits dialect levels) := by
  intro cursor hat
  refine (keyword_reads .CREATE cursor).bind ?_
  rintro _ _ mid hpass ⟨rfl, hcreate⟩
  have hat := hat.passes hpass
  refine (eatKeyword_yields (k := .ONLY) rfl mid hat).bind ?_
  rintro only tokens mid' hpass honly
  have hat := hat.passes hpass
  refine (Create.parseTarget_sound.commaList mid' hat).bind ?_
  rintro targets tokens' mid'' hpass ⟨htargets, hne, hvalid⟩
  have hat := hat.passes hpass
  refine (Create.parseData_sound h mid'' hat).bind ?_
  rintro data tokens'' later hpass ⟨hdata, hfits, hcreates⟩
  refine Output.tail_reads h (hat.passes hpass) ?_
  rintro output timeout parallel rest _ hrest houtput
  refine ⟨?_, hne, hvalid, hfits, hcreates, houtput⟩
  have hfront := (spells_targets rfl).mpr ((spells_keyword rfl).mpr
    ⟨cursor.current, _, rfl, hcreate, honly.append htargets⟩)
  have hall := (hfront.append (spells_space.mpr hdata)).append hrest
  simpa [Create.pieces] using hall

theorem Update.parse_sound :
    (Update.parse expression).Sound dialect levels Update.pieces (Update.Fits dialect levels) := by
  intro cursor hat
  refine (keyword_reads .UPDATE cursor).bind ?_
  rintro _ _ mid hpass ⟨rfl, hupdate⟩
  have hat := hat.passes hpass
  refine (eatKeyword_yields (k := .ONLY) rfl mid hat).bind ?_
  rintro only tokens mid' hpass honly
  have hat := hat.passes hpass
  refine (h.commaList mid' hat).bind ?_
  rintro targets tokens' mid'' hpass ⟨htargets, hne, hvalid⟩
  have hat := hat.passes hpass
  refine (Update.parseData?_sound h mid'' hat).bind ?_
  rintro data tokens'' behind hpass ⟨hdata, hfits⟩
  have hat := hat.passes hpass
  refine (h.onlyIf_eatKeyword (k := .WHERE) rfl behind hat).bind ?_
  rintro condition more later hpass ⟨hcondition, hfits'⟩
  refine Output.tail_reads h (hat.passes hpass) ?_
  rintro output timeout parallel rest _ hrest houtput
  refine ⟨?_, hne, hvalid, hfits, hfits', houtput⟩
  have hfront := (spells_targets rfl).mpr ((spells_keyword rfl).mpr
    ⟨cursor.current, _, rfl, hupdate, honly.append htargets⟩)
  have hall := ((hfront.append (spells_optional.mpr hdata)).append
    (spells_optional.mpr hcondition)).append hrest
  rw [← Expr.itemPieces_eq] at hall
  simpa [Update.pieces] using hall

end Changes

/-- Statements are read as they are written. -/
theorem Statement.parseAt_sound (dialect : Dialect) (levels : Nat) :
    (Statement.parseAt levels).Sound dialect levels Statement.pieces
      (Statement.Fits dialect levels) := by
  have h := Expr.parseRanked_zero_sound dialect levels
  intro cursor hat
  refine .look (kind_run 0 cursor) ?_
  split
  · refine (Select.parse_sound dialect levels cursor hat).bind ?_
    rintro query tokens later - ⟨hspells, hfits⟩
    exact .pure ⟨by rwa [List.append_nil], hfits⟩
  · refine (Create.parse_sound h cursor hat).bind ?_
    rintro query tokens later - ⟨hspells, hfits⟩
    exact .pure ⟨by rwa [List.append_nil], hfits⟩
  · refine (Update.parse_sound h cursor hat).bind ?_
    rintro query tokens later - ⟨hspells, hfits⟩
    exact .pure ⟨by rwa [List.append_nil], hfits⟩
  · refine (h cursor hat).bind ?_
    rintro e tokens later - ⟨hspells, hfits⟩
    exact .pure ⟨by rwa [List.append_nil], hfits⟩

end Sound
end EdgeQuery
