import EdgeQuery.Proofs.Expr.Lockstep
import EdgeQuery.Statement.Parse

/-!
Clauses and statements are read alike from alike tokens, up to the semicolon behind the statement.
-/

namespace EdgeQuery

open Cursor Parse Walk

namespace Likeness

variable {like : Likeness} {expression expression' : Parse Expr}

section Clauses

theorem steps_omitItem : like.Steps OmitItem.parse OmitItem.parse := by
  refine steps_fieldReference.bind fun field =>
    .lookBoth (fun kind other hkind => ?_) fun _ _ => .pure _
  split
  · exact .advance (by simp) (StepsAt.bind (.within steps_identifier.commaList) fun _ => .pure _)
  · exact (Steps.pure _).atPair

theorem steps_orderDirection : like.Steps OrderDirection.parse? OrderDirection.parse? := by
  refine (steps_eatKeyword .ASC).bind fun found => ?_
  cases found with
  | true => exact .pure _
  | false =>
    refine (steps_eatKeyword .DESC).bind fun found => ?_
    cases found with
    | true => exact .pure _
    | false => exact .pure _

theorem steps_orderModifier : like.Steps OrderModifier.parse? OrderModifier.parse? := by
  refine .look fun kind => ?_
  cases kind with
  | keyword k =>
    cases k with
    | COLLATE => exact .advance TokenKind.noConfusion (steps_orderDirection.map _)
    | NUMERIC => exact .advance TokenKind.noConfusion (steps_orderDirection.map _)
    | _ => exact (steps_orderDirection.map _).at
  | _ => exact (steps_orderDirection.map _).at

theorem steps_skipping {α : Type} {inner inner' : Parse α} (filler : Keyword)
    (h : like.Steps inner inner') :
    like.Steps (Clause.skipping filler inner) (Clause.skipping filler inner') :=
  (steps_eatKeyword filler).bind fun _ => h

theorem steps_fetchItem : like.Steps FetchItem.parse FetchItem.parse := by
  intro room left right hcursors
  rw [FetchItem.parse, bind_of_ok (get_run left), bind_of_ok (get_run right), hcursors.arrow?_eq]
  cases harrow : left.arrow? with
  | none => exact steps_parseIdentifier.map _ room left right hcursors
  | some direction =>
    exact (stepsAt_edgePath direction).bind (fun path => steps_parseNaming.map _) room left right
      hcursors (arrow?_eq_some.mp harrow)

/-- What stands behind WITH is read alike. -/
theorem Agree.indexHint {room : Nat} {left right : Cursor}
    (h : like.Agree (fun _ => room) (keyword .WITH left) (keyword .WITH right)) :
    like.Agree (fun _ => room) (IndexHint.parse left) (IndexHint.parse right) := by
  refine h.bind fun _ mid mid' hmid => ?_
  refine (steps_eatKeyword .NOINDEX room mid mid' hmid).bind fun found later later' hlater => ?_
  cases found with
  | true => exact .ok hlater
  | false =>
    refine (steps_eatKeyword .INDEX room later later' hlater).bind fun found last last' hlast => ?_
    cases found with
    | true => exact steps_parseIdentifier.commaList.map _ room last last' hlast
    | false => exact Steps.expected _ room last last' hlast

theorem steps_indexHint : like.Steps IndexHint.parse IndexHint.parse :=
  fun room left right hcursors => (steps_keyword .WITH room left right hcursors).indexHint

section Values

variable (h : like.Steps expression expression')
include h

theorem steps_orderTarget :
    like.Steps (OrderTarget.parse expression) (OrderTarget.parse expression') := by
  refine .lookBoth (fun kind other hkind => ?_) fun _ _ => h.map _
  split
  · exact .advance TokenKind.noConfusion (StepsAt.bind (.within (.pure ())) fun _ => .pure _)
  · exact (h.map _).atPair

theorem steps_orderItem :
    like.Steps (OrderItem.parse expression) (OrderItem.parse expression') :=
  (steps_orderTarget h).bind fun _ => steps_orderModifier.map _

theorem steps_grouping :
    like.Steps (Grouping.parse expression) (Grouping.parse expression') := by
  refine (steps_eatKeyword .ALL).bind fun found => ?_
  cases found with
  | true => exact .pure _
  | false => exact h.commaList.map _

/-- A clause takes a token at least, the keyword that it begins with. -/
theorem items_clause :
    like.Items (Clause.parse? expression) (Clause.parse? expression') := by
  intro room left right hcursors
  rw [Clause.parse?, Clause.parse?, bind_of_ok (kind_run 0 left), bind_of_ok (kind_run 0 right),
    hcursors.kind_eq]
  cases hkind : left.kind 0 with
  | keyword k =>
    have hagree {next next' : Unit → Parse (Option Clause)}
        (hnext : like.Steps (next ()) (next' ())) :
        like.Agree (roomBehind room) ((advance >>= next) left) ((advance >>= next') right) :=
      hnext.agree_behind hcursors (by simp [hkind]) (by simp [hkind])
    cases k with
    | WHERE => exact hagree (h.map _)
    | SPLIT => exact hagree (steps_fieldReference.map _)
    | OMIT => exact hagree (steps_omitItem.commaList.map _)
    | GROUP => exact hagree ((steps_skipping .BY (steps_grouping h)).map _)
    | ORDER => exact hagree ((steps_skipping .BY (steps_orderItem h).commaList).map _)
    | LIMIT => exact hagree ((steps_skipping .BY h).map _)
    | START => exact hagree ((steps_skipping .AT h).map _)
    | FETCH => exact hagree (steps_fetchItem.commaList.map _)
    | TIMEOUT => exact hagree (steps_duration.map _)
    | PARALLEL => exact hagree (.pure _)
    | TEMPFILES => exact hagree (.pure _)
    | EXPLAIN => exact hagree ((steps_eatKeyword .FULL).map _)
    | WITH =>
      refine (agree_keyword hcursors hkind).indexHint.bind fun _ mid mid' hmid => ?_
      exact .ok hmid
    | _ => exact .ok hcursors
  | _ => exact .ok hcursors

end Values
end Clauses

section Statements

theorem steps_atSelectList : like.Steps atSelectList atSelectList := by
  refine (steps_atKeyword .FROM).bind fun _ => (steps_atKeyword .OMIT).map _

variable (h : like.Steps expression expression')
include h

theorem steps_selectItem :
    like.Steps (SelectItem.parse expression) (SelectItem.parse expression') := by
  refine (steps_eatSymbol (by simp)).bind fun found => ?_
  cases found with
  | true => exact .pure _
  | false =>
    refine h.bind fun value => steps_parseNaming.bind fun name => ?_
    split
    · exact .expected _
    · exact .pure _

theorem steps_selectList :
    like.Steps (SelectList.parse expression) (SelectList.parse expression') := by
  have hitems := (steps_selectItem h).commaList.map SelectList.items
  refine .lookBoth (fun kind other hkind => ?_) fun _ _ => hitems
  split
  · exact hitems.atPair
  · exact (StepsAt.advance hkind (.pure SelectList.wildcard)).atPair
  · exact hitems.atPair

theorem steps_projection :
    like.Steps (Projection.parse expression) (Projection.parse expression') := by
  refine (steps_eatKeyword .VALUE).bind fun found => ?_
  cases found with
  | true => exact h.bind fun value => steps_parseNaming.map _
  | false =>
    exact (Steps.onlyIf steps_atSelectList (steps_selectList h)).bind fun _ =>
      (Steps.onlyIf (steps_eatKeyword .OMIT) steps_omitItem.commaList).map _

theorem steps_sourceTable {subquery subquery' : Parse Select}
    (hsubquery : like.Steps subquery subquery') :
    like.Steps (SourceTable.parse expression subquery)
      (SourceTable.parse expression' subquery') := by
  refine .look fun kind => ?_
  split
  · exact .within (.atKeyword (hsubquery.map _).at (.expected _))
  · exact StepsAt.bind (.delimitedList h) fun _ => .pure _
  · exact (steps_fieldReference.map _).at
  · exact (steps_fieldReference.map _).at
  · exact (Steps.expected _).at

theorem steps_source {subquery subquery' : Parse Select}
    (hsubquery : like.Steps subquery subquery') :
    like.Steps (Source.parse expression subquery) (Source.parse expression' subquery') := by
  refine (steps_keyword .FROM).bind fun _ => (steps_eatKeyword .ONLY).bind fun _ =>
    (steps_sourceTable h hsubquery).commaList.bind fun _ => ?_
  exact (Steps.onlyIf (steps_atKeyword .WITH) steps_indexHint).map _

theorem steps_select {subquery subquery' : Parse Select}
    (hsubquery : like.Steps subquery subquery') :
    like.Steps (Select.parseWith expression subquery) (Select.parseWith expression' subquery') :=
  (steps_keyword .SELECT).bind fun _ => (steps_projection h).bind fun _ =>
    (steps_source h hsubquery).bind fun _ => (items_clause h).repeated.map _

theorem steps_assignment :
    like.Steps (Assignment.parse expression) (Assignment.parse expression') :=
  steps_fieldReference.bind fun field => (steps_symbol (by simp)).bind fun _ => h.map _

theorem steps_output :
    like.Steps (Output.parse expression) (Output.parse expression') := by
  refine .look fun kind => ?_
  split
  · exact .advance TokenKind.noConfusion (.pure _)
  · exact .advance TokenKind.noConfusion (.pure _)
  · exact .advance TokenKind.noConfusion (.pure _)
  · exact ((steps_selectList h).map _).at

theorem steps_output? :
    like.Steps (Output.parse? expression) (Output.parse? expression') :=
  .onlyIf (steps_eatKeyword .RETURN) (steps_output h)

omit h in
theorem steps_timeout : like.Steps timeout? timeout? :=
  .onlyIf (steps_eatKeyword .TIMEOUT) steps_duration

omit h in
theorem steps_createTarget : like.Steps Create.parseTarget Create.parseTarget := by
  refine .look fun kind => ?_
  split
  · exact .advance TokenKind.noConfusion (.pure _)
  · exact steps_parseIdentifier.at
  · exact (Steps.expected _).at

theorem steps_createData :
    like.Steps (Create.parseData expression) (Create.parseData expression') := by
  refine .look fun kind => ?_
  split
  · exact .advance TokenKind.noConfusion ((steps_parseEntries h).map _)
  · exact .advance TokenKind.noConfusion ((steps_assignment h).commaList.map _)
  · exact .advance TokenKind.noConfusion ((steps_assignment h).commaList.map _)
  · exact (Steps.expected _).at

theorem steps_create :
    like.Steps (Create.parse expression) (Create.parse expression') :=
  (steps_keyword .CREATE).bind fun _ => (steps_eatKeyword .ONLY).bind fun _ =>
    steps_createTarget.commaList.bind fun _ => (steps_createData h).bind fun _ =>
      (steps_output? h).bind fun _ => steps_timeout.bind fun _ =>
        (steps_eatKeyword .PARALLEL).map _

theorem steps_patch :
    like.Steps (Update.parsePatch expression) (Update.parsePatch expression') :=
  .atSymbol (.delimitedList h) (.expected _)

theorem steps_updateData :
    like.Steps (Update.parseData? expression) (Update.parseData? expression') := by
  refine .look fun kind => ?_
  split
  · exact .advance TokenKind.noConfusion ((steps_parseEntries h).map _)
  · exact .advance TokenKind.noConfusion ((steps_parseEntries h).map _)
  · exact .advance TokenKind.noConfusion ((steps_patch h).map _)
  · exact .advance TokenKind.noConfusion ((steps_assignment h).commaList.map _)
  · exact .advance TokenKind.noConfusion ((steps_assignment h).commaList.map _)
  · exact (Steps.pure _).at

theorem steps_update :
    like.Steps (Update.parse expression) (Update.parse expression') :=
  (steps_keyword .UPDATE).bind fun _ => (steps_eatKeyword .ONLY).bind fun _ =>
    h.commaList.bind fun _ => (steps_updateData h).bind fun _ =>
      (Steps.onlyIf (steps_eatKeyword .WHERE) h).bind fun _ =>
        (steps_output? h).bind fun _ => steps_timeout.bind fun _ =>
          (steps_eatKeyword .PARALLEL).map _

end Statements

section Levels

variable {levels levels' : Nat}

/-- A subquery takes a nesting level from both readers. The induction is on the levels that the
first one has. -/
theorem steps_parseSelect (h : like.Levels levels levels') :
    like.Steps (Select.parse levels) (Select.parse levels') := by
  induction levels generalizing levels' with
  | zero =>
    have hexpression := steps_parseRanked h 0
    rcases h.of_zero with rfl | hfewer
    · exact steps_select hexpression .tooDeep
    · cases levels' with
      | zero => exact steps_select hexpression .tooDeep
      | succ below => exact steps_select hexpression (.tooDeep_left hfewer)
  | succ levels ih =>
    obtain ⟨below, rfl, hbelow⟩ := h.of_succ
    exact steps_select (steps_parseRanked h 0) (.nested (ih hbelow))

theorem steps_parseAt (h : like.Levels levels levels') :
    like.Steps (Statement.parseAt levels) (Statement.parseAt levels') := by
  have hexpression := steps_parseRanked h 0
  refine .look fun kind => ?_
  split
  · exact ((steps_parseSelect h).map _).at
  · exact ((steps_create hexpression).map _).at
  · exact ((steps_update hexpression).map _).at
  · exact (hexpression.map _).at

end Levels
end Likeness
end EdgeQuery
