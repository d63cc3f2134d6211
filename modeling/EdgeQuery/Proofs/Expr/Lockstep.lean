import EdgeQuery.Proofs.Expr.Sound
import EdgeQuery.Proofs.Parse.Lockstep

/-!
References and expressions are read alike from alike tokens. Where the parsers of whole expressions
have different numbers of nesting levels, those that are put together from them have so, too.
-/

namespace EdgeQuery

open Cursor Parse Walk

namespace Likeness

variable {like : Likeness}

section References

theorem Tokens.recordKey_eq {left right : Token} (h : like.Tokens left right) :
    RecordKey.ofToken? right = RecordKey.ofToken? left := by
  rw [RecordKey.ofToken?, RecordKey.ofToken?, h.kind_eq, h.name?_eq]

/-- A record key is no semicolon. -/
theorem ne_semicolon_of_recordKey {token : Token} {key : RecordKey}
    (h : RecordKey.ofToken? token = some key) : token.kind ≠ .symbol .semicolon := by
  intro hkind
  rw [RecordKey.ofToken?, Token.name?, hkind] at h
  cases h

theorem steps_recordKey : like.Steps RecordKey.parse? RecordKey.parse? := by
  intro room left right hcursors
  by_cases hleft : left.kind 0 = .symbol .colon
  · have hright : right.kind 0 = .symbol .colon := hcursors.kind_eq.trans hleft
    have hne : left.kind 0 ≠ .symbol .semicolon := by simp [hleft]
    rw [RecordKey.parse?, bind_of_ok (get_run left), bind_of_ok (get_run right),
      atSymbol_iff.mpr hleft, atSymbol_iff.mpr hright, (hcursors.next hne).recordKey_eq]
    cases hkey : RecordKey.ofToken? (left.peek 1) with
    | none => exact .ok hcursors
    | some key =>
      have hbehind : left.advanced.kind 0 ≠ .symbol .semicolon := by
        rw [Cursor.kind, peek_advanced]
        exact ne_semicolon_of_recordKey hkey
      exact .ok ((hcursors.advanced hne).advanced hbehind)
  · have hright : right.kind 0 ≠ .symbol .colon := hcursors.kind_eq ▸ hleft
    rw [RecordKey.parse?_none hleft, RecordKey.parse?_none hright]
    exact .ok hcursors

theorem Cursors.atChainDot_eq {room : Nat} {left right : Cursor}
    (h : like.Cursors room left right) : right.atChainDot = left.atChainDot := by
  rw [atChainDot, atChainDot, h.atSymbol_eq]
  cases hleft : left.atSymbol .dot with
  | false => rfl
  | true =>
    have hnext := h.next (by simp [atSymbol_iff.mp hleft])
    rw [Cursor.name?, Cursor.name?, hnext.name?_eq]

theorem items_nextName : like.Items nextName? nextName? := by
  intro room left right hcursors
  rw [nextName?, bind_of_ok (get_run left), bind_of_ok (get_run right), hcursors.atChainDot_eq]
  cases hleft : left.atChainDot with
  | false => exact .ok hcursors
  | true =>
    rw [atChainDot, Bool.and_eq_true] at hleft
    have hkind := atSymbol_iff.mp hleft.1
    exact (steps_name.map some).agree_behind hcursors (by simp [hkind]) (by simp [hkind])

theorem steps_parseKey (name : String) :
    like.Steps (Identifier.parseKey name) (Identifier.parseKey name) := by
  refine steps_recordKey.bind fun key => ?_
  cases key with
  | some key => exact .pure _
  | none => exact .pure _

theorem steps_parseIdentifier : like.Steps Identifier.parse Identifier.parse := by
  refine steps_identifier.bind fun name => steps_recordKey.bind fun key => ?_
  cases key with
  | some key => exact .pure _
  | none => exact items_nextName.repeated.map _

theorem items_nextSegment : like.Items Identifier.nextSegment? Identifier.nextSegment? := by
  intro room left right hcursors
  refine (items_nextName room left right hcursors).bind ?_
  intro name mid mid' hmid
  cases name with
  | none => exact .ok hmid
  | some name =>
    exact ((steps_parseKey name).map some room mid mid' hmid).mono (room_le_roomBehind room)

theorem steps_parseNaming : like.Steps Identifier.parseNaming Identifier.parseNaming :=
  .onlyIf (steps_eatKeyword .AS) steps_parseIdentifier

theorem Cursors.arrow?_eq {room : Nat} {left right : Cursor} (h : like.Cursors room left right) :
    right.arrow? = left.arrow? := by
  rw [arrow?, arrow?, h.kind_eq]

theorem stepsAt_edgePath (direction : Direction) :
    like.StepsAt (.symbol (.arrow direction)) (EdgePath.parse direction)
      (EdgePath.parse direction) := by
  refine .advance (by simp) (steps_parseIdentifier.bind fun first => ?_)
  refine Steps.bind (.onlyIf (steps_eatSymbol (by simp)) steps_parseIdentifier) fun second => ?_
  intro room left right hcursors
  rw [bind_of_ok (get_run left), bind_of_ok (get_run right), hcursors.arrow?_eq]
  cases left.arrow? with
  | some direction => exact Steps.expected _ room left right hcursors
  | none => exact .ok hcursors

theorem steps_parseChain : like.Steps FieldReference.parseChain FieldReference.parseChain := by
  refine steps_identifier.bind fun name => (steps_parseKey name).bind fun first =>
    items_nextSegment.repeated.bind fun more => ?_
  cases Identifier.ofSegments? first more with
  | none => exact .pure _
  | some origin =>
    intro room left right hcursors
    dsimp only
    rw [bind_of_ok (get_run left), bind_of_ok (get_run right), hcursors.arrow?_eq]
    cases harrow : left.arrow? with
    | none => exact .ok hcursors
    | some direction =>
      exact (stepsAt_edgePath direction).bind (fun _ => .pure _) room left right hcursors
        (arrow?_eq_some.mp harrow)

theorem steps_fieldReference : like.Steps FieldReference.parse FieldReference.parse := by
  refine .look fun kind => ?_
  cases kind with
  | identifier name => exact steps_parseChain.at
  | symbol s =>
    cases s with
    | arrow direction => exact (stepsAt_edgePath direction).bind fun path => .pure _
    | _ => exact (Steps.expected _).at
  | _ => exact (Steps.expected _).at

end References

section Expressions

variable {expression expression' : Parse Expr} (h : like.Steps expression expression')

theorem steps_objectKey : like.Steps ObjectKey.parse ObjectKey.parse := by
  refine .look fun kind => ?_
  cases kind with
  | string content => exact .advance TokenKind.noConfusion (.pure _)
  | _ =>
    intro room left right hcursors _
    dsimp only
    rw [bind_of_ok (get_run left), bind_of_ok (get_run right), hcursors.name?_eq]
    cases hname : left.name? 0 with
    | none => exact Steps.expected _ room left right hcursors
    | some name =>
      exact StepsAt.advance (ne_semicolon_of_name? hname) (items_nextName.repeated.map _) room left
        right hcursors rfl

include h

theorem steps_parseEntry : like.Steps (Expr.parseEntry expression) (Expr.parseEntry expression') :=
  steps_objectKey.bind fun key => (steps_symbol (by simp)).bind fun _ => h.map (key, ·)

theorem steps_parseEntries :
    like.Steps (Expr.parseEntries expression) (Expr.parseEntries expression') :=
  .atSymbol (.delimitedList (steps_parseEntry h)) (.expected _)

theorem steps_parseNamespaceCall :
    like.Steps (Expr.parseNamespaceCall expression) (Expr.parseNamespaceCall expression') := by
  refine steps_identifier.bind fun space => (steps_symbol (by simp)).bind fun _ =>
    steps_identifier.bind fun function => ?_
  refine (Steps.onlyIf_atSymbol (.delimitedList h)).bind fun args => ?_
  exact .atSymbol (StepsAt.bind (.delimitedList h) fun _ => .pure _) (.pure _)

theorem steps_parseReference :
    like.Steps (Expr.parseReference expression) (Expr.parseReference expression') := by
  refine steps_fieldReference.bind fun target => .atSymbol ?_ (.pure _)
  cases target with
  | identifier id => exact StepsAt.bind (.delimitedList h) fun _ => .pure _
  | path segments => exact StepsAt.bind (.delimitedList h) fun _ => .pure _
  | edge origin path => exact (Steps.pure _).at

theorem stepsAt_parseEnclosed (delimiter : Delimiter) :
    like.StepsAt (.symbol (.opening delimiter)) (Expr.parseEnclosed expression delimiter)
      (Expr.parseEnclosed expression' delimiter) := by
  cases delimiter with
  | paren => exact StepsAt.bind (.within h) fun _ => .pure _
  | bracket => exact StepsAt.bind (.delimitedList h) fun _ => .pure _
  | brace => exact ((steps_parseEntries h).map _).at

theorem steps_parsePrimary :
    like.Steps (Expr.parsePrimary expression) (Expr.parsePrimary expression') := by
  refine .look fun kind => ?_
  cases kind with
  | number value => exact .advance TokenKind.noConfusion (.pure _)
  | duration value => exact .advance TokenKind.noConfusion (.pure _)
  | string content => exact .advance TokenKind.noConfusion (.pure _)
  | «variable» name => exact .advance TokenKind.noConfusion (.pure _)
  | identifier name =>
    refine .lookNext TokenKind.noConfusion fun other => ?_
    cases other with
    | symbol s =>
      cases s with
      | doubleColon => exact (steps_parseNamespaceCall h).atPair
      | _ => exact (steps_parseReference h).atPair
    | _ => exact (steps_parseReference h).atPair
  | symbol s =>
    cases s with
    | opening delimiter => exact stepsAt_parseEnclosed h delimiter
    | arrow direction => exact (steps_parseReference h).at
    | _ => exact (Steps.expected _).at
  | _ => exact (Steps.expected _).at

end Expressions

section Operators

/-- An operator is no semicolon. -/
theorem ne_semicolon_of_operator {kind : TokenKind} {op : BinaryOp}
    (h : BinaryOp.ofToken? kind = some op) : kind ≠ .symbol .semicolon := by
  rintro rfl
  cases h

/-- A parser that goes on according to the operator that stands here. -/
theorem Steps.operator {least : Nat} {next next' : Option (BinaryOp × Nat) → Parse Expr}
    (hsome : ∀ kind bound, kind ≠ .symbol .semicolon →
      like.StepsAt kind (next (some bound)) (next' (some bound)))
    (hnone : like.Steps (next none) (next' none)) :
    like.Steps (Expr.operator? least >>= next) (Expr.operator? least >>= next') := by
  intro room left right hcursors
  rw [bind_of_ok (Expr.operator?_run least left), bind_of_ok (Expr.operator?_run least right),
    hcursors.kind_eq]
  cases hbound : BinaryOp.bound? least (left.kind 0) with
  | none => exact hnone room left right hcursors
  | some bound =>
    have hop := BinaryOp.ofToken?_of_bound? hbound
    exact hsome _ bound (ne_semicolon_of_operator hop) room left right hcursors rfl

theorem Levels.refl (levels : Nat) : like.Levels levels levels := .inl rfl

theorem Levels.of_succ {levels levels' : Nat} (h : like.Levels (levels + 1) levels') :
    ∃ below, levels' = below + 1 ∧ like.Levels levels below := by
  rcases h with rfl | ⟨hfewer, hle⟩
  · exact ⟨levels, rfl, .refl levels⟩
  · cases levels' with
    | zero => omega
    | succ below => exact ⟨below, rfl, .inr ⟨hfewer, Nat.le_of_succ_le_succ hle⟩⟩

theorem Levels.of_zero {levels' : Nat} (h : like.Levels 0 levels') : levels' = 0 ∨ like.fewer := by
  rcases h with rfl | ⟨hfewer, -⟩
  · exact .inl rfl
  · exact .inr hfewer

/-- With any operand on the left, the operators that follow are read alike. -/
def Operators (like : Likeness) (levels levels' : Nat) : Prop :=
  ∀ least left, like.Steps (Expr.parseOperators levels least left)
    (Expr.parseOperators levels' least left)

theorem operators_zero {levels' : Nat} (h : like.Levels 0 levels') :
    like.Operators 0 levels' := by
  intro least operand
  rcases h.of_zero with rfl | hfewer
  · exact .operator (fun _ _ _ => Steps.tooDeep.at) (.pure operand)
  · cases levels' with
    | zero => exact .operator (fun _ _ _ => Steps.tooDeep.at) (.pure operand)
    | succ below => exact .operator (fun _ _ _ => (Steps.tooDeep_left hfewer).at) (.pure operand)

theorem ranked_and_operators (levels : Nat) : ∀ levels', like.Levels levels levels' →
    (∀ least, like.Steps (Expr.parseRanked levels least) (Expr.parseRanked levels' least)) ∧
      like.Operators levels levels' := by
  induction levels with
  | zero =>
    intro levels' h
    refine ⟨fun least => ?_, operators_zero h⟩
    rcases h.of_zero with rfl | hfewer
    · exact .tooDeep
    · exact .tooDeep_left hfewer
  | succ levels ih =>
    intro levels' h
    obtain ⟨below, rfl, hbelow⟩ := h.of_succ
    obtain ⟨hranked, hoperators⟩ := ih below hbelow
    constructor
    · intro least
      exact .nested ((steps_parsePrimary (hranked 0)).bind fun operand => hoperators least operand)
    · intro least operand
      refine .operator (fun kind bound hkind => .nested (.advance hkind ?_)) (.pure operand)
      exact (hranked _).bind fun right => hoperators least (.binary operand bound.1 right)

/-- Expressions are read alike, unless the first reader runs out of nesting levels. -/
theorem steps_parseRanked {levels levels' : Nat} (h : like.Levels levels levels') (least : Nat) :
    like.Steps (Expr.parseRanked levels least) (Expr.parseRanked levels' least) :=
  (ranked_and_operators levels levels' h).1 least

end Operators
end Likeness
end EdgeQuery
