import EdgeQuery.Proofs.Expr.Sound

/-!
Expressions are read back from what is written for them, given the nesting levels that they take and
a token behind them that does not go on with them.
-/

namespace EdgeQuery

open Cursor Parse Walk

namespace Cursor

/-- Nothing here goes on with the operand before it. -/
def EndsOperand (cursor : Cursor) : Prop :=
  cursor.EndsReference ∧ cursor.kind 0 ≠ .symbol (.opening .paren) ∧
    cursor.kind 0 ≠ .symbol .doubleColon

/-- Nothing here goes on with the expression before it, whose operators bind at least as tightly as
the rank says. -/
def EndsRanked (rank : Nat) (cursor : Cursor) : Prop :=
  cursor.EndsOperand ∧ cursor.EndsRank rank

end Cursor

/-- Whether an operand is over before the token, whatever stands behind it. -/
def TokenKind.endsOperand : TokenKind → Bool
  | .symbol .dot | .symbol .colon | .symbol .doubleColon => false
  | .symbol (.opening .paren) | .symbol (.arrow _) => false
  | _ => true

/-- Whether a token can only stand behind an expression that is over. -/
def TokenKind.endsExpr : TokenKind → Bool
  | .symbol .comma | .symbol .semicolon | .symbol (.closing _) | .endOfInput => true
  | .keyword k => (BinaryOp.ofToken? (.keyword k)).isNone
  | _ => false

/-- Whether an expression can begin with the token. -/
def TokenKind.startsExpr : TokenKind → Bool
  | .number _ | .duration _ | .string _ | .variable _ | .identifier _ => true
  | .symbol (.opening _) | .symbol (.arrow _) => true
  | _ => false

namespace Cursor

variable {cursor : Cursor} {rank : Nat}

theorem EndsOperand.of_kind (h : (cursor.kind 0).endsOperand = true) : cursor.EndsOperand := by
  have hnot {s : Symbol} (hs : (TokenKind.symbol s).endsOperand = false) :
      cursor.kind 0 ≠ .symbol s := by
    intro hkind
    rw [hkind, hs] at h
    cases h
  refine ⟨⟨.of_kind (hnot rfl) (hnot rfl), ?_⟩, hnot rfl, hnot rfl⟩
  cases harrow : cursor.arrow? with
  | none => rfl
  | some direction => exact absurd (arrow?_eq_some.mp harrow) (hnot rfl)

theorem endsOperand_of_endsExpr {kind : TokenKind} (h : kind.endsExpr = true) :
    kind.endsOperand = true := by
  cases kind with
  | symbol s => cases s <;> first | rfl | cases h
  | _ => rfl

theorem ofToken?_of_endsExpr {kind : TokenKind} (h : kind.endsExpr = true) :
    BinaryOp.ofToken? kind = none := by
  cases kind with
  | symbol s => cases s <;> first | rfl | cases h
  | keyword k => exact Option.isNone_iff_eq_none.mp h
  | _ => rfl

theorem EndsRanked.of_endsExpr (h : (cursor.kind 0).endsExpr = true) : cursor.EndsRanked rank := by
  refine ⟨.of_kind (endsOperand_of_endsExpr h), ?_⟩
  intro op hop
  rw [ofToken?_of_endsExpr h] at hop
  cases hop

theorem EndsRanked.mono {other : Nat} (h : cursor.EndsRanked rank) (hle : rank ≤ other) :
    cursor.EndsRanked other :=
  ⟨h.1, fun op hop => Nat.lt_of_lt_of_le (h.2 op hop) hle⟩

theorem endsOperand_of_operator {op : BinaryOp} {kind : TokenKind}
    (h : BinaryOp.ofToken? kind = some op) : kind.endsOperand = true := by
  cases kind with
  | symbol s => cases s <;> first | rfl | cases h
  | _ => rfl

/-- An operator that binds less tightly ends an expression. -/
theorem EndsRanked.of_operator {op : BinaryOp} (hop : BinaryOp.ofToken? (cursor.kind 0) = some op)
    (hrank : op.level.rank < rank) : cursor.EndsRanked rank := by
  refine ⟨.of_kind (endsOperand_of_operator hop), ?_⟩
  intro other hother
  rw [hop] at hother
  obtain rfl := Option.some.inj hother
  exact hrank

end Cursor

theorem ObjectKey.parse_completes {dialect : Dialect} {levels : Nat} :
    ObjectKey.parse.Completes dialect levels ObjectKey.pieces ObjectKey.Valid
      (fun later => later.atChainDot = false) := by
  refine .of_faces fun key cursor later hfaces hvalid hlater => ?_
  have hnames (first : String) (more : List String)
      (hfaces : cursor.Faces dialect levels
        (.word first :: more.flatMap fun name => [.symbol .dot, .word name]) later)
      (hkey : key = if more.isEmpty then .raw first else .dotted (first :: more)) :
      ObjectKey.parse cursor = .ok key later := by
    obtain ⟨hname, hmore⟩ := hfaces.word
    have hmore := nextNames_complete.run hmore trivial hlater
    rw [ObjectKey.parse, bind_of_ok (kind_run 0 cursor), Cursor.kind]
    -- A string is no name.
    rcases kind_of_name? hname with hkind | ⟨k, hkind⟩
    all_goals
      rw [hkind]
      dsimp only
      rw [bind_of_ok (get_run cursor), hname]
      dsimp only
      rw [bind_of_ok (advance_run cursor), bind_of_ok hmore, hkey]
      rfl
  cases key with
  | raw name => exact hnames name [] hfaces rfl
  | dotted names =>
    obtain ⟨first, second, more, rfl⟩ := hvalid
    refine hnames first (second :: more) ?_ rfl
    have hfaces : cursor.Faces dialect levels
      (Piece.dotted ((first :: second :: more).map fun name => [.word name])) later := hfaces
    rw [List.map_cons, Piece.dotted_cons, List.flatMap_map] at hfaces
    exact hfaces
  | string content =>
    obtain ⟨-, tokens, hpass, hspells⟩ := hfaces
    obtain ⟨token, rfl, hkind⟩ := spells_singleton.mp hspells
    rw [ObjectKey.parse, bind_of_ok (kind_run 0 cursor), hpass.kind_eq, hkind, hpass.advanced_eq]
    rfl

/-- No entry of an object begins with a closing brace. -/
theorem ObjectKey.parse_closing {cursor : Cursor} {delimiter : Delimiter}
    (h : cursor.kind 0 = .symbol (.closing delimiter)) :
    ObjectKey.parse cursor = .error (cursor.fault [.objectKey]) cursor := by
  have hname : cursor.name? 0 = none := by
    have hkind : (cursor.peek 0).kind = .symbol (.closing delimiter) := h
    rw [Cursor.name?, Token.name?, hkind]
  rw [ObjectKey.parse, bind_of_ok (kind_run 0 cursor), h]
  dsimp only
  rw [bind_of_ok (get_run cursor), hname]
  rfl

namespace Expr

section Parts

variable {dialect : Dialect} {levels : Nat} {expression : Parse Expr} {cursor : Cursor}

theorem parseEntry_completes
    (h : expression.Completes dialect levels pieces (Fits dialect levels) (EndsRanked 0)) :
    (parseEntry expression).Completes dialect levels entryPiecesOf
      (fun entry => entry.1.Valid ∧ entry.2.Fits dialect levels) (EndsRanked 0) := by
  refine .of_faces fun entry cursor later hfaces hentry hlater => ?_
  obtain ⟨mid, hfront, hback⟩ := hfaces.split
  obtain ⟨hkind, hvalue⟩ := hback.symbol
  have hmid : mid.atChainDot = false := atChainDot_eq_false (by simp [hkind])
  rw [parseEntry, bind_of_ok (ObjectKey.parse_completes.run hfront hentry.1 hmid),
    bind_of_ok (symbol_ok hkind), bind_of_ok (h.run hvalue.space hentry.2 hlater)]
  rfl

theorem parseEntries_completes
    (h : expression.Completes dialect levels pieces (Fits dialect levels) (EndsRanked 0)) :
    (parseEntries expression).Completes dialect levels
      (fun entries => braced (entries.map entryPiecesOf))
      (fun entries => ∀ entry ∈ entries, entry.1.Valid ∧ entry.2.Fits dialect levels)
      (fun _ => True) := by
  have hbegins (cursor later : Cursor) (entry : ObjectKey × Expr)
      (hok : parseEntry expression cursor = .ok entry later) :
      cursor.kind 0 ≠ .symbol (.closing .brace) := by
    intro hkind
    rw [parseEntry, bind_of_error (ObjectKey.parse_closing hkind)] at hok
    cases hok
  have hlist := (parseEntry_completes h).delimitedList .brace hbegins
    (fun cursor hkind => .of_endsExpr (by rw [hkind]; rfl))
    (fun cursor hkind => .of_endsExpr (by rw [hkind]; rfl))
  refine .of_faces fun entries cursor later hfaces hvalid hlater => ?_
  have hfaces := hfaces.mono fun _ => spells_braced.mp
  rw [parseEntries, bind_of_ok (atSymbol_run _ cursor), atSymbol_iff.mpr hfaces.opening]
  exact hlist.run hfaces hvalid hlater

variable (h : expression.Completes dialect levels pieces (Fits dialect levels) (EndsRanked 0))
  (hbegins : ∀ (cursor later : Cursor) (e : Expr), expression cursor = .ok e later →
    (cursor.kind 0).startsExpr = true)

include h hbegins

theorem parseList_completes (delimiter : Delimiter) :
    (delimitedList delimiter expression).Completes dialect levels
      (fun items => Piece.enclosed delimiter (Piece.commaList (items.map pieces)))
      (fun items => ∀ item ∈ items, item.Fits dialect levels) (fun _ => True) := by
  refine h.delimitedList delimiter ?_ ?_ ?_
  · intro cursor later e hok hkind
    have hstarts := hbegins cursor later e hok
    rw [hkind] at hstarts
    cases hstarts
  · exact fun cursor hkind => .of_endsExpr (by rw [hkind]; rfl)
  · exact fun cursor hkind => .of_endsExpr (by rw [hkind]; rfl)

/-- A function of a namespace is read back with its own arguments, and with those that its outcome
is applied to. -/
theorem parseNamespaceCall_complete {function : NamespaceCall Expr} {later : Cursor}
    (hfaces : cursor.Faces dialect levels (callPieces function) later)
    (hvalid : function.Valid dialect)
    (hargs : ∀ arg ∈ function.args.getD [], arg.Fits dialect levels)
    (hlater : function.args = none → later.kind 0 ≠ .symbol (.opening .paren)) :
    cursor.kind 0 = .identifier function.space ∧ cursor.kind 1 = .symbol .doubleColon ∧
      parseNamespaceCall expression cursor =
        (atSymbol (.opening .paren) >>= fun applied =>
          if applied then parseArguments expression >>= fun args =>
            pure (call (.namespaceCall function) args)
          else pure (namespaceCall function)) later := by
  obtain ⟨space, name, args⟩ := function
  obtain ⟨hspace, hname⟩ := hvalid
  rw [callPieces_eq] at hfaces
  obtain ⟨hkind, hfaces⟩ := hfaces.free hspace
  obtain ⟨hcolon, hfaces⟩ := hfaces.symbol
  obtain ⟨hkind', hfaces⟩ := hfaces.free hname
  have hnext : cursor.kind 1 = .symbol .doubleColon := by
    rw [Cursor.kind, ← peek_advanced]
    exact hcolon
  have hown : onlyIf (atSymbol (.opening .paren)) (parseArguments expression)
      cursor.advanced.advanced.advanced = .ok args later := by
    cases args with
    | none =>
      rw [← hfaces.eq_of_nil]
      exact noArguments_run (hlater rfl)
    | some own =>
      have hfaces : Faces dialect levels _
        (Piece.enclosed .paren (Piece.commaList (own.map pieces))) later := hfaces
      exact onlyIf_true (by rw [atSymbol_run, atSymbol_iff.mpr hfaces.opening])
        ((parseList_completes h hbegins .paren).run hfaces hargs trivial)
  refine ⟨hkind, hnext, ?_⟩
  rw [parseNamespaceCall, bind_of_ok (identifier_ok hkind), bind_of_ok (symbol_ok hcolon),
    bind_of_ok (identifier_ok hkind'), bind_of_ok hown]

/-- Arguments behind a reference make it a call. -/
theorem parseReference_call (target : FieldReference) {callee : Callee Expr} {args : List Expr}
    {mid later : Cursor} (htarget : cursor.Faces dialect levels target.pieces mid)
    (hvalid : target.Valid dialect)
    (hcallee : (∃ id, target = .identifier id ∧ callee = .identifier id) ∨
      ∃ segments, target = .path segments ∧ callee = .path segments)
    (hback : mid.Faces dialect levels
      (Piece.enclosed .paren (Piece.commaList (args.map pieces))) later)
    (hargs : ∀ arg ∈ args, arg.Fits dialect levels) :
    FieldReference.parse cursor = .ok target mid ∧
      parseReference expression cursor = .ok (call callee args) later := by
  have hopen := hback.opening
  have hends : mid.EndsReference := by
    refine ⟨.of_kind (by simp [hopen]) (by simp [hopen]), ?_⟩
    rw [arrow?, hopen]
  have htarget := FieldReference.parse_completes.run htarget hvalid hends
  have hrun : parseArguments expression mid = .ok args later :=
    (parseList_completes h hbegins .paren).run hback hargs trivial
  refine ⟨htarget, ?_⟩
  rw [parseReference, bind_of_ok htarget, bind_of_ok (atSymbol_run _ mid), atSymbol_iff.mpr hopen]
  rcases hcallee with ⟨id, rfl, rfl⟩ | ⟨segments, rfl, rfl⟩
  · show (parseArguments expression >>= fun args => pure (call (.identifier id) args)) mid = _
    rw [bind_of_ok hrun]
    rfl
  · show (parseArguments expression >>= fun args => pure (call (.path segments) args)) mid = _
    rw [bind_of_ok hrun]
    rfl

omit h hbegins in
/-- What begins with a reference, and is no function of a namespace, is read as a reference. -/
theorem parsePrimary_of_reference {target : FieldReference} {mid : Cursor}
    (htarget : FieldReference.parse cursor = .ok target mid)
    (hmid : mid.kind 0 ≠ .symbol .doubleColon) :
    parsePrimary expression cursor = parseReference expression cursor := by
  rcases FieldReference.parse_starts htarget with ⟨direction, hkind⟩ | ⟨name, hkind, hnext⟩
  · rw [parsePrimary, bind_of_ok (kind_run 0 cursor), hkind]
  · rw [parsePrimary, bind_of_ok (kind_run 0 cursor), hkind]
    dsimp only
    rw [bind_of_ok (kind_run 1 cursor)]
    cases hkind' : cursor.kind 1 with
    | symbol s =>
      cases s with
      | doubleColon => exact absurd (hnext hkind') hmid
      | _ => rfl
    | _ => rfl

/-- What a function of a namespace is read as, once its name and arguments have been read. -/
theorem parsePrimary_namespaceCall {function : NamespaceCall Expr} {later : Cursor}
    (hfaces : cursor.Faces dialect levels (callPieces function) later)
    (hvalid : function.Valid dialect)
    (hargs : ∀ arg ∈ function.args.getD [], arg.Fits dialect levels)
    (hlater : function.args = none → later.kind 0 ≠ .symbol (.opening .paren)) :
    parsePrimary expression cursor =
      (atSymbol (.opening .paren) >>= fun applied =>
        if applied then parseArguments expression >>= fun args =>
          pure (call (.namespaceCall function) args)
        else pure (namespaceCall function)) later := by
  obtain ⟨hkind, hnext, hrun⟩ :=
    parseNamespaceCall_complete h hbegins hfaces hvalid hargs hlater
  rw [parsePrimary, bind_of_ok (kind_run 0 cursor), hkind]
  dsimp only
  rw [bind_of_ok (kind_run 1 cursor), hnext]
  exact hrun

/-- A call is read back from its callee and the arguments behind it. -/
theorem parsePrimary_call {callee : Callee Expr} {args : List Expr} {later : Cursor}
    (hfaces : cursor.Faces dialect levels (call callee args).pieces later)
    (hcallee : callee.Valid dialect)
    (hchildren : ∀ child ∈ (call callee args).children, child.Fits dialect levels) :
    parsePrimary expression cursor = .ok (call callee args) later := by
  rw [pieces_call] at hfaces
  obtain ⟨mid, hfront, hback⟩ := hfaces.split
  have hopen := hback.opening
  have hargs : ∀ arg ∈ args, arg.Fits dialect levels :=
    fun arg hmem => hchildren arg (List.mem_append_right _ hmem)
  cases callee with
  | identifier id =>
    obtain ⟨htarget, hrun⟩ := parseReference_call h hbegins
      (.identifier id) hfront hcallee (.inl ⟨id, rfl, rfl⟩) hback hargs
    rw [parsePrimary_of_reference htarget (by simp [hopen]), hrun]
  | path segments =>
    obtain ⟨htarget, hrun⟩ := parseReference_call h hbegins
      (.path segments) hfront hcallee (.inr ⟨segments, rfl, rfl⟩) hback hargs
    rw [parsePrimary_of_reference htarget (by simp [hopen]), hrun]
  | namespaceCall function =>
    have hrun := (parseList_completes h hbegins .paren).run hback hargs trivial
    have hown : ∀ arg ∈ function.args.getD [], arg.Fits dialect levels :=
      fun arg hmem => hchildren arg (List.mem_append_left _ hmem)
    have hsome : function.args = none → mid.kind 0 ≠ .symbol (.opening .paren) := by
      intro hnone
      have := hcallee.2
      rw [hnone] at this
      cases this
    rw [parsePrimary_namespaceCall h hbegins hfront hcallee.1 hown hsome,
      bind_of_ok (atSymbol_run _ mid), atSymbol_iff.mpr hopen]
    exact bind_pure_of_ok (call (.namespaceCall function)) hrun

omit h hbegins in
/-- What brackets enclose is read by what the bracket says. -/
theorem parsePrimary_enclosed {delimiter : Delimiter}
    (hkind : cursor.kind 0 = .symbol (.opening delimiter)) :
    parsePrimary expression cursor = parseEnclosed expression delimiter cursor := by
  rw [parsePrimary, bind_of_ok (kind_run 0 cursor), hkind]

omit h hbegins in
/-- A literal is read back from its token. -/
theorem parsePrimary_literal {value : Literal} {later : Cursor}
    (hfaces : cursor.Faces dialect levels (literal value).pieces later) :
    parsePrimary expression cursor = .ok (literal value) later := by
  obtain ⟨-, tokens, hpass, hspells⟩ := hfaces
  cases value
  all_goals
    obtain ⟨token, rfl, hkind⟩ := spells_singleton.mp hspells
    rw [parsePrimary, bind_of_ok (kind_run 0 cursor), hpass.kind_eq, hkind, hpass.advanced_eq]
    rfl

theorem parsePrimary_completes :
    (parsePrimary expression).Completes dialect levels pieces
      (fun e => e.IsPrimary ∧ e.Fits dialect (levels + 1)) EndsOperand := by
  refine .of_faces fun e cursor later hfaces he hlater => ?_
  obtain ⟨hprimary, hfits⟩ := he
  obtain ⟨hnode, hchildren⟩ := (fits_iff_of_isPrimary hprimary).mp hfits
  obtain ⟨hends, hparen, hcolons⟩ := hlater
  cases e with
  | literal value => exact parsePrimary_literal hfaces
  | «variable» name =>
    obtain ⟨-, tokens, hpass, hspells⟩ := hfaces
    obtain ⟨token, rfl, hkind⟩ := spells_singleton.mp hspells
    rw [parsePrimary, bind_of_ok (kind_run 0 cursor), hpass.kind_eq, hkind, hpass.advanced_eq]
    rfl
  | binary left op right => exact hprimary.elim
  | reference target =>
    have htarget := FieldReference.parse_completes.run hfaces hnode hends
    rw [parsePrimary_of_reference htarget hcolons, parseReference, bind_of_ok htarget,
      bind_of_ok (atSymbol_run _ later), Bool.eq_false_iff.mpr (mt atSymbol_iff.mp hparen)]
    rfl
  | call callee args => exact parsePrimary_call h hbegins hfaces hnode hchildren
  | namespaceCall function =>
    rw [parsePrimary_namespaceCall h hbegins hfaces hnode hchildren fun _ => hparen,
      bind_of_ok (atSymbol_run _ later), Bool.eq_false_iff.mpr (mt atSymbol_iff.mp hparen)]
    rfl
  | object entries =>
    rw [pieces_object] at hfaces
    have hentries : ∀ entry ∈ entries, entry.1.Valid ∧ entry.2.Fits dialect levels :=
      fun entry hmem => ⟨hnode entry hmem, hchildren _ (List.mem_map_of_mem hmem)⟩
    have hrun := (parseEntries_completes h).run hfaces hentries trivial
    rw [parsePrimary_enclosed (hfaces.mono fun _ => spells_braced.mp).opening, parseEnclosed,
      bind_of_ok hrun]
    rfl
  | array items =>
    rw [pieces_array] at hfaces
    have hrun := (parseList_completes h hbegins .bracket).run hfaces hchildren trivial
    rw [parsePrimary_enclosed hfaces.opening, parseEnclosed, parseItems, bind_of_ok hrun]
    rfl
  | paren inner =>
    have hinner := h.within .paren (fun cursor hkind => .of_endsExpr (by rw [hkind]; rfl))
    have hrun := hinner.run hfaces (hchildren inner (by simp [children])) trivial
    rw [parsePrimary_enclosed hfaces.opening, parseEnclosed, bind_of_ok hrun]
    rfl

end Parts

section Ranked

variable {dialect : Dialect} {cursor later : Cursor} {e : Expr}

theorem parsePrimary_starts {expression : Parse Expr}
    (h : parsePrimary expression cursor = .ok e later) : (cursor.kind 0).startsExpr = true := by
  rw [parsePrimary, bind_of_ok (kind_run 0 cursor)] at h
  cases hkind : cursor.kind 0 with
  | symbol s =>
    rw [hkind] at h
    cases s with
    | arrow direction => rfl
    | opening delimiter => rfl
    | _ => cases h
  | keyword k => rw [hkind] at h; cases h
  | endOfInput => rw [hkind] at h; cases h
  | error error => rw [hkind] at h; cases h
  | _ => rfl

theorem parseRanked_starts {levels least : Nat}
    (h : parseRanked levels least cursor = .ok e later) : (cursor.kind 0).startsExpr = true := by
  cases levels with
  | zero => cases h
  | succ levels =>
    have hstart : (modify fun cursor : Cursor => { cursor with levels := levels } : Parse Unit)
        cursor = .ok () { cursor with levels := levels } := rfl
    rw [parseRanked, nested, bind_of_ok hstart] at h
    cases hleft : parsePrimary (parseRanked levels 0) { cursor with levels := levels } with
    | error error mid =>
      rw [bind_of_error (bind_of_error hleft)] at h
      cases h
    | ok left mid =>
      have hstarts := parsePrimary_starts hleft
      exact hstarts

/-- An operator is written as one token. -/
theorem spells_operator {op : BinaryOp} {more : List Piece} {tokens : List Token}
    (h : Spells (op.piece :: more) tokens) :
    ∃ token back, tokens = token :: back ∧ BinaryOp.ofToken? token.kind = some op ∧
      Spells more back := by
  obtain ⟨front, back, rfl, hfront, hback⟩ := h
  have hsingle : front.length = 1 := by
    have hall : ∀ k : Keyword, op.piece = .keyword k → ∀ s ∈ k.spellings, s.length = 1 := by
      cases op <;> intro k hk <;> cases hk <;> decide
    cases hpiece : op.piece with
    | keyword k =>
      rw [hpiece] at hfront
      rw [← List.length_map (f := Token.kind)]
      exact hall k hpiece _ hfront
    | symbol s =>
      rw [hpiece] at hfront
      obtain ⟨token, rfl, -⟩ := hfront
      rfl
    | _ => cases op <;> cases hpiece
  obtain ⟨token, rfl⟩ := List.length_eq_one_iff.mp hsingle
  exact ⟨token, back, rfl, BinaryOp.ofToken?_iff.mpr hfront, hback⟩

theorem faces_operator {dialect : Dialect} {levels : Nat} {op : BinaryOp} {more : List Piece}
    (h : cursor.Faces dialect levels (.space :: op.piece :: .space :: more) later) :
    BinaryOp.ofToken? (cursor.kind 0) = some op ∧
      cursor.advanced.Faces dialect levels more later := by
  obtain ⟨hop, -, hmore⟩ := h.space.step fun _ => spells_operator
  exact ⟨hop, hmore.space⟩

/-- What can follow an operand when a chain of operators follows it. -/
theorem endsRanked_of_chain {levels rank : Nat} {chain : List (BinaryOp × Expr)}
    (hfaces : cursor.Faces dialect levels (chainPieces chain) later)
    (hchain : ∀ link ∈ chain, link.1.level.rank < rank) (hlater : later.EndsRanked rank) :
    cursor.EndsRanked rank := by
  cases chain with
  | nil =>
    obtain rfl := hfaces.eq_of_nil
    exact hlater
  | cons link chain => exact .of_operator (faces_operator hfaces).1 (hchain link (by simp))

/-- What has to hold for expressions to be read back. -/
def RankedComplete (dialect : Dialect) (levels : Nat) : Prop :=
  ∀ rank : Nat, (parseRanked levels (2 * rank)).Completes dialect levels pieces
    (fun e => e.Fits dialect levels ∧ e.Binds rank) (EndsRanked rank)

/-- What has to hold for operators to be read back behind an operand. -/
def OperatorsComplete (dialect : Dialect) (levels : Nat) : Prop :=
  ∀ (rank : Nat) (left : Expr) (chain : List (BinaryOp × Expr)) (cursor : Cursor)
    (tokens : List Token) (later : Cursor), cursor.At dialect levels →
    cursor.Passes tokens later → Spells (chainPieces chain) tokens → ChainFits rank chain →
    (∀ link ∈ chain, link.2.Valid dialect) → chainLevels chain ≤ levels →
    later.EndsRanked rank →
    parseOperators levels (2 * rank) left cursor = .ok (ofChain left chain) later

theorem rank_lt (level : Precedence) : level.rank < 5 := by
  cases level <;> decide

theorem ranked_complete_succ {levels : Nat} (hranked : RankedComplete dialect levels)
    (hoperators : OperatorsComplete dialect levels) : RankedComplete dialect (levels + 1) := by
  intro rank
  refine .of_faces fun e cursor later hfaces he hlater => ?_
  obtain ⟨⟨hvalid, hlevels⟩, hbinds⟩ := he
  have hexpression : (parseRanked levels 0).Completes dialect levels pieces (Fits dialect levels)
      (EndsRanked 0) :=
    (hranked 0).mono (fun _ _ => id) (fun e he => ⟨he, binds_zero e⟩) (fun _ => id)
  rw [hvalid.pieces_eq] at hfaces
  obtain ⟨mid, hfront, hback⟩ := (hfaces.withLevels levels).split
  rw [levels_eq] at hlevels
  -- The operand in front of the chain, which takes all levels but one for its parts.
  have hends : mid.EndsOperand := by
    have hlater' : EndsRanked (max rank 5) { later with levels := levels } :=
      EndsRanked.mono hlater (Nat.le_max_left rank 5)
    have hranks (link : BinaryOp × Expr) (hmem : link ∈ e.chain) :
        link.1.level.rank < max rank 5 :=
      Nat.lt_of_lt_of_le (rank_lt link.1.level) (Nat.le_max_right rank 5)
    exact (endsRanked_of_chain hback hranks hlater').1
  have hhead : parsePrimary (parseRanked levels 0) { cursor with levels := levels } =
      .ok e.head mid :=
    (parsePrimary_completes hexpression fun _ _ _ => parseRanked_starts).run hfront
      ⟨head_isPrimary e, hvalid.head, by omega⟩ hends
  have hchain : chainLevels e.chain ≤ levels := by
    by_cases hnil : e.chain = []
    · rw [hnil]
      exact Nat.zero_le _
    · rw [if_neg hnil] at hlevels
      omega
  obtain ⟨hat, tokens, hpass, hspells⟩ := hback
  have hrest := hoperators rank e.head e.chain mid tokens _ hat hpass hspells
    (hvalid.chainFits hbinds) hvalid.chain hchain hlater
  rw [ofChain_chain] at hrest
  rw [parseRanked]
  refine nested_of_faces hfaces ?_
  rw [bind_of_ok hhead, hrest]

theorem operators_complete_nil {levels rank : Nat} {left : Expr} (hends : cursor.EndsRanked rank) :
    parseOperators levels (2 * rank) left cursor = .ok left cursor := by
  cases levels with
  | zero => rw [parseOperators, bind_of_ok (operator?_none hends.2)]; rfl
  | succ levels => rw [parseOperators, bind_of_ok (operator?_none hends.2)]; rfl

theorem operators_complete_zero : OperatorsComplete dialect 0 := by
  intro rank left chain cursor tokens later hat hpass hspells hfits hvalid hlevels hlater
  cases chain with
  | nil =>
    obtain rfl : tokens = [] := hspells
    obtain rfl := hpass.eq_of_nil
    exact operators_complete_nil hlater
  | cons link chain =>
    rw [chainLevels] at hlevels
    omega

theorem operators_complete_succ {levels : Nat} (hranked : RankedComplete dialect levels)
    (hoperators : OperatorsComplete dialect levels) : OperatorsComplete dialect (levels + 1) := by
  intro rank left chain cursor tokens later hat hpass hspells hfits hvalid hlevels hlater
  cases chain with
  | nil =>
    obtain rfl : tokens = [] := hspells
    obtain rfl := hpass.eq_of_nil
    exact operators_complete_nil hlater
  | cons link chain =>
    obtain ⟨op, right⟩ := link
    obtain ⟨hpairs, hlinks⟩ := hfits
    obtain ⟨hrank, hright⟩ := hlinks (op, right) (by simp)
    rw [List.pairwise_cons] at hpairs
    have hchain : ∀ link ∈ chain, link.1.level.rank < op.level.rank + 1 :=
      fun link hmem => Nat.lt_succ_of_le (hpairs.1 link hmem)
    rw [chainLevels] at hlevels
    have hfaces : cursor.Faces dialect (levels + 1)
      (.space :: op.piece :: .space :: (right.pieces ++ chainPieces chain)) later :=
      ⟨hat, tokens, hpass, hspells⟩
    obtain ⟨hop, -⟩ := faces_operator hfaces
    obtain ⟨-, hbehind⟩ := faces_operator (hfaces.withLevels levels)
    obtain ⟨mid, hoperand, hrest⟩ := hbehind.split
    -- What follows the right operand binds no more tightly than the operator before it.
    have hends : mid.EndsRanked (op.level.rank + 1) := by
      refine endsRanked_of_chain hrest hchain ?_
      exact EndsRanked.mono hlater (Nat.le_succ_of_le hrank)
    have hlevels' : right.levels ≤ levels := by
      have : 1 + max right.levels (chainLevels chain) ≤ levels + 1 := hlevels
      omega
    have hrun := (hranked (op.level.rank + 1)).run hoperand
      ⟨⟨hvalid (op, right) (by simp), hlevels'⟩, hright⟩ hends
    obtain ⟨hat', tokens', hpass', hspells'⟩ := hrest
    have hmore := hoperators rank (.binary left op right) chain mid tokens' _ hat' hpass' hspells'
      ⟨hpairs.2, fun link hmem => hlinks link (List.mem_cons_of_mem _ hmem)⟩
      (fun link hmem => hvalid link (List.mem_cons_of_mem _ hmem)) (by omega) hlater
    rw [parseOperators, bind_of_ok (operator?_some hop hrank)]
    refine nested_of_faces hfaces ?_
    rw [bind_of_ok (advance_run _), bind_of_ok hrun]
    exact hmore

/-- By induction on the levels that are left, as for what is read. -/
theorem ranked_and_operators_complete (levels : Nat) :
    RankedComplete dialect levels ∧ OperatorsComplete dialect levels := by
  induction levels with
  | zero =>
    refine ⟨?_, operators_complete_zero⟩
    intro rank e cursor tokens later hat hpass hspells he hlater
    exact absurd he.1.2 (Nat.not_le.mpr e.levels_pos)
  | succ levels ih =>
    exact ⟨ranked_complete_succ ih.1 ih.2, operators_complete_succ ih.1 ih.2⟩

/-- An expression is read back from what is written for it. -/
theorem parseRanked_completes (dialect : Dialect) (levels rank : Nat) :
    (parseRanked levels (2 * rank)).Completes dialect levels pieces
      (fun e => e.Fits dialect levels ∧ e.Binds rank) (EndsRanked rank) :=
  (ranked_and_operators_complete levels).1 rank

theorem parseRanked_zero_completes (dialect : Dialect) (levels : Nat) :
    (parseRanked levels 0).Completes dialect levels pieces (Fits dialect levels) (EndsRanked 0) :=
  (parseRanked_completes dialect levels 0).mono (fun _ _ => id) (fun e he => ⟨he, binds_zero e⟩)
    fun _ => id

end Ranked
end Expr
end EdgeQuery
