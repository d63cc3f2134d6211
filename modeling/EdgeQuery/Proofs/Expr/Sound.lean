import EdgeQuery.Expr.Parse
import EdgeQuery.Proofs.Expr.Valid

/-!
Expressions are read as they are written. Every tree that is read groups its operators as they bind,
and takes no more nesting levels than there are; what has been read of a chain of operators is never
split up by the operator behind it.
-/

namespace EdgeQuery

open Cursor Parse Walk

theorem ObjectKey.parse_sound {dialect : Dialect} {levels : Nat} :
    ObjectKey.parse.Sound dialect levels ObjectKey.pieces ObjectKey.Valid := by
  intro cursor hat
  refine .look (kind_run 0 cursor) ?_
  split
  · next content hkind =>
    refine (advance_reads (by simp [hkind]) (isFlat_of_symbol? (by rw [hkind]; rfl))).bind ?_
    rintro _ _ mid hpass ⟨rfl, -⟩
    exact .pure ⟨spells_singleton.mpr ⟨cursor.current, rfl, hkind⟩, trivial⟩
  · refine .look (get_run cursor) ?_
    split
    · exact .expected _
    · next name hname =>
      obtain ⟨hflat, hend⟩ := isFlat_of_name? hname
      refine (advance_reads hend hflat).bind ?_
      rintro _ _ mid hpass ⟨rfl, -⟩
      refine (Sound.repeated nextName?_sound mid (hat.passes hpass)).bind ?_
      rintro more tokens later - ⟨hmore, -⟩
      have hspells : Spells (.word name :: more.flatMap fun n => [.symbol .dot, .word n])
          (cursor.current :: tokens) := spells_word.mpr ⟨cursor.current, tokens, rfl, hname, hmore⟩
      cases more with
      | nil =>
        refine .pure ⟨?_, trivial⟩
        rw [List.append_nil]
        exact hspells
      | cons second more =>
        refine .pure ⟨?_, name, second, more, rfl⟩
        show Spells (Piece.dotted ((name :: second :: more).map fun name => [.word name])) _
        rw [List.map_cons, Piece.dotted_cons, List.flatMap_map]
        simpa using hspells

namespace Expr

variable {dialect : Dialect} {levels : Nat} {expression : Parse Expr} {cursor : Cursor}

theorem parseEntry_sound (h : expression.Sound dialect levels pieces (Fits dialect levels)) :
    (parseEntry expression).Sound dialect levels entryPiecesOf
      (fun entry => entry.1.Valid ∧ entry.2.Fits dialect levels) := by
  have hcolon : IsFlat (.symbol .colon) := isFlat_symbol (by simp) (by simp)
  intro cursor hat
  refine (ObjectKey.parse_sound cursor hat).bind ?_
  rintro key tokens mid hpass ⟨hkey, hvalid⟩
  have hat := hat.passes hpass
  refine (symbol_reads hcolon mid).bind ?_
  rintro _ _ mid' hpass ⟨rfl, hkind⟩
  refine (h mid' (hat.passes hpass)).bind ?_
  rintro e tokens' later - ⟨he, hfits⟩
  refine .pure ⟨?_, hvalid, hfits⟩
  rw [List.append_nil]
  exact hkey.append (spells_symbol.mpr ⟨mid.current, tokens', rfl, hkind, spells_space.mpr he⟩)

theorem parseEntries_sound (h : expression.Sound dialect levels pieces (Fits dialect levels)) :
    (parseEntries expression).Sound dialect levels
      (fun entries => braced (entries.map entryPiecesOf))
      (fun entries => ∀ entry ∈ entries, entry.1.Valid ∧ entry.2.Fits dialect levels) := by
  intro cursor hat
  refine .look (atSymbol_run _ cursor) ?_
  split
  · next hkind =>
    refine (delimitedList_reads hat (atSymbol_iff.mp hkind) (parseEntry_sound h)).mono ?_
    rintro entries tokens later - ⟨hspells, hvalid⟩
    exact ⟨spells_braced.mpr hspells, hvalid⟩
  · exact .expected _

theorem parseItems_sound (h : expression.Sound dialect levels pieces (Fits dialect levels))
    (hat : cursor.At dialect levels) (hkind : cursor.kind 0 = .symbol (.opening .bracket)) :
    (parseItems expression).Reads cursor fun items tokens _ =>
      Spells (Expr.array items).pieces tokens ∧ ∀ item ∈ items, item.Fits dialect levels := by
  simp only [pieces_array]
  exact delimitedList_reads hat hkind h

theorem parseArguments_sound (h : expression.Sound dialect levels pieces (Fits dialect levels))
    (hat : cursor.At dialect levels) (hkind : cursor.kind 0 = .symbol (.opening .paren)) :
    (parseArguments expression).Reads cursor fun args tokens _ =>
      Spells (Piece.enclosed .paren (Piece.commaList (args.map pieces))) tokens ∧
        ∀ arg ∈ args, arg.Fits dialect levels :=
  delimitedList_reads hat hkind h

/-- The arguments of a function of a namespace, where there are any. -/
theorem ownArguments_reads (h : expression.Sound dialect levels pieces (Fits dialect levels))
    (hat : cursor.At dialect levels) (hopen : cursor.kind 0 = .symbol (.opening .paren)) :
    (onlyIf (atSymbol (.opening .paren)) (parseArguments expression)).Reads cursor
      fun args tokens _ => ∃ own, args = some own ∧
        Spells (Piece.enclosed .paren (Piece.commaList (own.map pieces))) tokens ∧
        ∀ arg ∈ own, arg.Fits dialect levels := by
  refine .look (atSymbol_run _ cursor) ?_
  rw [atSymbol_iff.mpr hopen]
  refine (parseArguments_sound h hat hopen).bind ?_
  rintro own tokens later - ⟨hspells, hown⟩
  exact .pure ⟨own, rfl, by rwa [List.append_nil], hown⟩

theorem noArguments_run (hopen : cursor.kind 0 ≠ .symbol (.opening .paren)) :
    onlyIf (atSymbol (.opening .paren)) (parseArguments expression) cursor = .ok none cursor :=
  onlyIf_false (by rw [atSymbol_run, Bool.eq_false_iff.mpr (mt atSymbol_iff.mp hopen)])

/-- The name of a namespace in front of that of a function and its arguments. -/
theorem spells_callPieces {space function : String} {args : Option (List Expr)}
    {first colons : Token} {tokens : List Token} (hfirst : first.kind = .identifier space)
    (hcolons : colons.kind = .symbol .doubleColon)
    (hspells : Spells (.word function :: args.elim [] fun args =>
      Piece.enclosed .paren (Piece.commaList (args.map pieces))) tokens) :
    Spells (callPieces ⟨space, function, args⟩) (first :: colons :: tokens) := by
  rw [callPieces_eq]
  refine spells_word.mpr ⟨first, _, rfl, by rw [Token.name?, hfirst], ?_⟩
  exact spells_symbol.mpr ⟨colons, tokens, rfl, hcolons, hspells⟩

theorem parseNamespaceCall_sound
    (h : expression.Sound dialect levels pieces (Fits dialect levels)) :
    (parseNamespaceCall expression).Sound dialect levels pieces
      (fun e => e.IsPrimary ∧ e.Fits dialect (levels + 1)) := by
  have hcolon : IsFlat (.symbol .doubleColon) := isFlat_symbol (by simp) (by simp)
  intro cursor hat
  refine (identifier_reads hat).bind ?_
  rintro space _ mid hpass ⟨first, rfl, hfirst, hspace⟩
  have hat := hat.passes hpass
  refine (symbol_reads hcolon mid).bind ?_
  rintro _ _ mid' hpass ⟨rfl, hkind⟩
  have hat := hat.passes hpass
  refine (identifier_reads hat).bind ?_
  rintro function _ mid'' hpass ⟨last, rfl, hlast, hfunction⟩
  have hat := hat.passes hpass
  have hcall (args : Option (List Expr)) {tokens : List Token}
      (hspells : Spells (args.elim [] fun args =>
        Piece.enclosed .paren (Piece.commaList (args.map pieces))) tokens) :
      Spells (callPieces ⟨space, function, args⟩) (first :: mid.current :: last :: tokens) :=
    spells_callPieces hfirst hkind
      (spells_word.mpr ⟨last, tokens, rfl, by rw [Token.name?, hlast], hspells⟩)
  have hfits (args : Option (List Expr)) (hargs : ∀ arg ∈ args.getD [], arg.Fits dialect levels) :
      (Expr.namespaceCall ⟨space, function, args⟩).Fits dialect (levels + 1) :=
    .of_children trivial ⟨hspace, hfunction⟩ hargs
  by_cases hopen : mid''.kind 0 = .symbol (.opening .paren)
  · -- The function's own arguments, and perhaps those that its outcome is applied to.
    refine (ownArguments_reads h hat hopen).bind ?_
    rintro _ tokens later hpass ⟨own, rfl, hspells, hown⟩
    have hat := hat.passes hpass
    refine .look (atSymbol_run _ later) ?_
    split
    · next hagain =>
      refine (parseArguments_sound h hat (atSymbol_iff.mp hagain)).bind ?_
      rintro args tokens' later' - ⟨hspells', hargs⟩
      refine .pure ⟨?_, trivial, .of_children trivial ⟨⟨hspace, hfunction⟩, rfl⟩
        (List.forall_mem_append.mpr ⟨hown, hargs⟩)⟩
      have hspells := (hcall (some own) hspells).append hspells'
      rw [pieces_call, List.append_nil]
      exact hspells
    · refine .pure ⟨?_, trivial, hfits (some own) hown⟩
      rw [List.append_nil]
      exact hcall (some own) hspells
  · refine .look (noArguments_run hopen) (.look (atSymbol_run _ mid'') ?_)
    rw [Bool.eq_false_iff.mpr (mt atSymbol_iff.mp hopen)]
    exact .pure ⟨hcall none rfl, trivial, hfits none (by simp)⟩

theorem parseReference_sound (h : expression.Sound dialect levels pieces (Fits dialect levels)) :
    (parseReference expression).Sound dialect levels pieces
      (fun e => e.IsPrimary ∧ e.Fits dialect (levels + 1)) := by
  intro cursor hat
  refine (FieldReference.parse_sound cursor hat).bind ?_
  rintro target tokens mid hpass ⟨htarget, hvalid⟩
  have hat := hat.passes hpass
  have hreference : Spells (Expr.reference target).pieces tokens ∧
      (Expr.reference target).IsPrimary ∧
      (Expr.reference target).Fits dialect (levels + 1) :=
    ⟨htarget, trivial, .of_children trivial hvalid (by simp [children])⟩
  have hcall (callee : Callee Expr) (hspells : Spells (calleePieces callee) tokens)
      (hcallee : callee.Valid dialect) (hchildren : callee.children = [])
      (hkind : mid.kind 0 = .symbol (.opening .paren)) :
      (parseArguments expression >>= fun args => pure (call callee args)).Reads mid
        fun e more _ => Spells e.pieces (tokens ++ more) ∧ e.IsPrimary ∧
          e.Fits dialect (levels + 1) := by
    refine (parseArguments_sound h hat hkind).bind ?_
    rintro args more later - ⟨hargs, hfits⟩
    refine .pure ⟨?_, trivial, .of_children trivial hcallee ?_⟩
    · rw [pieces_call, List.append_nil]
      exact hspells.append hargs
    · rw [children, hchildren]
      exact hfits
  refine .look (atSymbol_run _ mid) ?_
  split
  · next hkind =>
    have hkind := atSymbol_iff.mp hkind
    cases target with
    | identifier id => exact hcall (.identifier id) htarget hvalid rfl hkind
    | path segments => exact hcall (.path segments) htarget hvalid rfl hkind
    | edge origin path => exact .pure (by rwa [List.append_nil])
  · exact .pure (by rwa [List.append_nil])

theorem parseEnclosed_sound {cursor : Cursor} {delimiter : Delimiter}
    (h : expression.Sound dialect levels pieces (Fits dialect levels))
    (hat : cursor.At dialect levels) (hkind : cursor.kind 0 = .symbol (.opening delimiter)) :
    (parseEnclosed expression delimiter).Reads cursor fun e tokens _ =>
      Spells e.pieces tokens ∧ e.IsPrimary ∧ e.Fits dialect (levels + 1) := by
  cases delimiter with
  | paren =>
    refine (within_reads hat hkind h).bind ?_
    rintro inner _ later - ⟨opening, tokens, closing, rfl, hopening, ⟨hspells, hfits⟩, hclosing⟩
    refine .pure ⟨?_, trivial, .of_children trivial trivial (by simpa [children] using hfits)⟩
    rw [List.append_nil]
    exact spells_enclosed.mpr ⟨opening, tokens, closing, rfl, hopening, hspells, hclosing⟩
  | bracket =>
    refine (parseItems_sound h hat hkind).bind ?_
    rintro items tokens later - ⟨hspells, hfits⟩
    exact .pure ⟨by rwa [List.append_nil], trivial, .of_children trivial trivial hfits⟩
  | brace =>
    refine (parseEntries_sound h cursor hat).bind ?_
    rintro entries tokens later - ⟨hspells, hentries⟩
    refine .pure ⟨?_, trivial, .of_children trivial (fun entry hmem => (hentries entry hmem).1) ?_⟩
    · rwa [List.append_nil, pieces_object]
    · intro child hmem
      obtain ⟨entry, hentry, rfl⟩ := List.mem_map.mp hmem
      exact (hentries entry hentry).2

theorem parsePrimary_sound (h : expression.Sound dialect levels pieces (Fits dialect levels)) :
    (parsePrimary expression).Sound dialect levels pieces
      (fun e => e.IsPrimary ∧ e.Fits dialect (levels + 1)) := by
  intro cursor hat
  -- An operand that is one token.
  have hsingle {e : Expr} (hkind : cursor.kind 0 ≠ .endOfInput) (hflat : IsFlat (cursor.kind 0))
      (hspells : Spells e.pieces [cursor.current]) (hprimary : e.IsPrimary)
      (hnode : e.NodeValid dialect) (hchildren : e.children = []) :
      (advance >>= fun _ => pure e).Reads cursor fun e tokens _ =>
        Spells e.pieces tokens ∧ e.IsPrimary ∧ e.Fits dialect (levels + 1) := by
    refine (advance_reads hkind hflat).bind ?_
    rintro _ _ mid - ⟨rfl, -⟩
    exact .pure ⟨hspells, hprimary, .of_children hprimary hnode (by simp [hchildren])⟩
  refine .look (kind_run 0 cursor) ?_
  split
  · next value hkind =>
    exact hsingle (by simp [hkind]) (isFlat_of_symbol? (by rw [hkind]; rfl))
      (spells_singleton.mpr ⟨cursor.current, rfl, hkind⟩) trivial trivial rfl
  · next value hkind =>
    exact hsingle (by simp [hkind]) (isFlat_of_symbol? (by rw [hkind]; rfl))
      (spells_singleton.mpr ⟨cursor.current, rfl, hkind⟩) trivial trivial rfl
  · next content hkind =>
    exact hsingle (by simp [hkind]) (isFlat_of_symbol? (by rw [hkind]; rfl))
      (spells_singleton.mpr ⟨cursor.current, rfl, hkind⟩) trivial trivial rfl
  · next name hkind =>
    exact hsingle (by simp [hkind]) (isFlat_of_symbol? (by rw [hkind]; rfl))
      (spells_singleton.mpr ⟨cursor.current, rfl, hkind⟩) trivial trivial rfl
  · next delimiter hkind => exact parseEnclosed_sound h hat hkind
  · exact parseReference_sound h cursor hat
  · refine .look (kind_run 1 cursor) ?_
    split
    · exact parseNamespaceCall_sound h cursor hat
    · exact parseReference_sound h cursor hat
  · exact .expected _

end Expr

namespace Cursor

/-- No operator stands here that binds at least as tightly as the rank says. -/
def EndsRank (rank : Nat) (cursor : Cursor) : Prop :=
  ∀ op, BinaryOp.ofToken? (cursor.kind 0) = some op → op.level.rank < rank

end Cursor

/-- The tokens that stand for an operator are the ways to write it. -/
theorem BinaryOp.ofToken?_iff {op : BinaryOp} {token : Token} :
    BinaryOp.ofToken? token.kind = some op ↔ op.piece.SpelledBy [token] := by
  have hsymbol {s : Symbol} : (Piece.symbol s).SpelledBy [token] ↔ token.kind = .symbol s := by
    constructor
    · rintro ⟨_, heq, hkind⟩
      obtain rfl := List.singleton_inj.mp heq
      exact hkind
    · intro hkind
      exact ⟨token, rfl, hkind⟩
  have hkeyword {k : Keyword} : (Piece.keyword k).SpelledBy [token] ↔ [token.kind] ∈ k.spellings :=
    Iff.rfl
  constructor
  · intro h
    unfold BinaryOp.ofToken? at h
    split at h
    all_goals try (cases h; done)
    all_goals
      next hkind =>
      obtain rfl := Option.some.inj h
      simp [piece, hsymbol, hkeyword, Keyword.spellings, hkind]
  · intro h
    cases op <;> simp [piece, hsymbol, hkeyword, Keyword.spellings] at h
    all_goals try (rw [h]; rfl)
    all_goals rcases h with h | h <;> (rw [h]; rfl)

theorem BinaryOp.isFlat_of_ofToken? {op : BinaryOp} {kind : TokenKind}
    (h : BinaryOp.ofToken? kind = some op) : IsFlat kind ∧ kind ≠ .endOfInput := by
  have hnot (delimiter : Delimiter) : kind ≠ .symbol (.opening delimiter) ∧
      kind ≠ .symbol (.closing delimiter) := by
    refine ⟨?_, ?_⟩ <;> rintro rfl <;> cases h
  refine ⟨hnot, ?_⟩
  rintro rfl
  cases h

/-- The two tables of operators agree. The higher its level is, the more tightly an operator binds on
its left, and on its right it binds more tightly than that, but not as tightly as higher levels. -/
theorem BinaryOp.bindingPower?_eq (kind : TokenKind) :
    bindingPower? kind =
      (ofToken? kind).map fun op => (2 * op.level.rank + 1, 2 * (op.level.rank + 1)) := by
  cases kind with
  | keyword k => cases k <;> rfl
  | symbol s => cases s <;> rfl
  | _ => rfl

theorem BinaryOp.bound?_two_mul (rank : Nat) (kind : TokenKind) :
    bound? (2 * rank) kind = (ofToken? kind).bind fun op =>
      if rank ≤ op.level.rank then some (op, 2 * (op.level.rank + 1)) else none := by
  rw [bound?, bindingPower?_eq]
  cases ofToken? kind with
  | none => rfl
  | some op =>
    simp only [Option.map_some, Option.bind_some]
    by_cases h : rank ≤ op.level.rank
    · rw [if_neg (by omega), if_pos h]
    · rw [if_pos (by omega), if_neg h]

theorem BinaryOp.ofToken?_of_bound? {least : Nat} {kind : TokenKind} {bound : BinaryOp × Nat}
    (h : bound? least kind = some bound) : ofToken? kind = some bound.1 := by
  unfold bound? at h
  split at h
  · split at h
    · cases h
    · obtain ⟨op, hop, rfl⟩ := Option.map_eq_some_iff.mp h
      exact hop
  · cases h

namespace Expr

variable {dialect : Dialect} {cursor : Cursor} {rank : Nat}

theorem operator?_run (least : Nat) (cursor : Cursor) :
    operator? least cursor = .ok (BinaryOp.bound? least (cursor.kind 0)) cursor :=
  rfl

/-- Either no operator is read, or it is the one that stands here. -/
theorem operator_cases (least : Nat) (cursor : Cursor) :
    operator? least cursor = .ok none cursor ∨
      ∃ op power, BinaryOp.ofToken? (cursor.kind 0) = some op ∧
        operator? least cursor = .ok (some (op, power)) cursor := by
  rw [operator?_run]
  cases hbound : BinaryOp.bound? least (cursor.kind 0) with
  | none => exact .inl rfl
  | some bound => exact .inr ⟨bound.1, bound.2, BinaryOp.ofToken?_of_bound? hbound, rfl⟩

theorem operator?_none (h : cursor.EndsRank rank) :
    operator? (2 * rank) cursor = .ok none cursor := by
  rw [operator?_run, BinaryOp.bound?_two_mul]
  cases hop : BinaryOp.ofToken? (cursor.kind 0) with
  | none => rfl
  | some op =>
    rw [Option.bind_some, if_neg (Nat.not_le.mpr (h op hop))]

theorem operator?_some {op : BinaryOp} (hop : BinaryOp.ofToken? (cursor.kind 0) = some op)
    (hrank : rank ≤ op.level.rank) :
    operator? (2 * rank) cursor = .ok (some (op, 2 * (op.level.rank + 1))) cursor := by
  rw [operator?_run, BinaryOp.bound?_two_mul, hop, Option.bind_some, if_pos hrank]

theorem rank_cases (rank : Nat) (cursor : Cursor) :
    cursor.EndsRank rank ∨
      ∃ op, BinaryOp.ofToken? (cursor.kind 0) = some op ∧ rank ≤ op.level.rank := by
  cases hop : BinaryOp.ofToken? (cursor.kind 0) with
  | none => exact .inl fun op h => by rw [hop] at h; cases h
  | some op =>
    by_cases hrank : rank ≤ op.level.rank
    · exact .inr ⟨op, rfl, hrank⟩
    · refine .inl fun other h => ?_
      rw [hop] at h
      obtain rfl := Option.some.inj h
      exact Nat.not_le.mp hrank

/-- What a parse of ranked operators comes to. -/
def RankedSound (dialect : Dialect) (levels : Nat) : Prop :=
  ∀ (rank : Nat) (cursor : Cursor), cursor.At dialect levels →
    (parseRanked levels (2 * rank)).Reads cursor fun e tokens later =>
      Spells e.pieces tokens ∧ e.Fits dialect levels ∧ e.Binds rank ∧ later.EndsRank rank

/-- What a parse of operators comes to behind an operand that the first of them does not split. -/
def OperatorsSound (dialect : Dialect) (levels : Nat) : Prop :=
  ∀ (rank : Nat) (left : Expr) (front : List Token) (cursor : Cursor),
    cursor.At dialect levels → left.Valid dialect → left.Binds rank →
    (∀ op, BinaryOp.ofToken? (cursor.kind 0) = some op → left.Binds op.level.rank) →
    Spells left.pieces front →
    (parseOperators levels (2 * rank) left).Reads cursor fun e tokens later =>
      Spells e.pieces (front ++ tokens) ∧ e.Valid dialect ∧
        e.levels ≤ max left.levels (left.operators + 1 + levels) ∧ e.Binds rank ∧
        later.EndsRank rank

theorem ranked_sound_succ {levels : Nat} (hranked : RankedSound dialect levels)
    (hoperators : OperatorsSound dialect levels) : RankedSound dialect (levels + 1) := by
  intro rank cursor hat
  have hexpression : (parseRanked levels 0).Sound dialect levels pieces (Fits dialect levels) :=
    fun cursor hat => (hranked 0 cursor hat).mono fun _ _ _ _ h => ⟨h.1, h.2.1⟩
  rw [parseRanked]
  refine Reads.nested hat.levels_eq ?_
  have hat' : At dialect levels { cursor with levels := levels } := ⟨hat.genuine, rfl⟩
  refine (parsePrimary_sound hexpression _ hat').bind ?_
  rintro left tokens mid hpass ⟨hspells, hprimary, hvalid, hlevels⟩
  refine (hoperators rank left tokens mid (hat'.passes hpass) hvalid (.of_isPrimary hprimary)
    (fun _ _ => .of_isPrimary hprimary) hspells).mono ?_
  rintro e more later - ⟨hspells, hvalid, hlevels', hbinds, hends⟩
  rw [operators_eq_zero hprimary] at hlevels'
  exact ⟨hspells, ⟨hvalid, by omega⟩, hbinds, hends⟩

theorem operators_sound_zero : OperatorsSound dialect 0 := by
  intro rank left front cursor hat hvalid hbinds hfirst hspells
  rw [parseOperators]
  rcases rank_cases rank cursor with hends | ⟨op, hop, hrank⟩
  · refine .look (operator?_none hends) (.pure ⟨?_, hvalid, Nat.le_max_left _ _, hbinds, hends⟩)
    rwa [List.append_nil]
  · exact .look (operator?_some hop hrank) .tooDeep

theorem operators_sound_succ {levels : Nat} (hranked : RankedSound dialect levels)
    (hoperators : OperatorsSound dialect levels) : OperatorsSound dialect (levels + 1) := by
  intro rank left front cursor hat hvalid hbinds hfirst hspells
  rw [parseOperators]
  rcases rank_cases rank cursor with hends | ⟨op, hop, hrank⟩
  · refine .look (operator?_none hends) (.pure ⟨?_, hvalid, Nat.le_max_left _ _, hbinds, hends⟩)
    rwa [List.append_nil]
  · let inner : Cursor := { cursor with levels := levels }
    refine .look (operator?_some hop hrank) (Reads.nested hat.levels_eq ?_)
    have hat' : inner.At dialect levels := ⟨hat.genuine, rfl⟩
    have hspelled : op.piece.SpelledBy [cursor.current] := BinaryOp.ofToken?_iff.mp hop
    obtain ⟨hflat, hend⟩ := BinaryOp.isFlat_of_ofToken? hop
    have hend : inner.kind 0 ≠ .endOfInput := hend
    refine (advance_reads hend hflat).bind ?_
    rintro _ _ mid hpass ⟨rfl, -⟩
    have hat'' := hat'.passes hpass
    refine (hranked (op.level.rank + 1) mid hat'').bind ?_
    rintro right tokens mid' hpass' ⟨hright, ⟨hvalid', hlevels⟩, hbinds', hends⟩
    -- What follows the right operand binds no more tightly than the operator before it.
    have hnext (later : BinaryOp) (hlater : BinaryOp.ofToken? (mid'.kind 0) = some later) :
        (Expr.binary left op right).Binds later.level.rank :=
      Nat.le_of_lt_succ (hends later hlater)
    have hleft := hfirst op hop
    have hwhole : Spells (Expr.binary left op right).pieces
        (front ++ (cursor.current :: tokens)) := by
      rw [pieces_binary hleft hbinds']
      refine hspells.append (spells_space.mpr ?_)
      exact Spells.cons hspelled (spells_space.mpr hright)
    refine (hoperators rank (.binary left op right) _ mid' (hat''.passes hpass')
      (valid_binary.mpr ⟨⟨hleft, hbinds'⟩, hvalid, hvalid'⟩) hrank hnext hwhole).mono ?_
    rintro e more later - ⟨hspells, hvalid, hlevels', hbinds, hends⟩
    refine ⟨?_, hvalid, ?_, hbinds, hends⟩
    · show Spells e.pieces (front ++ (cursor.current :: (tokens ++ more)))
      rwa [List.append_assoc, List.cons_append] at hspells
    · rw [levels_binary, operators] at hlevels'
      omega

theorem ranked_and_operators_sound (dialect : Dialect) (levels : Nat) :
    RankedSound dialect levels ∧ OperatorsSound dialect levels := by
  induction levels with
  | zero =>
    refine ⟨fun rank cursor hat => ?_, operators_sound_zero⟩
    rw [parseRanked]
    exact .tooDeep
  | succ levels ih =>
    exact ⟨ranked_sound_succ ih.1 ih.2, operators_sound_succ ih.1 ih.2⟩

/-- Expressions are read as they are written, and grouped as their operators bind. -/
theorem parseRanked_sound (dialect : Dialect) (levels rank : Nat) :
    (parseRanked levels (2 * rank)).Sound dialect levels pieces
      (fun e => e.Fits dialect levels ∧ e.Binds rank) :=
  fun cursor hat => ((ranked_and_operators_sound dialect levels).1 rank cursor hat).mono
    fun _ _ _ _ h => ⟨h.1, h.2.1, h.2.2.1⟩

/-- Where any operator may stand, any expression is read. -/
theorem parseRanked_zero_sound (dialect : Dialect) (levels : Nat) :
    (parseRanked levels 0).Sound dialect levels pieces (Fits dialect levels) :=
  (parseRanked_sound dialect levels 0).mono (fun _ _ => id) fun _ h => h.1

end Expr
end EdgeQuery
