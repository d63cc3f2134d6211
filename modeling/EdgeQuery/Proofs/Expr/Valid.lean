import EdgeQuery.Proofs.Expr.Shape

/-!
The expressions that can be read. Their names are free where they have to be, and their operators
are grouped as their levels of precedence group them, so that no parentheses are written that were
not read.
-/

namespace EdgeQuery

/-- Names joined by dots are two at least. -/
def ObjectKey.Valid : ObjectKey → Prop
  | .dotted names => ∃ first second more, names = first :: second :: more
  | _ => True

def NamespaceCall.Valid {α : Type} (dialect : Dialect) (function : NamespaceCall α) : Prop :=
  dialect.IsFree function.space ∧ dialect.IsFree function.function

/-- What a call can be applied to; a function of a namespace only if arguments of its own are
written. -/
def Callee.Valid (dialect : Dialect) : Callee Expr → Prop
  | .identifier id => id.Valid dialect
  | .path segments => Identifier.IsPath dialect segments
  | .namespaceCall function => function.Valid dialect ∧ function.args.isSome

namespace Expr

/-- Whether the expression may stand where operators bind at least as tightly as the rank says. -/
def Binds (rank : Nat) : Expr → Prop
  | .binary _ op _ => rank ≤ op.level.rank
  | _ => True

/-- What a node has to fulfil by itself. -/
def NodeValid (dialect : Dialect) : Expr → Prop
  | .reference target => target.Valid dialect
  | .binary left op right => left.Binds op.level.rank ∧ right.Binds (op.level.rank + 1)
  | .call callee _ => callee.Valid dialect
  | .namespaceCall function => function.Valid dialect
  | .object entries => ∀ entry ∈ entries, entry.1.Valid
  | _ => True

/-- Every node of the expression is one that can be read. -/
def Valid (dialect : Dialect) (e : Expr) : Prop :=
  ∀ s ∈ e.subtrees, s.NodeValid dialect

/-- The expression is one that can be read with so many nesting levels. -/
def Fits (dialect : Dialect) (levels : Nat) (e : Expr) : Prop :=
  e.Valid dialect ∧ e.levels ≤ levels

section Validity

variable {dialect : Dialect} {e left right : Expr} {op : BinaryOp} {levels rank : Nat}

theorem valid_iff :
    e.Valid dialect ↔ e.NodeValid dialect ∧ ∀ child ∈ e.children, child.Valid dialect :=
  forall_subtrees

theorem valid_binary :
    (Expr.binary left op right).Valid dialect ↔
      (left.Binds op.level.rank ∧ right.Binds (op.level.rank + 1)) ∧
        left.Valid dialect ∧ right.Valid dialect := by
  rw [valid_iff, children]
  simp [NodeValid]

theorem fits_iff_of_isPrimary (h : e.IsPrimary) :
    e.Fits dialect (levels + 1) ↔
      e.NodeValid dialect ∧ ∀ child ∈ e.children, child.Fits dialect levels := by
  rw [Fits, valid_iff, levels_le_iff h]
  constructor
  · rintro ⟨⟨hnode, hvalid⟩, hlevels⟩
    exact ⟨hnode, fun child hmem => ⟨hvalid child hmem, hlevels child hmem⟩⟩
  · rintro ⟨hnode, hchildren⟩
    exact ⟨⟨hnode, fun child hmem => (hchildren child hmem).1⟩,
      fun child hmem => (hchildren child hmem).2⟩

theorem Fits.of_children (hprimary : e.IsPrimary) (hnode : e.NodeValid dialect)
    (hchildren : ∀ child ∈ e.children, child.Fits dialect levels) :
    e.Fits dialect (levels + 1) :=
  (fits_iff_of_isPrimary hprimary).mpr ⟨hnode, hchildren⟩

theorem Fits.mono {room : Nat} (h : e.Fits dialect levels) (hle : levels ≤ room) :
    e.Fits dialect room :=
  ⟨h.1, Nat.le_trans h.2 hle⟩

theorem opensLeft_eq_false : left.opensLeft op = false ↔ left.Binds op.level.rank := by
  cases left with
  | binary l inner r => rw [opensLeft, Binds, decide_eq_false_iff_not, Nat.not_lt]
  | _ => exact ⟨fun _ => trivial, fun _ => rfl⟩

theorem opensRight_eq_false : right.opensRight op = false ↔ right.Binds (op.level.rank + 1) := by
  cases right with
  | binary l inner r =>
    rw [opensRight, Binds, decide_eq_false_iff_not, Nat.not_le, Nat.lt_iff_add_one_le]
  | _ => exact ⟨fun _ => trivial, fun _ => rfl⟩

theorem Binds.of_isPrimary (h : e.IsPrimary) : e.Binds rank := by
  cases e with
  | binary l op r => exact h.elim
  | _ => trivial

theorem binds_zero (e : Expr) : e.Binds 0 := by
  cases e with
  | binary l op r => exact Nat.zero_le _
  | _ => trivial

theorem Binds.mono {lower : Nat} (h : e.Binds rank) (hle : lower ≤ rank) : e.Binds lower := by
  cases e with
  | binary l op r => exact hle.trans h
  | _ => trivial

theorem NodeValid.strict (h : e.NodeValid dialect) : e.NodeValid .strict := by
  cases e with
  | reference target => exact FieldReference.Valid.strict h
  | namespaceCall function => exact ⟨h.1.strict, h.2.strict⟩
  | call callee args =>
    cases callee with
    | identifier id => exact Identifier.Valid.strict h
    | path segments => exact Identifier.IsPath.strict h
    | namespaceCall function => exact ⟨⟨h.1.1.strict, h.1.2.strict⟩, h.2⟩
  | _ => exact h

/-- What can be read in one dialect can be read in the strict one. -/
theorem Valid.strict (h : e.Valid dialect) : e.Valid .strict :=
  fun s hmem => (h s hmem).strict

end Validity

section Printing

variable {dialect : Dialect} {left right : Expr} {op : BinaryOp}

theorem itemPieces_eq (es : List Expr) : itemPieces es = es.map pieces := by
  induction es with
  | nil => rfl
  | cons e es ih => rw [itemPieces, ih, List.map_cons]

/-- How an entry of an object is written. -/
def entryPiecesOf (entry : ObjectKey × Expr) : List Piece :=
  entry.1.pieces ++ .symbol .colon :: .space :: entry.2.pieces

theorem entryPieces_eq (entries : List (ObjectKey × Expr)) :
    entryPieces entries = entries.map entryPiecesOf := by
  induction entries with
  | nil => rfl
  | cons entry entries ih =>
    rw [entryPieces, ih, List.map_cons]
    rfl

/-- Whether the spaces inside the braces are there makes no difference. -/
theorem spells_braced {entries : List (List Piece)} {tokens : List Token} :
    Spells (braced entries) tokens ↔
      Spells (Piece.enclosed .brace (Piece.commaList entries)) tokens := by
  cases entries with
  | nil => rfl
  | cons first more =>
    have hspaces (inner : List Token) :
        Spells (.space :: Piece.commaList (first :: more) ++ [.space]) inner ↔
          Spells (Piece.commaList (first :: more)) inner := by
      rw [List.cons_append, spells_space, spells_append]
      constructor
      · rintro ⟨front, back, rfl, hfront, hback⟩
        obtain rfl : back = [] := spells_space.mp hback
        rwa [List.append_nil]
      · intro h
        exact ⟨inner, [], (List.append_nil inner).symm, h, spells_space.mpr rfl⟩
    rw [braced, spells_enclosed, spells_enclosed]
    simp only [hspaces]
    intro h
    cases h

theorem pieces_object (entries : List (ObjectKey × Expr)) :
    (Expr.object entries).pieces = braced (entries.map entryPiecesOf) := by
  rw [pieces, entryPieces_eq]

theorem pieces_array (items : List Expr) :
    (Expr.array items).pieces = Piece.enclosed .bracket (Piece.commaList (items.map pieces)) := by
  rw [pieces, itemPieces_eq]

theorem pieces_call (callee : Callee Expr) (args : List Expr) :
    (Expr.call callee args).pieces =
      calleePieces callee ++ Piece.enclosed .paren (Piece.commaList (args.map pieces)) := by
  rw [pieces, itemPieces_eq]

/-- How a function of a namespace is written. -/
theorem callPieces_eq (function : NamespaceCall Expr) :
    callPieces function = .word function.space :: .symbol .doubleColon :: .word function.function ::
      function.args.elim [] fun args =>
        Piece.enclosed .paren (Piece.commaList (args.map pieces)) := by
  obtain ⟨space, name, args⟩ := function
  cases args with
  | none => rfl
  | some es =>
    rw [callPieces, argPieces, itemPieces_eq]
    rfl

/-- No parentheses are added where the operators are grouped as they bind. -/
theorem pieces_binary (hleft : left.Binds op.level.rank) (hright : right.Binds (op.level.rank + 1)) :
    (Expr.binary left op right).pieces =
      left.pieces ++ .space :: op.piece :: .space :: right.pieces := by
  rw [pieces, opensLeft_eq_false.mpr hleft, opensRight_eq_false.mpr hright]
  rfl

end Printing

section Chains

variable {dialect : Dialect} {e : Expr} {rank levels : Nat}

/-- Whether the operators of a chain are in an order in which reading them folds them one by one:
none binds more tightly than one before it, and each right operand binds more tightly than its
operator. -/
def ChainFits (rank : Nat) (chain : List (BinaryOp × Expr)) : Prop :=
  chain.Pairwise (fun link later => later.1.level.rank ≤ link.1.level.rank) ∧
    ∀ link ∈ chain, rank ≤ link.1.level.rank ∧ link.2.Binds (link.1.level.rank + 1)

theorem Valid.chainFits (h : e.Valid dialect) (hbinds : e.Binds rank) : ChainFits rank e.chain := by
  induction e using inductionOn generalizing rank with
  | step e ih =>
    cases e with
    | binary left op right =>
      obtain ⟨⟨hleft, hright⟩, hvalid, -⟩ := valid_binary.mp h
      obtain ⟨hpairs, hlinks⟩ := ih left (by simp [children]) hvalid hleft
      have hrank : rank ≤ op.level.rank := hbinds
      refine ⟨List.pairwise_append.mpr ⟨hpairs, List.pairwise_singleton _ _, ?_⟩, ?_⟩
      · intro link hmem later hlater
        obtain rfl := List.mem_singleton.mp hlater
        exact (hlinks link hmem).1
      · intro link hmem
        rcases List.mem_append.mp hmem with hmem | hmem
        · exact ⟨Nat.le_trans hrank (hlinks link hmem).1, (hlinks link hmem).2⟩
        · obtain rfl := List.mem_singleton.mp hmem
          exact ⟨hrank, hright⟩
    | _ => exact ⟨.nil, fun link hmem => nomatch hmem⟩

/-- The pieces behind the operand at the left end. -/
def chainPieces (chain : List (BinaryOp × Expr)) : List Piece :=
  chain.flatMap fun link => .space :: link.1.piece :: .space :: link.2.pieces

theorem chainPieces_append (chain : List (BinaryOp × Expr)) (op : BinaryOp) (right : Expr) :
    chainPieces (chain ++ [(op, right)]) =
      chainPieces chain ++ .space :: op.piece :: .space :: right.pieces := by
  rw [chainPieces, List.flatMap_append, List.flatMap_singleton]
  rfl

theorem Valid.pieces_eq (h : e.Valid dialect) : e.pieces = e.head.pieces ++ chainPieces e.chain := by
  induction e using inductionOn with
  | step e ih =>
    cases e with
    | binary left op right =>
      obtain ⟨⟨hleft, hright⟩, hvalid, -⟩ := valid_binary.mp h
      rw [pieces_binary hleft hright, ih left (by simp [children]) hvalid, Expr.head, Expr.chain,
        chainPieces_append, List.append_assoc]
    | _ => exact (List.append_nil _).symm

theorem Valid.head (h : e.Valid dialect) : e.head.Valid dialect := by
  induction e using inductionOn with
  | step e ih =>
    cases e with
    | binary left op right => exact ih left (by simp [children]) (valid_binary.mp h).2.1
    | _ => exact h

theorem Valid.chain (h : e.Valid dialect) : ∀ link ∈ e.chain, link.2.Valid dialect := by
  induction e using inductionOn with
  | step e ih =>
    cases e with
    | binary left op right =>
      obtain ⟨-, hleft, hright⟩ := valid_binary.mp h
      intro link hmem
      rcases List.mem_append.mp hmem with hmem | hmem
      · exact ih left (by simp [children]) hleft link hmem
      · obtain rfl := List.mem_singleton.mp hmem
        exact hright
    | _ => exact fun link hmem => nomatch hmem

end Chains
end Expr
end EdgeQuery
