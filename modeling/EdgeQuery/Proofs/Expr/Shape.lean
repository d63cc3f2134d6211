import EdgeQuery.Expr.Printed
import EdgeQuery.Proofs.Reference

/-!
The shape of expression trees: the parts that a node has, what can be computed from the parts of
every node, and the nesting levels that reading a tree takes. A tree of binary operators has a left
spine, and every operator on the spine takes a level of its own.
-/

namespace EdgeQuery

def Callee.children : Callee Expr → List Expr
  | .identifier _ | .path _ => []
  | .namespaceCall function => function.args.getD []

namespace Expr

/-- The expressions directly inside an expression, from left to right. -/
def children : Expr → List Expr
  | .literal _ | .reference _ | .variable _ => []
  | .binary left _ right => [left, right]
  | .call callee args => callee.children ++ args
  | .namespaceCall function => function.args.getD []
  | .object entries => entries.map Prod.snd
  | .array items => items
  | .paren inner => [inner]

section Fold

variable {β : Type} (node : Expr → List β → β)

mutual

/-- What a node comes to, given what its children come to. -/
def fold : Expr → β
  | .literal value => node (.literal value) []
  | .reference target => node (.reference target) []
  | .variable name => node (.variable name) []
  | .binary left op right => node (.binary left op right) [fold left, fold right]
  | .call callee args => node (.call callee args) (foldCallee callee ++ foldItems args)
  | .namespaceCall function => node (.namespaceCall function) (foldCall function)
  | .object entries => node (.object entries) (foldEntries entries)
  | .array items => node (.array items) (foldItems items)
  | .paren inner => node (.paren inner) [fold inner]
termination_by structural e => e

def foldCallee : Callee Expr → List β
  | .identifier _ => []
  | .path _ => []
  | .namespaceCall function => foldCall function
termination_by structural callee => callee

def foldCall : NamespaceCall Expr → List β
  | ⟨_, _, args⟩ => foldArgs args
termination_by structural call => call

def foldArgs : Option (List Expr) → List β
  | none => []
  | some es => foldItems es
termination_by structural es => es

def foldItems : List Expr → List β
  | [] => []
  | e :: es => fold e :: foldItems es
termination_by structural es => es

def foldEntries : List (ObjectKey × Expr) → List β
  | [] => []
  | (_, e) :: es => fold e :: foldEntries es
termination_by structural es => es

end

theorem foldItems_eq (es : List Expr) : foldItems node es = es.map (fold node) := by
  induction es with
  | nil => rfl
  | cons e es ih => rw [foldItems, ih, List.map_cons]

theorem foldEntries_eq (entries : List (ObjectKey × Expr)) :
    foldEntries node entries = (entries.map Prod.snd).map (fold node) := by
  induction entries with
  | nil => rfl
  | cons entry entries ih => rw [foldEntries, ih, List.map_cons, List.map_cons]

theorem foldCall_eq (function : NamespaceCall Expr) :
    foldCall node function = (function.args.getD []).map (fold node) := by
  obtain ⟨space, name, args⟩ := function
  cases args with
  | none => rfl
  | some es => exact foldItems_eq node es

theorem foldCallee_eq (callee : Callee Expr) :
    foldCallee node callee = callee.children.map (fold node) := by
  cases callee with
  | identifier id => rfl
  | path segments => rfl
  | namespaceCall function => exact foldCall_eq node function

theorem fold_eq (e : Expr) : e.fold node = node e (e.children.map (fold node)) := by
  cases e with
  | call callee args => rw [fold, foldCallee_eq, foldItems_eq, children, List.map_append]
  | namespaceCall function => rw [fold, foldCall_eq, children]
  | object entries => rw [fold, foldEntries_eq, children]
  | array items => rw [fold, foldItems_eq, children]
  | _ => rfl

end Fold

section Induction

variable {p : Expr → Prop}

mutual

/-- What a node inherits from its children holds of every tree. -/
theorem inductionOn (step : ∀ e : Expr, (∀ child ∈ e.children, p child) → p e) : (e : Expr) → p e
  | .literal value => step _ (by simp [children])
  | .reference target => step _ (by simp [children])
  | .variable name => step _ (by simp [children])
  | .binary left op right =>
    step _ (by simp [children, inductionOn step left, inductionOn step right])
  | .call callee args =>
    step _ (List.forall_mem_append.mpr
      ⟨inductionOnCallee step callee, inductionOnItems step args⟩)
  | .namespaceCall function => step _ (inductionOnCall step function)
  | .object entries => step _ (inductionOnEntries step entries)
  | .array items => step _ (inductionOnItems step items)
  | .paren inner => step _ (by simp [children, inductionOn step inner])
termination_by structural e => e

theorem inductionOnCallee (step : ∀ e : Expr, (∀ child ∈ e.children, p child) → p e) :
    (callee : Callee Expr) → ∀ child ∈ callee.children, p child
  | .identifier id => by simp [Callee.children]
  | .path segments => by simp [Callee.children]
  | .namespaceCall function => inductionOnCall step function
termination_by structural callee => callee

theorem inductionOnCall (step : ∀ e : Expr, (∀ child ∈ e.children, p child) → p e) :
    (call : NamespaceCall Expr) → ∀ child ∈ call.args.getD [], p child
  | ⟨_, _, args⟩ => inductionOnArgs step args
termination_by structural call => call

theorem inductionOnArgs (step : ∀ e : Expr, (∀ child ∈ e.children, p child) → p e) :
    (args : Option (List Expr)) → ∀ child ∈ args.getD [], p child
  | none => by simp
  | some es => inductionOnItems step es
termination_by structural args => args

theorem inductionOnItems (step : ∀ e : Expr, (∀ child ∈ e.children, p child) → p e) :
    (es : List Expr) → ∀ child ∈ es, p child
  | [] => by simp
  | e :: es => List.forall_mem_cons.mpr ⟨inductionOn step e, inductionOnItems step es⟩
termination_by structural es => es

theorem inductionOnEntries (step : ∀ e : Expr, (∀ child ∈ e.children, p child) → p e) :
    (entries : List (ObjectKey × Expr)) → ∀ child ∈ entries.map Prod.snd, p child
  | [] => by simp
  | (_, e) :: es => List.forall_mem_cons.mpr ⟨inductionOn step e, inductionOnEntries step es⟩
termination_by structural entries => entries

end

end Induction

/-- A tree with all the trees inside it, each in front of those inside it. -/
def subtrees (e : Expr) : List Expr :=
  e.fold fun node inner => node :: inner.flatten

/-- The number of nodes on the longest way down from the root. -/
def height (e : Expr) : Nat :=
  e.fold fun _ heights => 1 + heights.foldr max 0

/-- The operators on the left spine. -/
def operators : Expr → Nat
  | .binary left _ _ => left.operators + 1
  | _ => 0
termination_by structural e => e

/-- The nesting levels that reading the tree takes. An operand that stands behind the operators of a
chain is read below all of them; every other part is read one level below the whole. -/
def levels (e : Expr) : Nat :=
  e.fold fun node inner =>
    match node, inner with
    | .binary left _ _, [levels, levels'] => max levels (left.operators + 2 + levels')
    | _, inner => 1 + inner.foldr max 0

/-- Whether the tree is an operand that reads as one part. -/
def IsPrimary : Expr → Prop
  | .binary _ _ _ => False
  | _ => True

theorem isPrimary_or_binary (e : Expr) :
    e.IsPrimary ∨ ∃ left op right, e = .binary left op right := by
  cases e with
  | binary left op right => exact .inr ⟨left, op, right, rfl⟩
  | _ => exact .inl trivial

theorem subtrees_eq (e : Expr) : e.subtrees = e :: e.children.flatMap subtrees := by
  rw [subtrees, fold_eq, List.flatMap_def]
  rfl

theorem mem_subtrees {e s : Expr} :
    s ∈ e.subtrees ↔ s = e ∨ ∃ child ∈ e.children, s ∈ child.subtrees := by
  rw [subtrees_eq, List.mem_cons, List.mem_flatMap]

theorem mem_subtrees_self (e : Expr) : e ∈ e.subtrees :=
  mem_subtrees.mpr (.inl rfl)

theorem forall_subtrees {e : Expr} {q : Expr → Prop} :
    (∀ s ∈ e.subtrees, q s) ↔ q e ∧ ∀ child ∈ e.children, ∀ s ∈ child.subtrees, q s := by
  rw [subtrees_eq, List.forall_mem_cons, List.forall_mem_flatMap]

theorem foldr_max_le {values : List Nat} {bound : Nat} :
    values.foldr max 0 ≤ bound ↔ ∀ value ∈ values, value ≤ bound := by
  induction values with
  | nil => simp
  | cons value values ih => rw [List.foldr_cons, Nat.max_le, ih, List.forall_mem_cons]

theorem height_le_iff {e : Expr} {bound : Nat} :
    e.height ≤ bound + 1 ↔ ∀ child ∈ e.children, child.height ≤ bound := by
  have hheight : e.height = 1 + (e.children.map height).foldr max 0 := fold_eq _ e
  rw [hheight, Nat.add_comm 1, Nat.add_le_add_iff_right, foldr_max_le, List.forall_mem_map]

theorem levels_binary (left : Expr) (op : BinaryOp) (right : Expr) :
    (Expr.binary left op right).levels = max left.levels (left.operators + 2 + right.levels) := rfl

theorem levels_eq_of_isPrimary {e : Expr} (h : e.IsPrimary) :
    e.levels = 1 + (e.children.map levels).foldr max 0 := by
  have heq := fold_eq (fun node inner =>
    match node, inner with
    | .binary left _ _, [levels, levels'] => max levels (left.operators + 2 + levels')
    | _, inner => 1 + inner.foldr max 0) e
  cases e with
  | binary left op right => exact h.elim
  | _ => exact heq

theorem levels_le_iff {e : Expr} {bound : Nat} (h : e.IsPrimary) :
    e.levels ≤ bound + 1 ↔ ∀ child ∈ e.children, child.levels ≤ bound := by
  rw [levels_eq_of_isPrimary h, Nat.add_comm 1, Nat.add_le_add_iff_right, foldr_max_le,
    List.forall_mem_map]

theorem levels_pos (e : Expr) : 0 < e.levels := by
  cases e with
  | binary left op right => rw [levels_binary]; omega
  | _ => rw [levels_eq_of_isPrimary (by trivial)]; omega

/-- The operand at the left end of the spine. -/
def head : Expr → Expr
  | .binary left _ _ => left.head
  | e => e
termination_by structural e => e

/-- The operators on the left spine with their right operands, from left to right. -/
def chain : Expr → List (BinaryOp × Expr)
  | .binary left op right => left.chain ++ [(op, right)]
  | _ => []
termination_by structural e => e

/-- The tree that operators with their right operands grow to the left of. -/
def ofChain (head : Expr) (chain : List (BinaryOp × Expr)) : Expr :=
  chain.foldl (fun left link => .binary left link.1 link.2) head

theorem ofChain_append (head : Expr) (chain : List (BinaryOp × Expr)) (op : BinaryOp)
    (right : Expr) : ofChain head (chain ++ [(op, right)]) = .binary (ofChain head chain) op right := by
  rw [ofChain, List.foldl_append]
  rfl

theorem ofChain_chain (e : Expr) : ofChain e.head e.chain = e := by
  induction e using inductionOn with
  | step e ih =>
    cases e with
    | binary left op right =>
      rw [head, chain, ofChain_append, ih left (by simp [children])]
    | _ => rfl

theorem head_isPrimary (e : Expr) : e.head.IsPrimary := by
  induction e using inductionOn with
  | step e ih =>
    cases e with
    | binary left op right => exact ih left (by simp [children])
    | _ => trivial

theorem length_chain (e : Expr) : e.chain.length = e.operators := by
  induction e using inductionOn with
  | step e ih =>
    cases e with
    | binary left op right =>
      rw [chain, operators, List.length_append, ih left (by simp [children])]
      rfl
    | _ => rfl

theorem head_eq_self {e : Expr} (h : e.IsPrimary) : e.head = e := by
  cases e with
  | binary left op right => exact h.elim
  | _ => rfl

theorem operators_eq_zero {e : Expr} (h : e.IsPrimary) : e.operators = 0 := by
  cases e with
  | binary left op right => exact h.elim
  | _ => rfl

/-- The levels that reading the operators of a chain takes, each one level below the last. -/
def chainLevels : List (BinaryOp × Expr) → Nat
  | [] => 0
  | link :: chain => 1 + max link.2.levels (chainLevels chain)

theorem chainLevels_append (chain : List (BinaryOp × Expr)) (op : BinaryOp) (right : Expr) :
    chainLevels (chain ++ [(op, right)]) =
      max (chainLevels chain) (chain.length + 1 + right.levels) := by
  induction chain with
  | nil => simp [chainLevels]
  | cons link chain ih =>
    rw [List.cons_append, chainLevels, ih, chainLevels, List.length_cons]
    omega

/-- The operators of a chain are read below the whole, behind the operand at the left end. -/
theorem levels_eq (e : Expr) :
    e.levels = max e.head.levels (if e.chain = [] then 0 else 1 + chainLevels e.chain) := by
  induction e using inductionOn with
  | step e ih =>
    cases e with
    | binary left op right =>
      have hleft := ih left (by simp [children])
      have hne : left.chain ++ [(op, right)] ≠ [] := by simp
      rw [levels_binary, head, chain, if_neg hne, chainLevels_append, length_chain, hleft]
      by_cases h : left.chain = []
      · rw [if_pos h, h, chainLevels]
        omega
      · rw [if_neg h]
        omega
    | _ => exact (Nat.max_zero _).symm

end Expr
end EdgeQuery
