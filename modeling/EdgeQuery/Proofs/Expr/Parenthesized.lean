import EdgeQuery.Proofs.Expr.Readable
import EdgeQuery.Proofs.Limits

/-!
Writing any tree and reading it back. An operand that is grouped more loosely than the operators
around it is written in parentheses, which are read back as a node of their own. So the tree that is
read back is the one that was written with these parentheses put in, unless it takes more nesting
levels than there are.
-/

namespace EdgeQuery

open Cursor Parse Walk

namespace Expr

/-- The operand in parentheses, if need be. -/
def parenIf (needed : Bool) (e : Expr) : Expr :=
  if needed then .paren e else e

mutual

/-- The tree with parentheses put in around the operands that are written with them. -/
def parenthesized : Expr → Expr
  | .literal value => .literal value
  | .reference target => .reference target
  | .variable name => .variable name
  | .binary left op right =>
    .binary (parenIf (left.opensLeft op) (parenthesized left)) op
      (parenIf (right.opensRight op) (parenthesized right))
  | .call callee args => .call (parenthesizedCallee callee) (parenthesizedItems args)
  | .namespaceCall function => .namespaceCall (parenthesizedCall function)
  | .object entries => .object (parenthesizedEntries entries)
  | .array items => .array (parenthesizedItems items)
  | .paren inner => .paren (parenthesized inner)
termination_by structural e => e

def parenthesizedCallee : Callee Expr → Callee Expr
  | .identifier id => .identifier id
  | .path segments => .path segments
  | .namespaceCall function => .namespaceCall (parenthesizedCall function)
termination_by structural callee => callee

def parenthesizedCall : NamespaceCall Expr → NamespaceCall Expr
  | ⟨space, function, args⟩ => ⟨space, function, parenthesizedArgs args⟩
termination_by structural call => call

def parenthesizedArgs : Option (List Expr) → Option (List Expr)
  | none => none
  | some es => some (parenthesizedItems es)
termination_by structural es => es

def parenthesizedItems : List Expr → List Expr
  | [] => []
  | e :: es => parenthesized e :: parenthesizedItems es
termination_by structural es => es

def parenthesizedEntries : List (ObjectKey × Expr) → List (ObjectKey × Expr)
  | [] => []
  | (key, e) :: es => (key, parenthesized e) :: parenthesizedEntries es
termination_by structural es => es

end

/-- What a node has to fulfil by itself, however its operators are grouped. -/
def NodeWritable (dialect : Dialect) : Expr → Prop
  | .binary _ _ _ => True
  | e => e.NodeValid dialect

/-- The tree can be written so that it is read back: its names are free where they have to be, its
strings can be quoted, and its references are of forms that are read. Its operators may be grouped
in any way. -/
def Writable (dialect : Dialect) (e : Expr) : Prop :=
  e.Readable ∧ ∀ s ∈ e.subtrees, s.NodeWritable dialect

section Parts

theorem parenthesizedItems_eq (es : List Expr) : parenthesizedItems es = es.map parenthesized := by
  induction es with
  | nil => rfl
  | cons e es ih => rw [parenthesizedItems, ih, List.map_cons]

theorem parenthesizedEntries_eq (entries : List (ObjectKey × Expr)) :
    parenthesizedEntries entries = entries.map fun entry => (entry.1, parenthesized entry.2) := by
  induction entries with
  | nil => rfl
  | cons entry entries ih => rw [parenthesizedEntries, ih, List.map_cons]

theorem parenthesizedCall_args (function : NamespaceCall Expr) :
    (parenthesizedCall function).args = function.args.map (List.map parenthesized) := by
  obtain ⟨space, name, args⟩ := function
  cases args with
  | none => rfl
  | some es => exact congrArg some (parenthesizedItems_eq es)

theorem children_parenthesizedCallee (callee : Callee Expr) :
    (parenthesizedCallee callee).children = callee.children.map parenthesized := by
  cases callee with
  | namespaceCall function =>
    rw [parenthesizedCallee, Callee.children, Callee.children, parenthesizedCall_args]
    cases function.args <;> rfl
  | _ => rfl

/-- The parts of an operand are parenthesized one by one. -/
theorem children_parenthesized {e : Expr} (h : e.IsPrimary) :
    e.parenthesized.children = e.children.map parenthesized := by
  cases e with
  | binary left op right => exact h.elim
  | call callee args =>
    rw [parenthesized, children, children, children_parenthesizedCallee, parenthesizedItems_eq,
      List.map_append]
  | namespaceCall function =>
    rw [parenthesized, children, children, parenthesizedCall_args]
    cases function.args <;> rfl
  | object entries =>
    rw [parenthesized, children, children, parenthesizedEntries_eq, List.map_map, List.map_map]
    rfl
  | array items => exact parenthesizedItems_eq items
  | _ => rfl

theorem opensLeft_parenthesized (op : BinaryOp) (e : Expr) :
    e.parenthesized.opensLeft op = e.opensLeft op := by
  cases e <;> rfl

theorem opensRight_parenthesized (op : BinaryOp) (e : Expr) :
    e.parenthesized.opensRight op = e.opensRight op := by
  cases e <;> rfl

/-- Where parentheses have been put in, none are needed any more. -/
theorem opensLeft_parenIf (op : BinaryOp) (e : Expr) :
    (parenIf (e.opensLeft op) e.parenthesized).opensLeft op = false := by
  cases h : e.opensLeft op with
  | true => rfl
  | false => exact (opensLeft_parenthesized op e).trans h

theorem opensRight_parenIf (op : BinaryOp) (e : Expr) :
    (parenIf (e.opensRight op) e.parenthesized).opensRight op = false := by
  cases h : e.opensRight op with
  | true => rfl
  | false => exact (opensRight_parenthesized op e).trans h

end Parts

section Writing

theorem pieces_parenIf (needed : Bool) (e : Expr) :
    (parenIf needed e).pieces = grouped needed e.pieces := by
  cases needed <;> rfl

variable {es : List Expr}

theorem map_pieces (h : ∀ e ∈ es, e.parenthesized.pieces = e.pieces) :
    (es.map parenthesized).map pieces = es.map pieces := by
  rw [List.map_map]
  exact List.map_congr_left h

theorem callPieces_parenthesized {function : NamespaceCall Expr}
    (h : ∀ e ∈ function.args.getD [], e.parenthesized.pieces = e.pieces) :
    callPieces (parenthesizedCall function) = callPieces function := by
  obtain ⟨space, name, args⟩ := function
  cases args with
  | none => rfl
  | some es =>
    have hmap : (es.map parenthesized).map pieces = es.map pieces := map_pieces h
    have hitems : itemPieces (parenthesizedItems es) = itemPieces es := by
      rw [parenthesizedItems_eq, itemPieces_eq, itemPieces_eq, hmap]
    rw [parenthesizedCall, parenthesizedArgs, callPieces, callPieces, argPieces, argPieces, hitems]

theorem calleePieces_parenthesized {callee : Callee Expr}
    (h : ∀ e ∈ callee.children, e.parenthesized.pieces = e.pieces) :
    calleePieces (parenthesizedCallee callee) = calleePieces callee := by
  cases callee with
  | namespaceCall function => exact callPieces_parenthesized h
  | _ => rfl

/-- The parentheses that are put in are those that are written anyway. -/
theorem pieces_parenthesized (e : Expr) : e.parenthesized.pieces = e.pieces := by
  induction e using inductionOn with
  | step e ih =>
    cases e with
    | binary left op right =>
      rw [parenthesized, pieces, opensLeft_parenIf, opensRight_parenIf, pieces_parenIf,
        pieces_parenIf, ih left (by simp [children]), ih right (by simp [children])]
      rfl
    | call callee args =>
      obtain ⟨hcallee, hargs⟩ := List.forall_mem_append.mp ih
      rw [parenthesized, pieces_call, pieces_call, calleePieces_parenthesized hcallee,
        parenthesizedItems_eq, map_pieces hargs]
    | namespaceCall function => exact callPieces_parenthesized ih
    | object entries =>
      rw [parenthesized, pieces_object, pieces_object, parenthesizedEntries_eq, List.map_map]
      refine congrArg braced (List.map_congr_left fun entry hmem => ?_)
      have hentry := ih entry.2 (List.mem_map_of_mem hmem)
      rw [Function.comp_apply, entryPiecesOf, entryPiecesOf, hentry]
    | array items =>
      have hmap : (items.map parenthesized).map pieces = items.map pieces := map_pieces ih
      rw [parenthesized, pieces_array, pieces_array, parenthesizedItems_eq, hmap]
    | paren inner => rw [parenthesized, pieces, ih inner (by simp [children]), pieces]
    | _ => rfl

theorem text_parenthesized (e : Expr) : e.parenthesized.text = e.text := by
  rw [text, text, pieces_parenthesized]

end Writing

section Validity

variable {dialect : Dialect} {e left right : Expr}

theorem valid_parenIf {needed : Bool} (h : e.Valid dialect) : (parenIf needed e).Valid dialect := by
  cases needed with
  | false => exact h
  | true =>
    refine valid_iff.mpr ⟨trivial, ?_⟩
    intro child hmem
    obtain rfl := List.mem_singleton.mp hmem
    exact h

theorem valid_parenthesizedCall {function : NamespaceCall Expr} (h : function.Valid dialect) :
    (parenthesizedCall function).Valid dialect := by
  obtain ⟨space, name, args⟩ := function
  exact h

/-- An operand is valid by itself if it is written in a form that can be read. -/
theorem nodeValid_parenthesized (hprimary : e.IsPrimary) (h : e.NodeWritable dialect) :
    e.parenthesized.NodeValid dialect := by
  cases e with
  | binary left op right => exact hprimary.elim
  | call callee args =>
    cases callee with
    | namespaceCall function =>
      obtain ⟨hvalid, hargs⟩ : function.Valid dialect ∧ function.args.isSome := h
      refine ⟨valid_parenthesizedCall hvalid, ?_⟩
      rw [parenthesizedCall_args, Option.isSome_map]
      exact hargs
    | _ => exact h
  | namespaceCall function => exact valid_parenthesizedCall h
  | object entries =>
    have h : ∀ entry ∈ entries, entry.1.Valid := h
    rw [parenthesized, NodeValid, parenthesizedEntries_eq, List.forall_mem_map]
    exact h
  | _ => exact h

theorem valid_parenthesized (h : ∀ s ∈ e.subtrees, s.NodeWritable dialect) :
    e.parenthesized.Valid dialect := by
  induction e using inductionOn with
  | step e ih =>
    obtain ⟨hnode, hchildren⟩ := forall_subtrees.mp h
    have hvalid : ∀ child ∈ e.children, child.parenthesized.Valid dialect :=
      fun child hmem => ih child hmem (hchildren child hmem)
    rcases e.isPrimary_or_binary with hprimary | ⟨left, op, right, rfl⟩
    · refine valid_iff.mpr ⟨nodeValid_parenthesized hprimary hnode, ?_⟩
      rw [children_parenthesized hprimary, List.forall_mem_map]
      exact hvalid
    · refine valid_binary.mpr ⟨⟨?_, ?_⟩, valid_parenIf (hvalid left (by simp [children])),
        valid_parenIf (hvalid right (by simp [children]))⟩
      · exact opensLeft_eq_false.mp (opensLeft_parenIf op left)
      · exact opensRight_eq_false.mp (opensRight_parenIf op right)

end Validity

section Reading

variable {dialect : Dialect} {e : Expr}

/-- With so many nesting levels as it takes, the tree with its parentheses is read back. -/
theorem run_text_parenthesized {limit : Nat} (h : e.Writable dialect)
    (hlevels : e.parenthesized.levels ≤ limit) :
    parseSingle.run e.text dialect limit = .ok e.parenthesized := by
  have hplain : Piece.Plain e.parenthesized.pieces := by
    rw [pieces_parenthesized]
    exact plain_pieces.mpr h.1
  rw [← text_parenthesized]
  exact parseSingle_run_text ⟨valid_parenthesized h.2, hlevels⟩
    (fun piece hmem => (hplain piece hmem).2)
    (fun piece hmem => (hplain piece hmem).1)

/-- A tree that is written and read comes back with the parentheses that were written for it, if it
takes no more nesting levels with them than there are; otherwise it is too deep. -/
theorem ofText_text (h : e.Writable dialect) :
    (e.parenthesized.levels ≤ nestingLimit → ofText e.text dialect = .ok e.parenthesized) ∧
      (nestingLimit < e.parenthesized.levels →
        ∃ span, ofText e.text dialect = .error (.tooDeep span)) := by
  refine ⟨run_text_parenthesized h, fun hdeep => ?_⟩
  have hfull := run_text_parenthesized h (Nat.le_refl _)
  rcases run_eq_or_tooDeep (Nat.le_of_lt hdeep) with htooDeep | hsame
  · exact htooDeep
  · -- With the lower limit no tree is read that takes more levels.
    obtain ⟨-, -, hlevels⟩ := parseSingle_run_iff.mp (hsame.trans hfull)
    exact absurd hlevels (Nat.not_le_of_lt hdeep)

/-- A sum that is a factor needs parentheses, and so does a product on the right of another. -/
theorem ofText_text_product :
    let number := fun n => Expr.literal (.number n)
    let sum := Expr.binary (.reference (.identifier (.raw "a"))) .add (number 2)
    let product := Expr.binary (number 3) .mul (number 4)
    (Expr.binary sum .mul product).Writable .strict ∧
      ofText "(a + 2) * (3 * 4)" .strict = .ok (.binary (.paren sum) .mul (.paren product)) := by
  intro number sum product
  have hfree : Dialect.strict.IsFree "a" := ⟨by decide, by decide⟩
  have hnodes : ∀ s ∈ (Expr.binary sum .mul product).subtrees,
      s.NodeReadable ∧ s.NodeWritable .strict := by
    intro s hmem
    simp only [subtrees_eq, children, sum, product, number, List.flatMap_cons, List.flatMap_nil,
      List.append_nil, List.cons_append, List.nil_append, List.mem_cons, List.not_mem_nil,
      or_false] at hmem
    rcases hmem with rfl | rfl | rfl | rfl | rfl | rfl | rfl
    case inr.inr.inl => exact ⟨hfree.1, hfree⟩
    all_goals exact ⟨trivial, trivial⟩
  have hwritable : (Expr.binary sum .mul product).Writable .strict :=
    ⟨fun s hmem => (hnodes s hmem).1, fun s hmem => (hnodes s hmem).2⟩
  exact ⟨hwritable, (ofText_text hwritable).1 (by decide)⟩

end Reading
end Expr
end EdgeQuery
