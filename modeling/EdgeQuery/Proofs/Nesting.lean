import EdgeQuery.Proofs.Query
import Mathlib.Data.Nat.Choose.Basic

/-!
How deep the trees are that can be read. The limit on nesting bounds the levels that reading takes,
not the height of the tree: the levels of an operand are free again where the operators behind it
are read. So a nested operand and the operators of a chain behind it have the whole limit each, and
the height is bounded by a sum over the levels.
-/

namespace EdgeQuery
namespace Expr

variable {e s child : Expr} {limit : Nat}

/-- The parts of an operand take a level less than the operand. -/
theorem levels_lt_of_mem_children (h : e.IsPrimary) (hmem : child ∈ e.children) :
    child.levels < e.levels := by
  obtain ⟨bound, hbound⟩ := Nat.exists_eq_succ_of_ne_zero (Nat.ne_of_gt e.levels_pos)
  have hle := (levels_le_iff h).mp (Nat.le_of_eq hbound) child hmem
  omega

theorem levels_le_of_mem_children (hmem : child ∈ e.children) : child.levels ≤ e.levels := by
  rcases e.isPrimary_or_binary with h | ⟨left, op, right, rfl⟩
  · exact Nat.le_of_lt (levels_lt_of_mem_children h hmem)
  · rw [levels_binary]
    rcases List.mem_cons.mp hmem with rfl | hmem
    · exact Nat.le_max_left _ _
    · obtain rfl := List.mem_singleton.mp hmem
      omega

/-- The parts of a tree take no more levels than the tree. -/
theorem levels_le_of_mem_subtrees (h : s ∈ e.subtrees) : s.levels ≤ e.levels := by
  induction e using inductionOn with
  | step e ih =>
    rcases mem_subtrees.mp h with rfl | ⟨child, hchild, hmem⟩
    · exact Nat.le_refl _
    · exact Nat.le_trans (ih child hchild hmem) (levels_le_of_mem_children hchild)

/-- Every operator on the spine takes a level of its own. -/
theorem operators_le (h : e.levels ≤ limit + 2) : e.operators ≤ limit := by
  rcases e.isPrimary_or_binary with hprimary | ⟨left, op, right, rfl⟩
  · rw [operators_eq_zero hprimary]
    exact Nat.zero_le _
  · have hpos := right.levels_pos
    rw [levels_binary] at h
    rw [operators]
    omega

theorem height_le_one (h : e.levels ≤ 1) : e.height ≤ 1 := by
  refine height_le_iff.mpr fun child hmem => ?_
  have hpos := child.levels_pos
  rcases e.isPrimary_or_binary with hprimary | ⟨left, op, right, rfl⟩
  · have hlt := levels_lt_of_mem_children hprimary hmem
    omega
  · have hright := right.levels_pos
    rw [levels_binary] at h
    omega

/-- A tree without operators on its spine is one higher than what has a level less; each operator on
the spine adds one to that. -/
def HeightBounded (e : Expr) : Prop :=
  ∀ limit, e.levels ≤ limit + 2 → e.height ≤ e.operators + 2 + (limit + 1).choose 2

theorem HeightBounded.height_le (h : e.HeightBounded) (hlevels : e.levels ≤ limit) :
    e.height ≤ 1 + limit.choose 2 := by
  match limit with
  | 0 => exact absurd hlevels (Nat.not_le_of_lt e.levels_pos)
  | 1 => exact height_le_one hlevels
  | limit + 2 =>
    have hheight := h limit hlevels
    have hoperators := operators_le hlevels
    have hchoose : (limit + 2).choose 2 = limit + 1 + (limit + 1).choose 2 := by
      rw [Nat.choose_succ_succ' (limit + 1) 1, Nat.choose_one_right]
    omega

theorem heightBounded (e : Expr) : e.HeightBounded := by
  induction e using inductionOn with
  | step e ih =>
    intro limit hlevels
    rcases e.isPrimary_or_binary with hprimary | ⟨left, op, right, rfl⟩
    · have hheight : e.height ≤ 1 + (limit + 1).choose 2 + 1 := by
        refine height_le_iff.mpr fun child hmem => ?_
        have hlt := levels_lt_of_mem_children hprimary hmem
        exact (ih child hmem).height_le (by omega)
      omega
    · rw [levels_binary] at hlevels
      have hleft := ih left (by simp [children]) limit (by omega)
      have hright : right.height ≤ 1 + (limit + 1).choose 2 :=
        (ih right (by simp [children])).height_le (by omega)
      have hheight : (Expr.binary left op right).height ≤
          left.operators + 2 + (limit + 1).choose 2 + 1 := by
        refine height_le_iff.mpr fun child hmem => ?_
        rcases List.mem_cons.mp hmem with rfl | hmem
        · exact hleft
        · obtain rfl := List.mem_singleton.mp hmem
          omega
      rw [operators]
      omega

/-- The height of a tree is bounded by the levels that it takes, though not by as many. -/
theorem height_le_of_levels_le (h : e.levels ≤ limit) : e.height ≤ 1 + limit.choose 2 :=
  e.heightBounded.height_le h

end Expr

def OrderTarget.expressions : OrderTarget → List Expr
  | .value e => [e]
  | .rand => []

def Clause.expressions : Clause → List Expr
  | .condition e | .limit e | .start e => [e]
  | .group grouping => grouping.keys
  | .order items => items.flatMap fun item => item.target.expressions
  | _ => []

def SelectItem.expressions : SelectItem → List Expr
  | .all => []
  | .value e _ => [e]

def SelectList.expressions : SelectList → List Expr
  | .wildcard => []
  | .items list => list.flatMap SelectItem.expressions

def Projection.expressions : Projection → List Expr
  | .value e _ => [e]
  | .fields list _ => list.elim [] SelectList.expressions

mutual

/-- The expressions of a query and of its subqueries. -/
def Select.expressions : Select → List Expr
  | ⟨projection, source, clauses⟩ =>
    projection.expressions ++ Source.expressions source ++ clauses.flatMap Clause.expressions
termination_by structural query => query

def Source.expressions : Source → List Expr
  | ⟨_, tables, _⟩ => SourceTable.listExpressions tables
termination_by structural source => source

def SourceTable.expressions : SourceTable → List Expr
  | .reference _ => []
  | .subquery query => Select.expressions query
  | .array items => items
termination_by structural table => table

def SourceTable.listExpressions : List SourceTable → List Expr
  | [] => []
  | table :: tables => SourceTable.expressions table ++ SourceTable.listExpressions tables
termination_by structural tables => tables

end

def Data.expressions : Data → List Expr
  | .content entries | .merge entries => entries.map Prod.snd
  | .patch items => items
  | .set assignments | .unset assignments => assignments.map Assignment.value

def Output.expressions : Output → List Expr
  | .fields list => list.expressions
  | _ => []

/-- The expressions of a statement that stand in no other expression. -/
def Statement.expressions : Statement → List Expr
  | .select query => query.expressions
  | .create query => query.data.expressions ++ query.output.elim [] Output.expressions
  | .update query =>
    query.targets ++ query.data.elim [] Data.expressions ++ query.condition.toList ++
      query.output.elim [] Output.expressions
  | .value e => [e]

/-- All expression trees in a statement. -/
def Statement.trees (s : Statement) : List Expr :=
  s.expressions.flatMap Expr.subtrees

section Fitting

variable {dialect : Dialect} {levels : Nat}

theorem Clause.Fits.expressions {clause : Clause} (h : clause.Fits dialect levels) :
    ∀ e ∈ clause.expressions, e.Fits dialect levels := by
  cases clause with
  | condition e => exact List.forall_mem_singleton.mpr h
  | limit e => exact List.forall_mem_singleton.mpr h
  | start e => exact List.forall_mem_singleton.mpr h
  | group grouping =>
    cases grouping with
    | all => exact List.forall_mem_nil _
    | «by» keys => exact h.2
  | order items =>
    refine List.forall_mem_flatMap.mpr fun item hmem => ?_
    have hitem := h.2 item hmem
    obtain ⟨target, modifier⟩ := item
    cases target with
    | value e => exact List.forall_mem_singleton.mpr hitem
    | rand => exact List.forall_mem_nil _
  | _ => exact List.forall_mem_nil _

theorem SelectList.Fits.expressions {list : SelectList} (h : list.Fits dialect levels) :
    ∀ e ∈ list.expressions, e.Fits dialect levels := by
  cases list with
  | wildcard => exact List.forall_mem_nil _
  | items list =>
    refine List.forall_mem_flatMap.mpr fun item hmem => ?_
    cases item with
    | all => exact List.forall_mem_nil _
    | value e name => exact List.forall_mem_singleton.mpr (h.2.2 _ hmem).1

theorem Projection.Fits.expressions {projection : Projection}
    (h : projection.Fits dialect levels) :
    ∀ e ∈ projection.expressions, e.Fits dialect levels := by
  cases projection with
  | value e name => exact List.forall_mem_singleton.mpr h.1
  | fields list omitted =>
    cases list with
    | none => exact List.forall_mem_nil _
    | some list => exact SelectList.Fits.expressions (h.1 list rfl)

mutual

theorem Select.Fits.expressions {levels : Nat} : ∀ {query : Select},
    query.Fits dialect levels → ∀ e ∈ query.expressions, e.Fits dialect levels
  | ⟨_, _, _⟩, ⟨hprojection, hsource, hclauses, _⟩ =>
    List.forall_mem_append.mpr ⟨List.forall_mem_append.mpr
      ⟨hprojection.expressions, Source.Fits.expressions hsource⟩,
      List.forall_mem_flatMap.mpr fun clause hmem => (hclauses clause hmem).expressions⟩
termination_by structural query => query

theorem Source.Fits.expressions {levels : Nat} : ∀ {source : Source},
    source.Fits dialect levels → ∀ e ∈ source.expressions, e.Fits dialect levels
  | ⟨_, _, _⟩, ⟨_, htables, _⟩ => SourceTable.ListFits.expressions htables
termination_by structural source => source

theorem SourceTable.Fits.expressions {levels : Nat} : ∀ {table : SourceTable},
    table.Fits dialect levels → ∀ e ∈ table.expressions, e.Fits dialect levels
  | .reference _, _ => List.forall_mem_nil _
  | .subquery _, ⟨below, hlevels, hquery⟩ => fun e hmem =>
    (Select.Fits.expressions hquery e hmem).mono (hlevels ▸ Nat.le_succ below)
  | .array _, h => h
termination_by structural table => table

theorem SourceTable.ListFits.expressions {levels : Nat} : ∀ {tables : List SourceTable},
    SourceTable.ListFits dialect levels tables →
      ∀ e ∈ SourceTable.listExpressions tables, e.Fits dialect levels
  | [], _ => List.forall_mem_nil _
  | _ :: _, ⟨htable, htables⟩ => List.forall_mem_append.mpr
    ⟨SourceTable.Fits.expressions htable, SourceTable.ListFits.expressions htables⟩
termination_by structural tables => tables

end

theorem Data.Fits.expressions {data : Data} (h : data.Fits dialect levels) :
    ∀ e ∈ data.expressions, e.Fits dialect levels := by
  cases data with
  | content entries => exact List.forall_mem_map.mpr fun entry hmem => (h entry hmem).2
  | merge entries => exact List.forall_mem_map.mpr fun entry hmem => (h entry hmem).2
  | patch items => exact h
  | set assignments => exact List.forall_mem_map.mpr fun a hmem => (h.2 a hmem).2
  | unset assignments => exact List.forall_mem_map.mpr fun a hmem => (h.2 a hmem).2

theorem Output.Fits.expressions {output : Output} (h : output.Fits dialect levels) :
    ∀ e ∈ output.expressions, e.Fits dialect levels := by
  cases output with
  | fields list => exact SelectList.Fits.expressions h
  | _ => exact List.forall_mem_nil _

/-- What is written for something optional fits if the thing does. -/
theorem forall_mem_elim {α : Type} {parts : α → List Expr} {p : Expr → Prop} {value : Option α}
    (h : ∀ v ∈ value, ∀ e ∈ parts v, p e) : ∀ e ∈ value.elim [] parts, p e := by
  cases value with
  | none => exact List.forall_mem_nil _
  | some v => exact h v rfl

/-- The expressions of a statement that can be read fit the same limit. -/
theorem Statement.Fits.expressions {s : Statement} (h : s.Fits dialect levels) :
    ∀ e ∈ s.expressions, e.Fits dialect levels := by
  cases s with
  | select query => exact Select.Fits.expressions h
  | create query =>
    exact List.forall_mem_append.mpr ⟨h.data.expressions,
      forall_mem_elim fun output hmem => (h.output output hmem).expressions⟩
  | update query =>
    refine List.forall_mem_append.mpr ⟨List.forall_mem_append.mpr
      ⟨List.forall_mem_append.mpr ⟨h.targets, ?_⟩, ?_⟩, ?_⟩
    · exact forall_mem_elim fun data hmem => (h.data data hmem).expressions
    · exact fun e hmem => h.condition e (Option.mem_toList.mp hmem)
    · exact forall_mem_elim fun output hmem => (h.output output hmem).expressions
  | value e => exact List.forall_mem_singleton.mpr h

theorem Statement.Fits.trees {s : Statement} (h : s.Fits dialect levels) :
    ∀ e ∈ s.trees, e.levels ≤ levels := by
  refine List.forall_mem_flatMap.mpr fun root hroot e hmem => ?_
  exact Nat.le_trans (Expr.levels_le_of_mem_subtrees hmem) (h.expressions root hroot).2

end Fitting

/-- The tree is a part of what the text is read as: an expression, a statement or a file. -/
inductive IsTreeOf (text : String) (dialect : Dialect) (e : Expr) : Prop
  | expression {root : Expr} (h : Expr.ofText text dialect = .ok root) (hmem : e ∈ root.subtrees)
  | statement {s : Statement} (h : Statement.ofText text dialect = .ok s) (hmem : e ∈ s.trees)
  | file {file : SourceFile} {s : Statement} (h : SourceFile.ofText text dialect = .ok file)
      (hs : s ∈ file.statements) (hmem : e ∈ s.trees)

theorem IsTreeOf.levels_le {text : String} {dialect : Dialect} {e : Expr}
    (h : IsTreeOf text dialect e) : e.levels ≤ nestingLimit := by
  cases h with
  | expression h hmem =>
    have hfits := (Expr.parseSingle_run_iff.mp h).2
    exact Nat.le_trans (Expr.levels_le_of_mem_subtrees hmem) hfits.2
  | statement h hmem => exact (Statement.parseSingle_run_iff.mp h).1.trees e hmem
  | file h hs hmem =>
    obtain ⟨item, hitem, hstatement⟩ := List.mem_filterMap.mp hs
    cases item with
    | statement s =>
      obtain rfl := Option.some.inj hstatement
      exact ((SourceFile.ofText_account h).valid _ hitem).1.trees e hmem
    | comment c => cases hstatement

/-- What the limit on nesting comes to. It bounds the levels of all trees that are read, and so
their height, though by far more than the limit; and of the expressions that could be read under
another limit, exactly those are read that take no more levels. -/
theorem nesting_limit_exact (text : String) (dialect : Dialect) :
    (∀ e, IsTreeOf text dialect e →
      e.levels ≤ nestingLimit ∧ e.height ≤ 1 + nestingLimit.choose 2) ∧
    ∀ limit e, Expr.parseSingle.run text dialect limit = .ok e →
      (Expr.ofText text dialect = .ok e ↔ e.levels ≤ nestingLimit) := by
  refine ⟨fun e he => ⟨he.levels_le, Expr.height_le_of_levels_le he.levels_le⟩, ?_⟩
  intro limit e hrun
  obtain ⟨hspells, hfits⟩ := Expr.parseSingle_run_iff.mp hrun
  constructor
  · intro hread
    exact (Expr.parseSingle_run_iff.mp hread).2.2
  · intro hlevels
    exact Expr.parseSingle_run_iff.mpr ⟨hspells, hfits.1, hlevels⟩

namespace Expr

def one : Expr :=
  .literal (.number 1)

/-- The number one, in so many pairs of parentheses. -/
def wrapped : Nat → Expr
  | 0 => one
  | n + 1 => .paren (wrapped n)

variable {dialect : Dialect}

theorem height_wrapped (n : Nat) : (wrapped n).height = n + 1 := by
  induction n with
  | zero => rfl
  | succ n ih =>
    have hparen : (Expr.paren (wrapped n)).height = 1 + max (wrapped n).height 0 := rfl
    rw [wrapped, hparen, ih]
    omega

theorem levels_wrapped (n : Nat) : (wrapped n).levels = n + 1 := by
  induction n with
  | zero => rfl
  | succ n ih =>
    have hparen : (Expr.paren (wrapped n)).levels = 1 + max (wrapped n).levels 0 := rfl
    rw [wrapped, hparen, ih]
    omega

theorem valid_wrapped (n : Nat) : (wrapped n).Valid dialect := by
  induction n with
  | zero => exact valid_iff.mpr ⟨trivial, List.forall_mem_nil _⟩
  | succ n ih => exact valid_iff.mpr ⟨trivial, List.forall_mem_singleton.mpr ih⟩

/-- The pieces are a number and its parentheses. -/
theorem pieces_wrapped (n : Nat) :
    (wrapped n).pieces = List.replicate n (.symbol (.opening .paren)) ++
      .number 1 :: List.replicate n (.symbol (.closing .paren)) := by
  induction n with
  | zero => rfl
  | succ n ih =>
    rw [wrapped, pieces, Piece.enclosed, ih, List.replicate_succ, List.replicate_succ']
    simp

/-- The number one in parentheses, with one added behind them. -/
def wrappedSum (n : Nat) : Expr :=
  .binary (wrapped n) .add one

theorem isPrimary_wrapped (n : Nat) : (wrapped n).IsPrimary := by
  cases n <;> trivial

theorem pieces_wrappedSum (n : Nat) :
    (wrappedSum n).pieces =
      (wrapped n).pieces ++ [.space, .symbol .plus, .space, .number 1] :=
  pieces_binary (.of_isPrimary (isPrimary_wrapped n)) trivial

theorem text_wrappedSum (n : Nat) :
    (wrappedSum n).text =
      String.ofList (List.replicate n '(' ++ '1' :: (List.replicate n ')' ++ " + 1".toList)) := by
  have hrun (piece : Piece) (c : Char) (h : piece.text.toList = [c]) :
      (List.replicate n piece).flatMap (fun piece => piece.text.toList) = List.replicate n c := by
    rw [List.flatMap_replicate, h, List.flatten_replicate_singleton]
  rw [text, pieces_wrappedSum, pieces_wrapped, Piece.join, List.append_assoc, List.flatMap_append,
    List.cons_append, List.flatMap_cons, List.flatMap_append, hrun _ '(' rfl, hrun _ ')' rfl]
  rfl

theorem valid_wrappedSum (n : Nat) : (wrappedSum n).Valid dialect :=
  valid_binary.mpr ⟨⟨.of_isPrimary (isPrimary_wrapped n), trivial⟩, valid_wrapped n,
    valid_wrapped 0⟩

theorem levels_wrappedSum (n : Nat) : (wrappedSum n).levels = max (n + 1) 3 := by
  rw [wrappedSum, levels_binary, levels_wrapped, operators_eq_zero (isPrimary_wrapped n)]
  rfl

theorem height_wrappedSum (n : Nat) : (wrappedSum n).height = n + 2 := by
  have hsum : (wrappedSum n).height = 1 + max (wrapped n).height (max one.height 0) := rfl
  have hone : one.height = 1 := rfl
  rw [hsum, height_wrapped, hone]
  omega

/-- The sum is read whenever its levels are within the limit, as its parentheses leave them free. -/
theorem run_wrappedSum {n limit : Nat} (h : (wrappedSum n).levels ≤ limit) :
    Expr.parseSingle.run (wrappedSum n).text .strict limit = .ok (wrappedSum n) := by
  have hpieces : ∀ piece ∈ (wrappedSum n).pieces, piece.isComment = false ∧ piece.Readable := by
    rw [pieces_wrappedSum, pieces_wrapped]
    intro piece hmem
    simp only [List.mem_append, List.mem_cons, List.mem_replicate, List.not_mem_nil] at hmem
    rcases hmem with (⟨-, rfl⟩ | rfl | ⟨-, rfl⟩) | rfl | rfl | rfl | rfl | hmem
    all_goals first | exact ⟨rfl, trivial⟩ | exact hmem.elim
  exact parseSingle_run_text ⟨valid_wrappedSum n, h⟩ (fun piece hmem => (hpieces piece hmem).1)
    fun piece hmem => (hpieces piece hmem).2

end Expr

/-- The limit does not bound the height: what is read here has a node more on its longest way down,
since the levels of the parentheses are free again at the plus sign. -/
theorem nesting_limit_exceeded :
    Expr.ofText (String.ofList (List.replicate 127 '(' ++
      '1' :: (List.replicate 127 ')' ++ " + 1".toList))) .strict = .ok (Expr.wrappedSum 127) ∧
    (Expr.wrappedSum 127).height = nestingLimit + 1 := by
  have hlevels : (Expr.wrappedSum 127).levels ≤ nestingLimit := by
    rw [Expr.levels_wrappedSum]
    decide
  rw [← Expr.text_wrappedSum, Expr.height_wrappedSum]
  exact ⟨Expr.run_wrappedSum hlevels, rfl⟩

/-- Under a higher limit more would be read, and of that, this is read under the limit, too. -/
theorem nesting_limit_exact_wrapped :
    Expr.parseSingle.run (Expr.wrappedSum 127).text .strict 200 = .ok (Expr.wrappedSum 127) ∧
      (Expr.wrappedSum 127).levels ≤ nestingLimit ∧
      IsTreeOf (Expr.wrappedSum 127).text .strict (Expr.wrappedSum 127) ∧
      (Expr.wrappedSum 127).height ≤ 1 + nestingLimit.choose 2 := by
  have hlevels : (Expr.wrappedSum 127).levels = 128 := Expr.levels_wrappedSum 127
  have hrun : Expr.parseSingle.run _ .strict 200 = .ok (Expr.wrappedSum 127) :=
    Expr.run_wrappedSum (by omega)
  have hexact := nesting_limit_exact (Expr.wrappedSum 127).text .strict
  have hread := (hexact.2 200 _ hrun).mpr (by rw [hlevels]; decide)
  have htree := IsTreeOf.expression hread (Expr.mem_subtrees_self _)
  exact ⟨hrun, (hexact.1 _ htree).1, htree, (hexact.1 _ htree).2⟩

end EdgeQuery
