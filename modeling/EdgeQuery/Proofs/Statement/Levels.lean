import EdgeQuery.Proofs.Nesting

/-!
The nesting levels that reading a statement takes: those of the expressions that it holds, and one
more than those of each subquery.
-/

namespace EdgeQuery

/-- The levels of the expression that takes the most. -/
def Expr.highest (expressions : List Expr) : Nat :=
  (expressions.map Expr.levels).foldr max 0

mutual

/-- A subquery takes a level more than the query that it is, and no expression of it counts besides.
-/
def Select.levels : Select → Nat
  | ⟨projection, source, clauses⟩ =>
    max (Expr.highest (projection.expressions ++ clauses.flatMap Clause.expressions))
      (Source.levels source)
termination_by structural query => query

def Source.levels : Source → Nat
  | ⟨_, tables, _⟩ => SourceTable.listLevels tables
termination_by structural source => source

def SourceTable.levels : SourceTable → Nat
  | .reference _ => 0
  | .subquery query => 1 + Select.levels query
  | .array items => Expr.highest items
termination_by structural table => table

def SourceTable.listLevels : List SourceTable → Nat
  | [] => 0
  | table :: tables => max (SourceTable.levels table) (SourceTable.listLevels tables)
termination_by structural tables => tables

end

def Statement.levels : Statement → Nat
  | .select query => query.levels
  | .create query => Expr.highest (Statement.create query).expressions
  | .update query => Expr.highest (Statement.update query).expressions
  | .value e => e.levels

theorem Expr.highest_le {expressions : List Expr} {bound : Nat} :
    highest expressions ≤ bound ↔ ∀ e ∈ expressions, e.levels ≤ bound := by
  rw [highest, foldr_max_le, List.forall_mem_map]

section Restricted

variable {dialect : Dialect} {levels room : Nat}

theorem Expr.Fits.restrict {e : Expr} (h : e.Fits dialect levels) (hle : e.levels ≤ room) :
    e.Fits dialect room :=
  ⟨h.1, hle⟩

theorem OrderTarget.Fits.restrict {target : OrderTarget} (h : target.Fits dialect levels)
    (hle : ∀ e ∈ target.expressions, e.levels ≤ room) : target.Fits dialect room := by
  cases target with
  | value e => exact Expr.Fits.restrict h (hle e List.mem_cons_self)
  | rand => trivial

theorem Clause.Fits.restrict {clause : Clause} (h : clause.Fits dialect levels)
    (hle : ∀ e ∈ clause.expressions, e.levels ≤ room) : clause.Fits dialect room := by
  cases clause with
  | condition e => exact Expr.Fits.restrict h (hle e List.mem_cons_self)
  | limit e => exact Expr.Fits.restrict h (hle e List.mem_cons_self)
  | start e => exact Expr.Fits.restrict h (hle e List.mem_cons_self)
  | group grouping =>
    cases grouping with
    | all => trivial
    | «by» keys => exact ⟨h.1, fun key hmem => (h.2 key hmem).restrict (hle key hmem)⟩
  | order items =>
    exact ⟨h.1, fun item hmem => (h.2 item hmem).restrict (List.forall_mem_flatMap.mp hle item hmem)⟩
  | _ => exact h

theorem SelectList.Fits.restrict {list : SelectList} (h : list.Fits dialect levels)
    (hle : ∀ e ∈ list.expressions, e.levels ≤ room) : list.Fits dialect room := by
  cases list with
  | wildcard => trivial
  | items list =>
    refine ⟨h.1, h.2.1, fun item hmem => ?_⟩
    have hitem := h.2.2 item hmem
    have hlevels := List.forall_mem_flatMap.mp hle item hmem
    cases item with
    | all => trivial
    | value e name => exact ⟨hitem.1.restrict (hlevels e List.mem_cons_self), hitem.2⟩

theorem Projection.Fits.restrict {projection : Projection} (h : projection.Fits dialect levels)
    (hle : ∀ e ∈ projection.expressions, e.levels ≤ room) : projection.Fits dialect room := by
  cases projection with
  | value e name => exact ⟨h.1.restrict (hle e List.mem_cons_self), h.2⟩
  | fields list omitted =>
    refine ⟨?_, h.2⟩
    rintro items rfl
    exact (h.1 items rfl).restrict hle

mutual

theorem Select.Fits.restrict : ∀ {query : Select} {levels room : Nat},
    query.Fits dialect levels → query.levels ≤ room → query.Fits dialect room
  | ⟨_, _, _⟩, _, _, ⟨hprojection, hsource, hclauses, hhint⟩, hle => by
    obtain ⟨hexpressions, htables⟩ := Nat.max_le.mp hle
    obtain ⟨hfirst, hlater⟩ := List.forall_mem_append.mp (Expr.highest_le.mp hexpressions)
    refine ⟨hprojection.restrict hfirst, Source.Fits.restrict hsource htables, ?_, hhint⟩
    exact fun clause hmem =>
      (hclauses clause hmem).restrict (List.forall_mem_flatMap.mp hlater clause hmem)
termination_by structural query => query

theorem Source.Fits.restrict : ∀ {source : Source} {levels room : Nat},
    source.Fits dialect levels → Source.levels source ≤ room → source.Fits dialect room
  | ⟨_, _, _⟩, _, _, ⟨hne, htables, hhint⟩, hle =>
    ⟨hne, SourceTable.ListFits.restrict htables hle, hhint⟩
termination_by structural source => source

theorem SourceTable.Fits.restrict : ∀ {table : SourceTable} {levels room : Nat},
    table.Fits dialect levels → SourceTable.levels table ≤ room → table.Fits dialect room
  | .reference _, _, _, h, _ => h
  | .subquery query, _, room, ⟨_, _, hquery⟩, hle => by
    have hle : 1 + Select.levels query ≤ room := hle
    exact ⟨room - 1, by omega, Select.Fits.restrict hquery (by omega)⟩
  | .array _, _, _, h, hle => fun item hmem =>
    (h item hmem).restrict (Expr.highest_le.mp hle item hmem)
termination_by structural table => table

theorem SourceTable.ListFits.restrict : ∀ {tables : List SourceTable} {levels room : Nat},
    SourceTable.ListFits dialect levels tables → SourceTable.listLevels tables ≤ room →
      SourceTable.ListFits dialect room tables
  | [], _, _, _, _ => trivial
  | _ :: _, _, _, ⟨htable, htables⟩, hle => by
    obtain ⟨hfirst, hmore⟩ := Nat.max_le.mp hle
    exact ⟨SourceTable.Fits.restrict htable hfirst, SourceTable.ListFits.restrict htables hmore⟩
termination_by structural tables => tables

end

theorem Data.Fits.restrict {data : Data} (h : data.Fits dialect levels)
    (hle : ∀ e ∈ data.expressions, e.levels ≤ room) : data.Fits dialect room := by
  cases data with
  | content entries =>
    exact fun entry hmem =>
      ⟨(h entry hmem).1, (h entry hmem).2.restrict (List.forall_mem_map.mp hle entry hmem)⟩
  | merge entries =>
    exact fun entry hmem =>
      ⟨(h entry hmem).1, (h entry hmem).2.restrict (List.forall_mem_map.mp hle entry hmem)⟩
  | patch items => exact fun item hmem => (h item hmem).restrict (hle item hmem)
  | set assignments =>
    exact ⟨h.1, fun a hmem =>
      ⟨(h.2 a hmem).1, (h.2 a hmem).2.restrict (List.forall_mem_map.mp hle a hmem)⟩⟩
  | unset assignments =>
    exact ⟨h.1, fun a hmem =>
      ⟨(h.2 a hmem).1, (h.2 a hmem).2.restrict (List.forall_mem_map.mp hle a hmem)⟩⟩

theorem Output.Fits.restrict {output : Output} (h : output.Fits dialect levels)
    (hle : ∀ e ∈ output.expressions, e.levels ≤ room) : output.Fits dialect room := by
  cases output with
  | fields list => exact SelectList.Fits.restrict h hle
  | _ => trivial

theorem forall_mem_of_elim {α : Type} {parts : α → List Expr} {p : Expr → Prop} {value : Option α}
    (h : ∀ e ∈ value.elim [] parts, p e) : ∀ v ∈ value, ∀ e ∈ parts v, p e := by
  rintro v rfl
  exact h

theorem Create.Fits.restrict {query : Create} (h : query.Fits dialect levels)
    (hle : ∀ e ∈ (Statement.create query).expressions, e.levels ≤ room) :
    query.Fits dialect room := by
  obtain ⟨hdata, houtput⟩ := List.forall_mem_append.mp hle
  exact ⟨h.targets_ne_nil, h.targets, h.data.restrict hdata, h.creates,
    fun output hmem => (h.output output hmem).restrict (forall_mem_of_elim houtput output hmem)⟩

theorem Update.Fits.restrict {query : Update} (h : query.Fits dialect levels)
    (hle : ∀ e ∈ (Statement.update query).expressions, e.levels ≤ room) :
    query.Fits dialect room := by
  obtain ⟨hparts, houtput⟩ := List.forall_mem_append.mp hle
  obtain ⟨hparts, hcondition⟩ := List.forall_mem_append.mp hparts
  obtain ⟨htargets, hdata⟩ := List.forall_mem_append.mp hparts
  exact ⟨h.targets_ne_nil,
    fun target hmem => (h.targets target hmem).restrict (htargets target hmem),
    fun data hmem => (h.data data hmem).restrict (forall_mem_of_elim hdata data hmem),
    fun e hmem => (h.condition e hmem).restrict (hcondition e (Option.mem_toList.mpr hmem)),
    fun output hmem => (h.output output hmem).restrict (forall_mem_of_elim houtput output hmem)⟩

end Restricted

section Exact

variable {dialect : Dialect} {levels room : Nat}

mutual

theorem Select.Fits.levels_le : ∀ {query : Select} {levels : Nat},
    query.Fits dialect levels → query.levels ≤ levels
  | ⟨_, _, _⟩, _, ⟨hprojection, hsource, hclauses, _⟩ => by
    refine Nat.max_le.mpr ⟨Expr.highest_le.mpr ?_, Source.Fits.levels_le hsource⟩
    refine List.forall_mem_append.mpr ⟨fun e hmem => (hprojection.expressions e hmem).2, ?_⟩
    exact List.forall_mem_flatMap.mpr fun clause hclause e hmem =>
      ((hclauses clause hclause).expressions e hmem).2
termination_by structural query => query

theorem Source.Fits.levels_le : ∀ {source : Source} {levels : Nat},
    source.Fits dialect levels → Source.levels source ≤ levels
  | ⟨_, _, _⟩, _, ⟨_, htables, _⟩ => SourceTable.ListFits.levels_le htables
termination_by structural source => source

theorem SourceTable.Fits.levels_le : ∀ {table : SourceTable} {levels : Nat},
    table.Fits dialect levels → SourceTable.levels table ≤ levels
  | .reference _, _, _ => Nat.zero_le _
  | .subquery query, _, ⟨below, hlevels, hquery⟩ => by
    have hbelow := Select.Fits.levels_le hquery
    show 1 + Select.levels query ≤ _
    omega
  | .array _, _, h => Expr.highest_le.mpr fun item hmem => (h item hmem).2
termination_by structural table => table

theorem SourceTable.ListFits.levels_le : ∀ {tables : List SourceTable} {levels : Nat},
    SourceTable.ListFits dialect levels tables → SourceTable.listLevels tables ≤ levels
  | [], _, _ => Nat.zero_le _
  | _ :: _, _, ⟨htable, htables⟩ =>
    Nat.max_le.mpr ⟨SourceTable.Fits.levels_le htable, SourceTable.ListFits.levels_le htables⟩
termination_by structural tables => tables

end

/-- What can be read with some nesting levels can be read with exactly those that it takes. -/
theorem Statement.Fits.iff_levels_le {s : Statement} (h : s.Fits dialect levels) :
    s.Fits dialect room ↔ s.levels ≤ room := by
  constructor
  · intro hfits
    cases s with
    | select query => exact Select.Fits.levels_le hfits
    | create query => exact Expr.highest_le.mpr fun e hmem => (hfits.expressions e hmem).2
    | update query => exact Expr.highest_le.mpr fun e hmem => (hfits.expressions e hmem).2
    | value e => exact hfits.2
  · intro hle
    cases s with
    | select query => exact Select.Fits.restrict h hle
    | create query => exact Create.Fits.restrict h (Expr.highest_le.mp hle)
    | update query => exact Update.Fits.restrict h (Expr.highest_le.mp hle)
    | value e => exact Expr.Fits.restrict h hle

end Exact
end EdgeQuery
