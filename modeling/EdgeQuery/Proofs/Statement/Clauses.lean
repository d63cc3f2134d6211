import Mathlib
import EdgeQuery.Proofs.Query

/-!
Sequences of clauses. Tokens that are clauses, followed by tokens that are clauses, are all these
clauses and nothing else: no clause goes on into the one behind it. So a SELECT keeps its clauses as
they stand, and more of them can be written behind it.
-/

namespace EdgeQuery

open Cursor Parse Walk

variable {dialect : Dialect} {levels : Nat}

/-- Reads clauses until another token stands there. -/
def Clause.parseAll (levels : Nat) : Parse (List Clause) :=
  repeated (Clause.parse? (Expr.parseRanked levels 0))

/-- What is written for clauses that stand one after another. -/
def Clause.listPieces (clauses : List Clause) : List Piece :=
  clauses.flatMap fun clause => .space :: clause.pieces

namespace Clause

theorem listPieces_append (early late : List Clause) :
    listPieces (early ++ late) = listPieces early ++ listPieces late :=
  List.flatMap_append

theorem closes_of_ahead_nil {cursor : Cursor} (h : cursor.ahead = []) (ks : List Keyword) :
    (cursor.kind 0).closes ks = true := by
  rw [kind_of_ahead_nil h]
  rfl

theorem readsAll_parseAll_iff {cursor : Cursor} {clauses : List Clause}
    (hat : cursor.At dialect levels) :
    (parseAll levels).ReadsAll cursor clauses ↔
      Spells (listPieces clauses) cursor.ahead ∧
        ∀ clause ∈ clauses, clause.Fits dialect levels :=
  readsAll_iff (.repeated (parse?_sound (Expr.parseRanked_zero_sound dialect levels)))
    (clauses_completes (Expr.parseRanked_zero_completes dialect levels)
      fun _ _ _ => Expr.parseRanked_starts)
    (fun _ hend => closes_of_ahead_nil hend []) hat

theorem exists_of_lead_with {clause : Clause} (h : clause.lead = .WITH) :
    ∃ index, clause = .hint index := by
  cases clause with
  | hint index => exact ⟨index, rfl⟩
  | _ => cases h

/-- Clauses behind clauses are read as both of them. -/
theorem parseAll_append {first second whole : Cursor} {early late : List Clause}
    (hfirst : first.At dialect levels) (hsecond : second.At dialect levels)
    (hwhole : whole.At dialect levels) (hahead : whole.ahead = first.ahead ++ second.ahead)
    (hearly : (parseAll levels).ReadsAll first early)
    (hlate : (parseAll levels).ReadsAll second late) :
    (parseAll levels).ReadsAll whole (early ++ late) := by
  obtain ⟨hspells, hfits⟩ := (readsAll_parseAll_iff hfirst).mp hearly
  obtain ⟨hspells', hfits'⟩ := (readsAll_parseAll_iff hsecond).mp hlate
  rw [readsAll_parseAll_iff hwhole, listPieces_append, hahead]
  exact ⟨hspells.append hspells', List.forall_mem_append.mpr ⟨hfits, hfits'⟩⟩

end Clause

namespace Select

/-- All that stands behind the tables of a query, in the order in which it stands there. -/
def trailing (query : Select) : List Clause :=
  query.source.hint.toList.map .hint ++ query.clauses

/-- The query with more clauses behind it. What they say about indexes belongs to the source if
nothing stands between them. -/
def followedBy : Select → List Clause → Select
  | ⟨projection, ⟨only, tables, none⟩, []⟩, .hint index :: clauses =>
    ⟨projection, ⟨only, tables, some index⟩, clauses⟩
  | ⟨projection, source, early⟩, late => ⟨projection, source, early ++ late⟩

theorem trailing_followedBy (query : Select) (clauses : List Clause) :
    (query.followedBy clauses).trailing = query.trailing ++ clauses := by
  fun_cases followedBy query clauses with
  | case1 => rfl
  | case2 => exact (List.append_assoc ..).symm

/-- Unless what is said about indexes belongs to the source, the clauses are put behind those that
are there. -/
theorem followedBy_eq {query : Select} {clauses : List Clause}
    (h : query.trailing ≠ [] ∨ ∀ clause ∈ clauses.head?, clause.lead ≠ .WITH) :
    query.followedBy clauses = { query with clauses := query.clauses ++ clauses } := by
  fun_cases followedBy query clauses with
  | case1 =>
    rcases h with h | h
    · exact absurd rfl h
    · exact absurd rfl (h _ rfl)
  | case2 => rfl

theorem pieces_followedBy (query : Select) (clauses : List Clause) :
    (query.followedBy clauses).pieces = query.pieces ++ Clause.listPieces clauses := by
  fun_cases followedBy query clauses with
  | case1 =>
    simp [pieces_mk, Source.pieces, Clause.listPieces, Piece.optional, Clause.pieces]
  | case2 => simp [pieces_mk, Clause.listPieces]

theorem Fits.followedBy {query : Select} {clauses : List Clause} (h : query.Fits dialect levels)
    (hclauses : ∀ clause ∈ clauses, clause.Fits dialect levels) :
    (query.followedBy clauses).Fits dialect levels := by
  fun_cases Select.followedBy query clauses with
  | case1 projection only tables index clauses =>
    obtain ⟨hprojection, ⟨hne, htables, -⟩, -, -⟩ := h
    obtain ⟨hindex, hclauses⟩ := List.forall_mem_cons.mp hclauses
    refine ⟨hprojection, ⟨hne, htables, ?_⟩, hclauses, nofun⟩
    rintro _ ⟨⟩
    exact hindex
  | case2 projection source early _ hother =>
    obtain ⟨hprojection, hsource, hearly, hhint⟩ := h
    refine ⟨hprojection, hsource, List.forall_mem_append.mpr ⟨hearly, hclauses⟩, ?_⟩
    intro hnone clause hmem hlead
    cases early with
    | cons first early => exact hhint hnone clause hmem hlead
    | nil =>
      obtain ⟨late, rfl⟩ := List.head?_eq_some_iff.mp hmem
      obtain ⟨index, rfl⟩ := clause.exists_of_lead_with hlead
      obtain ⟨only, tables, hint⟩ := source
      obtain rfl : hint = none := hnone
      exact hother only tables index late rfl rfl rfl

theorem readsAll_parse_iff {cursor : Cursor} {query : Select} (hat : cursor.At dialect levels) :
    (parse levels).ReadsAll cursor query ↔
      Spells query.pieces cursor.ahead ∧ query.Fits dialect levels :=
  readsAll_iff (parse_sound dialect levels) (parse_completes dialect levels)
    (fun _ hend => Clause.closes_of_ahead_nil hend []) hat

/-- Clauses behind a query are read as more clauses of it. -/
theorem parse_append {first second whole : Cursor} {query : Select} {clauses : List Clause}
    (hfirst : first.At dialect levels) (hsecond : second.At dialect levels)
    (hwhole : whole.At dialect levels) (hahead : whole.ahead = first.ahead ++ second.ahead)
    (hquery : (parse levels).ReadsAll first query)
    (hclauses : (Clause.parseAll levels).ReadsAll second clauses) :
    (parse levels).ReadsAll whole (query.followedBy clauses) := by
  obtain ⟨hspells, hfits⟩ := (readsAll_parse_iff hfirst).mp hquery
  obtain ⟨hspells', hfits'⟩ := (Clause.readsAll_parseAll_iff hsecond).mp hclauses
  rw [readsAll_parse_iff hwhole, pieces_followedBy, hahead]
  exact ⟨hspells.append hspells', hfits.followedBy hfits'⟩

end Select

/-- Clauses compose. Where the tokens of one cursor are clauses and those of another one are
clauses, they are the same clauses if they stand one behind the other. Behind a query they are
further clauses of it, in the order in which they stand, whatever clauses it has before; only what
they say about indexes right behind the tables belongs to the source. -/
theorem clauses_compose {first second : Cursor} {late : List Clause}
    (hfirst : first.At dialect levels) (hsecond : second.At dialect levels)
    (hlate : (Clause.parseAll levels).ReadsAll second late) (whole : Cursor)
    (hahead : whole.ahead = first.ahead ++ second.ahead) (hlevels : whole.levels = levels) :
    (∀ early, (Clause.parseAll levels).ReadsAll first early →
      (Clause.parseAll levels).ReadsAll whole (early ++ late)) ∧
    ∀ query, (Select.parse levels).ReadsAll first query →
      (Select.parse levels).ReadsAll whole (query.followedBy late) ∧
      (query.followedBy late).trailing = query.trailing ++ late ∧
      ((query.trailing ≠ [] ∨ ∀ clause ∈ late.head?, clause.lead ≠ .WITH) →
        query.followedBy late = { query with clauses := query.clauses ++ late }) := by
  have hwhole : whole.At dialect levels := by
    refine ⟨?_, hlevels⟩
    rw [hahead]
    exact List.forall_mem_append.mpr ⟨hfirst.genuine, hsecond.genuine⟩
  constructor
  · intro early hearly
    exact Clause.parseAll_append hfirst hsecond hwhole hahead hearly hlate
  · intro query hquery
    exact ⟨Select.parse_append hfirst hsecond hwhole hahead hquery hlate,
      query.trailing_followedBy late, Select.followedBy_eq⟩

set_option maxRecDepth 8192 in
/-- The same clauses behind another clause, and right behind the table of a query. -/
theorem clauses_compose_hint :
    let clauses := Cursor.ofText "WHERE a EXPLAIN" .strict 8
    let query := Cursor.ofText "SELECT * FROM b" .strict 8
    let more := Cursor.ofText "WITH NOINDEX FETCH ->c" .strict 8
    (Clause.parseAll 8).ReadsAll { more with ahead := clauses.ahead ++ more.ahead }
        [.condition (.reference (.identifier (.raw "a"))), .explain false, .hint .noIndex,
          .fetch [.edge ⟨.out, .raw "c", none⟩ none]] ∧
      (Select.parse 8).ReadsAll { more with ahead := query.ahead ++ more.ahead }
        ⟨.fields (some .wildcard) none,
          ⟨false, [.reference (.identifier (.raw "b"))], some .noIndex⟩,
          [.fetch [.edge ⟨.out, .raw "c", none⟩ none]]⟩ := by
  intro clauses query more
  have hclauses : (Clause.parseAll 8).ReadsAll clauses
      [.condition (.reference (.identifier (.raw "a"))), .explain false] :=
    single_run_eq_ok.mp (by cbv)
  have hquery : (Select.parse 8).ReadsAll query ⟨.fields (some .wildcard) none,
      ⟨false, [.reference (.identifier (.raw "b"))], none⟩, []⟩ :=
    single_run_eq_ok.mp (by cbv)
  have hmore : (Clause.parseAll 8).ReadsAll more
      [.hint .noIndex, .fetch [.edge ⟨.out, .raw "c", none⟩ none]] :=
    single_run_eq_ok.mp (by cbv)
  have hat : clauses.At .strict 8 := ofText_at _ _ _
  have hat' : query.At .strict 8 := ofText_at _ _ _
  have hat'' : more.At .strict 8 := ofText_at _ _ _
  exact ⟨(clauses_compose hat hat'' hmore _ rfl rfl).1 _ hclauses,
    ((clauses_compose hat' hat'' hmore _ rfl rfl).2 _ hquery).1⟩

end EdgeQuery
