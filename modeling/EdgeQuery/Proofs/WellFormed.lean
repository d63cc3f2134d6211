import Mathlib
import EdgeQuery.Proofs.SourceFile.Recovery
import EdgeQuery.Proofs.Statement.Readable

/-!
Every tree that is read is well-formed. A parser can be asked for an expression, a statement or a
whole file any number of times, also after it has failed; whatever it has been asked before, the
tokens ahead of it are tokens of its text, and that is all that well-formed trees depend on.
-/

namespace EdgeQuery

open Cursor Parse Walk

/-- Names that begin a reference, names of functions and their namespaces, and the names of nested
fields that are left out are free. Dotted names and paths are two at least, a path holds a record,
and only what is created can be a variable instead of an identifier. No list is empty where a list
is read, a value without a name is a reference or a call, a star that is the first of a list is not
the only item, and a CREATE neither merges nor patches. All names are names, and every string can be
quoted. -/
def Statement.WellFormed (dialect : Dialect) (statement : Statement) : Prop :=
  (∃ levels, statement.Fits dialect levels) ∧ statement.Readable

/-- What a parser can be asked for. -/
inductive Request
  | expression
  | statement
  /-- A statement that is all there is. -/
  | single
  | file
  /-- A file without its faulty statements. -/
  | recovery

/-- The trees that a walk yields, and where it leaves the cursor. -/
def Walk.answer {ε α : Type} (walk : Walk ε α) (trees : α → List Statement) (cursor : Cursor) :
    List Statement × Cursor :=
  match walk cursor with
  | .ok value later => (trees value, later)
  | .error _ later => ([], later)

namespace Request

/-- The trees that a parser yields on request, and where it leaves the cursor. An expression counts
as the statement that it is. -/
def answer : Request → Cursor → List Statement × Cursor
  | .expression => Expr.parse.answer fun e => [.value e]
  | .statement => Statement.parse.answer fun s => [s]
  | .single => Statement.parseSingle.answer fun s => [s]
  | .file => SourceFile.parse.answer SourceFile.statements
  | .recovery => SourceFile.recover.answer fun result => result.1.statements

/-- Where a parser stands after some requests. -/
def after (requests : List Request) (cursor : Cursor) : Cursor :=
  requests.foldl (fun cursor request => (request.answer cursor).2) cursor

end Request

section Trees

variable {dialect : Dialect} {limit : Nat} {pieces : List Piece} {tokens : List Token}

theorem Spells.plain (h : Spells pieces tokens)
    (hgenuine : ∀ token ∈ tokens, token.Genuine dialect) :
    Piece.Plain pieces :=
  fun piece hmem => ⟨h.readable hgenuine piece hmem, h.isComment_eq_false piece hmem⟩

theorem SourceItem.Valid.wellFormed {s : Statement} (h : (statement s).Valid dialect limit) :
    s.WellFormed dialect := by
  obtain ⟨hfits, hcomment, hreadable⟩ := h
  exact ⟨⟨limit, hfits⟩,
    Statement.plain_pieces.mp fun piece hmem => ⟨hreadable piece hmem, hcomment piece hmem⟩⟩

theorem SourceFile.wellFormed_of_valid {file : SourceFile}
    (h : ∀ item ∈ file.items, item.Valid dialect limit) :
    ∀ s ∈ file.statements, s.WellFormed dialect := by
  intro s hmem
  obtain ⟨item, hitem, hs⟩ := List.mem_filterMap.mp hmem
  cases item with
  | statement other =>
    obtain rfl : other = s := Option.some.inj hs
    exact (h _ hitem).wellFormed
  | comment comment => cases hs

end Trees

namespace Walk

/-- Whatever comes of the walk, the cursor stays among tokens of the text; a value that it yields
fulfils the condition. -/
def Keeps {ε α : Type} (dialect : Dialect) (limit : Nat) (walk : Walk ε α) (post : α → Prop) :
    Prop :=
  ∀ cursor : Cursor, cursor.Between dialect limit →
    match walk cursor with
    | .ok value later => later.Between dialect limit ∧ post value
    | .error _ later => later.Between dialect limit

section Rules

variable {ε α β : Type} {dialect : Dialect} {limit : Nat} {walk : Walk ε α} {next : α → Walk ε β}
  {post : α → Prop} {goal : β → Prop}

theorem Keeps.pure {value : α} (h : post value) :
    Keeps dialect limit (Pure.pure value : Walk ε α) post :=
  fun _ hbetween => ⟨hbetween, h⟩

theorem Keeps.bind (h : walk.Keeps dialect limit post)
    (hnext : ∀ value, post value → (next value).Keeps dialect limit goal) :
    (walk >>= next).Keeps dialect limit goal := by
  intro cursor hbetween
  have hfirst := h cursor hbetween
  cases hrun : walk cursor with
  | ok value mid =>
    rw [hrun] at hfirst
    rw [bind_of_ok hrun]
    exact hnext value hfirst.2 mid hfirst.1
  | error error mid =>
    rw [hrun] at hfirst
    rw [bind_of_error hrun]
    exact hfirst

theorem Keeps.mono {weaker : α → Prop} (h : walk.Keeps dialect limit post)
    (himp : ∀ value, post value → weaker value) : walk.Keeps dialect limit weaker := by
  intro cursor hbetween
  have hrun := h cursor hbetween
  split at hrun
  · exact ⟨hrun.1, himp _ hrun.2⟩
  · exact hrun

/-- A walk that begins by looking at the cursor. -/
theorem Keeps.get {next : Cursor → Walk ε β}
    (h : ∀ cursor, (next cursor).Keeps dialect limit goal) :
    (get >>= next).Keeps dialect limit goal :=
  fun cursor hbetween => h cursor cursor hbetween

/-- A walk that always yields a value. -/
theorem Keeps.of_takes (h : walk.Takes dialect limit fun value _ _ => post value)
    (hok : ∀ cursor, ∃ value later, walk cursor = .ok value later) :
    walk.Keeps dialect limit post := by
  intro cursor hbetween
  obtain ⟨value, later, hrun⟩ := hok cursor
  obtain ⟨tokens, comments, hleaves, hpost⟩ := h cursor later value hbetween hrun
  rw [hrun]
  exact ⟨hbetween.leaves hleaves, hpost⟩

theorem Keeps.of_reads {parser : Parse α}
    (h : ∀ cursor, cursor.Between dialect limit → parser.Reads cursor fun value tokens _ =>
      (∀ token ∈ tokens, token.Genuine dialect) → post value) :
    parser.Keeps dialect limit post := by
  intro cursor hbetween
  have hreads := h cursor hbetween
  cases hrun : parser cursor with
  | ok value later =>
    obtain ⟨tokens, hpass, -, hpost⟩ := hreads.of_ok hrun
    refine ⟨hbetween.leaves (Skips.of_passes hpass).toLeaves, hpost ?_⟩
    intro token hmem
    exact hbetween.genuine token (hpass.1 ▸ List.mem_append_left _ hmem)
  | error error later =>
    obtain ⟨tokens, hskips⟩ := Skips.of_strays (hreads.of_error hrun)
    exact hbetween.leaves hskips.toLeaves

/-- The rounds of a loop. The induction is on their number. -/
theorem Keeps.repeatUpTo {item? : Walk ε (Option α)}
    (h : item?.Keeps dialect limit fun value => ∀ v ∈ value, post v) (rounds : Nat) :
    (Walk.repeatUpTo item? rounds).Keeps dialect limit fun values => ∀ v ∈ values, post v := by
  induction rounds with
  | zero => exact .pure (by simp)
  | succ rounds ih =>
    refine h.bind fun value hvalue => ?_
    cases value with
    | none => exact .pure (by simp)
    | some v =>
      refine ih.bind fun values hvalues => .pure ?_
      exact List.forall_mem_cons.mpr ⟨hvalue v rfl, hvalues⟩

end Rules
end Walk

section Requests

variable {dialect : Dialect} {limit : Nat}

theorem Expr.parse_keeps :
    Expr.parse.Keeps dialect limit fun e => (Statement.value e).WellFormed dialect := by
  refine .of_reads fun cursor h => ?_
  refine (Expr.parseRanked_zero_sound dialect cursor.levels cursor ⟨h.genuine, rfl⟩).mono ?_
  rintro e tokens later - ⟨hspells, hfits⟩ hgenuine
  exact ⟨⟨cursor.levels, hfits⟩, Expr.plain_pieces.mp (hspells.plain hgenuine)⟩

theorem Statement.parse_keeps :
    Statement.parse.Keeps dialect limit fun s => s.WellFormed dialect := by
  refine .of_reads fun cursor h => ?_
  refine (Statement.parseAt_sound dialect cursor.levels cursor ⟨h.genuine, rfl⟩).mono ?_
  rintro s tokens later - ⟨hspells, hfits⟩ hgenuine
  exact ⟨⟨cursor.levels, hfits⟩, Statement.plain_pieces.mp (hspells.plain hgenuine)⟩

theorem Statement.parseTerminated_keeps :
    Statement.parseTerminated.Keeps dialect limit fun s =>
      (SourceItem.statement s).Valid dialect limit := by
  intro cursor hbetween
  cases hrun : Statement.parseTerminated cursor with
  | ok s later =>
    obtain ⟨tokens, hskips, -, haccount⟩ := Statement.parseTerminated_skips_of_ok hbetween hrun
    exact ⟨hbetween.leaves hskips.toLeaves, haccount.valid _ (by simp)⟩
  | error error later =>
    obtain ⟨tokens, hskips⟩ := Statement.parseTerminated_skips_of_error hbetween hrun
    exact hbetween.leaves hskips.toLeaves

theorem Parse.endOfInput_keeps : Parse.endOfInput.Keeps dialect limit fun _ => True := by
  refine .get fun cursor => ?_
  split
  · exact .pure trivial
  · exact fun _ hbetween => hbetween

theorem Expr.parseSingle_keeps :
    Expr.parseSingle.Keeps dialect limit fun e => (Statement.value e).WellFormed dialect :=
  Expr.parse_keeps.bind fun _ hwellFormed =>
    Parse.endOfInput_keeps.bind fun _ _ => .pure hwellFormed

theorem Statement.parseSingle_keeps :
    Statement.parseSingle.Keeps dialect limit fun s => s.WellFormed dialect :=
  Statement.parseTerminated_keeps.bind fun _ hvalid =>
    Parse.endOfInput_keeps.bind fun _ _ => .pure hvalid.wellFormed

theorem Walk.comments_keeps {ε : Type} :
    (commentsHere : Walk ε (List SourceItem)).Keeps dialect limit
        (fun items => ∀ item ∈ items, item.Valid dialect limit) ∧
      (commentsBehind : Walk ε (List SourceItem)).Keeps dialect limit
        (fun items => ∀ item ∈ items, item.Valid dialect limit) :=
  ⟨.of_takes (commentsHere_takes.mono fun _ _ _ h => h.valid) fun _ => ⟨_, _, rfl⟩,
    .of_takes (commentsBehind_takes.mono fun _ _ _ h => h.valid) fun _ => ⟨_, _, rfl⟩⟩

/-- Rounds that read at least one token each, and the comments behind them. -/
theorem Walk.Keeps.rounds {ε α : Type} {round : Walk ε α} {post : α → Prop}
    (h : round.Keeps dialect limit post) :
    (rounds round).Keeps dialect limit fun result =>
      (∀ value ∈ result.1, post value) ∧ ∀ item ∈ result.2, item.Valid dialect limit := by
  have hround : (SourceFile.round? round).Keeps dialect limit fun group =>
      ∀ value ∈ group, post value := by
    refine .get fun cursor => ?_
    split
    · exact .pure (by simp)
    · exact h.bind fun value hvalue => .pure (by simpa using hvalue)
  rw [SourceFile.rounds_eq]
  refine Keeps.bind (.get fun cursor => .repeatUpTo hround _) fun groups hgroups => ?_
  exact comments_keeps.1.bind fun last hlast => .pure ⟨hgroups, hlast⟩

theorem SourceFile.parseGroup_keeps :
    SourceFile.parseGroup.Keeps dialect limit fun items =>
      ∀ item ∈ items, item.Valid dialect limit := by
  refine comments_keeps.1.bind fun leading hleading => ?_
  refine Statement.parseTerminated_keeps.bind fun s hs => ?_
  refine comments_keeps.2.bind fun trailing htrailing => .pure ?_
  exact List.forall_mem_append.mpr ⟨hleading, List.forall_mem_cons.mpr ⟨hs, htrailing⟩⟩

theorem SourceFile.parse_keeps :
    SourceFile.parse.Keeps dialect limit fun file =>
      ∀ s ∈ file.statements, s.WellFormed dialect := by
  refine parseGroup_keeps.rounds.bind fun result hresult => ?_
  have hvalid : ∀ item ∈ result.1.flatten ++ result.2, item.Valid dialect limit := by
    intro item hmem
    rcases List.mem_append.mp hmem with hmem | hmem
    · obtain ⟨items, hitems, hitem⟩ := List.mem_flatten.mp hmem
      exact hresult.1 items hitems item hitem
    · exact hresult.2 item hmem
  exact .pure (wellFormed_of_valid hvalid)

theorem SourceFile.recover_keeps :
    SourceFile.recover.Keeps dialect limit fun result =>
      ∀ s ∈ result.1.statements, s.WellFormed dialect :=
  .of_takes (recover_takes.mono fun _ _ _ h => wellFormed_of_valid h)
    fun cursor => ⟨_, _, run_eq_outcome recover cursor⟩

/-- One request: the trees are well-formed, and the next request finds the cursor among tokens of
the text. -/
theorem Request.answer_wellFormed (request : Request) {cursor : Cursor}
    (h : cursor.Between dialect limit) :
    (request.answer cursor).2.Between dialect limit ∧
      ∀ s ∈ (request.answer cursor).1, s.WellFormed dialect := by
  have hanswer {ε α : Type} {walk : Walk ε α} {trees : α → List Statement}
      (hkeeps : walk.Keeps dialect limit fun value => ∀ s ∈ trees value, s.WellFormed dialect) :
      (walk.answer trees cursor).2.Between dialect limit ∧
        ∀ s ∈ (walk.answer trees cursor).1, s.WellFormed dialect := by
    have hrun := hkeeps cursor h
    unfold Walk.answer
    split at hrun
    · exact hrun
    · exact ⟨hrun, by simp⟩
  have hone {α : Type} {walk : Parse α} {tree : α → Statement}
      (hkeeps : walk.Keeps dialect limit fun value => (tree value).WellFormed dialect) :
      walk.Keeps dialect limit fun value => ∀ s ∈ [tree value], s.WellFormed dialect :=
    hkeeps.mono fun value h => List.forall_mem_singleton.mpr h
  cases request with
  | expression => exact hanswer (hone Expr.parse_keeps)
  | statement => exact hanswer (hone Statement.parse_keeps)
  | single => exact hanswer (hone Statement.parseSingle_keeps)
  | file => exact hanswer SourceFile.parse_keeps
  | recovery => exact hanswer SourceFile.recover_keeps

/-- Some requests one after the other. The induction is on their number. -/
theorem Request.after_between (requests : List Request) {cursor : Cursor}
    (h : cursor.Between dialect limit) : (after requests cursor).Between dialect limit := by
  induction requests generalizing cursor with
  | nil => exact h
  | cons request requests ih => exact ih (request.answer_wellFormed h).1

theorem Walk.Keeps.of_run {α : Type} {parser : Parse α} {post : α → Prop} {text : String}
    {value : α} (h : parser.Keeps dialect limit post)
    (hrun : parser.run text dialect limit = .ok value) : post value := by
  obtain ⟨later, hrun⟩ := run_eq_ok.mp hrun
  have hkeeps := h _ (ofText_between text dialect limit)
  rw [hrun] at hkeeps
  exact hkeeps.2

end Requests

/-- Every tree that is read from a text is well-formed: an expression, a statement or a file that
the text is, a file with the faulty statements left out, and whatever a parser yields that has been
asked for trees of the text before. -/
theorem trees_wellFormed (text : String) (dialect : Dialect) :
    (∀ e, Expr.ofText text dialect = .ok e → (Statement.value e).WellFormed dialect) ∧
      (∀ s, Statement.ofText text dialect = .ok s → s.WellFormed dialect) ∧
      (∀ file, SourceFile.ofText text dialect = .ok file →
        ∀ s ∈ file.statements, s.WellFormed dialect) ∧
      (∀ s ∈ (SourceFile.recoverText text dialect).1.statements, s.WellFormed dialect) ∧
      ∀ (requests : List Request) (request : Request),
        ∀ s ∈ (request.answer
          (Request.after requests (Cursor.ofText text dialect nestingLimit))).1,
            s.WellFormed dialect := by
  have hstart := ofText_between text dialect nestingLimit
  refine ⟨?_, ?_, ?_, ?_, ?_⟩
  · exact fun e h => Expr.parseSingle_keeps.of_run h
  · exact fun s h => Statement.parseSingle_keeps.of_run h
  · exact fun file h => SourceFile.parse_keeps.of_run h
  · have hkeeps := SourceFile.recover_keeps _ hstart
    rw [run_eq_outcome SourceFile.recover] at hkeeps
    exact hkeeps.2
  · intro requests request
    exact (request.answer_wellFormed (Request.after_between requests hstart)).2

set_option maxRecDepth 8192 in
/-- A variable may be what is created. -/
theorem trees_wellFormed_created :
    let created : Statement := .create ⟨false, [.variable "a"],
      .set [⟨.identifier (.dotted ["b", "c"]), .literal (.number 1)⟩], none, none, false⟩
    Statement.ofText "CREATE $a SET b.c = 1" .strict = .ok created ∧
      created.WellFormed .strict := by
  intro created
  have hread : Statement.ofText "CREATE $a SET b.c = 1" .strict = .ok created := by cbv
  exact ⟨hread, (trees_wellFormed _ _).2.1 created hread⟩

end EdgeQuery
