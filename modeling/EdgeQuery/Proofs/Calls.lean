import EdgeQuery.Proofs.DepthLimit
import EdgeQuery.Proofs.SourceFile.Invariant

/-!
A parser that is called again and again. What reads files or single statements begins afresh at
every statement. What reads an expression or a statement where the cursor stands does not: a fault
leaves the nesting levels entered and the delimiters open, so that there are fewer levels for what
is read next, and the end of the text is blamed on a delimiter that is none of its own. Apart from
that, it comes to the same as a parser that begins afresh at the same token.
-/

namespace EdgeQuery

open Cursor Parse Route Walk

/-- What a parser can be called for. -/
inductive Call
  | read (request : Request)
  /-- To check that all tokens have been read. -/
  | endOfInput

/-- Whether the walk succeeds. -/
def Walk.succeeds {ε α : Type} (walk : Walk ε α) (cursor : Cursor) : Bool :=
  match walk cursor with
  | .ok _ _ => true
  | .error _ _ => false

namespace Call

/-- Where the call leaves the cursor. -/
def next : Call → Cursor → Cursor
  | .read request, cursor => (request.answer cursor).2
  | .endOfInput, cursor => (Parse.endOfInput.answer (fun _ => []) cursor).2

/-- Whether the call finds no fault in what it reads. -/
def completes : Call → Cursor → Bool
  | .read .expression => Expr.parse.succeeds
  | .read .statement => Statement.parse.succeeds
  | .read .single => Statement.parseSingle.succeeds
  | .read .file => SourceFile.parse.succeeds
  | .read .recovery => fun cursor => (SourceFile.recover.outcome cursor).1.2.isEmpty
  | .endOfInput => fun _ => true

/-- Where a parser stands after some calls. -/
def after (calls : List Call) (cursor : Cursor) : Cursor :=
  calls.foldl (fun cursor call => call.next cursor) cursor

/-- Whether none of the calls, one after the other, finds a fault. -/
def complete : List Call → Cursor → Bool
  | [], _ => true
  | call :: calls, cursor => call.completes cursor && complete calls (call.next cursor)

end Call

namespace Cursor

variable {dialect : Dialect} {limit : Nat} {cursor later : Cursor} {tokens : List Token}

/-- Among the tokens of a text, with no more levels left than a statement has. -/
structure Bounded (dialect : Dialect) (limit : Nat) (cursor : Cursor) : Prop extends
    Between dialect limit cursor where
  levels_le : cursor.levels ≤ limit

/-- Among the tokens of a text, as at the beginning of a statement. -/
structure Clean (dialect : Dialect) (limit : Nat) (cursor : Cursor) : Prop extends
    Between dialect limit cursor where
  levels_eq : cursor.levels = limit
  opened_eq : cursor.opened = []

theorem Clean.bounded (h : cursor.Clean dialect limit) : cursor.Bounded dialect limit :=
  ⟨h.toBetween, h.levels_eq.le⟩

/-- There is nothing to begin afresh. -/
theorem Clean.start_eq (h : cursor.Clean dialect limit) : Statement.start cursor = cursor := by
  rcases cursor with ⟨ahead, size, behind, comments, most, levels, opened⟩
  obtain rfl : most = levels := h.limit_eq.trans h.levels_eq.symm
  obtain rfl : opened = [] := h.opened_eq
  rfl

theorem Bounded.start (h : cursor.Bounded dialect limit) :
    (Statement.start cursor).Clean dialect limit :=
  ⟨⟨h.genuine, h.passed, h.limit_eq⟩, h.limit_eq, rfl⟩

theorem advanced_levels (cursor : Cursor) : cursor.advanced.levels = cursor.levels := by
  rw [advanced]
  split <;> rfl

theorem ofText_clean (text : String) (dialect : Dialect) (limit : Nat) :
    (ofText text dialect limit).Clean dialect limit :=
  ⟨ofText_between text dialect limit, rfl, rfl⟩

theorem Clean.afterComments {comments : List Comment} (h : cursor.Clean dialect limit)
    (hsuffix : comments <:+ cursor.comments) :
    Clean dialect limit { cursor with comments := comments } := by
  obtain ⟨front, hfront⟩ := hsuffix
  exact ⟨h.leaves (.of_comments hfront.symm), h.levels_eq, h.opened_eq⟩

theorem Clean.passes (h : cursor.Clean dialect limit) (hpass : cursor.Passes tokens later) :
    later.Clean dialect limit :=
  ⟨h.leaves (Skips.of_passes hpass).toLeaves, hpass.levels_eq.trans h.levels_eq,
    hpass.opened_eq.trans h.opened_eq⟩

theorem Bounded.passes (h : cursor.Bounded dialect limit) (hpass : cursor.Passes tokens later) :
    later.Bounded dialect limit :=
  ⟨h.leaves (Skips.of_passes hpass).toLeaves, hpass.levels_eq.trans_le h.levels_le⟩

theorem Bounded.strays {error : SyntaxError} (h : cursor.Bounded dialect limit)
    (hstray : cursor.Strays error later) : later.Bounded dialect limit := by
  obtain ⟨tokens, hskips⟩ := Skips.of_strays hstray
  exact ⟨h.leaves hskips.toLeaves, hstray.1.trans h.levels_le⟩

theorem synchronized_levels (cursor : Cursor) (remaining : Nat) :
    (cursor.synchronized remaining).levels = cursor.levels := by
  rw [SourceFile.synchronized_eq]
  split
  · exact advanced_levels cursor
  · rfl

/-- The end of the text can be blamed on a delimiter that has been open before. Every other fault is
the same, whatever has been open before. -/
theorem fault_outer {left right : Cursor} {outer : List (Delimiter × Span)}
    (choices : List Expectation) (hsame : left.SameAhead right)
    (hopened : left.opened = right.opened ++ outer) :
    left.fault choices = right.fault choices ∨
      left.kind 0 = .endOfInput ∧
        right.fault choices = .unexpected choices .endOfInput right.current.span ∧
        ∃ delimiter span rest, outer = (delimiter, span) :: rest ∧
          left.fault choices = .unterminated (.delimited delimiter) span := by
  have hcurrent : left.current = right.current := hsame.current_eq
  cases hkind : right.current.kind with
  | endOfInput =>
    cases hright : right.opened with
    | cons innermost rest =>
      left
      rw [hright] at hopened
      simp only [fault, hcurrent, hkind, hopened, hright, List.cons_append]
    | nil =>
      rw [hright, List.nil_append] at hopened
      cases houter : outer with
      | nil =>
        left
        rw [fault, fault, hcurrent, hopened, hright, houter]
      | cons innermost rest =>
        right
        rw [houter] at hopened
        refine ⟨(congrArg Token.kind hcurrent).trans hkind, ?_, innermost.1, innermost.2, rest, rfl,
          ?_⟩
        · simp only [fault, hkind, hright]
        · simp only [fault, hcurrent, hkind, hopened]
  | _ =>
    left
    simp only [fault, hcurrent, hkind]

end Cursor

namespace Parse

/-- How a parser fares at a cursor, compared with a parser that begins afresh at the same token,
with all nesting levels and no delimiter open. -/
structure Resumes {α : Type} (parser : Parse α) (levels : α → Nat) (cursor : Cursor) : Prop where
  /-- What is read takes no more levels than are left, and a fresh parser reads the same. -/
  ok : ∀ value later, parser cursor = .ok value later →
    levels value ≤ cursor.levels ∧
      ∃ last, parser (Statement.start cursor) = .ok value last ∧ later.SameAhead last
  /-- A fresh parser finds the same fault, unless it finds that the text ends, which is blamed on a
  delimiter that has been open before. -/
  fault : ∀ error later, parser cursor = .error error later → (∀ span, error ≠ .tooDeep span) →
    ∃ fresh last, parser (Statement.start cursor) = .error fresh last ∧ later.SameAhead last ∧
      (error = fresh ∨ later.kind 0 = .endOfInput ∧
        (∃ choices, fresh = .unexpected choices .endOfInput last.current.span) ∧
        ∃ delimiter span rest, cursor.opened = (delimiter, span) :: rest ∧
          error = .unterminated (.delimited delimiter) span)
  /-- Where no level is left, a fresh parser goes on; if none has been missing from the beginning,
  it has no level left either. -/
  tooDeep : ∀ span later, parser cursor = .error (.tooDeep span) later →
    span = later.current.span ∧ (place (parser (Statement.start cursor))).ahead <:+ later.ahead ∧
      (cursor.levels = cursor.limit →
        ∃ last, parser (Statement.start cursor) = .error (.tooDeep span) last)

section Resumes

variable {α : Type} {parser : Parse α} {route : Nat → Route α} {levels : α → Nat} {cursor : Cursor}

theorem Resumes.of_routes
    (hfollows : ∀ cursor : Cursor, (route cursor.levels).Follows parser cursor)
    (hshort : ∀ {levels more}, levels ≤ more → shortened.Rel (route levels) (route more))
    (hlevels : ∀ value later, parser cursor = .ok value later → levels value ≤ cursor.levels)
    (hle : cursor.levels ≤ cursor.limit) : parser.Resumes levels cursor := by
  have hcompared : Compared cursor.opened (parser cursor) (parser (Statement.start cursor)) :=
    (hfollows cursor).compared (hfollows (Statement.start cursor)) (hshort hle) ⟨rfl, rfl⟩ rfl
  refine ⟨fun value later hrun => ⟨hlevels value later hrun, ?_⟩, fun error later hrun hdeep => ?_,
    fun span later hrun => ?_⟩
  · rw [hrun] at hcompared
    generalize parser (Statement.start cursor) = fresh at hcompared ⊢
    cases hcompared with
    | ok hsame => exact ⟨_, rfl, hsame⟩
  · rw [hrun] at hcompared
    generalize parser (Statement.start cursor) = fresh at hcompared ⊢
    cases hcompared with
    | tooDeep hsuffix => exact absurd rfl (hdeep _)
    | @fault choices left right hsame hopened =>
      refine ⟨_, _, rfl, hsame, ?_⟩
      rcases fault_outer choices hsame hopened with hfault | ⟨hend, hfresh, hfault⟩
      · exact .inl hfault
      · exact .inr ⟨hend, ⟨choices, hfresh⟩, hfault⟩
  · rw [hrun] at hcompared
    obtain ⟨hspan, hsuffix⟩ := hcompared.of_tooDeep
    refine ⟨hspan, hsuffix, fun hall => ?_⟩
    -- with as many levels, the comparison goes the other way, too
    have hstart : (route cursor.limit).walk (Statement.start cursor) =
      parser (Statement.start cursor) := (hfollows (Statement.start cursor)).walk_eq
    have hback : Shortened (parser (Statement.start cursor)) (parser cursor) := by
      have hboth := hshort hall.ge (Statement.start cursor) cursor ⟨rfl, rfl⟩
      rwa [(hfollows cursor).walk_eq, hstart] at hboth
    have hsize : (place (parser (Statement.start cursor))).size = later.size := by
      have hfresh := (route cursor.limit).place_size (Statement.start cursor)
      have hhere := (route cursor.levels).place_size cursor
      rw [(hfollows cursor).walk_eq, hrun] at hhere
      rw [hstart] at hfresh
      exact hfresh.trans hhere.symm
    rw [hrun] at hback
    generalize parser (Statement.start cursor) = fresh at hback hsuffix hsize ⊢
    generalize hfirst : EStateM.Result.error (SyntaxError.tooDeep span) later = result at hback
    cases hback with
    | ok hsame => cases hfirst
    | fault hsame => exact absurd (EStateM.Result.error.inj hfirst).1.symm (fault_ne_tooDeep _ _ _)
    | @tooDeep last _ hsuffix' =>
      rw [← hfirst] at hsuffix'
      have hsame : last.SameAhead later := ⟨hsuffix.eq_of_length_le hsuffix'.length_le, hsize⟩
      refine ⟨last, ?_⟩
      rw [hspan, hsame.current_eq]

end Resumes

end Parse

section Invariants

variable {dialect : Dialect} {limit : Nat} {good : Cursor → Prop}

/-- A parser that passes tokens only, and strays from them only if it fails. -/
theorem Parse.preserves_of_reads {α : Type} {parser : Parse α}
    {post : Cursor → α → List Token → Cursor → Prop}
    (h : ∀ cursor, cursor.Between dialect limit → parser.Reads cursor (post cursor))
    (hbounded : ∀ cursor, good cursor → cursor.Bounded dialect limit)
    (hpasses : ∀ cursor tokens later, good cursor → cursor.Passes tokens later → good later) :
    parser.Preserves good (Bounded dialect limit) := by
  refine .of_runs (fun cursor value later hgood hrun => ?_) fun cursor error later hgood hrun => ?_
  · obtain ⟨tokens, hpass, -⟩ := (h cursor (hbounded cursor hgood).toBetween).of_ok hrun
    exact hpasses cursor tokens later hgood hpass
  · have hbefore := hbounded cursor hgood
    exact hbefore.strays ((h cursor hbefore.toBetween).of_error hrun)

theorem Expr.parse_reads (cursor : Cursor) (h : cursor.Between dialect limit) :
    Expr.parse.Reads cursor fun e _ _ => e.levels ≤ cursor.levels :=
  (Expr.parseRanked_zero_sound dialect cursor.levels cursor ⟨h.genuine, rfl⟩).mono
    fun _ _ _ _ hpost => hpost.2.2

theorem Statement.parse_reads (cursor : Cursor) (h : cursor.Between dialect limit) :
    Statement.parse.Reads cursor fun s _ _ => s.levels ≤ cursor.levels :=
  (Statement.parseAt_sound dialect cursor.levels cursor ⟨h.genuine, rfl⟩).mono
    fun _ _ _ _ hpost => hpost.2.iff_levels_le.mp hpost.2

/-- Behind a statement everything is as at its beginning, whatever has been before. -/
theorem Statement.parseTerminated_clean {cursor later : Cursor} {s : Statement}
    (h : cursor.Bounded dialect limit) (hrun : Statement.parseTerminated cursor = .ok s later) :
    later.Clean dialect limit := by
  obtain ⟨tokens, hpass, -⟩ := (Statement.parseTerminated_reads h.toBetween).of_ok hrun
  exact h.start.passes hpass

theorem Statement.parseTerminated_bounded {cursor later : Cursor} {error : SyntaxError}
    (h : cursor.Bounded dialect limit)
    (hrun : Statement.parseTerminated cursor = .error error later) :
    later.Bounded dialect limit :=
  h.start.bounded.strays ((Statement.parseTerminated_reads h.toBetween).of_error hrun)

theorem Call.endOfInput_next (cursor : Cursor) : Call.endOfInput.next cursor = cursor := by
  show (Walk.answer (if cursor.atEnd then (pure () : Parse Unit) else expected [.endOfInput])
    (fun _ => []) cursor).2 = cursor
  split <;> rfl

/-- Whatever a call comes to, it does not make more levels than there were at the beginning. -/
theorem Call.next_bounded (call : Call) {cursor : Cursor} (h : cursor.Bounded dialect limit) :
    (call.next cursor).Bounded dialect limit := by
  cases call with
  | endOfInput => rwa [endOfInput_next]
  | read request =>
    refine request.after_preserves ?_ ?_ ?_ ?_ ?_ h
    · exact preserves_of_reads Expr.parse_reads (fun _ => id) fun _ _ _ => Bounded.passes
    · exact preserves_of_reads Statement.parse_reads (fun _ => id) fun _ _ _ => Bounded.passes
    · exact .of_runs (fun _ _ _ h hrun => (Statement.parseTerminated_clean h hrun).bounded)
        fun _ _ _ h hrun => Statement.parseTerminated_bounded h hrun
    · rintro cursor comments ⟨front, hfront⟩ h
      exact ⟨h.leaves (.of_comments hfront.symm), h.levels_le⟩
    · intro cursor remaining h
      obtain ⟨tokens, hskips⟩ := SourceFile.synchronized_skips cursor remaining
      exact ⟨h.leaves hskips.toLeaves, (synchronized_levels cursor remaining).trans_le h.levels_le⟩

/-- Some calls one after the other. The induction is on their number. -/
theorem Call.after_bounded (calls : List Call) {cursor : Cursor}
    (h : cursor.Bounded dialect limit) : (after calls cursor).Bounded dialect limit := by
  induction calls generalizing cursor with
  | nil => exact h
  | cons call calls ih => exact ih (call.next_bounded h)

theorem Walk.answer_clean {ε α : Type} {walk : Walk ε α} {bad : Cursor → Prop} {cursor : Cursor}
    (hwalk : walk.Preserves (Clean dialect limit) bad) (h : cursor.Clean dialect limit)
    (hsucceeds : walk.succeeds cursor = true) (trees : α → List Statement) :
    (walk.answer trees cursor).2.Clean dialect limit := by
  unfold succeeds at hsucceeds
  unfold Walk.answer
  cases hrun : walk cursor with
  | ok value later => exact hwalk.of_ok h hrun
  | error error later =>
    rw [hrun] at hsucceeds
    cases hsucceeds

theorem Statement.parseTerminated_preserves :
    Statement.parseTerminated.Preserves (Clean dialect limit) (Bounded dialect limit) :=
  .of_runs (fun _ _ _ h hrun => Statement.parseTerminated_clean h.bounded hrun)
    fun _ _ _ h hrun => Statement.parseTerminated_bounded h.bounded hrun

theorem Statement.parseSingle_preserves :
    Statement.parseSingle.Preserves (Clean dialect limit) (Bounded dialect limit) := by
  have hend : Parse.endOfInput.Preserves (Clean dialect limit) (Bounded dialect limit) := by
    refine .get fun cursor => ?_
    split
    · exact .pure ()
    · exact fun _ h => h.bounded
  exact Statement.parseTerminated_preserves.bind fun s => hend.bind fun _ => .pure s

theorem SourceFile.parse_clean :
    SourceFile.parse.Preserves (Clean dialect limit) (Bounded dialect limit) :=
  SourceFile.parse_preserves (fun _ _ hsuffix h => h.afterComments hsuffix)
    Statement.parseTerminated_preserves

/-- Where recovery finds no fault, it is the file that has been read. -/
theorem SourceFile.recover_clean {cursor : Cursor} (h : cursor.Clean dialect limit)
    (herrors : (SourceFile.recover.outcome cursor).1.2 = []) :
    (Call.next (.read .recovery) cursor).Clean dialect limit := by
  cases hparse : SourceFile.parse cursor with
  | ok file later =>
    have hanswer : Call.next (.read .recovery) cursor = later := by
      show (SourceFile.recover.answer _ cursor).2 = later
      rw [Walk.answer, SourceFile.recover_of_parse_ok hparse]
    rw [hanswer]
    exact SourceFile.parse_clean.of_ok h hparse
  | error error later =>
    obtain ⟨result, mid, hrun, hfirst⟩ := SourceFile.recover_of_parse_error hparse
    rw [outcome_of_ok hrun] at herrors
    rw [herrors] at hfirst
    cases hfirst

/-- A call that finds no fault leaves everything as at the beginning of a statement. -/
theorem Call.next_clean {call : Call} {cursor : Cursor} (h : cursor.Clean dialect limit)
    (hcompletes : call.completes cursor = true) : (call.next cursor).Clean dialect limit := by
  cases call with
  | endOfInput => rwa [endOfInput_next]
  | read request =>
    cases request with
    | expression =>
      have hreads : Expr.parse.Preserves (Clean dialect limit) (Bounded dialect limit) :=
        preserves_of_reads Expr.parse_reads (fun _ => Clean.bounded) fun _ _ _ => Clean.passes
      exact answer_clean hreads h hcompletes _
    | statement =>
      have hreads : Statement.parse.Preserves (Clean dialect limit) (Bounded dialect limit) :=
        preserves_of_reads Statement.parse_reads (fun _ => Clean.bounded) fun _ _ _ => Clean.passes
      exact answer_clean hreads h hcompletes _
    | single => exact answer_clean Statement.parseSingle_preserves h hcompletes _
    | file => exact answer_clean SourceFile.parse_clean h hcompletes _
    | recovery => exact SourceFile.recover_clean h (List.isEmpty_iff.mp hcompletes)

/-- Some calls without a fault. The induction is on their number. -/
theorem Call.after_clean {calls : List Call} {cursor : Cursor} (h : cursor.Clean dialect limit)
    (hcomplete : complete calls cursor = true) : (after calls cursor).Clean dialect limit := by
  induction calls generalizing cursor with
  | nil => exact h
  | cons call calls ih =>
    rw [complete, Bool.and_eq_true] at hcomplete
    exact ih (next_clean h hcomplete.1) hcomplete.2

end Invariants

/-- What earlier calls do to reading an expression or a statement where they have left the cursor.
There may be fewer levels, and delimiters that are open; there are not if no call has found a
fault. -/
theorem calls_resume (text : String) (dialect : Dialect) (limit : Nat) (calls : List Call) :
    let start := Cursor.ofText text dialect limit
    let cursor := Call.after calls start
    (cursor.levels ≤ limit ∧ (Call.complete calls start → Statement.start cursor = cursor)) ∧
      Expr.parse.Resumes Expr.levels cursor ∧ Statement.parse.Resumes Statement.levels cursor := by
  intro start cursor
  have hstart : start.Clean dialect limit := ofText_clean text dialect limit
  have hbounded : cursor.Bounded dialect limit := Call.after_bounded calls hstart.bounded
  have hle : cursor.levels ≤ cursor.limit := hbounded.levels_le.trans hbounded.limit_eq.ge
  refine ⟨⟨hbounded.levels_le, fun hcomplete => ?_⟩, ?_, ?_⟩
  · exact (Call.after_clean hstart hcomplete).start_eq
  · refine .of_routes Expr.routeRanked_follows (fun h => (Expr.routes_shortened _ h).1 0)
      (fun e later hrun => ?_) hle
    obtain ⟨tokens, -, -, hlevels⟩ := (Expr.parse_reads cursor hbounded.toBetween).of_ok hrun
    exact hlevels
  · refine .of_routes Statement.routeAt_follows Statement.routeAt_shortened
      (fun s later hrun => ?_) hle
    obtain ⟨tokens, -, -, hlevels⟩ := (Statement.parse_reads cursor hbounded.toBetween).of_ok hrun
    exact hlevels

/-- A call that finds no fault leaves nothing behind for the next one, here an expression in
parentheses that are never closed. -/
theorem calls_resume_read :
    let start := Cursor.ofText "1 (2" .strict 2
    let cursor := Call.after [.read .expression] start
    Call.complete [.read .expression] start = true ∧ Statement.start cursor = cursor ∧
      Expr.parse.Resumes Expr.levels cursor ∧ Statement.parse.Resumes Statement.levels cursor := by
  intro start cursor
  have hcomplete : Call.complete [.read .expression] start = true := by cbv
  have hresume := calls_resume "1 (2" .strict 2 [.read .expression]
  exact ⟨hcomplete, hresume.1.2 hcomplete, hresume.2⟩

theorem Spells.of_replicate {s : Symbol} {n : Nat} {tokens : List Token}
    (h : Spells (List.replicate n (.symbol s)) tokens) :
    tokens.length = n ∧ ∀ token ∈ tokens, token.kind = .symbol s := by
  induction n generalizing tokens with
  | zero =>
    obtain rfl : tokens = [] := h
    exact ⟨rfl, List.forall_mem_nil _⟩
  | succ n ih =>
    obtain ⟨token, back, rfl, htoken, hback⟩ := spells_symbol.mp h
    obtain ⟨hlength, hkinds⟩ := ih hback
    exact ⟨by rw [List.length_cons, hlength], List.forall_mem_cons.mpr ⟨htoken, hkinds⟩⟩

namespace Expr

theorem text_wrapped (n : Nat) :
    (wrapped n).text = String.ofList (List.replicate n '(' ++ '1' :: List.replicate n ')') := by
  have hrun (piece : Piece) (c : Char) (h : piece.text.toList = [c]) :
      (List.replicate n piece).flatMap (fun piece => piece.text.toList) = List.replicate n c := by
    rw [List.flatMap_replicate, h, List.flatten_replicate_singleton]
  rw [text, pieces_wrapped, Piece.join, List.flatMap_append, List.flatMap_cons, hrun _ '(' rfl,
    hrun _ ')' rfl]
  rfl

/-- Behind one parenthesis for every level, no level is left for what is inside. The induction is on
the parentheses. -/
theorem parseRanked_opened {cursor : Cursor} {opened rest : List Token} (least : Nat)
    (hahead : cursor.ahead = opened ++ rest) (hlevels : cursor.levels = opened.length)
    (hopened : ∀ token ∈ opened, token.kind = .symbol (.opening .paren)) :
    ∃ span later, parseRanked opened.length least cursor = .error (.tooDeep span) later ∧
      later.ahead = rest ∧ later.levels = 0 := by
  induction opened generalizing cursor least with
  | nil => exact ⟨_, cursor, rfl, hahead, hlevels⟩
  | cons token opened ih =>
    let inner : Cursor := { cursor with levels := opened.length }
    have hinner : inner.ahead = token :: (opened ++ rest) := hahead
    have hkind : inner.kind 0 = .symbol (.opening .paren) :=
      (congrArg Token.kind (peek_of_ahead hinner)).trans (hopened token List.mem_cons_self)
    have hentered : (inner.entered .paren).ahead = opened ++ rest := by
      rw [Cursor.entered, advanced_of_ahead hinner]
    have hleft : (inner.entered .paren).levels = opened.length := by
      rw [Cursor.entered, advanced_of_ahead hinner]
    obtain ⟨span, later, hrun, hlater⟩ := ih 0 hentered hleft
      fun other hmem => hopened other (List.mem_cons_of_mem token hmem)
    have hwithin : Parse.within .paren (parseRanked opened.length 0) inner =
        .error (.tooDeep span) later := by
      rw [Parse.within, bind_of_ok (within_start .paren inner), bind_of_error hrun]
    have hprimary : parsePrimary (parseRanked opened.length 0) inner =
        .error (.tooDeep span) later := by
      rw [parsePrimary, bind_of_ok (kind_run 0 inner), hkind]
      exact bind_of_error hwithin
    have hstart : (modify fun cursor : Cursor => { cursor with levels := opened.length } :
      Parse Unit) cursor = .ok () inner := rfl
    refine ⟨span, later, ?_, hlater⟩
    rw [List.length_cons, parseRanked, Parse.nested, bind_of_ok hstart]
    exact bind_of_error (bind_of_error hprimary)

theorem spells_wrapped (n limit : Nat) :
    Spells (wrapped n).pieces (Cursor.ofText (wrapped n).text .strict limit).ahead := by
  have hplain : ∀ piece ∈ (wrapped n).pieces, piece.isComment = false ∧ piece.Readable := by
    rw [pieces_wrapped]
    intro piece hmem
    simp only [List.mem_append, List.mem_cons, List.mem_replicate] at hmem
    rcases hmem with ⟨-, rfl⟩ | rfl | ⟨-, rfl⟩ <;> exact ⟨rfl, trivial⟩
  have hreadable : ∀ piece ∈ (wrapped n).pieces, piece.Readable :=
    fun piece hmem => (hplain piece hmem).2
  have hjoins := Piece.joins_of_adjoins (wrapped n).laid.1 hreadable
  have hahead := (ofText_join .strict limit hreadable hjoins).1
  rw [show (Cursor.ofText (wrapped n).text .strict limit).ahead = _ from hahead]
  exact spells_tokens (fun piece hmem => (hplain piece hmem).1) .strict 0

/-- The number inside as many parentheses as there are levels is too deep, and once more for an
expression that is read there next. A fresh parser reads it. -/
theorem parse_wrapped_again (n : Nat) :
    let cursor := Call.after [.read .expression]
      (Cursor.ofText (wrapped (n + 1)).text .strict (n + 1))
    (∃ span later, Expr.parse cursor = .error (.tooDeep span) later) ∧
      ∃ later, Expr.parse (Statement.start cursor) = .ok one later := by
  intro cursor
  let start := Cursor.ofText (wrapped (n + 1)).text .strict (n + 1)
  have hspells := spells_wrapped (n + 1) (n + 1)
  rw [pieces_wrapped, spells_append] at hspells
  obtain ⟨opened, back, hahead, hopened, front, closed, rfl, ⟨number, rfl, hnumber⟩, hclosed⟩ :=
    hspells
  obtain ⟨hlength, hkinds⟩ := hopened.of_replicate
  obtain ⟨span, later, hrun, hlater, hlevels⟩ := parseRanked_opened 0 hahead hlength.symm hkinds
  have hcursor : cursor = later := by
    show (Expr.parse.answer _ start).2 = later
    have hparse : Expr.parse start = .error (.tooDeep span) later := by
      rw [hlength] at hrun
      exact hrun
    rw [Walk.answer, hparse]
  rw [← hcursor] at hlater hlevels
  have hbounded : cursor.Bounded .strict (n + 1) :=
    Call.after_bounded _ (ofText_clean _ .strict (n + 1)).bounded
  constructor
  · have hdeep : Expr.parse cursor = parseRanked 0 0 cursor := by
      show parseRanked cursor.levels 0 cursor = _
      rw [hlevels]
    exact ⟨_, cursor, hdeep⟩
  · have hstart : (Statement.start cursor).ahead = number :: closed := hlater
    have hclosing : (Statement.start cursor).advanced.kind 0 = .symbol (.closing .paren) := by
      obtain ⟨closing, rest, rfl, hkind, -⟩ := spells_symbol.mp hclosed
      rw [advanced_of_ahead hstart]
      exact hkind
    have hone : Spells one.pieces [number] := spells_singleton.mpr ⟨number, rfl, hnumber⟩
    have hfits : one.Fits .strict cursor.limit := by
      rw [hbounded.limit_eq]
      exact ⟨valid_wrapped 0, Nat.succ_pos n⟩
    exact ⟨_, parseRanked_zero_completes .strict cursor.limit one _ _ _ ⟨hbounded.genuine, rfl⟩
      (.advanced hstart) hone hfits (.of_endsExpr (by rw [hclosing]; rfl))⟩

end Expr

/-- A fault can leave no level for what could be read next. -/
theorem calls_resume_deep :
    let text := String.ofList (List.replicate 128 '(' ++ '1' :: List.replicate 128 ')')
    let cursor := Call.after [.read .expression] (Cursor.ofText text .strict nestingLimit)
    (∃ span later, Expr.parse cursor = .error (.tooDeep span) later) ∧
      ∃ later, Expr.parse (Statement.start cursor) = .ok Expr.one later := by
  rw [← Expr.text_wrapped]
  exact Expr.parse_wrapped_again 127

end EdgeQuery
