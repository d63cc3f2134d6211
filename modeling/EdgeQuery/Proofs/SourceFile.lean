import EdgeQuery.Query
import EdgeQuery.Proofs.Statement.Complete
import Mathlib.Data.List.TakeWhile

/-!
Files are read as they are written. A walk over a file takes tokens and comments from the front of
what is left; a file that is read without a fault accounts for all of them, and one that is read
past its faults holds nothing that could not be read again.
-/

namespace EdgeQuery

open Cursor Parse Walk

namespace Piece

/-- What a piece means, if it is a token that means something. -/
def meaning? (dialect : Dialect) (piece : Piece) : Option TokenKind :=
  (piece.kind? dialect).bind TokenKind.essential?

def meanings (dialect : Dialect) (pieces : List Piece) : List TokenKind :=
  pieces.filterMap (meaning? dialect)

theorem meanings_append (dialect : Dialect) (left right : List Piece) :
    meanings dialect (left ++ right) = meanings dialect left ++ meanings dialect right :=
  List.filterMap_append

theorem essentials_tokens (dialect : Dialect) (offset : Nat) (pieces : List Piece) :
    essentials (tokens dialect offset pieces) = meanings dialect pieces := by
  induction pieces generalizing offset with
  | nil => rfl
  | cons piece pieces ih =>
    rw [tokens, meanings, List.filterMap_cons, meaning?]
    split
    · next kind hkind =>
      rw [essentials, List.filterMap_cons, hkind, Option.bind_some]
      cases kind.essential? with
      | none => exact ih _
      | some essential => exact congrArg _ (ih _)
    · next hnone =>
      rw [hnone]
      exact ih _

end Piece

namespace SourceItem

/-- The item is one that can be read: a comment, or a statement that fits and is written as tokens
with payloads that can be read back. -/
def Valid (dialect : Dialect) (limit : Nat) : SourceItem → Prop
  | .statement s =>
    s.Fits dialect limit ∧ (∀ piece ∈ s.pieces, piece.isComment = false) ∧
      ∀ piece ∈ s.pieces, piece.Readable
  | .comment c => IsComment c.text.toList

/-- The items hold what the tokens mean, and the comments, and nothing else. -/
structure Account (dialect : Dialect) (limit : Nat) (items : List SourceItem)
    (tokens : List Token) (comments : List Comment) : Prop where
  valid : ∀ item ∈ items, item.Valid dialect limit
  essentials_eq : essentials tokens = Piece.meanings dialect (items.flatMap SourceItem.pieces)
  comments_eq : items.filterMap SourceItem.comment? = comments

variable {dialect : Dialect} {limit : Nat}

theorem Account.nil : Account dialect limit [] [] [] :=
  ⟨by simp, rfl, rfl⟩

theorem Account.append {left right : List SourceItem} {front back : List Token}
    {early late : List Comment} (hleft : Account dialect limit left front early)
    (hright : Account dialect limit right back late) :
    Account dialect limit (left ++ right) (front ++ back) (early ++ late) := by
  refine ⟨List.forall_mem_append.mpr ⟨hleft.valid, hright.valid⟩, ?_, ?_⟩
  · rw [essentials_append, hleft.essentials_eq, hright.essentials_eq, List.flatMap_append,
      Piece.meanings_append]
  · rw [List.filterMap_append, hleft.comments_eq, hright.comments_eq]

theorem Account.comments {comments : List Comment}
    (h : ∀ comment ∈ comments, IsComment comment.text.toList) :
    Account dialect limit (comments.map .comment) [] comments := by
  refine ⟨?_, ?_, ?_⟩
  · intro item hmem
    obtain ⟨comment, hcomment, rfl⟩ := List.mem_map.mp hmem
    exact h comment hcomment
  · induction comments with
    | nil => rfl
    | cons comment comments ih =>
      have hmore := ih fun other hmem => h other (List.mem_cons_of_mem comment hmem)
      rw [List.map_cons, List.flatMap_cons, Piece.meanings_append, ← hmore]
      rfl
  · rw [List.filterMap_map]
    exact List.filterMap_some

end SourceItem

namespace Cursor

/-- What holds of a cursor between the statements of a text. -/
structure Between (dialect : Dialect) (limit : Nat) (cursor : Cursor) : Prop where
  genuine : ∀ token ∈ cursor.ahead, token.Genuine dialect
  passed : ∀ comment ∈ cursor.comments, comment.Passed cursor.size
  limit_eq : cursor.limit = limit

/-- The tokens and the comments are those that the later cursor has left behind. -/
structure Leaves (cursor : Cursor) (tokens : List Token) (comments : List Comment)
    (later : Cursor) : Prop where
  ahead_eq : cursor.ahead = tokens ++ later.ahead
  comments_eq : cursor.comments = comments ++ later.comments
  limit_eq : later.limit = cursor.limit
  size_eq : later.size = cursor.size

variable {dialect : Dialect} {limit : Nat} {cursor mid later : Cursor} {tokens more : List Token}
  {comments others : List Comment}

theorem Leaves.refl (cursor : Cursor) : cursor.Leaves [] [] cursor :=
  ⟨rfl, rfl, rfl, rfl⟩

theorem Leaves.trans (hfront : cursor.Leaves tokens comments mid)
    (hback : mid.Leaves more others later) :
    cursor.Leaves (tokens ++ more) (comments ++ others) later := by
  refine ⟨?_, ?_, hback.limit_eq.trans hfront.limit_eq, hback.size_eq.trans hfront.size_eq⟩
  · rw [hfront.ahead_eq, hback.ahead_eq, List.append_assoc]
  · rw [hfront.comments_eq, hback.comments_eq, List.append_assoc]

theorem Between.leaves (h : cursor.Between dialect limit)
    (hleaves : cursor.Leaves tokens comments later) : later.Between dialect limit := by
  refine ⟨?_, ?_, hleaves.limit_eq.trans h.limit_eq⟩
  · intro token hmem
    exact h.genuine token (hleaves.ahead_eq ▸ List.mem_append_right _ hmem)
  · intro comment hmem
    rw [hleaves.size_eq]
    exact h.passed comment (hleaves.comments_eq ▸ List.mem_append_right _ hmem)

theorem Leaves.of_comments (h : cursor.comments = comments ++ others) :
    cursor.Leaves [] comments { cursor with comments := others } :=
  ⟨rfl, h, rfl, rfl⟩

/-- The offset at which the last of the tokens ends, or another one if there are none. -/
def lastStop (tokens : List Token) (behind : Nat) : Nat :=
  tokens.foldl (fun _ token => token.span.stop) behind

theorem lastStop_append (front back : List Token) (behind : Nat) :
    lastStop (front ++ back) behind = lastStop back (lastStop front behind) :=
  List.foldl_append

/-- The later cursor has left the tokens behind, and nothing else. -/
structure Skips (cursor : Cursor) (tokens : List Token) (later : Cursor) : Prop extends
    cursor.Leaves tokens [] later where
  behind_eq : later.behind = lastStop tokens cursor.behind

theorem Skips.refl (cursor : Cursor) : cursor.Skips [] cursor :=
  ⟨.refl cursor, rfl⟩

theorem Skips.trans (hfront : cursor.Skips tokens mid) (hback : mid.Skips more later) :
    cursor.Skips (tokens ++ more) later := by
  refine ⟨hfront.toLeaves.trans hback.toLeaves, ?_⟩
  rw [hback.behind_eq, hfront.behind_eq, lastStop_append]

theorem Skips.of_passes (h : cursor.Passes tokens later) : cursor.Skips tokens later := by
  refine ⟨⟨h.1, h.comments_eq.symm, h.limit_eq, h.size_eq⟩, ?_⟩
  rw [h.2]
  rfl

theorem Skips.of_strays {error : SyntaxError} (h : cursor.Strays error later) :
    ∃ tokens, cursor.Skips tokens later := by
  obtain ⟨-, ⟨tokens, hahead, hlater⟩, -⟩ := h
  refine ⟨tokens, ⟨hahead, ?_, ?_, ?_⟩, ?_⟩ <;> rw [hlater] <;> rfl

/-- The tokens ahead at the beginning of a text are all of its tokens, apart from the mark. -/
theorem tokens_ofText (text : String) (dialect : Dialect) (limit : Nat) :
    (Scanner.ofText text dialect).tokens.1 =
      (ofText text dialect limit).ahead ++ [Token.atEnd (ofText text dialect limit).size] := by
  obtain ⟨ahead, htokens, -⟩ := Scanner.tokens_eq (Scanner.ofText text dialect)
  have hahead : (ofText text dialect limit).ahead = ahead := by
    show (Scanner.ofText text dialect).tokens.1.dropLast = ahead
    rw [htokens, List.dropLast_concat]
  rw [hahead]
  exact htokens

theorem ofText_between (text : String) (dialect : Dialect) (limit : Nat) :
    (ofText text dialect limit).Between dialect limit := by
  obtain ⟨ahead, htokens, hgenuine⟩ := Scanner.tokens_eq (Scanner.ofText text dialect)
  have hpassed : (Scanner.ofText text dialect).tokens.2.CommentsPassed :=
    Scanner.tokens_commentsPassed (by simp [Scanner.CommentsPassed, Scanner.ofText])
  obtain rfl := List.append_inj_left' ((tokens_ofText text dialect limit).symm.trans htokens) rfl
  exact ⟨hgenuine, hpassed, rfl⟩

/-- What is ahead at the beginning of a canonical text. -/
theorem ofText_join {pieces : List Piece} (dialect : Dialect) (limit : Nat)
    (hreadable : ∀ piece ∈ pieces, piece.Readable) (hjoins : pieces.IsChain Piece.Joins) :
    (ofText (Piece.join pieces) dialect limit).ahead = Piece.tokens dialect 0 pieces ∧
      (ofText (Piece.join pieces) dialect limit).comments = Piece.comments 0 pieces := by
  have htokens := Scanner.tokens_pieces dialect 0 [] hreadable hjoins
  constructor
  · show (Scanner.ofText (Piece.join pieces) dialect).tokens.1.dropLast = _
    rw [Scanner.ofText, htokens, List.dropLast_concat]
  · show (Scanner.ofText (Piece.join pieces) dialect).tokens.2.comments = _
    rw [Scanner.ofText, htokens, List.nil_append]

end Cursor

namespace Walk

/-- Whenever the walk yields a value, the tokens and comments that it has left behind fulfil the
condition. -/
def Takes {ε α : Type} (dialect : Dialect) (limit : Nat) (walk : Walk ε α)
    (post : α → List Token → List Comment → Prop) : Prop :=
  ∀ (cursor later : Cursor) (value : α), cursor.Between dialect limit →
    walk cursor = .ok value later →
    ∃ tokens comments, cursor.Leaves tokens comments later ∧ post value tokens comments

section Rules

variable {ε α β : Type} {dialect : Dialect} {limit : Nat} {walk : Walk ε α} {next : α → Walk ε β}
  {post : α → List Token → List Comment → Prop} {goal : β → List Token → List Comment → Prop}

theorem Takes.pure {value : α} (h : post value [] []) :
    Takes dialect limit (Pure.pure value : Walk ε α) post := by
  intro cursor later result _ hrun
  cases hrun
  exact ⟨[], [], .refl cursor, h⟩

theorem Takes.bind (h : walk.Takes dialect limit post)
    (hnext : ∀ value tokens comments, post value tokens comments →
      (next value).Takes dialect limit fun result more others =>
        goal result (tokens ++ more) (comments ++ others)) :
    (walk >>= next).Takes dialect limit goal := by
  intro cursor later result hbetween hrun
  obtain ⟨value, mid, hfirst, hsecond⟩ := bind_ok hrun
  obtain ⟨tokens, comments, hleaves, hpost⟩ := h cursor mid value hbetween hfirst
  obtain ⟨more, others, hleaves', hgoal⟩ := hnext value tokens comments hpost mid later result
    (hbetween.leaves hleaves) hsecond
  exact ⟨tokens ++ more, comments ++ others, hleaves.trans hleaves', hgoal⟩

theorem Takes.mono {weaker : α → List Token → List Comment → Prop}
    (h : walk.Takes dialect limit post)
    (himp : ∀ value tokens comments, post value tokens comments → weaker value tokens comments) :
    walk.Takes dialect limit weaker := by
  intro cursor later value hbetween hrun
  obtain ⟨tokens, comments, hleaves, hpost⟩ := h cursor later value hbetween hrun
  exact ⟨tokens, comments, hleaves, himp value tokens comments hpost⟩

/-- A walk that begins by looking at the cursor. -/
theorem Takes.get {next : Cursor → Walk ε β}
    (h : ∀ cursor, (next cursor).Takes dialect limit goal) :
    (get >>= next).Takes dialect limit goal :=
  fun cursor later result hbetween hrun => h cursor cursor later result hbetween hrun

/-- The rounds of a loop, put together. The induction is on the number of rounds. -/
theorem Takes.repeatUpTo {item? : Walk ε (Option α)}
    {goal : List α → List Token → List Comment → Prop}
    (h : item?.Takes dialect limit fun value tokens comments =>
      value.elim (tokens = [] ∧ comments = []) fun v => post v tokens comments)
    (hnil : goal [] [] [])
    (hcons : ∀ v values tokens more comments others, post v tokens comments →
      goal values more others → goal (v :: values) (tokens ++ more) (comments ++ others))
    (rounds : Nat) : (Walk.repeatUpTo item? rounds).Takes dialect limit goal := by
  induction rounds with
  | zero => exact .pure hnil
  | succ rounds ih =>
    refine h.bind ?_
    intro value tokens comments hpost
    cases value with
    | none =>
      obtain ⟨rfl, rfl⟩ := hpost
      exact .pure hnil
    | some v =>
      refine ih.bind ?_
      intro values more others hgoal
      refine .pure ?_
      rw [List.append_nil, List.append_nil]
      exact hcons v values tokens more comments others hpost hgoal

end Rules

section Comments

variable {ε : Type} {dialect : Dialect} {limit : Nat}

theorem commentsBefore_run (offset : Nat) (cursor : Cursor) :
    (commentsBefore offset : Walk ε (List SourceItem)) cursor =
      let early := fun comment : Comment => decide (comment.span.start < offset)
      .ok ((cursor.comments.takeWhile early).map .comment)
        { cursor with comments := cursor.comments.dropWhile early } := rfl

theorem commentsBefore_takes (offset : Nat) :
    (commentsBefore offset : Walk ε (List SourceItem)).Takes dialect limit
      (SourceItem.Account dialect limit) := by
  intro cursor later items hbetween hrun
  rw [commentsBefore_run] at hrun
  cases hrun
  refine ⟨[], _, .of_comments List.takeWhile_append_dropWhile.symm, .comments ?_⟩
  · intro comment hmem
    exact (hbetween.passed comment (List.takeWhile_subset _ hmem)).1

theorem commentsHere_takes :
    (commentsHere : Walk ε (List SourceItem)).Takes dialect limit
      (SourceItem.Account dialect limit) :=
  .get fun cursor => commentsBefore_takes cursor.current.span.start

theorem commentsBehind_takes :
    (commentsBehind : Walk ε (List SourceItem)).Takes dialect limit
      (SourceItem.Account dialect limit) :=
  .get fun cursor => commentsBefore_takes cursor.behind

end Comments
end Walk

namespace Statement

variable {dialect : Dialect} {limit : Nat} {cursor later : Cursor}

/-- The cursor with all nesting levels free and no delimiter open. -/
def start (cursor : Cursor) : Cursor :=
  { cursor with levels := cursor.limit, opened := [] }

theorem parseTerminated_run (cursor : Cursor) :
    parseTerminated cursor =
      (parseAt cursor.limit >>= fun statement => eatSymbol .semicolon >>= fun _ =>
        pure statement) (start cursor) := rfl

theorem start_at (h : cursor.Between dialect limit) : (start cursor).At dialect limit :=
  ⟨h.genuine, h.limit_eq⟩

/-- A statement and the semicolon behind it, if there is one. -/
theorem parseTerminated_reads (h : cursor.Between dialect limit) :
    (parseAt cursor.limit >>= fun statement => eatSymbol .semicolon >>= fun _ =>
      pure statement).Reads (start cursor) fun statement tokens _ =>
        statement.Fits dialect limit ∧ ∃ front back, tokens = front ++ back ∧
          Spells statement.pieces front ∧
          (back = [] ∨ ∃ token, back = [token] ∧ token.kind = .symbol .semicolon) := by
  have hsemicolon : IsFlat (.symbol .semicolon) := isFlat_symbol (by simp) (by simp)
  rw [h.limit_eq]
  refine (parseAt_sound dialect limit (start cursor) (start_at h)).bind ?_
  rintro statement tokens mid hpass ⟨hspells, hfits⟩
  refine (eatSymbol_reads hsemicolon mid).bind ?_
  rintro found more later - hfound
  refine .pure ⟨hfits, tokens, more, by rw [List.append_nil], hspells, ?_⟩
  rcases hfound with ⟨-, rfl, hkind⟩ | ⟨-, rfl, -⟩
  · exact .inr ⟨mid.current, rfl, hkind⟩
  · exact .inl rfl

/-- A statement is read back together with the semicolon behind it. Without one, what follows must
be what no statement goes on with. -/
theorem parseTerminated_complete {s : Statement} {front back : List Token}
    (h : cursor.Between dialect limit) (hpass : (start cursor).Passes (front ++ back) later)
    (hspells : Spells s.pieces front) (hfits : s.Fits dialect limit)
    (hback : back = [] ∧ (later.kind 0).closes [] = true ∧ later.kind 0 ≠ .symbol .semicolon ∨
      ∃ token, back = [token] ∧ token.kind = .symbol .semicolon) :
    parseTerminated cursor = .ok s later := by
  obtain ⟨mid, hfront, hrest⟩ := hpass.split
  have hparse (hcloses : (mid.kind 0).closes [] = true) :
      parseAt cursor.limit (start cursor) = .ok s mid := by
    rw [h.limit_eq]
    exact parseAt_completes dialect limit s _ _ mid (start_at h) hfront hspells hfits hcloses
  rw [parseTerminated_run]
  rcases hback with ⟨rfl, hcloses, hkind⟩ | ⟨token, rfl, hkind⟩
  · obtain rfl := hrest.eq_of_nil
    rw [bind_of_ok (hparse hcloses), bind_of_ok (eatSymbol_false hkind)]
    rfl
  · have hmid : mid.kind 0 = .symbol .semicolon := hrest.kind_eq.trans hkind
    have hcloses : (mid.kind 0).closes [] = true := by
      rw [hmid]
      rfl
    rw [bind_of_ok (hparse hcloses), bind_of_ok (eatSymbol_true hmid), ← hrest.advanced_eq]
    rfl

theorem Skips.of_start {tokens : List Token} (h : (start cursor).Skips tokens later) :
    cursor.Skips tokens later :=
  ⟨⟨h.ahead_eq, h.comments_eq, h.limit_eq, h.size_eq⟩, h.behind_eq⟩

theorem meanings_statement {s : Statement} :
    Piece.meanings dialect (SourceItem.statement s).pieces = Piece.meanings dialect s.pieces := by
  rw [SourceItem.pieces, Piece.meanings_append]
  exact List.append_nil _

/-- Nothing is read as a statement where no token is left. -/
theorem tokens_ne_nil {s : Statement} {tokens : List Token} (hfits : s.Fits dialect limit)
    (h : Spells s.pieces tokens) : tokens ≠ [] := by
  rintro rfl
  have hrun := parseAt_completes dialect limit s ⟨[], 0, 0, [], limit, limit, []⟩ [] _
    ⟨by simp, rfl⟩ (.refl _) h hfits rfl
  have hrun : (Expr.parseRanked limit 0 >>= fun e => pure (Statement.value e))
    (⟨[], 0, 0, [], limit, limit, []⟩ : Cursor) = .ok s ⟨[], 0, 0, [], limit, limit, []⟩ := hrun
  obtain ⟨e, mid, hexpr, -⟩ := bind_ok hrun
  cases Expr.parseRanked_starts hexpr

/-- A statement takes at least one token, and nothing but tokens. -/
theorem parseTerminated_skips_of_ok {s : Statement} (h : cursor.Between dialect limit)
    (hrun : parseTerminated cursor = .ok s later) :
    ∃ tokens, cursor.Skips tokens later ∧ tokens ≠ [] ∧
      SourceItem.Account dialect limit [.statement s] tokens [] := by
  rw [parseTerminated_run] at hrun
  obtain ⟨tokens, hpass, -, hfits, front, back, rfl, hspells, hback⟩ :=
    (parseTerminated_reads h).of_ok hrun
  have hne : front ++ back ≠ [] :=
    fun hnil => tokens_ne_nil hfits hspells (List.append_eq_nil_iff.mp hnil).1
  refine ⟨front ++ back, Skips.of_start (.of_passes hpass), hne, ?_⟩
  have hgenuine : ∀ token ∈ front, token.Genuine dialect := by
    intro token hmem
    refine (start_at h).tokens_genuine hpass token ?_
    exact List.mem_append_left _ hmem
  refine ⟨?_, ?_, rfl⟩
  · intro item hmem
    obtain rfl := List.mem_singleton.mp hmem
    exact ⟨hfits, hspells.isComment_eq_false, hspells.readable hgenuine⟩
  · have hend : essentials back = [] := by
      rcases hback with rfl | ⟨token, rfl, hkind⟩
      · rfl
      · rw [essentials, List.filterMap_cons, hkind]
        rfl
    rw [essentials_append, hspells.essentials_eq hgenuine, hend, List.append_nil,
      List.flatMap_singleton, meanings_statement]
    rfl

theorem parseTerminated_skips_of_error {error : SyntaxError} (h : cursor.Between dialect limit)
    (hrun : parseTerminated cursor = .error error later) :
    ∃ tokens, cursor.Skips tokens later := by
  rw [parseTerminated_run] at hrun
  obtain ⟨tokens, hskips⟩ := Skips.of_strays ((parseTerminated_reads h).of_error hrun)
  exact ⟨tokens, Skips.of_start hskips⟩

theorem parseTerminated_takes :
    parseTerminated.Takes dialect limit fun statement tokens comments =>
      tokens ≠ [] ∧ comments = [] ∧
        SourceItem.Account dialect limit [.statement statement] tokens comments := by
  intro cursor later statement hbetween hrun
  obtain ⟨tokens, hskips, hne, haccount⟩ := parseTerminated_skips_of_ok hbetween hrun
  exact ⟨tokens, [], hskips.toLeaves, hne, rfl, haccount⟩

end Statement

namespace SourceFile

variable {dialect : Dialect} {limit : Nat}

/-- A statement is accounted for with the comments around it. -/
theorem parseGroup_takes :
    parseGroup.Takes dialect limit fun items tokens comments =>
      tokens ≠ [] ∧ SourceItem.Account dialect limit items tokens comments := by
  refine commentsHere_takes.bind ?_
  intro leading tokens comments hleading
  refine Statement.parseTerminated_takes.bind ?_
  rintro statement more _ ⟨hne, rfl, hstatement⟩
  refine commentsBehind_takes.bind ?_
  intro trailing rest others htrailing
  refine .pure ⟨by simp [hne], ?_⟩
  have hall := hleading.append (hstatement.append htrailing)
  simpa using hall

/-- A round, unless all tokens have been read. -/
def round? {ε α : Type} (round : Walk ε α) : Walk ε (Option α) := do
  if (← get).atEnd then return none else return some (← round)

theorem rounds_eq {ε α : Type} (round : Walk ε α) :
    rounds round = (repeated (round? round) >>= fun values => commentsHere >>= fun last =>
      pure (values, last)) := rfl

section Rounds

variable {ε α : Type} {round : Walk ε α} {cursor later mid : Cursor} {value : α} {n : Nat}

theorem round?_of_atEnd (h : cursor.atEnd = true) : round? round cursor = .ok none cursor := by
  show (if cursor.atEnd = true then (pure none : Walk ε (Option α))
    else round >>= fun v => pure (some v)) cursor = _
  rw [if_pos h]
  rfl

theorem round?_of_not_atEnd (h : cursor.atEnd = false) :
    round? round cursor = (round >>= fun v => pure (some v)) cursor := by
  show (if cursor.atEnd = true then (pure none : Walk ε (Option α))
    else round >>= fun v => pure (some v)) cursor = _
  rw [if_neg (by simp [h])]

/-- At the end there is no further round. -/
theorem repeatUpTo_of_atEnd (h : cursor.atEnd = true) :
    repeatUpTo (round? round) n cursor = .ok [] cursor := by
  cases n with
  | zero => rfl
  | succ n =>
    rw [repeatUpTo, bind_of_ok (round?_of_atEnd h)]
    rfl

theorem repeatUpTo_of_ok (h : cursor.atEnd = false) (hround : round cursor = .ok value mid) :
    repeatUpTo (round? round) (n + 1) cursor =
      (repeatUpTo (round? round) n >>= fun values => pure (value :: values)) mid := by
  have hfirst : round? round cursor = .ok (some value) mid := by
    rw [round?_of_not_atEnd h, bind_of_ok hround]
    rfl
  rw [repeatUpTo, bind_of_ok hfirst]

theorem repeatUpTo_of_error {error : ε} (h : cursor.atEnd = false)
    (hround : round cursor = .error error mid) :
    repeatUpTo (round? round) (n + 1) cursor = .error error mid := by
  have hfirst : round? round cursor = .error error mid := by
    rw [round?_of_not_atEnd h, bind_of_error hround]
  rw [repeatUpTo, bind_of_error hfirst]

theorem round?_eq_none (h : round? round cursor = .ok none later) :
    cursor.ahead = [] ∧ later = cursor := by
  cases hend : cursor.atEnd with
  | true =>
    cases (round?_of_atEnd hend).symm.trans h
    exact ⟨List.isEmpty_iff.mp hend, rfl⟩
  | false =>
    rw [round?_of_not_atEnd hend] at h
    obtain ⟨value, mid, -, hpure⟩ := bind_ok h
    cases hpure

theorem round?_eq_some (h : round? round cursor = .ok (some value) later) :
    cursor.ahead ≠ [] ∧ round cursor = .ok value later := by
  cases hend : cursor.atEnd with
  | true => cases (round?_of_atEnd hend).symm.trans h
  | false =>
    rw [round?_of_not_atEnd hend] at h
    obtain ⟨value, mid, hfirst, hpure⟩ := bind_ok h
    cases hpure
    exact ⟨List.isEmpty_eq_false_iff.mp hend, hfirst⟩

end Rounds

theorem round?_takes {ε α : Type} {round : Walk ε α} {post : α → List Token → List Comment → Prop}
    (h : round.Takes dialect limit post) :
    (round? round).Takes dialect limit fun value tokens comments =>
      value.elim (tokens = [] ∧ comments = []) fun v => post v tokens comments := by
  refine .get fun cursor => ?_
  split
  · exact .pure ⟨rfl, rfl⟩
  · refine h.bind fun v tokens comments hpost => .pure ?_
    rw [List.append_nil, List.append_nil]
    exact hpost

theorem rounds_takes {ε α : Type} {round : Walk ε α}
    {post : α → List Token → List Comment → Prop}
    (goal : List α → List Token → List Comment → Prop) (h : round.Takes dialect limit post)
    (hnil : goal [] [] [])
    (hcons : ∀ v values tokens more comments others, post v tokens comments →
      goal values more others → goal (v :: values) (tokens ++ more) (comments ++ others)) :
    (rounds round).Takes dialect limit fun result tokens comments =>
      ∃ front back early late, tokens = front ++ back ∧ comments = early ++ late ∧
        goal result.1 front early ∧ SourceItem.Account dialect limit result.2 back late := by
  refine Takes.bind (.get fun cursor => .repeatUpTo (round?_takes h) hnil hcons _) ?_
  intro values tokens comments hgoal
  refine commentsHere_takes.bind fun last more others hlast => .pure ?_
  exact ⟨tokens, more, comments, others, by simp, by simp, hgoal, hlast⟩

/-- A file is accounted for by the tokens and comments that have been taken. -/
theorem parse_takes :
    SourceFile.parse.Takes dialect limit fun file => SourceItem.Account dialect limit file.items := by
  refine (rounds_takes (fun groups => SourceItem.Account dialect limit groups.flatten)
    parseGroup_takes .nil fun _ _ _ _ _ _ hpost hgoal => hpost.2.append hgoal).bind ?_
  rintro ⟨groups, last⟩ _ _ ⟨front, back, early, late, rfl, rfl, hgroups, hlast⟩
  refine .pure ?_
  rw [List.append_nil, List.append_nil]
  exact hgroups.append hlast

section Drained

variable {ε α : Type} {round : Walk ε α}

/-- A loop whose rounds take a token each ends where no token is left. -/
theorem repeatUpTo_drains {item? : Walk ε (Option α)}
    (h : item?.Takes dialect limit fun value tokens comments =>
      value.elim (tokens = [] ∧ comments = []) fun _ => tokens ≠ [])
    (hnone : ∀ cursor later, item? cursor = .ok none later → later.ahead = []) {rounds : Nat}
    {cursor later : Cursor} {values : List α} (hbetween : cursor.Between dialect limit)
    (hrounds : cursor.ahead.length ≤ rounds)
    (hrun : repeatUpTo item? rounds cursor = .ok values later) : later.ahead = [] := by
  induction rounds generalizing cursor values with
  | zero =>
    cases hrun
    exact List.eq_nil_of_length_eq_zero (Nat.le_zero.mp hrounds)
  | succ rounds ih =>
    obtain ⟨value, mid, hfirst, hmore⟩ := bind_ok hrun
    cases value with
    | none =>
      cases hmore
      exact hnone cursor _ hfirst
    | some v =>
      obtain ⟨tokens, comments, hleaves, hne⟩ := h cursor mid (some v) hbetween hfirst
      obtain ⟨values, later', hrest, hlast⟩ := bind_ok hmore
      cases hlast
      have hlength := congrArg List.length hleaves.ahead_eq
      have hpos := List.length_pos_iff.mpr hne
      rw [List.length_append] at hlength
      exact ih (hbetween.leaves hleaves) (by omega) hrest

/-- Behind the last token the comments that are left are taken. -/
theorem commentsHere_drains {cursor later : Cursor} {items : List SourceItem}
    (hbetween : cursor.Between dialect limit) (hahead : cursor.ahead = [])
    (hrun : (commentsHere : Walk ε (List SourceItem)) cursor = .ok items later) :
    later.ahead = [] ∧ later.comments = [] := by
  have hstart : cursor.current.span.start = cursor.size := by
    rw [current, peek, hahead]
    rfl
  have hrun : (commentsBefore cursor.current.span.start : Walk ε (List SourceItem)) cursor =
    .ok items later := hrun
  rw [commentsBefore_run, hstart] at hrun
  cases hrun
  refine ⟨hahead, List.dropWhile_eq_nil_iff.mpr ?_⟩
  intro comment hmem
  exact decide_eq_true (hbetween.passed comment hmem).2

theorem rounds_drain (h : round.Takes dialect limit fun _ tokens _ => tokens ≠ [])
    {cursor later : Cursor} {result : List α × List SourceItem}
    (hbetween : cursor.Between dialect limit) (hrun : rounds round cursor = .ok result later) :
    later.ahead = [] ∧ later.comments = [] := by
  have hnone (cursor later : Cursor) (hrun : round? round cursor = .ok none later) :
      later.ahead = [] := by
    have hrun : (if cursor.atEnd = true then (pure none : Walk ε (Option α))
      else round >>= fun v => pure (some v)) cursor = .ok none later := hrun
    split at hrun
    · next hend =>
      cases hrun
      exact List.isEmpty_iff.mp hend
    · obtain ⟨v, mid, -, hlast⟩ := bind_ok hrun
      cases hlast
  obtain ⟨values, mid, hloop, hrest⟩ := bind_ok hrun
  obtain ⟨last, later', hlast, hpure⟩ := bind_ok hrest
  cases hpure
  have htakes : (repeatUpTo (round? round) cursor.ahead.length).Takes dialect limit
      fun _ _ _ => True :=
    .repeatUpTo (round?_takes h) trivial (fun _ _ _ _ _ _ _ _ => trivial) _
  obtain ⟨tokens, comments, hleaves, -⟩ := htakes cursor mid values hbetween hloop
  exact commentsHere_drains (hbetween.leaves hleaves)
    (repeatUpTo_drains (round?_takes h) hnone hbetween (Nat.le_refl _) hloop) hlast

end Drained

/-- A file that is read without a fault accounts for all tokens and all comments of its text. -/
theorem parse_account {cursor later : Cursor} {file : SourceFile}
    (hbetween : cursor.Between dialect limit) (hrun : SourceFile.parse cursor = .ok file later) :
    SourceItem.Account dialect limit file.items cursor.ahead cursor.comments := by
  obtain ⟨tokens, comments, hleaves, haccount⟩ := parse_takes cursor later file hbetween hrun
  have hdrained : later.ahead = [] ∧ later.comments = [] := by
    obtain ⟨result, mid, hrounds, hpure⟩ := bind_ok hrun
    cases hpure
    exact rounds_drain (parseGroup_takes.mono fun _ _ _ h => h.1) hbetween hrounds
  rw [hleaves.ahead_eq, hleaves.comments_eq, hdrained.1, hdrained.2, List.append_nil,
    List.append_nil]
  exact haccount

section Recovery

theorem pastSemicolon_front (tokens : List Token) (behind : Nat) :
    ∃ front, tokens = front ++ (pastSemicolon tokens behind).1 ∧
      (pastSemicolon tokens behind).2 = lastStop front behind := by
  induction tokens generalizing behind with
  | nil => exact ⟨[], rfl, rfl⟩
  | cons token tokens ih =>
    rw [pastSemicolon]
    split
    · exact ⟨[token], rfl, rfl⟩
    · obtain ⟨front, hfront, hbehind⟩ := ih token.span.stop
      refine ⟨token :: front, ?_, hbehind⟩
      rw [List.cons_append, ← hfront]

/-- The cursor behind the next semicolon. -/
def behindSemicolon (cursor : Cursor) : Cursor :=
  { cursor with
    ahead := (pastSemicolon cursor.ahead cursor.behind).1
    behind := (pastSemicolon cursor.ahead cursor.behind).2 }

theorem synchronized_eq (cursor : Cursor) (remaining : Nat) :
    cursor.synchronized remaining =
      behindSemicolon (if cursor.ahead.length = remaining && !cursor.atSymbol .semicolon then
        cursor.advanced else cursor) := rfl

theorem behindSemicolon_skips (cursor : Cursor) :
    ∃ tokens, cursor.Skips tokens (behindSemicolon cursor) := by
  obtain ⟨front, hfront, hbehind⟩ := pastSemicolon_front cursor.ahead cursor.behind
  exact ⟨front, ⟨hfront, rfl, rfl, rfl⟩, hbehind⟩

theorem advanced_skips (cursor : Cursor) : ∃ tokens, cursor.Skips tokens cursor.advanced := by
  cases hahead : cursor.ahead with
  | nil =>
    rw [Cursor.advanced, hahead]
    exact ⟨[], .refl cursor⟩
  | cons token rest => exact ⟨[token], .of_passes (.advanced hahead)⟩

/-- What is passed over behind a fault is left behind, with all comments kept. -/
theorem synchronized_skips (cursor : Cursor) (remaining : Nat) :
    ∃ tokens, cursor.Skips tokens (cursor.synchronized remaining) := by
  rw [synchronized_eq]
  split
  · obtain ⟨front, hfront⟩ := advanced_skips cursor
    obtain ⟨back, hback⟩ := behindSemicolon_skips cursor.advanced
    exact ⟨front ++ back, hfront.trans hback⟩
  · exact behindSemicolon_skips cursor

/-- A statement that has been read past its faults is a sound one. -/
theorem attempt_takes :
    (attempt Statement.parseTerminated).Takes dialect limit fun outcome _ _ =>
      ∀ statement, outcome = .ok statement →
        (SourceItem.statement statement).Valid dialect limit := by
  intro cursor later outcome hbetween hrun
  rw [attempt] at hrun
  cases hparse : Statement.parseTerminated cursor with
  | ok statement mid =>
    rw [hparse] at hrun
    cases hrun
    obtain ⟨tokens, comments, hleaves, -, -, haccount⟩ :=
      Statement.parseTerminated_takes cursor _ statement hbetween hparse
    refine ⟨tokens, comments, hleaves, ?_⟩
    rintro _ ⟨⟩
    exact haccount.valid _ (by simp)
  | error error mid =>
    rw [hparse] at hrun
    cases hrun
    obtain ⟨tokens, hskips⟩ := Statement.parseTerminated_skips_of_error hbetween hparse
    exact ⟨tokens, [], hskips.toLeaves, by simp⟩

theorem recoverGroup_takes :
    recoverGroup.Takes dialect limit fun group _ _ =>
      ∀ item ∈ group.1, item.Valid dialect limit := by
  refine commentsHere_takes.bind ?_
  intro leading tokens comments hleading
  refine .get fun cursor => attempt_takes.bind ?_
  intro outcome more others hstatement
  cases outcome with
  | ok statement =>
    refine commentsBehind_takes.bind ?_
    intro trailing rest late htrailing
    refine .pure ?_
    intro item hmem
    rcases List.mem_append.mp hmem with hmem | hmem
    · exact hleading.valid item hmem
    · rcases List.mem_cons.mp hmem with rfl | hmem
      · exact hstatement statement rfl
      · exact htrailing.valid item hmem
  | error error =>
    intro mid later group _ hrun
    obtain ⟨⟨⟩, synchronized, hmodify, hpure⟩ := bind_ok hrun
    cases hmodify
    cases hpure
    obtain ⟨passed, hskips⟩ := synchronized_skips mid cursor.ahead.length
    exact ⟨passed, [], hskips.toLeaves, hleading.valid⟩

/-- A file that is read past its faults holds sound items only. -/
theorem recover_takes :
    recover.Takes dialect limit fun result _ _ =>
      ∀ item ∈ result.1.items, item.Valid dialect limit := by
  refine (rounds_takes (fun groups _ _ =>
    ∀ group ∈ groups, ∀ item ∈ group.1, item.Valid dialect limit) recoverGroup_takes (by simp)
    ?_).bind ?_
  · intro group groups _ _ _ _ hgroup hgroups
    exact List.forall_mem_cons.mpr ⟨hgroup, hgroups⟩
  · rintro ⟨groups, last⟩ _ _ ⟨front, back, early, late, rfl, rfl, hgroups, hlast⟩
    refine .pure ?_
    intro item hmem
    rcases List.mem_append.mp hmem with hmem | hmem
    · obtain ⟨group, hgroup, hitem⟩ := List.mem_flatMap.mp hmem
      exact hgroups group hgroup item hitem
    · exact hlast.valid item hmem

end Recovery

theorem ofText_account {text : String} {file : SourceFile} (h : ofText text dialect = .ok file) :
    SourceItem.Account dialect nestingLimit file.items
      (Cursor.ofText text dialect nestingLimit).ahead
      (Cursor.ofText text dialect nestingLimit).comments := by
  rw [ofText, Parse.run] at h
  split at h
  · next value later hrun =>
    obtain rfl := Except.ok.inj h
    exact parse_account (ofText_between text dialect nestingLimit) hrun
  · cases h

theorem recoverText_valid (text : String) (dialect : Dialect) :
    ∀ item ∈ (recoverText text dialect).1.items, item.Valid dialect nestingLimit := by
  rw [recoverText, Walk.outcome]
  split
  · next value later hrun =>
    obtain ⟨-, -, -, hvalid⟩ :=
      recover_takes _ later value (ofText_between text dialect nestingLimit) hrun
    exact hvalid
  · next error _ _ => exact error.elim

end SourceFile
end EdgeQuery
