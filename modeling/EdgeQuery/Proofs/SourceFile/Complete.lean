import EdgeQuery.Proofs.Layout
import EdgeQuery.Proofs.SourceFile

/-!
Files are read back as they are written. Every item of a file stands on a line of its own, so no
item takes anything from its neighbours, and a comment is found again where it was: in front of the
same statement, or behind the last one.
-/

namespace EdgeQuery

open Cursor Parse Walk

namespace Piece

variable {dialect : Dialect} {offset : Nat} {pieces : List Piece}

theorem tokens_within {token : Token} (h : token ∈ tokens dialect offset pieces) :
    offset ≤ token.span.start ∧ token.span.start ≤ token.span.stop ∧
      token.span.stop ≤ offset + extent pieces := by
  induction pieces generalizing offset with
  | nil => cases h
  | cons piece pieces ih =>
    rw [tokens] at h
    rw [extent_cons]
    split at h
    · rcases List.mem_cons.mp h with rfl | h
      · exact ⟨Nat.le_refl _, Nat.le_add_right _ _, by dsimp only; omega⟩
      · have := ih h
        omega
    · have := ih h
      omega

theorem comments_within {comment : Comment} (hreadable : ∀ piece ∈ pieces, piece.Readable)
    (h : comment ∈ comments offset pieces) :
    offset ≤ comment.span.start ∧ comment.span.start < offset + extent pieces := by
  induction pieces generalizing offset with
  | nil => cases h
  | cons piece pieces ih =>
    have hlater (offset : Nat) (h : comment ∈ comments offset pieces) :
        offset ≤ comment.span.start ∧ comment.span.start < offset + extent pieces :=
      ih (fun p hmem => hreadable p (List.mem_cons_of_mem piece hmem)) h
    rw [extent_cons]
    cases piece with
    | comment content =>
      have hcomment : IsComment content.toList :=
        hreadable (.comment content) List.mem_cons_self
      have hpos := hcomment.width_pos
      rcases List.mem_cons.mp h with rfl | h
      · exact ⟨Nat.le_refl _, by dsimp only [Piece.text]; omega⟩
      · have := hlater _ h
        omega
    | _ =>
      have := hlater _ h
      omega

theorem comments_eq_nil (h : ∀ piece ∈ pieces, piece.isComment = false) :
    comments offset pieces = [] := by
  induction pieces generalizing offset with
  | nil => rfl
  | cons piece pieces ih =>
    have hlater (offset : Nat) : comments offset pieces = [] :=
      ih fun other hmem => h other (List.mem_cons_of_mem piece hmem)
    cases piece with
    | comment content => cases h _ List.mem_cons_self
    | _ => exact hlater _

end Piece

/-- The comment at another place. -/
def Comment.movedTo (comment : Comment) (offset : Nat) : Comment :=
  { comment with span := ⟨offset, offset + width comment.text.toList⟩ }

namespace SourceItem

/-- The item as it is read when it is written at the offset. -/
def movedTo (offset : Nat) : SourceItem → SourceItem
  | .statement s => .statement s
  | .comment c => .comment (c.movedTo offset)

/-- The items as they are read when they are written from the offset on. -/
def placed : Nat → List SourceItem → List SourceItem
  | _, [] => []
  | offset, item :: items =>
    item.movedTo offset :: placed (offset + Piece.extent item.pieces) items

/-- The bytes that the items take. -/
def extent (items : List SourceItem) : Nat :=
  Piece.extent (items.flatMap pieces)

/-- The items are equal, apart from the places of comments. -/
def Same : SourceItem → SourceItem → Prop
  | .statement s, .statement t => s = t
  | .comment c, .comment d => c.text = d.text
  | _, _ => False

section Items

variable {dialect : Dialect} {limit offset : Nat} {item other : SourceItem} {items : List SourceItem}

theorem Same.pieces_eq (h : item.Same other) : item.pieces = other.pieces := by
  cases item <;> cases other
  case statement.statement => rw [show _ = _ from h]
  case comment.comment => rw [pieces, pieces, show _ = _ from h]
  all_goals exact h.elim

/-- Files of equal items have equal texts, wherever their comments stand. -/
theorem text_eq_of_same {items others : List SourceItem} (h : List.Forall₂ Same items others) :
    (SourceFile.mk others).text = (SourceFile.mk items).text := by
  have hpieces : others.flatMap pieces = items.flatMap pieces := by
    induction h with
    | nil => rfl
    | cons hsame _ ih => rw [List.flatMap_cons, List.flatMap_cons, ih, hsame.pieces_eq]
  exact congrArg Piece.join hpieces

theorem forall₂_same_placed (offset : Nat) (items : List SourceItem) :
    List.Forall₂ Same items (placed offset items) := by
  induction items generalizing offset with
  | nil => exact .nil
  | cons item items ih => cases item <;> exact .cons rfl (ih _)

theorem extent_cons (item : SourceItem) (items : List SourceItem) :
    extent (item :: items) = Piece.extent item.pieces + extent items := by
  rw [extent, List.flatMap_cons, Piece.extent_append]
  rfl

theorem extent_append (left right : List SourceItem) :
    extent (left ++ right) = extent left + extent right := by
  rw [extent, List.flatMap_append, Piece.extent_append]
  rfl

theorem placed_append (offset : Nat) (left right : List SourceItem) :
    placed offset (left ++ right) =
      placed offset left ++ placed (offset + extent left) right := by
  induction left generalizing offset with
  | nil => rfl
  | cons item left ih =>
    rw [List.cons_append, placed, placed, List.cons_append, ih, extent_cons, Nat.add_assoc]

theorem Valid.strict (h : item.Valid dialect limit) : item.Valid .strict limit := by
  cases item with
  | statement s => exact ⟨h.1.strict, h.2⟩
  | comment c => exact h

theorem Valid.readable (h : item.Valid dialect limit) : ∀ piece ∈ item.pieces, piece.Readable := by
  cases item with
  | statement s =>
    obtain ⟨-, -, hreadable⟩ := h
    simpa [pieces, or_imp, forall_and, Piece.Readable] using hreadable
  | comment c =>
    have hcomment : IsComment c.text.toList := h
    simpa [pieces, Piece.Readable] using hcomment

theorem Valid.joins (h : item.Valid dialect limit) : item.pieces.IsChain Piece.Joins := by
  refine Piece.joins_of_adjoins ?_ h.readable
  cases item with
  | statement s =>
    have hend : Piece.Detached [.symbol .semicolon, .lineEnd] :=
      .cons_open rfl rfl (.single rfl)
    exact (s.laid.append hend).1
  | comment c =>
    refine List.isChain_pair.mpr fun _ c hc => ?_
    obtain rfl : '\n' = c := Option.some.inj hc
    rfl

theorem getLast?_pieces (item : SourceItem) : item.pieces.getLast? = some .lineEnd := by
  cases item <;> simp [pieces]

/-- The items of a file do not run together. -/
theorem joins_flatMap (h : ∀ item ∈ items, item.Valid dialect limit) :
    (items.flatMap pieces).IsChain Piece.Joins := by
  induction items with
  | nil => exact .nil
  | cons item items ih =>
    rw [List.flatMap_cons]
    refine List.isChain_append.mpr ⟨(h item (by simp)).joins,
      ih fun other hmem => h other (List.mem_cons_of_mem item hmem), ?_⟩
    intro piece hpiece next _ c _
    rw [getLast?_pieces] at hpiece
    obtain rfl := Option.some.inj hpiece
    rfl

theorem readable_flatMap (h : ∀ item ∈ items, item.Valid dialect limit) :
    ∀ piece ∈ items.flatMap pieces, piece.Readable := by
  intro piece hmem
  obtain ⟨item, hitem, hpiece⟩ := List.mem_flatMap.mp hmem
  exact (h item hitem).readable piece hpiece

/-- Items are some comments, and nothing or a statement behind them. -/
theorem exists_leading (items : List SourceItem) :
    ∃ (leading : List Comment) (rest : List SourceItem), items = leading.map .comment ++ rest ∧
      (rest = [] ∨ ∃ s more, rest = .statement s :: more) := by
  induction items with
  | nil => exact ⟨[], [], rfl, .inl rfl⟩
  | cons item items ih =>
    cases item with
    | statement s => exact ⟨[], .statement s :: items, rfl, .inr ⟨s, items, rfl⟩⟩
    | comment c =>
      obtain ⟨leading, rest, rfl, hrest⟩ := ih
      exact ⟨c :: leading, rest, rfl, hrest⟩

theorem tokens_comments (dialect : Dialect) (offset : Nat) (comments : List Comment) :
    Piece.tokens dialect offset ((comments.map SourceItem.comment).flatMap pieces) = [] := by
  induction comments generalizing offset with
  | nil => rfl
  | cons c comments ih => exact ih _

theorem comments_comments (offset : Nat) (comments : List Comment) :
    (Piece.comments offset ((comments.map SourceItem.comment).flatMap pieces)).map .comment =
      placed offset (comments.map .comment) := by
  induction comments generalizing offset with
  | nil => rfl
  | cons c comments ih =>
    rw [List.map_cons, List.flatMap_cons, Piece.comments_append, List.map_append, ih]
    rfl

/-- Behind the tokens of a statement its semicolon is read. -/
theorem exists_semicolon (dialect : Dialect) (offset : Nat) (s : Statement) :
    ∃ semicolon : Token, semicolon.kind = .symbol .semicolon ∧
      Piece.tokens dialect offset (statement s).pieces =
        Piece.tokens dialect offset s.pieces ++ [semicolon] := by
  rw [pieces, Piece.tokens_append]
  exact ⟨_, rfl, rfl⟩

theorem comments_statement {s : Statement} (h : ∀ piece ∈ s.pieces, piece.isComment = false) :
    Piece.comments offset (statement s).pieces = [] := by
  rw [pieces, Piece.comments_append, Piece.comments_eq_nil h]
  rfl

/-- The comments that are written for the items are those among the items. -/
theorem comments_texts (h : ∀ item ∈ items, item.Valid dialect limit) (offset : Nat) :
    (Piece.comments offset (items.flatMap pieces)).map Comment.text =
      (items.filterMap comment?).map Comment.text := by
  induction items generalizing offset with
  | nil => rfl
  | cons item items ih =>
    have hlater := ih (fun other hmem => h other (List.mem_cons_of_mem item hmem))
      (offset + Piece.extent item.pieces)
    rw [List.flatMap_cons, Piece.comments_append, List.map_append, hlater]
    cases item with
    | statement s =>
      obtain ⟨-, hplain, -⟩ := h (.statement s) List.mem_cons_self
      rw [comments_statement hplain]
      rfl
    | comment c => rfl

end Items
end SourceItem

namespace Cursor

/-- The cursor stands before items that can be read, which are written from the offset on. -/
structure Holds (dialect : Dialect) (limit offset : Nat) (items : List SourceItem)
    (cursor : Cursor) : Prop where
  between : cursor.Between dialect limit
  valid : ∀ item ∈ items, item.Valid dialect limit
  ahead_eq : cursor.ahead = Piece.tokens dialect offset (items.flatMap SourceItem.pieces)
  comments_eq : cursor.comments = Piece.comments offset (items.flatMap SourceItem.pieces)

variable {dialect : Dialect} {limit offset : Nat} {items rest : List SourceItem}
  {leading : List Comment} {cursor later : Cursor}

theorem ofText_holds (h : ∀ item ∈ items, item.Valid dialect limit) :
    (ofText (SourceFile.mk items).text dialect limit).Holds dialect limit 0 items := by
  obtain ⟨hahead, hcomments⟩ := ofText_join dialect limit (SourceItem.readable_flatMap h)
    (SourceItem.joins_flatMap h)
  exact ⟨ofText_between _ dialect limit, h, hahead, hcomments⟩

end Cursor

namespace Walk

/-- Of the comments that are left, those before the offset are taken. -/
theorem commentsBefore_ok {ε : Type} {cursor : Cursor} {early late : List Comment} {offset : Nat}
    (h : cursor.comments = early ++ late) (hearly : ∀ comment ∈ early, comment.span.start < offset)
    (hlate : ∀ comment ∈ late, offset ≤ comment.span.start) :
    (commentsBefore offset : Walk ε (List SourceItem)) cursor =
      .ok (early.map .comment) { cursor with comments := late } := by
  obtain ⟨htake, hdrop⟩ :=
    takeWhile_append_stop (p := fun comment : Comment => decide (comment.span.start < offset))
      (fun c hc => decide_eq_true (hearly c hc))
      (fun c hc => decide_eq_false (Nat.not_lt.mpr (hlate c (List.mem_of_mem_head? hc))))
  rw [commentsBefore_run, h]
  dsimp only
  rw [htake, hdrop]

end Walk

namespace Cursor

variable {dialect : Dialect} {limit offset mark : Nat} {items rest : List SourceItem}
  {comments : List Comment} {cursor : Cursor} {s : Statement}

/-- Comments before a mark are taken there, and the items behind it are left. -/
theorem Holds.read_comments {ε : Type}
    (h : cursor.Holds dialect limit offset (comments.map .comment ++ rest))
    (hmark : offset + SourceItem.extent (comments.map .comment) ≤ mark)
    (hlate : ∀ comment ∈ Piece.comments (offset + SourceItem.extent (comments.map .comment))
      (rest.flatMap SourceItem.pieces), mark ≤ comment.span.start) :
    ∃ later, (commentsBefore mark : Walk ε (List SourceItem)) cursor =
        .ok (SourceItem.placed offset (comments.map .comment)) later ∧
      later.Holds dialect limit (offset + SourceItem.extent (comments.map .comment)) rest := by
  have hvalid := List.forall_mem_append.mp h.valid
  have hcomments := h.comments_eq
  rw [List.flatMap_append, Piece.comments_append] at hcomments
  have hahead := h.ahead_eq
  rw [List.flatMap_append, Piece.tokens_append, SourceItem.tokens_comments, List.nil_append] at hahead
  have hearly : ∀ comment ∈ Piece.comments offset ((comments.map .comment).flatMap SourceItem.pieces),
      comment.span.start < mark := by
    intro comment hmem
    have hwithin := Piece.comments_within (SourceItem.readable_flatMap hvalid.1) hmem
    exact Nat.lt_of_lt_of_le hwithin.2 hmark
  have hrun := commentsBefore_ok (ε := ε) hcomments hearly hlate
  rw [SourceItem.comments_comments] at hrun
  exact ⟨_, hrun, h.between.leaves (.of_comments hcomments), hvalid.2, hahead, rfl⟩

/-- No comment is taken before the items that are left. -/
theorem Holds.comments_none {ε : Type} (h : cursor.Holds dialect limit offset items)
    (hmark : mark ≤ offset) :
    (commentsBefore mark : Walk ε (List SourceItem)) cursor = .ok [] cursor := by
  have hlate : ∀ comment ∈ cursor.comments, mark ≤ comment.span.start := by
    intro comment hmem
    rw [h.comments_eq] at hmem
    exact Nat.le_trans hmark
      (Piece.comments_within (SourceItem.readable_flatMap h.valid) hmem).1
  exact commentsBefore_ok (List.nil_append _).symm (List.forall_mem_nil _) hlate

/-- A statement is read together with its semicolon. -/
theorem Holds.read_statement (h : cursor.Holds dialect limit offset (.statement s :: rest)) :
    ∃ later, Statement.parseTerminated cursor = .ok s later ∧
      later.Holds dialect limit (offset + Piece.extent (SourceItem.statement s).pieces) rest ∧
      later.behind ≤ offset + Piece.extent (SourceItem.statement s).pieces := by
  obtain ⟨hfits, hplain, -⟩ := h.valid (.statement s) List.mem_cons_self
  obtain ⟨semicolon, hkind, htokens⟩ := SourceItem.exists_semicolon dialect offset s
  have hahead : (Statement.start cursor).ahead = _ := h.ahead_eq
  rw [List.flatMap_cons, Piece.tokens_append, htokens] at hahead
  have hcomments := h.comments_eq
  rw [List.flatMap_cons, Piece.comments_append, SourceItem.comments_statement hplain] at hcomments
  obtain ⟨later, hpass, hlater⟩ := exists_passes hahead
  refine ⟨later, ?_, ⟨?_, ?_, hlater, hpass.comments_eq.trans hcomments⟩, ?_⟩
  · exact Statement.parseTerminated_complete h.between hpass
      (spells_tokens hplain dialect offset) hfits (.inr ⟨semicolon, rfl, hkind⟩)
  · exact h.between.leaves (Statement.Skips.of_start (.of_passes hpass)).toLeaves
  · exact fun item hmem => h.valid item (List.mem_cons_of_mem _ hmem)
  · have hmem : semicolon ∈ Piece.tokens dialect offset (SourceItem.statement s).pieces := by
      simp [htokens]
    rw [hpass.behind_eq]
    exact (Piece.tokens_within hmem).2.2

/-- A statement is ahead, right behind the comments. -/
theorem Holds.exists_ahead
    (h : cursor.Holds dialect limit offset (comments.map .comment ++ .statement s :: rest)) :
    ∃ token back, cursor.ahead = token :: back ∧
      offset + SourceItem.extent (comments.map .comment) ≤ token.span.start ∧
      token.span.start ≤ offset + SourceItem.extent (comments.map .comment) +
        Piece.extent (SourceItem.statement s).pieces := by
  obtain ⟨semicolon, -, htokens⟩ := SourceItem.exists_semicolon dialect
    (offset + SourceItem.extent (comments.map .comment)) s
  obtain ⟨token, back, hfirst⟩ := List.exists_cons_of_ne_nil
    (List.append_ne_nil_of_right_ne_nil _ (List.cons_ne_nil semicolon []))
  rw [← htokens] at hfirst
  have hahead := h.ahead_eq
  rw [List.flatMap_append, Piece.tokens_append, SourceItem.tokens_comments, List.nil_append,
    List.flatMap_cons, Piece.tokens_append] at hahead
  obtain ⟨hfrom, hmore, hupto⟩ := Piece.tokens_within (hfirst ▸ List.mem_cons_self)
  exact ⟨token, _, hahead.trans (congrArg (· ++ _) hfirst), hfrom, Nat.le_trans hmore hupto⟩

/-- A statement is read with the comments in front of it. Those behind it stand in front of the
next one, or of the end. -/
theorem Holds.read_group
    (h : cursor.Holds dialect limit offset (comments.map .comment ++ .statement s :: rest)) :
    ∃ later, SourceFile.parseGroup cursor =
        .ok (SourceItem.placed offset (comments.map .comment ++ [.statement s])) later ∧
      later.Holds dialect limit
        (offset + SourceItem.extent (comments.map .comment ++ [.statement s])) rest := by
  obtain ⟨token, back, hahead, hfrom, hupto⟩ := h.exists_ahead
  have hcurrent : cursor.current = token := by
    rw [current, peek, hahead]
    rfl
  rw [← hcurrent] at hfrom hupto
  have hlate : ∀ comment ∈ Piece.comments (offset + SourceItem.extent (comments.map .comment))
      ((SourceItem.statement s :: rest).flatMap SourceItem.pieces),
      cursor.current.span.start ≤ comment.span.start := by
    have hvalid := (List.forall_mem_append.mp h.valid).2
    obtain ⟨-, hplain, -⟩ := hvalid (.statement s) List.mem_cons_self
    have hreadable := SourceItem.readable_flatMap fun item hmem =>
      hvalid item (List.mem_cons_of_mem _ hmem)
    intro comment hmem
    rw [List.flatMap_cons, Piece.comments_append, SourceItem.comments_statement hplain] at hmem
    exact Nat.le_trans hupto (Piece.comments_within hreadable hmem).1
  obtain ⟨mid, hrun, hmid⟩ := h.read_comments (ε := SyntaxError) hfrom hlate
  have hleading : (commentsHere : Parse (List SourceItem)) cursor = _ := hrun
  obtain ⟨later, hstatement, hlater, hbehind⟩ := hmid.read_statement
  have htrailing : (commentsBehind : Parse (List SourceItem)) later = _ :=
    hlater.comments_none hbehind
  have hextent : SourceItem.extent (comments.map .comment ++ [.statement s]) =
      SourceItem.extent (comments.map .comment) + Piece.extent (SourceItem.statement s).pieces := by
    rw [SourceItem.extent_append, SourceItem.extent_cons]
    rfl
  rw [hextent, ← Nat.add_assoc, SourceItem.placed_append]
  refine ⟨later, ?_, hlater⟩
  rw [SourceFile.parseGroup, bind_of_ok hleading, bind_of_ok hstatement]
  show (commentsBehind >>= fun trailing => pure (_ ++ _ :: trailing)) later = _
  rw [bind_of_ok htrailing]
  rfl

end Cursor

namespace SourceFile

variable {dialect : Dialect} {limit offset : Nat} {items : List SourceItem} {cursor : Cursor}

/-- The statements are read one by one, until only comments are left. The induction is on the
number of rounds, each of which reads a token at least. -/
theorem groups_run {rounds : Nat} (h : cursor.Holds dialect limit offset items)
    (hrounds : cursor.ahead.length ≤ rounds) :
    ∃ groups later start, ∃ comments : List Comment,
      repeatUpTo (round? parseGroup) rounds cursor = .ok groups later ∧
      later.Holds dialect limit start (comments.map .comment) ∧
      SourceItem.placed offset items =
        groups.flatten ++ SourceItem.placed start (comments.map .comment) := by
  induction rounds generalizing cursor offset items with
  | zero =>
    obtain ⟨comments, rest, rfl, rfl | ⟨s, more, rfl⟩⟩ := SourceItem.exists_leading items
    · rw [List.append_nil] at h ⊢
      exact ⟨[], cursor, offset, comments, rfl, h, rfl⟩
    · obtain ⟨token, back, hahead, -⟩ := h.exists_ahead
      rw [hahead] at hrounds
      exact absurd hrounds (Nat.not_succ_le_zero _)
  | succ rounds ih =>
    obtain ⟨comments, rest, rfl, rfl | ⟨s, more, rfl⟩⟩ := SourceItem.exists_leading items
    · rw [List.append_nil] at h ⊢
      have hahead : cursor.ahead = [] := h.ahead_eq.trans (SourceItem.tokens_comments ..)
      exact ⟨[], cursor, offset, comments, repeatUpTo_of_atEnd (List.isEmpty_iff.mpr hahead), h,
        rfl⟩
    · obtain ⟨token, back, hahead, -⟩ := h.exists_ahead
      obtain ⟨mid, hrun, hmid⟩ := h.read_group
      obtain ⟨tokens, _, hleaves, hne, -⟩ := parseGroup_takes cursor mid _ h.between hrun
      have hlength : cursor.ahead.length = tokens.length + mid.ahead.length := by
        rw [hleaves.ahead_eq, List.length_append]
      have hpos := List.length_pos_iff.mpr hne
      obtain ⟨groups, later, start, others, hloop, hlater, hplaced⟩ := ih hmid (by omega)
      refine ⟨SourceItem.placed offset (comments.map .comment ++ [.statement s]) :: groups, later,
        start, others, ?_, hlater, ?_⟩
      · have hend : cursor.atEnd = false := by
          rw [Cursor.atEnd, hahead]
          rfl
        rw [repeatUpTo_of_ok hend hrun, bind_of_ok hloop]
        rfl
      · rw [List.flatten_cons, List.append_assoc, ← hplaced, ← SourceItem.placed_append,
          List.append_assoc]
        rfl

/-- Behind the last statement all comments are taken. -/
theorem last_comments_run {comments : List Comment}
    (h : cursor.Holds dialect limit offset (comments.map .comment)) :
    ∃ later, (commentsHere : Parse (List SourceItem)) cursor =
      .ok (SourceItem.placed offset (comments.map .comment)) later := by
  have hahead : cursor.ahead = [] := h.ahead_eq.trans (SourceItem.tokens_comments ..)
  have hstart : cursor.current.span.start = cursor.size := by
    rw [current, peek, hahead]
    rfl
  have hearly : ∀ comment ∈ cursor.comments, comment.span.start < cursor.current.span.start := by
    intro comment hmem
    rw [hstart]
    exact (h.between.passed comment hmem).2
  have hrun := commentsBefore_ok (ε := SyntaxError) (List.append_nil cursor.comments).symm hearly
    (by simp)
  rw [h.comments_eq, SourceItem.comments_comments] at hrun
  exact ⟨_, hrun⟩

/-- What is written for items that can be read is read as these items. -/
theorem parse_complete (h : cursor.Holds dialect limit offset items) :
    ∃ later, SourceFile.parse cursor = .ok ⟨SourceItem.placed offset items⟩ later := by
  obtain ⟨groups, mid, start, comments, hloop, hmid, hplaced⟩ := groups_run h (Nat.le_refl _)
  obtain ⟨later, hlast⟩ := last_comments_run hmid
  have hgroups : repeated (round? parseGroup) cursor = .ok groups mid := hloop
  have hrounds : rounds parseGroup cursor =
      .ok (groups, SourceItem.placed start (comments.map .comment)) later := by
    rw [rounds_eq, bind_of_ok hgroups, bind_of_ok hlast]
    rfl
  refine ⟨later, ?_⟩
  rw [SourceFile.parse, bind_of_ok hrounds, hplaced]
  rfl

/-- A file of items that can be read is read back from its text, with the comments at the places
where they are written. -/
theorem ofText_complete (h : ∀ item ∈ items, item.Valid dialect nestingLimit) :
    ofText (SourceFile.mk items).text dialect = .ok ⟨SourceItem.placed 0 items⟩ := by
  obtain ⟨later, hrun⟩ := parse_complete (ofText_holds h)
  rw [ofText, Parse.run, hrun]

end SourceFile
end EdgeQuery
