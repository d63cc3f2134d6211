import Mathlib
import EdgeQuery.Proofs.SourceFile.Rounds
import EdgeQuery.Proofs.Token.Tiling

/-!
Comments in their places. The tokens of a text fall into stretches: a statement with the semicolon
behind it, or a faulty statement with what is passed over because of it. Every comment of the text
is an item of the file, in the order of the text. It stands before the statements whose first tokens
it precedes and behind all others, and right behind the statement that it is written in.
-/

namespace EdgeQuery

open Cursor Parse Walk

/-- Where a condition holds of a front only, it holds of nothing that is left behind the front. -/
theorem eq_false_of_mem_dropWhile {α : Type} {p : α → Bool} {items : List α} {item : α}
    (hfront : items.Pairwise fun first later => p later = true → p first = true)
    (hmem : item ∈ items.dropWhile p) : p item = false := by
  induction items with
  | nil => cases hmem
  | cons first items ih =>
    obtain ⟨hfirst, hmore⟩ := List.pairwise_cons.mp hfront
    by_cases hholds : p first = true
    · rw [List.dropWhile_cons_of_pos hholds] at hmem
      exact ih hmore hmem
    · rw [List.dropWhile_cons_of_neg hholds] at hmem
      rw [Bool.eq_false_iff]
      rcases List.mem_cons.mp hmem with rfl | hmem
      · exact hholds
      · exact fun hlater => hholds (hfirst item hmem hlater)

/-- Tokens that are read as a statement, or that are passed over because of a fault. -/
structure Stretch where
  first : Token
  more : List Token
  outcome : Except SyntaxError Statement

namespace Stretch

def tokens (stretch : Stretch) : List Token :=
  stretch.first :: stretch.more

/-- The offset at which the last token ends. -/
def stop (stretch : Stretch) : Nat :=
  lastStop stretch.more stretch.first.span.stop

def statement? (stretch : Stretch) : Option Statement :=
  match stretch.outcome with
  | .ok s => some s
  | .error _ => none

def error? (stretch : Stretch) : Option SyntaxError :=
  match stretch.outcome with
  | .ok _ => none
  | .error error => some error

/-- A parser that has the tokens of the stretch ahead, and then the others, reads the statement and
stops in front of the others, or it fails and goes on there. -/
def Taken (limit size : Nat) (stretch : Stretch) (others : List Token) : Prop :=
  ∃ cursor later : Cursor, cursor.ahead = stretch.tokens ++ others ∧ cursor.size = size ∧
    cursor.limit = limit ∧
    match stretch.outcome with
    | .ok s => Statement.parseTerminated cursor = .ok s later ∧ later.ahead = others
    | .error error => Statement.parseTerminated cursor = .error error later ∧
      (later.synchronized cursor.ahead.length).ahead = others

/-- The stretches that tokens fall into, the first one first. -/
inductive Divide (limit size : Nat) : List Token → List Stretch → Prop
  | nil : Divide limit size [] []
  | cons {stretch : Stretch} {stretches : List Stretch} {others : List Token}
    (htaken : stretch.Taken limit size others) (hmore : Divide limit size others stretches) :
    Divide limit size (stretch.tokens ++ others) (stretch :: stretches)

theorem Divide.first_mem {limit size : Nat} {tokens : List Token} {stretches : List Stretch}
    (h : Divide limit size tokens stretches) : ∀ stretch ∈ stretches, stretch.first ∈ tokens := by
  induction h with
  | nil => exact fun _ hmem => by cases hmem
  | cons _ _ ih =>
    intro stretch hmem
    rcases List.mem_cons.mp hmem with rfl | hmem
    · exact List.mem_append_left _ List.mem_cons_self
    · exact List.mem_append_right _ (ih stretch hmem)

/-- What stands in front of the statement that is read from a stretch, and behind it. The comments
in front are those that begin before the first token, and those written inside stand right behind.
-/
structure Parts (stretch : Stretch) (comments : List Comment) (front back : List SourceItem) :
    Prop where
  front_iff : ∀ comment ∈ comments,
    .comment comment ∈ front ↔ comment.span.start < stretch.first.span.start
  inside : ∃ (inside : List Comment) (rest : List SourceItem),
    back = inside.map .comment ++ rest ∧
    ∀ comment, comment ∈ inside ↔ comment ∈ comments ∧
      stretch.first.span.start ≤ comment.span.start ∧ comment.span.start < stretch.stop

/-- The items are the comments, each of them once and in this order, and the statements of the
stretches, in their order, with the comments in their places. -/
structure Arranged (items : List SourceItem) (stretches : List Stretch)
    (comments : List Comment) : Prop where
  comments_eq : items.filterMap SourceItem.comment? = comments
  statements_eq : items.filterMap SourceItem.statement? = stretches.filterMap statement?
  parts : ∀ front s back, items = front ++ .statement s :: back →
    ∃ before stretch after, stretches = before ++ stretch :: after ∧ stretch.outcome = .ok s ∧
      before.filterMap statement? = front.filterMap SourceItem.statement? ∧
      stretch.Parts comments front back

section Items

variable {early others inside : List Comment} {items front back : List SourceItem}
  {stretch : Stretch} {stretches : List Stretch} {s : Statement} {error : SyntaxError}

theorem filterMap_comments (comments : List Comment) :
    (comments.map SourceItem.comment).filterMap SourceItem.comment? = comments ∧
      (comments.map SourceItem.comment).filterMap SourceItem.statement? = [] := by
  constructor
  · rw [List.filterMap_map]
    exact List.filterMap_some
  · rw [List.filterMap_map]
    exact List.filterMap_eq_nil_iff.mpr fun _ _ => rfl

/-- A statement that stands behind comments among the items stands in what follows them. -/
theorem exists_of_comments_append {comments : List Comment}
    (h : comments.map .comment ++ items = front ++ .statement s :: back) :
    ∃ later, front = comments.map .comment ++ later ∧ items = later ++ .statement s :: back := by
  induction comments generalizing front with
  | nil => exact ⟨front, rfl, h⟩
  | cons comment comments ih =>
    cases front with
    | nil => cases (List.cons.inj h).1
    | cons item front =>
      obtain ⟨rfl, hmore⟩ := List.cons.inj h
      obtain ⟨later, rfl, hitems⟩ := ih hmore
      exact ⟨later, rfl, hitems⟩

theorem Arranged.nil (comments : List Comment) :
    Arranged (comments.map .comment) [] comments := by
  refine ⟨(filterMap_comments comments).1, (filterMap_comments comments).2, ?_⟩
  intro front s back hsplit
  have hmem : SourceItem.statement s ∈ comments.map SourceItem.comment := by
    rw [hsplit]
    exact List.mem_append_right _ List.mem_cons_self
  obtain ⟨_, _, hcomment⟩ := List.mem_map.mp hmem
  cases hcomment

/-- Comments that begin before all stretches stand before all items. -/
theorem Arranged.behind (h : Arranged items stretches others)
    (hearly : ∀ comment ∈ early, ∀ stretch ∈ stretches,
      comment.span.start < stretch.first.span.start) :
    Arranged (early.map .comment ++ items) stretches (early ++ others) := by
  obtain ⟨hcomments, hstatements⟩ := filterMap_comments early
  refine ⟨?_, ?_, ?_⟩
  · rw [List.filterMap_append, hcomments, h.comments_eq]
  · rw [List.filterMap_append, hstatements, h.statements_eq, List.nil_append]
  intro front s back hsplit
  obtain ⟨later, rfl, hitems⟩ := exists_of_comments_append hsplit
  obtain ⟨before, stretch, after, hstretches, houtcome, hbefore, hparts⟩ := h.parts _ _ _ hitems
  have hearly (comment : Comment) (hmem : comment ∈ early) :
      comment.span.start < stretch.first.span.start := by
    refine hearly comment hmem stretch ?_
    rw [hstretches]
    exact List.mem_append_right _ List.mem_cons_self
  refine ⟨before, stretch, after, hstretches, houtcome, ?_, ?_, ?_⟩
  · rw [List.filterMap_append, hstatements, hbefore, List.nil_append]
  · intro comment hmem
    have hfront : SourceItem.comment comment ∈ early.map SourceItem.comment ↔ comment ∈ early :=
      ⟨fun hmap => by
        obtain ⟨other, hother, heq⟩ := List.mem_map.mp hmap
        cases heq
        exact hother, List.mem_map_of_mem⟩
    rw [List.mem_append, hfront]
    rcases List.mem_append.mp hmem with hmem | hmem
    · exact iff_of_true (.inl hmem) (hearly comment hmem)
    · rw [hparts.front_iff comment hmem, or_iff_right_iff_imp]
      exact hearly comment
  · obtain ⟨inside, rest, hback, hinside⟩ := hparts.inside
    refine ⟨inside, rest, hback, fun comment => ?_⟩
    rw [hinside, List.mem_append, or_and_right]
    refine (or_iff_right ?_).symm
    rintro ⟨hmem, hstart, -⟩
    exact absurd (hearly comment hmem) (Nat.not_lt.mpr hstart)

/-- A faulty statement is no item. -/
theorem Arranged.skip (h : Arranged items stretches others)
    (houtcome : stretch.outcome = .error error) :
    Arranged items (stretch :: stretches) others := by
  have hnone : stretch.statement? = none := by rw [statement?, houtcome]
  refine ⟨h.comments_eq, ?_, ?_⟩
  · rw [List.filterMap_cons_none hnone, h.statements_eq]
  intro front s back hsplit
  obtain ⟨before, found, after, rfl, hfound, hbefore, hparts⟩ := h.parts front s back hsplit
  refine ⟨stretch :: before, found, after, rfl, hfound, ?_, hparts⟩
  rw [List.filterMap_cons_none hnone, hbefore]

/-- A statement comes before the comments inside it. -/
theorem Arranged.statement
    (h : Arranged (inside.map .comment ++ items) stretches (inside ++ others))
    (houtcome : stretch.outcome = .ok s)
    (hstart : ∀ comment ∈ inside ++ others, stretch.first.span.start ≤ comment.span.start)
    (hinside : ∀ comment ∈ inside, comment.span.start < stretch.stop)
    (hothers : ∀ comment ∈ others, stretch.stop ≤ comment.span.start) :
    Arranged (.statement s :: (inside.map .comment ++ items)) (stretch :: stretches)
      (inside ++ others) := by
  have hsome : stretch.statement? = some s := by rw [statement?, houtcome]
  refine ⟨h.comments_eq, ?_, ?_⟩
  · rw [List.filterMap_cons_some hsome, ← h.statements_eq]
    rfl
  intro front found back hsplit
  cases front with
  | nil =>
    obtain ⟨heq, rfl⟩ := List.cons.inj hsplit
    cases heq
    refine ⟨[], stretch, stretches, rfl, houtcome, rfl, ?_, inside, items, rfl, ?_⟩
    · intro comment hmem
      exact iff_of_false List.not_mem_nil (Nat.not_lt.mpr (hstart comment hmem))
    · intro comment
      constructor
      · intro hmem
        have hall := List.mem_append_left others hmem
        exact ⟨hall, hstart comment hall, hinside comment hmem⟩
      · rintro ⟨hmem, -, hstop⟩
        refine (List.mem_append.mp hmem).resolve_right fun hother => ?_
        exact absurd hstop (Nat.not_lt.mpr (hothers comment hother))
  | cons item front =>
    obtain ⟨rfl, hmore⟩ := List.cons.inj hsplit
    obtain ⟨before, other, after, rfl, hother, hbefore, hparts⟩ := h.parts front found back hmore
    refine ⟨stretch :: before, other, after, rfl, hother, ?_, ?_, hparts.inside⟩
    · rw [List.filterMap_cons_some hsome, hbefore]
      rfl
    · intro comment hmem
      rw [List.mem_cons, or_iff_right nofun, hparts.front_iff comment hmem]

end Items
end Stretch

namespace Cursor

/-- What holds of a cursor between the statements of a text: all that is left is in order. -/
structure Tidy (dialect : Dialect) (limit : Nat) (cursor : Cursor) : Prop extends
    cursor.Between dialect limit where
  token_extent : ∀ token ∈ cursor.ahead, token.span.start < token.span.stop
  comment_extent : ∀ comment ∈ cursor.comments, comment.span.start < comment.span.stop
  tokens_inOrder : cursor.ahead.Pairwise fun token other => token.span.Before other.span
  comments_inOrder : cursor.comments.Pairwise fun comment other => comment.span.Before other.span

variable {dialect : Dialect} {limit offset : Nat} {cursor mid later : Cursor}
  {tokens : List Token} {comments : List Comment}

theorem ofText_tidy (text : String) (dialect : Dialect) (limit : Nat) :
    (ofText text dialect limit).Tidy dialect limit := by
  obtain ⟨tokens, htokens, htiling⟩ := Scanner.exists_tiling text dialect
  have hahead : (ofText text dialect limit).ahead = tokens :=
    List.append_inj_left' ((tokens_ofText text dialect limit).symm.trans htokens) rfl
  rw [← hahead] at htiling
  exact ⟨ofText_between text dialect limit, fun token hmem => (htiling.token_extent token hmem).1,
    fun comment hmem => (htiling.comment_extent comment hmem).1, htiling.tokens_inOrder,
    htiling.comments_inOrder⟩

theorem Tidy.leaves (h : cursor.Tidy dialect limit)
    (hleaves : cursor.Leaves tokens comments later) :
    later.Tidy dialect limit := by
  obtain ⟨hbetween, htoken, hcomment, htokens, hcomments⟩ := h
  rw [hleaves.ahead_eq] at htoken htokens
  rw [hleaves.comments_eq] at hcomment hcomments
  exact ⟨hbetween.leaves hleaves, fun token hmem => htoken token (List.mem_append_right _ hmem),
    fun comment hmem => hcomment comment (List.mem_append_right _ hmem),
    (List.pairwise_append.mp htokens).2.1, (List.pairwise_append.mp hcomments).2.1⟩

theorem start_lt_of_mem_takeWhile {comment : Comment}
    (hmem : comment ∈ comments.takeWhile fun comment => decide (comment.span.start < offset)) :
    comment.span.start < offset := by
  have hearly := List.mem_takeWhile_imp hmem (p := fun comment : Comment =>
    decide (comment.span.start < offset))
  exact of_decide_eq_true hearly

/-- Comments that are left when those before the offset have been taken do not begin before it. -/
theorem Tidy.offset_le (h : cursor.Tidy dialect limit) {comment : Comment}
    (hmem : comment ∈ (cursor.droppingUpTo offset).comments) : offset ≤ comment.span.start := by
  refine Nat.not_lt.mp (of_decide_eq_false
    (eq_false_of_mem_dropWhile (p := fun other : Comment => decide (other.span.start < offset))
      ?_ hmem))
  refine h.comments_inOrder.imp_of_mem fun {first other} hfirst _ hbefore hother => ?_
  have hextent := h.comment_extent first hfirst
  exact decide_eq_true (hextent.trans_le (hbefore.trans (of_decide_eq_true hother).le))

/-- Tokens end before those behind them begin. -/
theorem Tidy.stop_le (h : cursor.Tidy dialect limit) {stretch : Stretch} {others : List Token}
    (hahead : cursor.ahead = stretch.tokens ++ others) :
    stretch.first.span.start ≤ stretch.stop ∧
      ∀ token ∈ others, stretch.stop ≤ token.span.start := by
  have hlast (more : List Token) (first : Token) :
      ∃ token ∈ first :: more, lastStop more first.span.stop = token.span.stop := by
    induction more generalizing first with
    | nil => exact ⟨first, List.mem_cons_self, rfl⟩
    | cons next more ih =>
      obtain ⟨token, hmem, hstop⟩ := ih next
      exact ⟨token, List.mem_cons_of_mem first hmem, hstop⟩
  obtain ⟨last, hmem, hstop⟩ := hlast stretch.more stretch.first
  have horder := h.tokens_inOrder
  rw [hahead] at horder
  obtain ⟨hwithin, -, hacross⟩ := List.pairwise_append.mp horder
  have hextent (token : Token) (hmem : token ∈ stretch.tokens) :
      token.span.start < token.span.stop :=
    h.token_extent token (hahead ▸ List.mem_append_left _ hmem)
  refine ⟨?_, fun token htoken => ?_⟩
  · rw [Stretch.stop, hstop]
    rcases List.mem_cons.mp hmem with rfl | hmore
    · exact (hextent _ List.mem_cons_self).le
    · have hfirst := hextent stretch.first List.mem_cons_self
      have hbefore : stretch.first.span.stop ≤ last.span.start :=
        (List.pairwise_cons.mp hwithin).1 last hmore
      exact (hfirst.trans_le hbefore).le.trans (hextent last hmem).le
  · rw [Stretch.stop, hstop]
    exact hacross last hmem token htoken

theorem Tidy.atStatement (h : cursor.Tidy dialect limit) :
    cursor.atStatement.Tidy dialect limit := by
  obtain ⟨_, hleaves⟩ := cursor.droppingUpTo_leaves cursor.current.span.start
  exact h.leaves hleaves

section Leading

variable {stretch : Stretch} {stretches : List Stretch} {others : List Token}
  {items : List SourceItem}

/-- Comments that are left in front of a statement do not begin before it. -/
theorem Tidy.start_le (h : cursor.Tidy dialect limit)
    (hahead : cursor.ahead = stretch.tokens ++ others) {comment : Comment}
    (hmem : comment ∈ cursor.atStatement.comments) :
    stretch.first.span.start ≤ comment.span.start := by
  have hcurrent : cursor.current = stretch.first := peek_of_ahead hahead
  rw [← hcurrent]
  exact h.offset_le hmem

/-- The comments in front of a statement stand before it and before all that follow. -/
theorem arranged_leading (hahead : cursor.ahead = stretch.tokens ++ others)
    (harranged : Stretch.Arranged items stretches cursor.atStatement.comments)
    (hstart : ∀ other ∈ stretches, stretch.first.span.start ≤ other.first.span.start) :
    Stretch.Arranged (cursor.leading ++ items) stretches cursor.comments := by
  have hcurrent : cursor.current = stretch.first := peek_of_ahead hahead
  rw [← List.takeWhile_append_dropWhile
    (p := fun comment : Comment => decide (comment.span.start < cursor.current.span.start))
    (l := cursor.comments)]
  refine harranged.behind fun comment hmem other hother => ?_
  have hearly := start_lt_of_mem_takeWhile hmem
  rw [hcurrent] at hearly
  exact hearly.trans_le (hstart other hother)

end Leading
end Cursor

namespace SourceFile

variable {dialect : Dialect} {limit : Nat} {cursor mid later : Cursor}
  {group : List SourceItem × List SyntaxError}

/-- A group is read from a stretch: if what follows is arranged, then it is so together with the
group. -/
structure Grouped (dialect : Dialect) (limit : Nat) (cursor later : Cursor)
    (group : List SourceItem × List SyntaxError) (stretch : Stretch) : Prop where
  tidy : later.Tidy dialect limit
  size_eq : later.size = cursor.size
  ahead_eq : cursor.ahead = stretch.tokens ++ later.ahead
  taken : stretch.Taken limit cursor.size later.ahead
  errors_eq : group.2 = stretch.error?.toList
  arranged : ∀ items stretches, (∀ other ∈ stretches, other.first ∈ later.ahead) →
    Stretch.Arranged items stretches later.comments →
    Stretch.Arranged (group.1 ++ items) (stretch :: stretches) cursor.comments

theorem grouped_of_ok {s : Statement} (h : cursor.Tidy dialect limit)
    (hparse : Statement.parseTerminated cursor.atStatement = .ok s mid) :
    ∃ stretch, Grouped dialect limit cursor (mid.droppingUpTo mid.behind)
      (cursor.leading ++ .statement s :: mid.commentsUpTo mid.behind, []) stretch := by
  have hbare := h.atStatement
  obtain ⟨tokens, hskips, hne, -⟩ :=
    Statement.parseTerminated_skips_of_ok hbare.toBetween hparse
  obtain ⟨first, more, rfl⟩ := List.exists_cons_of_ne_nil hne
  let stretch : Stretch := ⟨first, more, .ok s⟩
  have hahead : cursor.ahead = stretch.tokens ++ mid.ahead := hskips.ahead_eq
  have hmid : mid.Tidy dialect limit := hbare.leaves hskips.toLeaves
  obtain ⟨_, hlater⟩ := mid.droppingUpTo_leaves mid.behind
  refine ⟨stretch, hmid.leaves hlater, hskips.size_eq, hahead, ?_, rfl, ?_⟩
  · exact ⟨cursor.atStatement, mid, hahead, rfl, hbare.limit_eq, hparse, rfl⟩
  intro items stretches hmem harranged
  have hbehind : mid.behind = stretch.stop := hskips.behind_eq
  obtain ⟨hfirst, hothers⟩ := h.stop_le hahead
  let inside := mid.comments.takeWhile fun comment => decide (comment.span.start < mid.behind)
  have hinside (comment : Comment) (hmem : comment ∈ inside) :
      comment.span.start < stretch.stop := by
    rw [← hbehind]
    exact start_lt_of_mem_takeWhile hmem
  have hcomments : inside ++ (mid.droppingUpTo mid.behind).comments =
      cursor.atStatement.comments := by
    rw [hskips.comments_eq]
    exact List.takeWhile_append_dropWhile
  have hwithin : Stretch.Arranged (inside.map .comment ++ items) stretches
      (inside ++ (mid.droppingUpTo mid.behind).comments) := by
    refine harranged.behind fun comment hcomment other hother => ?_
    exact (hinside comment hcomment).trans_le (hothers other.first (hmem other hother))
  have hstart : ∀ comment ∈ inside ++ (mid.droppingUpTo mid.behind).comments,
      stretch.first.span.start ≤ comment.span.start := by
    rw [hcomments]
    exact fun comment hcomment => h.start_le hahead hcomment
  have hafter : ∀ comment ∈ (mid.droppingUpTo mid.behind).comments,
      stretch.stop ≤ comment.span.start := by
    rw [← hbehind]
    exact fun comment hcomment => hmid.offset_le hcomment
  have hstatement := hwithin.statement rfl hstart hinside hafter
  rw [hcomments] at hstatement
  rw [List.append_assoc]
  refine arranged_leading hahead hstatement ?_
  rintro other (_ | ⟨_, hother⟩)
  · exact Nat.le_refl _
  · exact hfirst.trans (hothers other.first (hmem other hother))

theorem grouped_of_error {error : SyntaxError} (h : cursor.Tidy dialect limit)
    (hne : cursor.ahead ≠ [])
    (hparse : Statement.parseTerminated cursor.atStatement = .error error mid) :
    ∃ stretch, Grouped dialect limit cursor (mid.synchronized cursor.ahead.length)
      (cursor.leading, [error]) stretch := by
  have hstart := h.atStatement
  have hlength := (recoverGroup_progress h.toBetween hne (recoverGroup_of_error hparse)).2
  obtain ⟨front, hfront⟩ := Statement.parseTerminated_skips_of_error hstart.toBetween hparse
  obtain ⟨back, hback⟩ := synchronized_skips mid cursor.ahead.length
  have hskips := hfront.trans hback
  have hne : front ++ back ≠ [] := by
    intro hnil
    have hahead := hskips.ahead_eq
    rw [hnil, List.nil_append] at hahead
    exact absurd hlength (Nat.not_lt.mpr (congrArg List.length hahead).le)
  obtain ⟨first, more, htokens⟩ := List.exists_cons_of_ne_nil hne
  let stretch : Stretch := ⟨first, more, .error error⟩
  have hahead : cursor.ahead =
      stretch.tokens ++ (mid.synchronized cursor.ahead.length).ahead := by
    rw [show stretch.tokens = front ++ back from htokens.symm]
    exact hskips.ahead_eq
  refine ⟨stretch, hstart.leaves hskips.toLeaves, hskips.size_eq, hahead, ?_, rfl, ?_⟩
  · exact ⟨cursor.atStatement, mid, hahead, rfl, hstart.limit_eq, hparse, rfl⟩
  intro items stretches hmem harranged
  have hcomments : (mid.synchronized cursor.ahead.length).comments =
      cursor.atStatement.comments := hskips.comments_eq.symm
  rw [hcomments] at harranged
  obtain ⟨hfirst, hothers⟩ := h.stop_le hahead
  refine arranged_leading hahead (harranged.skip rfl) ?_
  rintro other (_ | ⟨_, hother⟩)
  · exact Nat.le_refl _
  · exact hfirst.trans (hothers other.first (hmem other hother))

/-- One group of what is read past the faults. -/
theorem recoverGroup_grouped (h : cursor.Tidy dialect limit) (hne : cursor.ahead ≠ [])
    (hrun : recoverGroup cursor = .ok group later) :
    ∃ stretch, Grouped dialect limit cursor later group stretch := by
  cases hparse : Statement.parseTerminated cursor.atStatement with
  | ok s mid =>
    rw [recoverGroup_of_ok hparse] at hrun
    cases hrun
    exact grouped_of_ok h hparse
  | error error mid =>
    rw [recoverGroup_of_error hparse] at hrun
    cases hrun
    exact grouped_of_error h hne hparse

/-- All groups. The induction is on the number of tokens that are left. -/
theorem recovered_arranged (h : cursor.Tidy dialect limit) :
    ∃ stretches, Stretch.Divide limit cursor.size cursor.ahead stretches ∧
      Stretch.Arranged cursor.recovered.1 stretches cursor.comments ∧
      cursor.recovered.2 = stretches.filterMap Stretch.error? := by
  induction hn : cursor.ahead.length using Nat.strong_induction_on generalizing cursor with
  | h n ih =>
    subst hn
    by_cases hne : cursor.ahead = []
    · refine ⟨[], ?_, ?_, ?_⟩
      · rw [hne]
        exact .nil
      · rw [recovered_of_atEnd hne]
        have hall : cursor.comments.takeWhile (fun comment =>
            decide (comment.span.start < cursor.current.span.start)) = cursor.comments := by
          rw [List.takeWhile_eq_self_iff]
          intro comment hmem
          have hstart : cursor.current.span.start = cursor.size := by
            rw [current, peek, hne]
            rfl
          rw [hstart]
          exact decide_eq_true (h.passed comment hmem).2
        rw [leading, commentsUpTo, hall]
        exact .nil cursor.comments
      · rw [recovered_of_atEnd hne]
        rfl
    · have hgroup := run_eq_outcome recoverGroup cursor
      obtain ⟨hbetween, hlength⟩ := recoverGroup_progress h.toBetween hne hgroup
      obtain ⟨stretch, hgrouped⟩ := recoverGroup_grouped h hne hgroup
      obtain ⟨stretches, hdivide, harranged, herrors⟩ := ih _ hlength hgrouped.tidy rfl
      rw [hgrouped.size_eq] at hdivide
      refine ⟨stretch :: stretches, ?_, ?_, ?_⟩
      · rw [hgrouped.ahead_eq]
        exact .cons hgrouped.taken hdivide
      · rw [recovered_of_group h.toBetween hne hgroup]
        exact hgrouped.arranged _ stretches hdivide.first_mem harranged
      · rw [recovered_of_group h.toBetween hne hgroup, herrors, hgrouped.errors_eq,
          List.filterMap_cons]
        cases stretch.error? <;> rfl

/-- Every comment of a text is an item of its file exactly once, in the order of the text, and in
its place among the statements, also where statements are left out because of their faults. -/
theorem comments_inPlace (text : String) (dialect : Dialect) (file : SourceFile)
    (h : ofText text dialect = .ok file ∨ (recoverText text dialect).1 = file) :
    (file.comments.Pairwise fun comment other => comment.span.Before other.span) ∧
      ∃ tokens stretches,
        (Scanner.ofText text dialect).tokens.1 = tokens ++ [Token.atEnd text.utf8ByteSize] ∧
        Stretch.Divide nestingLimit text.utf8ByteSize tokens stretches ∧
        (recoverText text dialect).2 = stretches.filterMap Stretch.error? ∧
        Stretch.Arranged file.items stretches
          (Scanner.ofText text dialect).tokens.2.comments := by
  have hfile : (recoverText text dialect).1 = file := by
    rcases h with h | h
    · rw [ofText_eq_upToFault, upToFault_eq_ok] at h
      exact h.1
    · exact h
  obtain ⟨tokens, htokens, -⟩ := Scanner.exists_tiling text dialect
  obtain ⟨hahead, hmark⟩ :=
    List.append_inj' ((tokens_ofText text dialect nestingLimit).symm.trans htokens) rfl
  have htidy := ofText_tidy text dialect nestingLimit
  obtain ⟨stretches, hdivide, harranged, herrors⟩ := recovered_arranged htidy
  have hsize : (Cursor.ofText text dialect nestingLimit).size = text.utf8ByteSize :=
    congrArg (fun token : Token => token.span.start) (List.cons.inj hmark).1
  rw [hahead, hsize] at hdivide
  subst hfile
  refine ⟨?_, tokens, stretches, htokens, hdivide, herrors, harranged⟩
  have hcomments : (recoverText text dialect).1.comments =
      (Cursor.ofText text dialect nestingLimit).comments := harranged.comments_eq
  rw [hcomments]
  exact htidy.comments_inOrder

set_option maxRecDepth 8192 in
/-- The comment inside the faulty statement is kept. -/
theorem comments_inPlace_faulty :
    let text := "-- a\n1 /* b */; 2 + /* c */; 3 // d"
    let file : SourceFile := ⟨[
      .comment ⟨"-- a", ⟨0, 4⟩⟩,
      .statement (.value (.literal (.number 1))),
      .comment ⟨"/* b */", ⟨7, 14⟩⟩,
      .comment ⟨"/* c */", ⟨20, 27⟩⟩,
      .statement (.value (.literal (.number 3))),
      .comment ⟨"// d", ⟨31, 35⟩⟩]⟩
    (recoverText text .strict).1 = file ∧
      (file.comments.Pairwise fun comment other => comment.span.Before other.span) ∧
      ∃ tokens stretches,
        (Scanner.ofText text .strict).tokens.1 = tokens ++ [Token.atEnd text.utf8ByteSize] ∧
        Stretch.Divide nestingLimit text.utf8ByteSize tokens stretches ∧
        (recoverText text .strict).2 = stretches.filterMap Stretch.error? ∧
        Stretch.Arranged file.items stretches
          (Scanner.ofText text .strict).tokens.2.comments := by
  intro text file
  have hread : (recoverText text .strict).1 = file := by cbv
  exact ⟨hread, comments_inPlace text .strict file (.inr hread)⟩

end SourceFile
end EdgeQuery
