import Mathlib
import EdgeQuery.Proofs.Query

/-!
How operators are grouped. Operands with operators between them make up one tree and no other: the
one that is split at the last of the loosest operators, and so are its parts. Tighter operators are
grouped first, and among equally tight ones those on the left.
-/

namespace EdgeQuery

open Cursor Parse

/-- An operator with the operand behind it. -/
abbrev Link := BinaryOp × Expr

/-- How tightly the operator binds. -/
def Link.rank (link : Link) : Nat :=
  link.1.level.rank

/-- Links, divided at one of them. -/
structure Split where
  front : List Link
  middle : Link
  back : List Link

namespace Split

def links (split : Split) : List Link :=
  split.front ++ split.middle :: split.back

/-- The operator in the middle binds no tighter than any before it, and looser than any behind. -/
def LastLoosest (split : Split) : Prop :=
  (∀ link ∈ split.front, split.middle.rank ≤ link.rank) ∧
    ∀ link ∈ split.back, split.middle.rank < link.rank

/-- Links, divided at the last of the loosest operators. -/
def ofLinks (first : Link) : List Link → Split
  | [] => ⟨[], first, []⟩
  | next :: more =>
    let split := ofLinks next more
    if split.middle.rank ≤ first.rank then { split with front := first :: split.front }
    else ⟨[], first, next :: more⟩

theorem links_ofLinks (first : Link) (more : List Link) :
    (ofLinks first more).links = first :: more := by
  induction more generalizing first with
  | nil => rfl
  | cons next more ih =>
    rw [ofLinks]
    split
    · exact congrArg (first :: ·) (ih next)
    · rfl

theorem lastLoosest_ofLinks (first : Link) (more : List Link) : (ofLinks first more).LastLoosest := by
  induction more generalizing first with
  | nil => exact ⟨List.forall_mem_nil _, List.forall_mem_nil _⟩
  | cons next more ih =>
    obtain ⟨hfront, hback⟩ := ih next
    rw [ofLinks]
    split
    · next hle => exact ⟨List.forall_mem_cons.mpr ⟨hle, hfront⟩, hback⟩
    · next hlt =>
      have hmiddle : first.rank < (ofLinks next more).middle.rank := Nat.lt_of_not_le hlt
      refine ⟨List.forall_mem_nil _, fun link hmem => ?_⟩
      have hmem : link ∈ (ofLinks next more).links := links_ofLinks next more ▸ hmem
      rcases List.mem_append.mp hmem with hmem | hmem
      · exact Nat.lt_of_lt_of_le hmiddle (hfront link hmem)
      · rcases List.mem_cons.mp hmem with rfl | hmem
        · exact hmiddle
        · exact Nat.lt_trans hmiddle (hback link hmem)

/-- There is one way to divide links at the last of the loosest operators. The induction is on the
links before it. -/
theorem ofLinks_eq {split : Split} {first : Link} {more : List Link}
    (hlinks : split.links = first :: more) (h : split.LastLoosest) : ofLinks first more = split := by
  obtain ⟨front, middle, back⟩ := split
  induction front generalizing first more with
  | nil =>
    obtain ⟨rfl, rfl⟩ := List.cons.inj hlinks
    cases back with
    | nil => rfl
    | cons next back =>
      have hmem : (ofLinks next back).middle ∈ next :: back := by
        rw [← links_ofLinks next back, links]
        simp
      exact if_neg (Nat.not_le_of_lt (h.2 _ hmem))
  | cons other front ih =>
    obtain ⟨rfl, hmore⟩ := List.cons.inj hlinks
    obtain ⟨hother, hfront⟩ := List.forall_mem_cons.mp h.1
    obtain ⟨next, rest, hrest⟩ := List.exists_cons_of_ne_nil
      (List.append_ne_nil_of_right_ne_nil front (List.cons_ne_nil middle back))
    obtain rfl : more = next :: rest := hmore.symm.trans hrest
    rw [ofLinks, ih hrest ⟨hfront, h.2⟩]
    exact if_pos hother

theorem length_ofLinks (first : Link) (more : List Link) :
    (ofLinks first more).front.length ≤ more.length ∧
      (ofLinks first more).back.length ≤ more.length := by
  have hlength := congrArg List.length (links_ofLinks first more)
  rw [links, List.length_append, List.length_cons, List.length_cons] at hlength
  omega

end Split

namespace Expr

/-- The tree of operands and operators: divided at the last of the loosest operators, with both
parts grouped in the same way. -/
def grouping (first : Expr) : List Link → Expr
  | [] => first
  | link :: links =>
    let split := Split.ofLinks link links
    .binary (grouping first split.front) split.middle.1 (grouping split.middle.2 split.back)
termination_by links => links.length
decreasing_by
  · exact Nat.lt_succ_of_le (Split.length_ofLinks link links).1
  · exact Nat.lt_succ_of_le (Split.length_ofLinks link links).2

theorem grouping_nil (first : Expr) : grouping first [] = first := by
  rw [grouping]

theorem grouping_links (first : Expr) {split : Split} (h : split.LastLoosest) :
    grouping first split.links =
      .binary (grouping first split.front) split.middle.1 (grouping split.middle.2 split.back) := by
  obtain ⟨link, links, hlinks⟩ := List.exists_cons_of_ne_nil
    (List.append_ne_nil_of_right_ne_nil split.front (List.cons_ne_nil split.middle split.back))
  have hlinks : split.links = link :: links := hlinks
  rw [hlinks, grouping, Split.ofLinks_eq hlinks h]

/-- The operators outside all brackets, from left to right, with the operands behind them. -/
def links : Expr → List Link
  | .binary left op right => left.links ++ (op, right.head) :: right.links
  | _ => []
termination_by structural e => e

/-- No left operand is grouped by a looser operator, and no right operand by an operator that is not
tighter. -/
def Grouped : Expr → Prop
  | .binary left op right =>
    (left.Binds op.level.rank ∧ right.Binds (op.level.rank + 1)) ∧ left.Grouped ∧ right.Grouped
  | _ => True
termination_by structural e => e

variable {e first : Expr} {dialect : Dialect} {rank : Nat}

theorem links_eq_nil (h : e.IsPrimary) : e.links = [] := by
  cases e with
  | binary left op right => exact h.elim
  | _ => rfl

theorem Grouped.of_isPrimary (h : e.IsPrimary) : e.Grouped := by
  cases e with
  | binary left op right => exact h.elim
  | _ => trivial

/-- Where a tree may stand, all its operators bind tightly enough. -/
theorem Grouped.rank_le (h : e.Grouped) (hbinds : e.Binds rank) :
    ∀ link ∈ e.links, rank ≤ link.rank := by
  induction e using inductionOn generalizing rank with
  | step e ih =>
    cases e with
    | binary left op right =>
      obtain ⟨⟨hleft, hright⟩, hgroupedl, hgroupedr⟩ := h
      have hrank : rank ≤ op.level.rank := hbinds
      have hl := ih left (by simp [children]) hgroupedl hleft
      have hr := ih right (by simp [children]) hgroupedr hright
      refine List.forall_mem_append.mpr ⟨fun link hmem => Nat.le_trans hrank (hl link hmem),
        List.forall_mem_cons.mpr ⟨hrank, fun link hmem => ?_⟩⟩
      exact Nat.le_trans hrank (Nat.le_of_succ_le (hr link hmem))
    | _ => exact List.forall_mem_nil _

/-- A tree whose operands are grouped is the grouping of its operands and operators. -/
theorem Grouped.eq_grouping (h : e.Grouped) : e = grouping e.head e.links := by
  induction e using inductionOn with
  | step e ih =>
    cases e with
    | binary left op right =>
      obtain ⟨⟨hleft, hright⟩, hgroupedl, hgroupedr⟩ := h
      have hsplit : (Split.mk left.links (op, right.head) right.links).LastLoosest :=
        ⟨hgroupedl.rank_le hleft, hgroupedr.rank_le hright⟩
      have hgrouping := grouping_links left.head hsplit
      rw [← ih left (by simp [children]) hgroupedl, ← ih right (by simp [children]) hgroupedr]
        at hgrouping
      exact hgrouping.symm
    | _ => exact (grouping_nil _).symm

/-- What a grouping is made of, and where it may stand. -/
theorem grouping_spec {first : Expr} {links : List Link} (hfirst : first.IsPrimary)
    (hlinks : ∀ link ∈ links, link.2.IsPrimary) :
    (grouping first links).head = first ∧ (grouping first links).links = links ∧
      (grouping first links).Grouped ∧
      ∀ rank, (∀ link ∈ links, rank ≤ link.rank) → (grouping first links).Binds rank := by
  fun_induction grouping first links with
  | case1 first =>
    exact ⟨head_eq_self hfirst, links_eq_nil hfirst, .of_isPrimary hfirst,
      fun rank _ => .of_isPrimary hfirst⟩
  | case2 first link links split ihfront ihback =>
    have hsplit : split.links = link :: links := Split.links_ofLinks link links
    obtain ⟨hloosestFront, hloosestBack⟩ : split.LastLoosest := Split.lastLoosest_ofLinks link links
    rw [← hsplit] at hlinks ⊢
    obtain ⟨hfront, hrest⟩ := List.forall_mem_append.mp hlinks
    obtain ⟨hmiddle, hback⟩ := List.forall_mem_cons.mp hrest
    obtain ⟨hhead, hlinksFront, hgroupedFront, hbindsFront⟩ := ihfront hfirst hfront
    obtain ⟨hheadBack, hlinksBack, hgroupedBack, hbindsBack⟩ := ihback hmiddle hback
    refine ⟨hhead, ?_, ⟨⟨hbindsFront _ hloosestFront, hbindsBack _ hloosestBack⟩, hgroupedFront,
      hgroupedBack⟩, fun rank hrank => hrank _ (by simp [Split.links])⟩
    rw [Expr.links, hlinksFront, hlinksBack, hheadBack]
    rfl

theorem Valid.grouped (h : e.Valid dialect) : e.Grouped := by
  induction e using inductionOn with
  | step e ih =>
    cases e with
    | binary left op right =>
      obtain ⟨hbinds, hleft, hright⟩ := valid_binary.mp h
      exact ⟨hbinds, ih left (by simp [children]) hleft, ih right (by simp [children]) hright⟩
    | _ => trivial

/-- The operands of a tree, from left to right. -/
def operands (first : Expr) (links : List Link) : List Expr :=
  first :: links.map Prod.snd

/-- A tree whose operands are grouped is as valid as its operands. -/
theorem Grouped.valid_iff (h : e.Grouped) :
    e.Valid dialect ↔ ∀ operand ∈ operands e.head e.links, operand.Valid dialect := by
  induction e using inductionOn with
  | step e ih =>
    cases e with
    | binary left op right =>
      obtain ⟨hbinds, hleft, hright⟩ := h
      have hoperands : operands (Expr.binary left op right).head (Expr.binary left op right).links =
          operands left.head left.links ++ operands right.head right.links := by
        simp [operands, Expr.head, Expr.links]
      rw [valid_binary, ih left (by simp [children]) hleft, ih right (by simp [children]) hright,
        hoperands, List.forall_mem_append]
      exact and_iff_right hbinds
    | _ => exact List.forall_mem_singleton.symm

theorem isPrimary_of_mem_links (e : Expr) : ∀ link ∈ e.links, link.2.IsPrimary := by
  induction e using inductionOn with
  | step e ih =>
    cases e with
    | binary left op right =>
      exact List.forall_mem_append.mpr ⟨ih left (by simp [children]),
        List.forall_mem_cons.mpr ⟨right.head_isPrimary, ih right (by simp [children])⟩⟩
    | _ => exact List.forall_mem_nil _

/-- No parentheses are written for a tree whose operands are grouped. -/
theorem Grouped.pieces_eq (h : e.Grouped) : e.pieces = e.head.pieces ++ chainPieces e.links := by
  induction e using inductionOn with
  | step e ih =>
    cases e with
    | binary left op right =>
      obtain ⟨⟨hleft, hright⟩, hgroupedl, hgroupedr⟩ := h
      rw [pieces_binary hleft hright, ih left (by simp [children]) hgroupedl,
        ih right (by simp [children]) hgroupedr, Expr.head, Expr.links, chainPieces, chainPieces,
        chainPieces, List.flatMap_append, List.flatMap_cons]
      simp
    | _ => exact (List.append_nil _).symm

/-- Tokens can be written for one expression at most. -/
theorem eq_of_spells {other : Expr} {tokens : List Token}
    (hgenuine : ∀ token ∈ tokens, token.Genuine dialect) (he : e.Valid dialect)
    (hother : other.Valid dialect) (hspells : Spells e.pieces tokens)
    (hspells' : Spells other.pieces tokens) : e = other := by
  let limit := max e.levels other.levels
  let cursor : Cursor := ⟨tokens, 0, 0, [], limit, limit, []⟩
  have hat : cursor.At dialect limit := ⟨hgenuine, rfl⟩
  have hahead : cursor.ahead = tokens ++ [] := (List.append_nil tokens).symm
  obtain ⟨later, hpass, hlater⟩ := exists_passes hahead
  have hends : later.EndsRanked 0 := .of_endsExpr (by rw [kind_of_ahead_nil hlater]; rfl)
  have hparse (tree : Expr) (hfits : tree.Fits dialect limit) (hspells : Spells tree.pieces tokens) :
      parseRanked limit 0 cursor = .ok tree later :=
    parseRanked_zero_completes dialect limit tree cursor tokens later hat hpass hspells hfits hends
  have hfirst := hparse e ⟨he, Nat.le_max_left _ _⟩ hspells
  rw [hparse other ⟨hother, Nat.le_max_right _ _⟩ hspells'] at hfirst
  cases hfirst
  rfl

/-- The tokens can be written for operands with operators between them. -/
structure Sequence (dialect : Dialect) (first : Expr) (links : List Link) (tokens : List Token) :
    Prop where
  primary : ∀ operand ∈ operands first links, operand.IsPrimary ∧ operand.Valid dialect
  spells : Spells (first.pieces ++ chainPieces links) tokens

/-- What is read of tokens that can be written for operands and operators is their grouping. -/
theorem Sequence.eq_grouping {first : Expr} {links : List Link} {tokens : List Token}
    (h : Sequence dialect first links tokens) (hgenuine : ∀ token ∈ tokens, token.Genuine dialect)
    (he : e.Valid dialect) (hspells : Spells e.pieces tokens) :
    e = grouping first links ∧ e.head = first ∧ e.links = links := by
  obtain ⟨hfirst, hlinks⟩ := List.forall_mem_cons.mp h.primary
  obtain ⟨hhead, hlinksEq, hgrouped, -⟩ := grouping_spec hfirst.1
    fun link hmem => (hlinks link.2 (List.mem_map_of_mem hmem)).1
  have hvalid : (grouping first links).Valid dialect := by
    rw [hgrouped.valid_iff, hhead, hlinksEq]
    exact fun operand hmem => (h.primary operand hmem).2
  have hpieces : Spells (grouping first links).pieces tokens := by
    rw [hgrouped.pieces_eq, hhead, hlinksEq]
    exact h.spells
  have heq := eq_of_spells hgenuine he hvalid hspells hpieces
  rw [heq]
  exact ⟨rfl, hhead, hlinksEq⟩

/-- What is read wherever a parser stands in a text: operands with operators between them, grouped
at the last of the loosest operators. No other tree of these operands and operators keeps to the
levels of precedence, and the tokens cannot be taken for other operands and operators. -/
theorem parse_eq_grouping {text : String} {limit : Nat} {cursor later : Cursor}
    (hahead : cursor.ahead <:+ (Cursor.ofText text dialect limit).ahead)
    (h : Expr.parse cursor = .ok e later) :
    ∃ tokens, cursor.Passes tokens later ∧ Sequence dialect e.head e.links tokens ∧
      ∀ first links, Sequence dialect first links tokens →
        e = grouping first links ∧
          ∀ other : Expr, other.Grouped ∧ other.head = first ∧ other.links = links ↔ other = e := by
  have hat : cursor.At dialect cursor.levels :=
    ⟨fun token hmem => (ofText_at text dialect limit).genuine token (hahead.subset hmem), rfl⟩
  obtain ⟨tokens, hpass, -, hspells, hvalid, -⟩ :=
    (parseRanked_zero_sound dialect cursor.levels cursor hat).of_ok h
  have hgrouped := hvalid.grouped
  refine ⟨tokens, hpass, ⟨?_, ?_⟩, fun first links hsequence => ?_⟩
  · have hvalid := hgrouped.valid_iff.mp hvalid
    refine fun operand hmem => ⟨?_, hvalid operand hmem⟩
    rcases List.mem_cons.mp hmem with rfl | hmem
    · exact e.head_isPrimary
    · obtain ⟨link, hlink, rfl⟩ := List.mem_map.mp hmem
      exact e.isPrimary_of_mem_links link hlink
  · rw [← hgrouped.pieces_eq]
    exact hspells
  · obtain ⟨heq, hhead, hlinks⟩ :=
      hsequence.eq_grouping (hat.tokens_genuine hpass) hvalid hspells
    refine ⟨heq, fun other => ⟨?_, ?_⟩⟩
    · rintro ⟨hother, rfl, rfl⟩
      rw [hother.eq_grouping, ← heq]
    · rintro rfl
      exact ⟨hgrouped, hhead, hlinks⟩

set_option maxRecDepth 8192 in
/-- A product is grouped before the sum that it stands in, and sums are grouped from the left. -/
theorem parse_eq_grouping_mixed :
    let number := fun n => Expr.literal (.number n)
    let e := Expr.binary (.binary (number 1) .add (.binary (number 2) .mul (number 3))) .sub (number 4)
    ∃ later, Expr.parse (Cursor.ofText "1 + 2 * 3 - 4" .strict nestingLimit) = .ok e later ∧
      ∃ tokens, (Cursor.ofText "1 + 2 * 3 - 4" .strict nestingLimit).Passes tokens later ∧
        e = grouping (number 1) [(.add, number 2), (.mul, number 3), (.sub, number 4)] := by
  intro number e
  have hread : Expr.ofText "1 + 2 * 3 - 4" .strict = .ok e := by cbv
  obtain ⟨_, hrun⟩ := run_eq_ok.mp hread
  obtain ⟨e', later, hparse, hrest⟩ := Parse.bind_ok hrun
  obtain ⟨_, _, -, hpure⟩ := Parse.bind_ok hrest
  cases hpure
  obtain ⟨tokens, hpass, hsequence, hall⟩ := parse_eq_grouping List.suffix_rfl hparse
  exact ⟨later, hparse, tokens, hpass, (hall _ _ hsequence).1⟩

end Expr
end EdgeQuery
