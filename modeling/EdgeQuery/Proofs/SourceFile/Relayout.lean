import Mathlib
import EdgeQuery.Proofs.SourceFile.Rounds
import EdgeQuery.Proofs.Statement.Lockstep
import EdgeQuery.Proofs.Token.Relayout

/-!
Layout and comments are insignificant. Two texts of the same lexemes are read in step: at tokens of
the same number the parsers come to the same values or to the same fault, whatever blanks and
comments stand between the tokens.
-/

namespace EdgeQuery

open Cursor Parse Walk SourceFile

/-- The delimiter that the fault reports as open. -/
def SyntaxError.openDelimiter? : SyntaxError → Option Delimiter
  | .unterminated (.delimited delimiter) _ => some delimiter
  | _ => none

theorem SyntaxError.openDelimiter?_movedTo (error : SyntaxError) (span : Span) :
    (error.movedTo span).openDelimiter? = error.openDelimiter? := by
  cases error with
  | unterminated construct _ => cases construct <;> rfl
  | _ => rfl

namespace Cursor

variable {cursor later : Cursor} {error : SyntaxError}

/-- A fault is at the current token, unless it reports the innermost open delimiter. -/
theorem Strays.place (h : cursor.Strays error later) :
    (∀ delimiter, error.openDelimiter? = some delimiter →
      later.opened.head? = some (delimiter, error.span)) ∧
    (error.openDelimiter? = none → error.span = later.current.span) := by
  rcases h.2.2 with ⟨choices, rfl⟩ | rfl
  · unfold Cursor.fault
    dsimp only
    split
    · next error _ => cases error <;> exact ⟨nofun, fun _ => rfl⟩
    · next delimiter start rest _ hopened =>
      refine ⟨?_, nofun⟩
      rintro _ ⟨⟩
      rw [hopened]
      rfl
    · exact ⟨nofun, fun _ => rfl⟩
  · exact ⟨nofun, fun _ => rfl⟩

/-- The delimiters that are open behind tokens of the same kinds are the same, and they stand at
tokens that correspond. -/
theorem openedAfter_forall₂ {same : Token → Token → Prop} {tokens tokens' : List Token}
    {opened opened' : List (Delimiter × Span)}
    (hkind : ∀ token token', same token token' → token'.kind = token.kind)
    (h : List.Forall₂ same tokens tokens')
    (hopened : List.Forall₂ (fun entry entry' => entry.1 = entry'.1 ∧
      ∃ token token', same token token' ∧ token.span = entry.2 ∧ token'.span = entry'.2)
      opened opened') :
    List.Forall₂ (fun entry entry' => entry.1 = entry'.1 ∧
      ∃ token token', same token token' ∧ token.span = entry.2 ∧ token'.span = entry'.2)
      (openedAfter opened tokens) (openedAfter opened' tokens') := by
  induction h generalizing opened opened' with
  | nil => exact hopened
  | @cons token token' tokens tokens' hsame _ ih =>
    rw [openedAfter, openedAfter, hkind token token' hsame]
    split
    · exact ih (.cons ⟨rfl, token, token', hsame, rfl, rfl⟩ hopened)
    · cases hopened with
      | nil => exact ih .nil
      | cons _ hrest => exact ih hrest
    · exact ih hopened

/-- A cursor between statements, with all nesting levels free and no delimiter open. -/
structure Rests (dialect : Dialect) (limit : Nat) (cursor : Cursor) : Prop extends
    cursor.Between dialect limit where
  levels_eq : cursor.levels = limit
  opened_eq : cursor.opened = []

theorem Rests.start_eq {dialect : Dialect} {limit : Nat} (h : cursor.Rests dialect limit) :
    Statement.start cursor = cursor := by
  obtain ⟨ahead, size, behind, comments, limit', levels, opened⟩ := cursor
  obtain rfl : levels = limit := h.levels_eq
  obtain rfl : limit' = levels := h.limit_eq
  obtain rfl : opened = [] := h.opened_eq
  rfl

theorem Rests.passes {dialect : Dialect} {limit : Nat} {tokens : List Token}
    (h : cursor.Rests dialect limit) (hpass : cursor.Passes tokens later) :
    later.Rests dialect limit where
  toBetween := h.toBetween.leaves (Skips.of_passes hpass).toLeaves
  levels_eq := hpass.levels_eq.trans h.levels_eq
  opened_eq := hpass.opened_eq.trans h.opened_eq

end Cursor

/-- The faults are the same, and they are at tokens of the same number. -/
structure SyntaxError.SameAt (tokens tokens' : List Token) (error error' : SyntaxError) : Prop where
  eq_movedTo : error' = error.movedTo error'.span
  exists_index : ∃ i : Nat, tokens[i]?.map Token.span = some error.span ∧
    tokens'[i]?.map Token.span = some error'.span

/-- Two texts of the same lexemes, compared: any places stand for each other. -/
def Likeness.layouts : Likeness :=
  ⟨fun _ _ => True, [], False⟩

/-- The tokens of two texts of the same lexemes, each with the mark at the end, and how they are
read. -/
structure Relayout where
  dialect : Dialect
  limit : Nat
  tokens : List Token
  tokens' : List Token

namespace Relayout

variable {layout : Relayout}

/-- The tokens have the same number. -/
def Paired (layout : Relayout) (token token' : Token) : Prop :=
  token.SameLexeme token' ∧
    ∃ i : Nat, layout.tokens[i]? = some token ∧ layout.tokens'[i]? = some token'

/-- As many tokens are behind the one cursor as behind the other. -/
def Level (layout : Relayout) (left right : Cursor) : Prop :=
  ∃ front front', front.length = front'.length ∧
    layout.tokens = front ++ (left.ahead ++ [Token.atEnd left.size]) ∧
    layout.tokens' = front' ++ (right.ahead ++ [Token.atEnd right.size])

/-- The cursors stand between statements at tokens of the same number. -/
structure Abreast (layout : Relayout) (left right : Cursor) : Prop where
  rests_left : left.Rests layout.dialect layout.limit
  rests_right : right.Rests layout.dialect layout.limit
  same : List.Forall₂ Token.SameLexeme left.ahead right.ahead
  level : layout.Level left right

/-- The walks have come to values that correspond, or to the same fault at the same token. -/
inductive Outcome {α : Type} (layout : Relayout) (same : α → α → Prop) :
    EStateM.Result SyntaxError Cursor α → EStateM.Result SyntaxError Cursor α → Prop
  | ok {value value' : α} {left right : Cursor} : same value value' → layout.Abreast left right →
    Outcome layout same (.ok value left) (.ok value' right)
  | error {error error' : SyntaxError} {left right : Cursor} :
    error.SameAt layout.tokens layout.tokens' error' →
    Outcome layout same (.error error left) (.error error' right)

/-- Begun at tokens of the same number, the walk comes to the same in both texts. -/
def Keeps {α : Type} (layout : Relayout) (same : α → α → Prop) (walk : Parse α) : Prop :=
  ∀ left right, layout.Abreast left right → layout.Outcome same (walk left) (walk right)

section Cursors

variable {left right left' right' : Cursor} {tokens tokens' : List Token}

/-- Tokens that are passed in both texts have the same numbers. -/
theorem forall₂_paired {front front' rest rest' : List Token}
    (hlength : front.length = front'.length) (hleft : layout.tokens = front ++ (tokens ++ rest))
    (hright : layout.tokens' = front' ++ (tokens' ++ rest'))
    (h : List.Forall₂ Token.SameLexeme tokens tokens') :
    List.Forall₂ layout.Paired tokens tokens' := by
  induction h generalizing front front' with
  | nil => exact .nil
  | @cons token token' tokens tokens' hsame _ ih =>
    refine .cons ⟨hsame, front.length, ?_, ?_⟩ ?_
    · rw [hleft, List.getElem?_append_right (Nat.le_refl _), Nat.sub_self]
      rfl
    · rw [hright, hlength, List.getElem?_append_right (Nat.le_refl _), Nat.sub_self]
      rfl
    · have hlength : (front ++ [token]).length = (front' ++ [token']).length := by
        rw [List.length_append, List.length_append, hlength]
        rfl
      refine ih hlength ?_ ?_
      · rw [hleft, List.append_assoc]
        rfl
      · rw [hright, List.append_assoc]
        rfl

/-- The current tokens have the same number. -/
theorem Level.current (h : layout.Level left right) :
    ∃ i : Nat, layout.tokens[i]? = some left.current ∧ layout.tokens'[i]? = some right.current := by
  have hhead (cursor : Cursor) :
      (cursor.ahead ++ [Token.atEnd cursor.size])[0]? = some cursor.current := by
    rw [Cursor.current, Cursor.peek]
    cases cursor.ahead <;> rfl
  obtain ⟨front, front', hlength, hleft, hright⟩ := h
  refine ⟨front.length, ?_, ?_⟩
  · rw [hleft, List.getElem?_append_right (Nat.le_refl _), Nat.sub_self, hhead]
  · rw [hright, hlength, List.getElem?_append_right (Nat.le_refl _), Nat.sub_self, hhead]

/-- Passing as many tokens on both sides. -/
theorem Level.passed (h : layout.Level left right) (hleft : left.ahead = tokens ++ left'.ahead)
    (hright : right.ahead = tokens' ++ right'.ahead) (hsize : left'.size = left.size)
    (hsize' : right'.size = right.size) (hlength : tokens.length = tokens'.length) :
    layout.Level left' right' := by
  obtain ⟨front, front', hfronts, hall, hall'⟩ := h
  refine ⟨front ++ tokens, front' ++ tokens', ?_, ?_, ?_⟩
  · rw [List.length_append, List.length_append, hfronts, hlength]
  · rw [hall, hleft, hsize]
    simp only [List.append_assoc]
  · rw [hall', hright, hsize']
    simp only [List.append_assoc]

/-- Tokens that are passed on both sides have the same numbers. -/
theorem Level.paired (h : layout.Level left right) (hleft : left.ahead = tokens ++ left'.ahead)
    (hright : right.ahead = tokens' ++ right'.ahead)
    (hsame : List.Forall₂ Token.SameLexeme tokens tokens') :
    List.Forall₂ layout.Paired tokens tokens' := by
  obtain ⟨front, front', hfronts, hall, hall'⟩ := h
  rw [hleft, List.append_assoc] at hall
  rw [hright, List.append_assoc] at hall'
  exact forall₂_paired hfronts hall hall' hsame

theorem Abreast.cursors (h : layout.Abreast left right) :
    Likeness.layouts.Cursors left.ahead.length left right := by
  refine ⟨⟨right.ahead, ?_, (List.append_nil _).symm⟩, .inl ⟨rfl, trivial⟩, ?_, trivial,
    Nat.le_refl _⟩
  · exact h.same.imp fun token token' hsame =>
      ⟨hsame.kind_eq, hsame.text_eq, trivial, trivial⟩
  · rw [h.rests_left.opened_eq, h.rests_right.opened_eq]
    exact .nil

theorem same_of_cursors {room : Nat} (h : Likeness.layouts.Cursors room left right) :
    List.Forall₂ Token.SameLexeme left.ahead right.ahead := by
  obtain ⟨front, hfront, hahead⟩ := h.ahead
  have hnone : Likeness.layouts.more = [] := rfl
  rw [hahead, hnone, List.append_nil]
  exact hfront.imp fun token token' htoken => ⟨htoken.kind_eq, htoken.text_eq⟩

/-- What has been passed on both sides is the same. -/
theorem Abreast.passed (h : layout.Abreast left right)
    (hsame : List.Forall₂ Token.SameLexeme left'.ahead right'.ahead)
    (hleft : left.ahead = tokens ++ left'.ahead) (hright : right.ahead = tokens' ++ right'.ahead) :
    List.Forall₂ Token.SameLexeme tokens tokens' := by
  have hlength : tokens'.length = tokens.length := by
    have hall := h.same.length_eq
    rw [hleft, hright, List.length_append, List.length_append, hsame.length_eq] at hall
    omega
  have htaken := List.forall₂_take tokens.length h.same
  rwa [hleft, hright, List.take_left, ← hlength, List.take_left] at htaken

/-- Faults of the same kind behind the same tokens are at tokens of the same number. -/
theorem Abreast.sameAt {error error' : SyntaxError} {room : Nat} (h : layout.Abreast left right)
    (hleft : left.Strays error left') (hright : right.Strays error' right')
    (hcursors : Likeness.layouts.Cursors room left' right')
    (herrors : Likeness.layouts.Errors error error') :
    error.SameAt layout.tokens layout.tokens' error' := by
  have hkind : error'.openDelimiter? = error.openDelimiter? := by
    rw [herrors.eq_movedTo, SyntaxError.openDelimiter?_movedTo]
  have hsame := same_of_cursors hcursors
  obtain ⟨hopen, hhere⟩ := hleft.place
  obtain ⟨hopen', hhere'⟩ := hright.place
  obtain ⟨-, ⟨tokens, hahead, hlater⟩, -⟩ := hleft
  obtain ⟨-, ⟨tokens', hahead', hlater'⟩, -⟩ := hright
  have hpassed := h.passed hsame hahead hahead'
  refine ⟨herrors.eq_movedTo, ?_⟩
  cases hdelimiter : error.openDelimiter? with
  | none =>
    have hsize : left'.size = left.size := by rw [hlater]; rfl
    have hsize' : right'.size = right.size := by rw [hlater']; rfl
    obtain ⟨i, hi, hi'⟩ :=
      (h.level.passed hahead hahead' hsize hsize' hpassed.length_eq).current
    refine ⟨i, ?_, ?_⟩
    · rw [hi, hhere hdelimiter]
      rfl
    · rw [hi', hhere' (hkind.trans hdelimiter)]
      rfl
  | some delimiter =>
    have hpaired := h.level.paired hahead hahead' hpassed
    have hopened := openedAfter_forall₂ (fun _ _ hsame => hsame.1.kind_eq) hpaired .nil
    have hfirst := hopen delimiter hdelimiter
    have hfirst' := hopen' delimiter (hkind.trans hdelimiter)
    rw [hlater, h.rests_left.opened_eq] at hfirst
    rw [hlater', h.rests_right.opened_eq] at hfirst'
    dsimp only at hfirst hfirst'
    generalize openedAfter [] tokens = opened, openedAfter [] tokens' = opened'
      at hopened hfirst hfirst'
    cases hopened with
    | nil => cases hfirst
    | cons hentry _ =>
      obtain ⟨-, token, token', ⟨-, i, hi, hi'⟩, hspan, hspan'⟩ := hentry
      obtain rfl := Option.some.inj hfirst
      obtain rfl := Option.some.inj hfirst'
      refine ⟨i, ?_, ?_⟩
      · rw [hi]
        exact congrArg some hspan
      · rw [hi']
        exact congrArg some hspan'

end Cursors
section Walks

variable {α β : Type} {same : α → α → Prop} {goal : β → β → Prop} {walk : Parse α}
  {next next' : α → Parse β}

theorem Keeps.bind_at {left right : Cursor} (hwalk : layout.Keeps same walk)
    (habreast : layout.Abreast left right)
    (hnext : ∀ value value' mid mid', same value value' → layout.Abreast mid mid' →
      layout.Outcome goal (next value mid) (next' value' mid')) :
    layout.Outcome goal ((walk >>= next) left) ((walk >>= next') right) := by
  have h := hwalk left right habreast
  generalize hleft : walk left = result, hright : walk right = result' at h
  cases h with
  | ok hsame habreast =>
    rw [bind_of_ok hleft, bind_of_ok hright]
    exact hnext _ _ _ _ hsame habreast
  | error herror =>
    rw [bind_of_error hleft, bind_of_error hright]
    exact .error herror

theorem Keeps.bind (h : layout.Keeps same walk)
    (hnext : ∀ value value' mid mid', same value value' → layout.Abreast mid mid' →
      layout.Outcome goal (next value mid) (next value' mid')) :
    layout.Keeps goal (walk >>= next) :=
  fun _ _ habreast => h.bind_at habreast hnext

/-- Parsers that do not look at places come to the same. -/
theorem Keeps.of_steps (hsteps : Likeness.layouts.Steps walk walk)
    (hreads : ∀ cursor, cursor.At layout.dialect layout.limit →
      walk.Reads cursor fun _ _ _ => True) : layout.Keeps Eq walk := by
  intro left right h
  have hleft := hreads left ⟨h.rests_left.genuine, h.rests_left.levels_eq⟩
  have hright := hreads right ⟨h.rests_right.genuine, h.rests_right.levels_eq⟩
  have hagree := hsteps _ left right h.cursors
  generalize hrun : walk left = result, hrun' : walk right = result' at hagree
  cases hagree with
  | @ok value left' right' hcursors =>
    obtain ⟨tokens, hpass, -⟩ := hleft.of_ok hrun
    obtain ⟨tokens', hpass', -⟩ := hright.of_ok hrun'
    have hsame := same_of_cursors hcursors
    have hlength := (h.passed hsame hpass.1 hpass'.1).length_eq
    exact .ok rfl ⟨h.rests_left.passes hpass, h.rests_right.passes hpass', hsame,
      h.level.passed hpass.1 hpass'.1 hpass.size_eq hpass'.size_eq hlength⟩
  | error herrors hcursors =>
    exact .error (h.sameAt (hleft.of_error hrun) (hright.of_error hrun') hcursors herrors)
  | tooDeep hfewer => exact hfewer.elim

theorem Abreast.kind_eq {left right : Cursor} (h : layout.Abreast left right) :
    right.kind 0 = left.kind 0 :=
  h.cursors.kind_eq

theorem Abreast.advanced {left right : Cursor} (h : layout.Abreast left right) :
    layout.Abreast left.advanced right.advanced := by
  have hsame := h.same
  cases hahead : left.ahead with
  | nil =>
    rw [hahead] at hsame
    have hahead' : right.ahead = [] := List.forall₂_nil_left_iff.mp hsame
    rw [Cursor.advanced, Cursor.advanced, hahead, hahead']
    exact h
  | cons token rest =>
    rw [hahead] at hsame
    obtain ⟨token', rest', htoken, hrest, hahead'⟩ := List.forall₂_cons_left_iff.mp hsame
    have hpass := Passes.advanced hahead
    have hpass' := Passes.advanced hahead'
    refine ⟨h.rests_left.passes hpass, h.rests_right.passes hpass', ?_,
      h.level.passed hpass.1 hpass'.1 hpass.size_eq hpass'.size_eq rfl⟩
    rwa [advanced_of_ahead hahead, advanced_of_ahead hahead']

theorem eatSymbol_keeps (symbol : Symbol) : layout.Keeps Eq (eatSymbol symbol) := by
  intro left right h
  by_cases hkind : left.kind 0 = .symbol symbol
  · rw [eatSymbol_true hkind, eatSymbol_true (h.kind_eq.trans hkind)]
    exact .ok rfl h.advanced
  · have hkind' : right.kind 0 ≠ .symbol symbol := by
      rw [h.kind_eq]
      exact hkind
    rw [eatSymbol_false hkind, eatSymbol_false hkind']
    exact .ok rfl h

theorem parseTerminated_keeps : layout.Keeps Eq Statement.parseTerminated := by
  have hparse : layout.Keeps Eq (Statement.parseAt layout.limit) :=
    .of_steps (Likeness.steps_parseAt (.refl _)) fun cursor hat =>
      (Statement.parseAt_sound layout.dialect layout.limit cursor hat).mono
        fun _ _ _ _ _ => trivial
  intro left right h
  rw [Statement.parseTerminated_run, Statement.parseTerminated_run, h.rests_left.start_eq,
    h.rests_right.start_eq, h.rests_left.limit_eq, h.rests_right.limit_eq]
  refine hparse.bind_at h ?_
  rintro statement _ mid mid' rfl hmid
  refine (eatSymbol_keeps .semicolon).bind_at hmid ?_
  exact fun _ _ _ _ _ hlater => .ok rfl hlater

theorem endOfInput_keeps : layout.Keeps Eq endOfInput :=
  .of_steps Likeness.steps_endOfInput fun cursor _ => by
    show ((if cursor.atEnd then (Pure.pure () : Parse Unit)
      else expected [.endOfInput])).Reads cursor _
    split
    · exact .pure trivial
    · exact .expected _

theorem parseSingle_keeps : layout.Keeps Eq Statement.parseSingle := by
  refine parseTerminated_keeps.bind ?_
  rintro statement _ mid mid' rfl hmid
  refine endOfInput_keeps.bind_at hmid ?_
  exact fun _ _ _ _ _ hlater => .ok rfl hlater

theorem Expr.parseSingle_keeps : layout.Keeps Eq Expr.parseSingle := by
  have hexpression : layout.Keeps Eq (Expr.parseRanked layout.limit 0) :=
    .of_steps (Likeness.steps_parseRanked (.refl _) 0) fun cursor hat =>
      (Expr.parseRanked_zero_sound layout.dialect layout.limit cursor hat).mono
        fun _ _ _ _ _ => trivial
  intro left right h
  have hparse (cursor : Cursor) (hrests : cursor.Rests layout.dialect layout.limit) :
      Expr.parseSingle cursor = (Expr.parseRanked layout.limit 0 >>= fun e =>
        endOfInput >>= fun _ => pure e) cursor := by
    rw [← hrests.levels_eq]
    rfl
  rw [hparse left h.rests_left, hparse right h.rests_right]
  refine hexpression.bind_at h ?_
  rintro e _ mid mid' rfl hmid
  refine endOfInput_keeps.bind_at hmid ?_
  exact fun _ _ _ _ _ hlater => .ok rfl hlater

end Walks

section Files

variable {α : Type} {same : α → α → Prop}

/-- The statements among the items are the same. -/
def SameStatements (items items' : List SourceItem) : Prop :=
  items.filterMap SourceItem.statement? = items'.filterMap SourceItem.statement?

theorem SameStatements.append {items items' more more' : List SourceItem}
    (h : SameStatements items items') (hmore : SameStatements more more') :
    SameStatements (items ++ more) (items' ++ more') := by
  rw [SameStatements, List.filterMap_append, List.filterMap_append, h, hmore]

theorem sameStatements_commentsUpTo (left right : Cursor) (offset offset' : Nat) :
    SameStatements (left.commentsUpTo offset) (right.commentsUpTo offset') := by
  rw [SameStatements, statements_commentsUpTo, statements_commentsUpTo]

theorem Abreast.droppingUpTo {left right : Cursor} (h : layout.Abreast left right)
    (offset offset' : Nat) :
    layout.Abreast (left.droppingUpTo offset) (right.droppingUpTo offset') where
  rests_left :=
    ⟨h.rests_left.toBetween.droppingUpTo offset, h.rests_left.levels_eq, h.rests_left.opened_eq⟩
  rests_right :=
    ⟨h.rests_right.toBetween.droppingUpTo offset', h.rests_right.levels_eq, h.rests_right.opened_eq⟩
  same := h.same
  level := h.level

/-- Whatever comments are taken, no statement is. -/
theorem comments_keeps :
    layout.Keeps SameStatements commentsHere ∧ layout.Keeps SameStatements commentsBehind :=
  ⟨fun left right h => .ok (sameStatements_commentsUpTo left right _ _) (h.droppingUpTo _ _),
    fun left right h => .ok (sameStatements_commentsUpTo left right _ _) (h.droppingUpTo _ _)⟩

theorem parseGroup_keeps : layout.Keeps SameStatements SourceFile.parseGroup := by
  refine comments_keeps.1.bind ?_
  intro leading leading' mid mid' hleading hmid
  refine parseTerminated_keeps.bind_at hmid ?_
  rintro statement _ later later' rfl hlater
  refine comments_keeps.2.bind_at hlater ?_
  intro trailing trailing' last last' htrailing hlast
  exact .ok (hleading.append (congrArg (statement :: ·) htrailing)) hlast

/-- Rounds that come to the same, one after another. The induction is on the rounds. -/
theorem Keeps.repeatUpTo {round : Parse α} (h : layout.Keeps same round) (n : Nat) :
    layout.Keeps (List.Forall₂ same) (repeatUpTo (round? round) n) := by
  induction n with
  | zero => exact fun left right habreast => .ok .nil habreast
  | succ n ih =>
    intro left right habreast
    cases hend : left.atEnd with
    | true =>
      rw [repeatUpTo_of_atEnd hend, repeatUpTo_of_atEnd (habreast.cursors.atEnd_eq.trans hend)]
      exact .ok .nil habreast
    | false =>
      have hend' : right.atEnd = false := habreast.cursors.atEnd_eq.trans hend
      have hround := h left right habreast
      generalize hrun : round left = result, hrun' : round right = result' at hround
      cases hround with
      | ok hsame hmid =>
        rw [repeatUpTo_of_ok hend hrun, repeatUpTo_of_ok hend' hrun']
        refine ih.bind_at hmid ?_
        exact fun values values' _ _ hvalues hlater => .ok (.cons hsame hvalues) hlater
      | error herror =>
        rw [repeatUpTo_of_error hend hrun, repeatUpTo_of_error hend' hrun']
        exact .error herror

theorem sameStatements_flatten {groups groups' : List (List SourceItem)}
    (h : List.Forall₂ SameStatements groups groups') :
    SameStatements groups.flatten groups'.flatten := by
  induction h with
  | nil => rfl
  | cons hfirst _ ih => exact hfirst.append ih

theorem parse_keeps :
    layout.Keeps (fun file file' => file.statements = file'.statements) SourceFile.parse := by
  have hgroups : layout.Keeps (List.Forall₂ SameStatements) (repeated (round? parseGroup)) := by
    intro left right h
    have hrun (cursor : Cursor) : repeated (round? parseGroup) cursor =
      repeatUpTo (round? parseGroup) cursor.ahead.length cursor := rfl
    rw [hrun, hrun, h.same.length_eq]
    exact parseGroup_keeps.repeatUpTo _ left right h
  have hrounds : layout.Keeps (fun result result' =>
      SameStatements (result.1.flatten ++ result.2) (result'.1.flatten ++ result'.2))
      (rounds parseGroup) := by
    rw [rounds_eq]
    refine hgroups.bind ?_
    intro groups groups' mid mid' hsame hmid
    refine comments_keeps.1.bind_at hmid ?_
    intro last last' later later' hlast hlater
    exact .ok ((sameStatements_flatten hsame).append hlast) hlater
  refine hrounds.bind ?_
  exact fun result result' mid mid' hsame hmid => .ok hsame hmid

end Files

section Texts

variable {text text' : String} {dialect : Dialect}

/-- Two texts, each with its tokens, and how they are read. -/
def ofTexts (text text' : String) (dialect : Dialect) : Relayout where
  dialect := dialect
  limit := nestingLimit
  tokens := (Scanner.ofText text dialect).tokens.1
  tokens' := (Scanner.ofText text' dialect).tokens.1

theorem ofText_rests (text : String) (dialect : Dialect) (limit : Nat) :
    (Cursor.ofText text dialect limit).Rests dialect limit :=
  ⟨ofText_between text dialect limit, rfl, rfl⟩

theorem ofText_abreast (h : List.Forall₂ Token.SameLexeme
      (Scanner.ofText text dialect).tokens.1.dropLast
      (Scanner.ofText text' dialect).tokens.1.dropLast) :
    (ofTexts text text' dialect).Abreast (Cursor.ofText text dialect nestingLimit)
      (Cursor.ofText text' dialect nestingLimit) :=
  ⟨ofText_rests text dialect nestingLimit, ofText_rests text' dialect nestingLimit, h,
    [], [], rfl, tokens_ofText text dialect nestingLimit, tokens_ofText text' dialect nestingLimit⟩

end Texts
end Relayout

theorem kinds_eq {tokens tokens' : List Token}
    (h : List.Forall₂ Token.SameLexeme tokens tokens') :
    tokens'.map (·.kind) = tokens.map (·.kind) := by
  induction h with
  | nil => rfl
  | cons htoken _ ih => rw [List.map_cons, List.map_cons, htoken.kind_eq, ih]

/-- The results are the same value, or the same fault at tokens of the same number. -/
inductive SameResult {α : Type} (tokens tokens' : List Token) :
    Except SyntaxError α → Except SyntaxError α → Prop
  | ok (value : α) : SameResult tokens tokens' (.ok value) (.ok value)
  | error {error error' : SyntaxError} : error.SameAt tokens tokens' error' →
    SameResult tokens tokens' (.error error) (.error error')

theorem Relayout.Keeps.sameResult {α β : Type} {text text' : String} {dialect : Dialect}
    {parser : Parse α} (f : α → β)
    (h : (ofTexts text text' dialect).Keeps (fun value value' => f value = f value') parser)
    (habreast : (ofTexts text text' dialect).Abreast (Cursor.ofText text dialect nestingLimit)
      (Cursor.ofText text' dialect nestingLimit)) :
    SameResult (Scanner.ofText text dialect).tokens.1 (Scanner.ofText text' dialect).tokens.1
      ((parser.run text dialect nestingLimit).map f)
      ((parser.run text' dialect nestingLimit).map f) := by
  have houtcome := h _ _ habreast
  rw [Parse.run, Parse.run]
  generalize parser (Cursor.ofText text dialect nestingLimit) = result,
    parser (Cursor.ofText text' dialect nestingLimit) = result' at houtcome
  cases houtcome with
  | ok hsame _ =>
    show SameResult _ _ (.ok _) (.ok _)
    rw [hsame]
    exact .ok _
  | error herror => exact .error herror

/-- A text whose strings and comments are closed is read as every other text is that has the same
lexemes and other blanks and comments between them. -/
theorem layout_insignificant (text text' : String) (dialect : Dialect)
    (hclosed : ∀ token ∈ (Scanner.ofText text dialect).tokens.1.dropLast,
      token.kind ≠ .error .unterminatedString ∧ token.kind ≠ .error .unterminatedComment)
    (hlayout : LaysOut text' (Scanner.ofText text dialect).tokens.1.dropLast) :
    let tokens := (Scanner.ofText text dialect).tokens.1
    let tokens' := (Scanner.ofText text' dialect).tokens.1
    tokens'.map (·.kind) = tokens.map (·.kind) ∧
      SameResult tokens tokens' (Statement.ofText text dialect) (Statement.ofText text' dialect) ∧
      SameResult tokens tokens' (Expr.ofText text dialect) (Expr.ofText text' dialect) ∧
      SameResult tokens tokens' ((SourceFile.ofText text dialect).map SourceFile.statements)
        ((SourceFile.ofText text' dialect).map SourceFile.statements) := by
  have hsame := Scanner.tokens_laysOut hclosed hlayout
  have habreast := Relayout.ofText_abreast hsame
  have hid {α : Type} (result : Except SyntaxError α) : result.map id = result := by
    cases result <;> rfl
  refine ⟨?_, ?_, ?_, ?_⟩
  · rw [tokens_ofText text dialect 0, tokens_ofText text' dialect 0,
      List.map_append, List.map_append]
    exact congrArg (· ++ _) (kinds_eq hsame)
  · have := Relayout.Keeps.sameResult id Relayout.parseSingle_keeps habreast
    rwa [hid, hid] at this
  · have := Relayout.Keeps.sameResult id Relayout.Expr.parseSingle_keeps habreast
    rwa [hid, hid] at this
  · exact Relayout.parse_keeps.sameResult SourceFile.statements habreast

set_option maxRecDepth 8192 in
/-- A parenthesis that is left open is reported at its new place. -/
theorem layout_insignificant_open :
    (∀ token ∈ (Scanner.ofText "(a-1" .strict).tokens.1.dropLast,
      token.kind ≠ .error .unterminatedString ∧ token.kind ≠ .error .unterminatedComment) ∧
    LaysOut "# b\n( /**/ a\n-  1 --\n" (Scanner.ofText "(a-1" .strict).tokens.1.dropLast ∧
    Statement.ofText "(a-1" .strict = .error (.unterminated (.delimited .paren) ⟨0, 1⟩) ∧
    Statement.ofText "# b\n( /**/ a\n-  1 --\n" .strict =
      .error (.unterminated (.delimited .paren) ⟨4, 5⟩) ∧
    SameResult (Scanner.ofText "(a-1" .strict).tokens.1
      (Scanner.ofText "# b\n( /**/ a\n-  1 --\n" .strict).tokens.1
      (Statement.ofText "(a-1" .strict) (Statement.ofText "# b\n( /**/ a\n-  1 --\n" .strict) := by
  have htokens : (Scanner.ofText "(a-1" .strict).tokens.1.dropLast =
      [⟨.symbol (.opening .paren), "(", ⟨0, 1⟩⟩, ⟨.identifier "a", "a", ⟨1, 2⟩⟩,
        ⟨.symbol .minus, "-", ⟨2, 3⟩⟩, ⟨.number 1, "1", ⟨3, 4⟩⟩] := by cbv
  have hclosed : ∀ token ∈ (Scanner.ofText "(a-1" .strict).tokens.1.dropLast,
      token.kind ≠ .error .unterminatedString ∧ token.kind ≠ .error .unterminatedComment := by
    rw [htokens]
    decide
  have hlayout : LaysOut "# b\n( /**/ a\n-  1 --\n"
      (Scanner.ofText "(a-1" .strict).tokens.1.dropLast := by
    have hspace : Trivia [' '] := .blank (by decide) .nil
    have hline : Trivia ['\n'] := .blank (by decide) .nil
    have hleading : Trivia ['#', ' ', 'b', '\n'] :=
      @Trivia.line ['#'] [' ', 'b'] [] (by decide) (by decide) .nil
    have hblock : Trivia [' ', '/', '*', '*', '/', ' '] :=
      .blank (by decide) (@Trivia.block [] [' '] (by decide) hspace)
    have hlast : Trivia [' ', '-', '-', '\n'] :=
      .blank (by decide) (@Trivia.line ['-', '-'] [] [] (by decide) (by decide) .nil)
    have hspaces : Trivia [' ', ' '] := .blank (by decide) hspace
    rw [htokens]
    refine ⟨_, _, ?_, hleading, .cons hblock (by rintro c ⟨⟩; decide)
      (.cons hline (by rintro c ⟨⟩; decide) (.cons hspaces (by rintro c ⟨⟩; decide)
        (.cons hlast (by rintro c ⟨⟩; decide) .nil)))⟩
    decide
  refine ⟨hclosed, hlayout, by cbv, by cbv, ?_⟩
  exact (layout_insignificant _ _ _ hclosed hlayout).2.1

end EdgeQuery
