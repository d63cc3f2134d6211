import Mathlib
import EdgeQuery.Proofs.Query
import EdgeQuery.Proofs.SourceFile.Recovery
import EdgeQuery.Proofs.Statement.Route

/-!
Which delimiters are open. At every step of reading a statement, those that the cursor notes as open
are the ones that the statement's own tokens have left open; so where a text ends too early, the
fault is that the innermost of them is not closed.
-/

namespace EdgeQuery

open Cursor Parse Walk

/-- Every delimiter among the tokens is closed by one of its kind, and none else is. -/
inductive Matched : List Token → Prop
  | nil : Matched []
  | flat {token : Token} : IsFlat token.kind → Matched [token]
  | enclosed {opening closing : Token} {tokens : List Token} {delimiter : Delimiter} :
      opening.kind = .symbol (.opening delimiter) → Matched tokens →
      closing.kind = .symbol (.closing delimiter) → Matched (opening :: tokens ++ [closing])
  | append {front back : List Token} : Matched front → Matched back → Matched (front ++ back)

/-- The tokens leave the delimiters open, the innermost first: before the first of these, between
any two and behind the last, every delimiter is closed. -/
inductive Unclosed : List Token → List (Delimiter × Span) → Prop
  | none {tokens : List Token} : Matched tokens → Unclosed tokens []
  | some {front back : List Token} {token : Token} {delimiter : Delimiter}
    {opened : List (Delimiter × Span)} : Unclosed front opened →
      token.kind = .symbol (.opening delimiter) → Matched back →
      Unclosed (front ++ token :: back) ((delimiter, token.span) :: opened)

section Unclosed

variable {tokens front back : List Token} {token : Token} {delimiter : Delimiter}
  {opened : List (Delimiter × Span)}

theorem Matched.unclosed?_eq (h : Matched tokens) (opened : List (Delimiter × Span)) :
    unclosed? opened tokens = .some opened := by
  induction h generalizing opened with
  | nil => rfl
  | flat hflat => exact unclosed?_of_isFlat hflat
  | enclosed hopening _ hclosing ih =>
    rw [← List.singleton_append, List.append_assoc, unclosed?_append,
      unclosed?_of_opening hopening, Option.bind_some, unclosed?_append, ih]
    exact unclosed?_of_closing hclosing
  | append _ _ ihfront ihback =>
    rw [unclosed?_append, ihfront]
    exact ihback opened

theorem Unclosed.append (h : Unclosed front opened) (hback : Matched back) :
    Unclosed (front ++ back) opened := by
  cases h with
  | none hfront => exact .none (hfront.append hback)
  | some hfront hkind hmatched =>
    rw [List.append_assoc, List.cons_append]
    exact .some hfront hkind (hmatched.append hback)

theorem Unclosed.unclosed?_eq (h : Unclosed tokens opened) :
    unclosed? [] tokens = .some opened := by
  induction h with
  | none h => exact h.unclosed?_eq []
  | @some front back token delimiter opened _ hkind hback ih =>
    rw [unclosed?_append, ih, Option.bind_some, ← List.singleton_append, unclosed?_append,
      unclosed?_of_opening hkind]
    exact hback.unclosed?_eq _

/-- What a closing delimiter closes is the innermost that is open. -/
theorem Unclosed.close {span : Span} (h : Unclosed tokens ((delimiter, span) :: opened))
    (hclosing : token.kind = .symbol (.closing delimiter)) :
    Unclosed (tokens ++ [token]) opened := by
  cases h with
  | @some front back opening _ _ hfront hopening hback =>
    rw [List.append_assoc, List.cons_append]
    exact hfront.append (.enclosed hopening hback hclosing)

theorem Unclosed.of_unclosed? (h : unclosed? [] tokens = .some opened) :
    Unclosed tokens opened := by
  induction tokens using List.reverseRecOn generalizing opened with
  | nil =>
    cases h
    exact .none .nil
  | append_singleton tokens token ih =>
    rw [unclosed?_append] at h
    obtain ⟨before, hbefore, hlast⟩ := Option.bind_eq_some_iff.mp h
    have hunclosed := ih hbefore
    rw [unclosed?] at hlast
    split at hlast
    · next delimiter hkind =>
      cases hlast
      exact .some hunclosed hkind .nil
    · next delimiter hkind =>
      split at hlast
      · split at hlast
        · next innermost span outer heq =>
          cases hlast
          exact hunclosed.close (heq ▸ hkind)
        · cases hlast
      · cases hlast
    · next hopening hclosing =>
      cases hlast
      exact hunclosed.append (.flat fun delimiter => ⟨hopening delimiter, hclosing delimiter⟩)

/-- Tokens leave but one list of delimiters open. -/
theorem unclosed_iff_of_unclosed? (h : unclosed? [] tokens = .some opened)
    (others : List (Delimiter × Span)) : Unclosed tokens others ↔ others = opened := by
  constructor
  · intro hothers
    exact Option.some.inj (hothers.unclosed?_eq.symm.trans h)
  · rintro rfl
    exact .of_unclosed? h

end Unclosed

/-- A route that fails has come to a token that is at fault, or to where no level is left. -/
theorem Route.fault_of_walk {α : Type} {route : Route α} {cursor later : Cursor}
    {error : SyntaxError} (h : route.walk cursor = .error error later) :
    (∃ choices, error = later.fault choices) ∨ error = .tooDeep later.current.span := by
  induction route generalizing cursor with
  | done value => cases h
  | fault choices =>
    cases h
    exact .inl ⟨choices, rfl⟩
  | tooDeep =>
    cases h
    exact .inr rfl
  | look more ih => exact ih cursor h
  | step move more ih => exact ih h

/-- At the end of the text, the innermost open delimiter is at fault if there is one. -/
theorem Cursor.fault_atEnd {cursor : Cursor} (h : cursor.kind 0 = .endOfInput)
    (choices : List Expectation) :
    cursor.fault choices = match cursor.opened with
      | (delimiter, span) :: _ => .unterminated (.delimited delimiter) span
      | [] => .unexpected choices .endOfInput cursor.current.span := by
  have hkind : cursor.current.kind = .endOfInput := h
  rw [fault, hkind]
  cases cursor.opened <;> rfl

/-- Only at the end of the text an open delimiter is at fault. -/
theorem Cursor.atEnd_of_fault {cursor : Cursor} {choices : List Expectation}
    {delimiter : Delimiter} {span : Span}
    (h : cursor.fault choices = .unterminated (.delimited delimiter) span) :
    cursor.kind 0 = .endOfInput ∧ ∃ outer, cursor.opened = (delimiter, span) :: outer := by
  unfold fault at h
  dsimp only at h
  split at h
  · next error _ => cases error <;> cases h
  · next hkind hopened =>
    cases h
    exact ⟨hkind, _, hopened⟩
  · cases h

/-- A statement of the text that is read from the first cursor begins at the second one: all those
before it have been read. -/
inductive SourceFile.Begins (cursor : Cursor) : Cursor → Prop
  | first : Begins cursor cursor.atStatement
  | next {start later : Cursor} {statement : Statement} : Begins cursor start →
      Statement.parseTerminated start = .ok statement later →
      Begins cursor (later.droppingUpTo later.behind).atStatement

namespace SourceFile

variable {cursor later : Cursor} {error : SyntaxError}

theorem Begins.behind {start mid : Cursor} {statement : Statement}
    (hrun : Statement.parseTerminated cursor.atStatement = .ok statement mid)
    (h : Begins (mid.droppingUpTo mid.behind) start) : Begins cursor start := by
  induction h with
  | first => exact .next .first hrun
  | next _ hmore ih => exact .next ih hmore

/-- The statement at which reading rounds of statements stops. The induction is on the rounds. -/
theorem exists_begins_of_rounds {n : Nat}
    (h : repeatUpTo (round? parseGroup) n cursor = .error error later) :
    ∃ start, Begins cursor start ∧ Statement.parseTerminated start = .error error later := by
  induction n generalizing cursor with
  | zero => cases h
  | succ n ih =>
    cases hend : cursor.atEnd with
    | true =>
      rw [repeatUpTo_of_atEnd hend] at h
      cases h
    | false =>
      cases hrun : Statement.parseTerminated cursor.atStatement with
      | error other mid =>
        rw [repeatUpTo_of_error hend (parseGroup_of_error hrun)] at h
        cases h
        exact ⟨_, .first, hrun⟩
      | ok statement mid =>
        rw [repeatUpTo_of_ok hend (parseGroup_of_ok hrun)] at h
        cases hmore : repeatUpTo (round? parseGroup) n (mid.droppingUpTo mid.behind) with
        | ok groups last =>
          rw [bind_of_ok hmore] at h
          cases h
        | error other last =>
          rw [bind_of_error hmore] at h
          cases h
          obtain ⟨start, hbegins, hfails⟩ := ih hmore
          exact ⟨start, hbegins.behind hrun, hfails⟩

theorem exists_begins_of_error (h : parse cursor = .error error later) :
    ∃ start, Begins cursor start ∧ Statement.parseTerminated start = .error error later := by
  cases hloop : repeatUpTo (round? parseGroup) cursor.ahead.length cursor with
  | ok groups mid =>
    rw [parse, bind_of_ok (rounds_of_ok hloop)] at h
    cases h
  | error other mid =>
    rw [parse, bind_of_error (rounds_of_error hloop)] at h
    cases h
    exact exists_begins_of_rounds hloop

end SourceFile

namespace Statement

variable {cursor later : Cursor} {error : SyntaxError}

/-- The faults of a statement, by what is open where they are found. -/
theorem open_delimiter_of_error (h : parseTerminated cursor = .error error later) :
    ∃ tokens, cursor.ahead = tokens ++ later.ahead ∧
      Unclosed tokens later.opened ∧
      (later.kind 0 = .endOfInput → (∀ span, error ≠ .tooDeep span) →
        match later.opened with
        | (delimiter, span) :: _ => error = .unterminated (.delimited delimiter) span
        | [] => ∃ choices, error = .unexpected choices .endOfInput later.current.span) ∧
      ∀ delimiter span, error = .unterminated (.delimited delimiter) span →
        later.kind 0 = .endOfInput ∧ ∃ outer, later.opened = (delimiter, span) :: outer := by
  have hfollows := routeTerminated_follows cursor
  have hwalk := hfollows.walk_eq.trans h
  obtain ⟨tokens, hahead, hopened⟩ :=
    hfollows.tallies later (Route.last_mem_visits (.inr ⟨error, hwalk⟩))
  refine ⟨tokens, hahead, .of_unclosed? hopened, fun hend hlevels => ?_, ?_⟩
  · rcases Route.fault_of_walk hwalk with ⟨choices, rfl⟩ | rfl
    · rw [fault_atEnd hend]
      split
      · rfl
      · exact ⟨choices, rfl⟩
    · exact absurd rfl (hlevels _)
  · rintro delimiter span rfl
    rcases Route.fault_of_walk hwalk with ⟨choices, hfault⟩ | hdeep
    · exact atEnd_of_fault hfault.symm
    · cases hdeep

/-- The parser of statements is a walk along a route. At every cursor on the way, the delimiters
noted as open are those that are left open by the tokens passed since the statement began. So where
the text ends and reading it has failed for another reason than depth, the innermost delimiter that
is open in the failing statement is reported, or the end itself if there is none; and nowhere else
an open delimiter is reported. -/
theorem open_delimiters :
    (∀ cursor : Cursor,
      (routeTerminated cursor.limit).walk (start cursor) = parseTerminated cursor ∧
      ∀ visited ∈ (routeTerminated cursor.limit).visits (start cursor),
        ∃ tokens, cursor.ahead = tokens ++ visited.ahead ∧
          ∀ opened, Unclosed tokens opened ↔ opened = visited.opened) ∧
    ∀ (text : String) (dialect : Dialect) (error : SyntaxError),
      SourceFile.ofText text dialect = .error error →
      ∃ first later tokens opened,
        SourceFile.Begins (Cursor.ofText text dialect nestingLimit) first ∧
        parseTerminated first = .error error later ∧ first.ahead = tokens ++ later.ahead ∧
        Unclosed tokens opened ∧
        (later.kind 0 = .endOfInput → (∀ span, error ≠ .tooDeep span) →
          match opened with
          | (delimiter, span) :: _ => error = .unterminated (.delimited delimiter) span
          | [] => ∃ choices, error = .unexpected choices .endOfInput later.current.span) ∧
        ∀ delimiter span, error = .unterminated (.delimited delimiter) span →
          later.kind 0 = .endOfInput ∧ ∃ outer, opened = (delimiter, span) :: outer := by
  refine ⟨fun cursor => ?_, fun text dialect error h => ?_⟩
  · have hfollows := routeTerminated_follows cursor
    refine ⟨hfollows.walk_eq, fun visited hmem => ?_⟩
    obtain ⟨tokens, hahead, hopened⟩ := hfollows.tallies visited hmem
    exact ⟨tokens, hahead, unclosed_iff_of_unclosed? hopened⟩
  · obtain ⟨last, hparse⟩ := run_eq_error.mp h
    obtain ⟨first, hbegins, hrun⟩ := SourceFile.exists_begins_of_error hparse
    obtain ⟨tokens, hahead, hopened, hfault⟩ := open_delimiter_of_error hrun
    exact ⟨first, last, tokens, last.opened, hbegins, hrun, hahead, hopened, hfault⟩

set_option maxRecDepth 8192 in
/-- Of two delimiters that are left open behind a statement that is read, the inner one is
reported. -/
theorem open_delimiters_nested :
    SourceFile.ofText "a; [b, (c" .strict =
      .error (.unterminated (.delimited .paren) ⟨7, 8⟩) ∧
    ∃ first later tokens opened,
      SourceFile.Begins (Cursor.ofText "a; [b, (c" .strict nestingLimit) first ∧
      parseTerminated first = .error (.unterminated (.delimited .paren) ⟨7, 8⟩) later ∧
      first.ahead = tokens ++ later.ahead ∧ Unclosed tokens opened ∧
      (later.kind 0 = .endOfInput →
        (∀ span, .unterminated (.delimited .paren) ⟨7, 8⟩ ≠ SyntaxError.tooDeep span) →
        match opened with
        | (delimiter, span) :: _ =>
          SyntaxError.unterminated (.delimited .paren) ⟨7, 8⟩ =
            .unterminated (.delimited delimiter) span
        | [] => ∃ choices, SyntaxError.unterminated (.delimited .paren) ⟨7, 8⟩ =
            .unexpected choices .endOfInput later.current.span) ∧
      ∀ delimiter span, SyntaxError.unterminated (.delimited .paren) ⟨7, 8⟩ =
          .unterminated (.delimited delimiter) span →
        later.kind 0 = .endOfInput ∧ ∃ outer, opened = (delimiter, span) :: outer := by
  have h : SourceFile.ofText "a; [b, (c" .strict =
      .error (.unterminated (.delimited .paren) ⟨7, 8⟩) := by cbv
  exact ⟨h, open_delimiters.2 _ _ _ h⟩

end Statement
end EdgeQuery
