import EdgeQuery.Proofs.Expr.Lockstep
import EdgeQuery.Proofs.Query

/-!
One text read with two limits on nesting. With the lower limit the same is found as with the higher
one, unless the nesting levels run out.
-/

namespace EdgeQuery

open Cursor Parse Walk

namespace Likeness

/-- A text compared with itself. The second reader may have more tokens, and the first one fewer
nesting levels. -/
def itself (more : List Token) (fewer : Prop) : Likeness :=
  ⟨Eq, more, fewer⟩

/-- A text compared with itself, where the first reader may have fewer nesting levels. -/
def limits : Likeness :=
  itself [] True

section Same

variable {more : List Token} {fewer : Prop} {left right : Span}

theorem itself_spans : (itself more fewer).Spans left right ↔ left = right := by
  constructor
  · rintro ⟨hstart, hstop⟩
    rcases left with ⟨start, stop⟩
    exact Span.mk.injEq .. |>.mpr ⟨hstart, hstop⟩
  · rintro rfl
    exact ⟨rfl, rfl⟩

theorem itself_tokens (token : Token) : (itself more fewer).Tokens token token :=
  ⟨rfl, rfl, itself_spans.mpr rfl⟩

theorem forall₂_itself (tokens : List Token) :
    List.Forall₂ (itself more fewer).Tokens tokens tokens :=
  List.forall₂_same.mpr fun token _ => itself_tokens token

theorem eq_of_itself_tokens {left right : Token} (h : (itself more fewer).Tokens left right) :
    left = right := by
  obtain ⟨kind, text, span⟩ := left
  exact Token.mk.injEq .. |>.mpr ⟨h.kind_eq.symm, h.text_eq.symm, itself_spans.mp h.spans⟩

theorem eq_of_itself_errors {left right : SyntaxError} (h : (itself more fewer).Errors left right) :
    left = right := by
  have hspan := itself_spans.mp h.spans
  rw [h.eq_movedTo, ← hspan, SyntaxError.movedTo_span]

/-- The cursor at the beginning of a text is the same for all limits, apart from the limit. -/
theorem limits_cursors (text : String) (dialect : Dialect) (limit limit' : Nat) :
    limits.Cursors (ofText text dialect limit).ahead.length (ofText text dialect limit)
      (ofText text dialect limit') := by
  exact ⟨⟨(ofText text dialect limit).ahead, forall₂_itself _, (List.append_nil _).symm⟩,
    .inl ⟨rfl, rfl⟩, .nil, rfl, Nat.le_refl _⟩

end Same
end Likeness

namespace Parse

variable {α : Type} {first second : Parse α} {text : String} {dialect : Dialect}

/-- Parsers that agree find the same in a text, unless the first one is out of nesting levels. -/
theorem run_eq_or_tooDeep (h : Likeness.limits.Steps first second) (limit limit' : Nat) :
    (∃ span, first.run text dialect limit = .error (.tooDeep span)) ∨
      first.run text dialect limit = second.run text dialect limit' := by
  have hagree := h _ _ _ (Likeness.limits_cursors text dialect limit limit')
  rw [run, run]
  generalize first (ofText text dialect limit) = result at hagree ⊢
  generalize second (ofText text dialect limit') = result' at hagree ⊢
  cases hagree with
  | ok _ => exact .inr rfl
  | error herrors _ => exact .inr (by rw [Likeness.eq_of_itself_errors herrors])
  | tooDeep _ => exact .inl ⟨_, rfl⟩

end Parse

/-- With fewer nesting levels the same expression or the same fault is found in a text, unless the
levels run out. -/
theorem Expr.run_eq_or_tooDeep {text : String} {dialect : Dialect} {limit limit' : Nat}
    (h : limit ≤ limit') :
    (∃ span, Expr.parseSingle.run text dialect limit = .error (.tooDeep span)) ∨
      Expr.parseSingle.run text dialect limit = Expr.parseSingle.run text dialect limit' := by
  have hranked : Likeness.limits.Steps (Expr.parseRanked limit 0) (Expr.parseRanked limit' 0) :=
    Likeness.steps_parseRanked (.inr ⟨trivial, h⟩) 0
  have hsingle := hranked.bind fun e => Likeness.steps_endOfInput.bind fun _ => .pure e
  exact Parse.run_eq_or_tooDeep hsingle limit limit'

end EdgeQuery
