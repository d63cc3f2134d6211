import EdgeQuery.Proofs.Parse.Route

/-!
Routes side by side. A congruence relates routes that are put together in the same way from related
ones, and that look at nothing but what is ahead. It need not relate the moves that set the number
of nesting levels, nor say what becomes of a route that comes to where none is left; so one
congruence can compare a parser with the same parser that has more of them, and another one can tell
how far a parser gets until it has run out of them.
-/

namespace EdgeQuery

open Cursor

namespace Cursor

/-- The cursors have the same ahead. -/
structure SameAhead (cursor other : Cursor) : Prop where
  ahead_eq : cursor.ahead = other.ahead
  size_eq : cursor.size = other.size

namespace SameAhead

variable {cursor other : Cursor}

theorem refl (cursor : Cursor) : cursor.SameAhead cursor :=
  ⟨rfl, rfl⟩

theorem symm (h : cursor.SameAhead other) : other.SameAhead cursor :=
  ⟨h.ahead_eq.symm, h.size_eq.symm⟩

theorem peek_eq (h : cursor.SameAhead other) : cursor.peek = other.peek := by
  funext n
  rw [peek, peek, h.ahead_eq, h.size_eq]

theorem kind_eq (h : cursor.SameAhead other) : cursor.kind = other.kind := by
  funext n
  rw [kind, kind, h.peek_eq]

theorem current_eq (h : cursor.SameAhead other) : cursor.current = other.current :=
  congrFun h.peek_eq 0

theorem name?_eq (h : cursor.SameAhead other) : cursor.name? = other.name? := by
  funext n
  rw [name?, name?, h.peek_eq]

theorem atSymbol_eq (h : cursor.SameAhead other) : cursor.atSymbol = other.atSymbol := by
  funext symbol
  rw [atSymbol, atSymbol, h.kind_eq]

theorem atKeyword_eq (h : cursor.SameAhead other) : cursor.atKeyword = other.atKeyword := by
  funext keyword
  rw [atKeyword, atKeyword, h.kind_eq]

theorem apply (h : cursor.SameAhead other) (move : Move) :
    (move.apply cursor).SameAhead (move.apply other) := by
  have hadvanced : cursor.advanced.SameAhead other.advanced := by
    rw [advanced, advanced, h.ahead_eq]
    cases other.ahead with
    | nil => exact h
    | cons token ahead => exact ⟨rfl, h.size_eq⟩
  cases move with
  | advance => exact hadvanced
  | enter delimiter => exact ⟨hadvanced.ahead_eq, hadvanced.size_eq⟩
  | leave => exact ⟨hadvanced.ahead_eq, hadvanced.size_eq⟩
  | level levels => exact ⟨h.ahead_eq, h.size_eq⟩

end SameAhead
end Cursor

namespace Route

/-- A relation that holds between routes put together in the same way from related ones. -/
structure Congruence where
  Rel : {α : Type} → Route α → Route α → Prop
  done {α : Type} (value : α) : Rel (.done value) (.done value)
  fault {α : Type} (choices : List Expectation) : Rel (.fault choices : Route α) (.fault choices)
  look {α : Type} {next next' : Cursor → Route α} :
    (∀ cursor cursor' : Cursor, cursor.SameAhead cursor' → Rel (next cursor) (next' cursor')) →
    Rel (.look next) (.look next')
  bind {α β : Type} {route route' : Route α} {next next' : α → Route β} :
    Rel route route' → (∀ value, Rel (next value) (next' value)) →
    Rel (route >>= next) (route' >>= next')
  advance : Rel (.take .advance) (.take .advance)
  enter (delimiter : Delimiter) : Rel (.take (.enter delimiter)) (.take (.enter delimiter))
  leave : Rel (.take .leave) (.take .leave)

namespace Congruence

section Rules

variable (like : Congruence) {α β : Type} {route route' : Route α} {next next' : α → Route β}

theorem here {next next' : Cursor → Route β}
    (h : ∀ cursor cursor' : Cursor, cursor.SameAhead cursor' →
      like.Rel (next cursor) (next' cursor')) :
    like.Rel (Route.here >>= next) (Route.here >>= next') :=
  like.look h

theorem ask {question : Cursor → α}
    (hquestion : ∀ cursor cursor' : Cursor, cursor.SameAhead cursor' →
      question cursor = question cursor') :
    like.Rel (Route.ask question) (Route.ask question) :=
  like.look fun cursor cursor' h => hquestion cursor cursor' h ▸ like.done _

theorem kind (n : Nat) : like.Rel (Route.kind n) (Route.kind n) :=
  like.ask fun _ _ h => congrFun h.kind_eq n

theorem atSymbol (symbol : Symbol) : like.Rel (Route.atSymbol symbol) (Route.atSymbol symbol) :=
  like.ask fun _ _ h => congrFun h.atSymbol_eq symbol

theorem atKeyword (keyword : Keyword) :
    like.Rel (Route.atKeyword keyword) (Route.atKeyword keyword) :=
  like.ask fun _ _ h => congrFun h.atKeyword_eq keyword

variable {like}

/-- What is only wrapped. -/
theorem wrap (h : like.Rel route route') (make : α → β) :
    like.Rel (route >>= fun value => Pure.pure (make value))
      (route' >>= fun value => Pure.pure (make value)) :=
  like.bind h fun value => like.done (make value)

/-- What stands behind a token that is passed. -/
theorem behind {next next' : Unit → Route β} (h : like.Rel (next ()) (next' ())) :
    like.Rel (Route.advance >>= next) (Route.advance >>= next') :=
  like.bind like.advance fun _ => h

theorem ite {other other' : Route α} (condition : Prop) [Decidable condition]
    (h : like.Rel route route') (hother : like.Rel other other') :
    like.Rel (if condition then route else other) (if condition then route' else other') := by
  split
  · exact h
  · exact hother

variable (like)

theorem eatSymbol (symbol : Symbol) :
    like.Rel (Route.eatSymbol symbol) (Route.eatSymbol symbol) := by
  refine like.bind (like.atSymbol symbol) fun found => ?_
  exact ite _ (behind (like.done found)) (like.done found)

theorem eatKeyword (keyword : Keyword) :
    like.Rel (Route.eatKeyword keyword) (Route.eatKeyword keyword) := by
  refine like.bind (like.atKeyword keyword) fun found => ?_
  exact ite _ (behind (like.done found)) (like.done found)

theorem symbol (symbol : Symbol) : like.Rel (Route.symbol symbol) (Route.symbol symbol) :=
  like.bind (like.atSymbol symbol) fun _ => ite _ like.advance (like.fault _)

theorem keyword (keyword : Keyword) : like.Rel (Route.keyword keyword) (Route.keyword keyword) :=
  like.bind (like.atKeyword keyword) fun _ => ite _ like.advance (like.fault _)

theorem identifier : like.Rel Route.identifier Route.identifier := by
  refine like.bind (like.kind 0) fun kind => ?_
  cases kind with
  | identifier name => exact behind (like.done name)
  | _ => exact like.fault _

theorem name : like.Rel Route.name Route.name := by
  refine like.here fun cursor cursor' h => ?_
  rw [h.name?_eq]
  cases cursor'.name? 0 with
  | some name => exact behind (like.done name)
  | none => exact like.fault _

theorem duration : like.Rel Route.duration Route.duration := by
  refine like.bind (like.kind 0) fun kind => ?_
  cases kind with
  | duration value => exact behind (like.done value)
  | _ => exact like.fault _

theorem close (delimiter : Delimiter) :
    like.Rel (Route.close delimiter) (Route.close delimiter) :=
  like.bind (like.atSymbol _) fun _ => ite _ like.leave (like.fault _)

variable {like}

theorem within (delimiter : Delimiter) (h : like.Rel route route') :
    like.Rel (Route.within delimiter route) (Route.within delimiter route') :=
  like.bind (like.enter delimiter) fun _ => like.bind h fun value =>
    wrap (like.close delimiter) fun _ => value

theorem onlyIf {found found' : Route Bool} (hfound : like.Rel found found')
    (h : like.Rel route route') :
    like.Rel (Route.onlyIf found route) (Route.onlyIf found' route') :=
  like.bind hfound fun _ => ite _ (wrap h some) (like.done none)

/-- The rounds of a loop. The induction is on their number. -/
theorem repeatUpTo {item? item?' : Route (Option α)} (h : like.Rel item? item?') (rounds : Nat) :
    like.Rel (Route.repeatUpTo item? rounds) (Route.repeatUpTo item?' rounds) := by
  induction rounds with
  | zero => exact like.done []
  | succ rounds ih =>
    refine like.bind h fun value => ?_
    cases value with
    | some value => exact wrap ih (value :: ·)
    | none => exact like.done []

theorem repeated {item? item?' : Route (Option α)} (h : like.Rel item? item?') :
    like.Rel (Route.repeated item?) (Route.repeated item?') :=
  like.here fun _ _ hahead => hahead.ahead_eq ▸ repeatUpTo h _

theorem commaList (h : like.Rel route route') :
    like.Rel (Route.commaList route) (Route.commaList route') :=
  like.bind h fun first => wrap (repeated (onlyIf (like.eatSymbol .comma) h)) (first :: ·)

theorem delimitedList (delimiter : Delimiter) (h : like.Rel route route') :
    like.Rel (Route.delimitedList delimiter route) (Route.delimitedList delimiter route') :=
  within delimiter (like.bind (like.atSymbol _) fun _ => ite _ (like.done []) (commaList h))

end Rules
end Congruence
end Route
end EdgeQuery
