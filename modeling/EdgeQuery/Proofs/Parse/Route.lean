import EdgeQuery.Proofs.Parse.Sound

/-!
Parsers taken apart. A route is a parser written as a tree, at each of whose nodes the cursor is
looked at or makes a single move; so it tells not only where a parse ends but every cursor on the
way. At each of them, the delimiters noted as open are those that the tokens passed leave open.
-/

namespace EdgeQuery

open Cursor

/-- What a parser does to the cursor at once. -/
inductive Move
  /-- The current token is passed. -/
  | advance
  /-- The current token is passed and noted as an open delimiter. -/
  | enter (delimiter : Delimiter)
  /-- The current token is passed, and the innermost open delimiter is no longer noted. -/
  | leave
  /-- The number of nesting levels left is set. -/
  | level (levels : Nat)

def Move.apply : Move → Cursor → Cursor
  | advance, cursor => cursor.advanced
  | enter delimiter, cursor => cursor.entered delimiter
  | leave, cursor => { cursor.advanced with opened := cursor.opened.tail }
  | level levels, cursor => { cursor with levels := levels }

/-- The steps of a parser that yields an `α`. -/
inductive Route (α : Type)
  | done (value : α)
  | fault (choices : List Expectation)
  | tooDeep
  | look (next : Cursor → Route α)
  | step (move : Move) (next : Route α)

namespace Route

variable {α β : Type}

def bind : Route α → (α → Route β) → Route β
  | done value, next => next value
  | fault choices, _ => fault choices
  | tooDeep, _ => tooDeep
  | look more, next => look fun cursor => (more cursor).bind next
  | step move more, next => step move (more.bind next)

instance : Monad Route where
  pure := done
  bind := bind

/-- The parser that takes the steps. -/
def walk : Route α → Parse α
  | done value, cursor => .ok value cursor
  | fault choices, cursor => .error (cursor.fault choices) cursor
  | tooDeep, cursor => .error (.tooDeep cursor.current.span) cursor
  | look more, cursor => (more cursor).walk cursor
  | step move more, cursor => more.walk (move.apply cursor)

/-- The cursors on the way, from the first one to the last. -/
def visits : Route α → Cursor → List Cursor
  | done _, cursor | fault _, cursor | tooDeep, cursor => [cursor]
  | look more, cursor => (more cursor).visits cursor
  | step move more, cursor => cursor :: more.visits (move.apply cursor)

theorem walk_bind (route : Route α) (next : α → Route β) (cursor : Cursor) :
    (route >>= next).walk cursor = (route.walk >>= fun value => (next value).walk) cursor := by
  show (route.bind next).walk cursor = _
  induction route generalizing cursor with
  | done value => rfl
  | fault choices => rfl
  | tooDeep => rfl
  | look more ih => exact ih cursor cursor
  | step move more ih => exact ih (move.apply cursor)

/-- What is visited on a route that goes on is visited before or behind the point where it does. -/
theorem visits_bind {route : Route α} {next : α → Route β} {cursor visited : Cursor}
    (h : visited ∈ (route >>= next).visits cursor) :
    visited ∈ route.visits cursor ∨ ∃ value mid, route.walk cursor = .ok value mid ∧
      visited ∈ (next value).visits mid := by
  change visited ∈ (route.bind next).visits cursor at h
  induction route generalizing cursor with
  | done value => exact .inr ⟨value, cursor, rfl, h⟩
  | fault choices => exact .inl h
  | tooDeep => exact .inl h
  | look more ih => exact ih cursor h
  | step move more ih =>
    rcases List.mem_cons.mp h with rfl | h
    · exact .inl List.mem_cons_self
    · exact (ih h).imp_left (List.mem_cons_of_mem cursor)

/-- The cursor at which a parse ends is the last one on the way. -/
theorem last_mem_visits {route : Route α} {cursor later : Cursor}
    (h : (∃ value, route.walk cursor = .ok value later) ∨
      ∃ error, route.walk cursor = .error error later) : later ∈ route.visits cursor := by
  induction route generalizing cursor with
  | look more ih => exact ih cursor h
  | step move more ih => exact List.mem_cons_of_mem cursor (ih h)
  | _ =>
    rcases h with ⟨_, h⟩ | ⟨_, h⟩ <;> cases h
    exact List.mem_cons_self

/-- A value that is only wrapped is no further visit. -/
theorem visits_wrapped {route : Route α} {make : α → β} {cursor visited : Cursor}
    (h : visited ∈ (route >>= fun value => pure (make value)).visits cursor) :
    visited ∈ route.visits cursor := by
  rcases visits_bind h with h | ⟨value, mid, hrun, h⟩
  · exact h
  · rw [List.mem_singleton.mp h]
    exact last_mem_visits (.inl ⟨value, hrun⟩)

section Steps

/-- The answer to a question about the cursor. -/
def ask (question : Cursor → α) : Route α :=
  look fun cursor => done (question cursor)

def take (move : Move) : Route Unit :=
  step move (done ())

def here : Route Cursor :=
  ask id

def kind (n : Nat) : Route TokenKind :=
  ask (·.kind n)

def atSymbol (symbol : Symbol) : Route Bool :=
  ask (·.atSymbol symbol)

def atKeyword (keyword : Keyword) : Route Bool :=
  ask (·.atKeyword keyword)

def advance : Route Unit :=
  take .advance

def expected (choices : List Expectation) : Route α :=
  fault choices

def eatSymbol (symbol : Symbol) : Route Bool := do
  let found ← atSymbol symbol
  if found then advance
  return found

def eatKeyword (keyword : Keyword) : Route Bool := do
  let found ← atKeyword keyword
  if found then advance
  return found

def symbol (symbol : Symbol) : Route Unit := do
  if ← atSymbol symbol then advance else expected [.symbol symbol]

def keyword (keyword : Keyword) : Route Unit := do
  if ← atKeyword keyword then advance else expected [.keyword keyword]

def identifier : Route String := do
  match ← kind 0 with
  | .identifier name => advance; return name
  | _ => expected [.identifier]

def name : Route String := do
  match (← here).name? 0 with
  | some name => advance; return name
  | none => expected [.identifier]

def duration : Route Duration := do
  match ← kind 0 with
  | .duration value => advance; return value
  | _ => expected [.duration]

/-- The closing delimiter is passed and the open one forgotten at once. -/
def close (delimiter : Delimiter) : Route Unit := do
  if ← atSymbol (.closing delimiter) then take .leave
  else expected [.symbol (.closing delimiter)]

def within (delimiter : Delimiter) (inner : Route α) : Route α := do
  take (.enter delimiter)
  let value ← inner
  close delimiter
  return value

def nested (levels : Nat) (inner : Route α) : Route α := do
  take (.level levels)
  let value ← inner
  take (.level (levels + 1))
  return value

def onlyIf (found : Route Bool) (inner : Route α) : Route (Option α) := do
  if ← found then return some (← inner) else return none

def repeatUpTo (item? : Route (Option α)) : Nat → Route (List α)
  | 0 => return []
  | rounds + 1 => do
    match ← item? with
    | some value => return value :: (← repeatUpTo item? rounds)
    | none => return []

def repeated (item? : Route (Option α)) : Route (List α) := do
  repeatUpTo item? (← here).ahead.length

def commaList (item : Route α) : Route (List α) := do
  let first ← item
  return first :: (← repeated (onlyIf (eatSymbol .comma) item))

def delimitedList (delimiter : Delimiter) (item : Route α) : Route (List α) :=
  within delimiter do
    if ← atSymbol (.closing delimiter) then return [] else commaList item

end Steps
end Route

/-- The delimiters that are open behind the tokens, the innermost first, if `opened` are open before
them. A closing delimiter closes the innermost one, which has to be of its kind. -/
def unclosed? : List (Delimiter × Span) → List Token → Option (List (Delimiter × Span))
  | opened, [] => some opened
  | opened, token :: tokens =>
    match token.kind with
    | .symbol (.opening delimiter) => unclosed? ((delimiter, token.span) :: opened) tokens
    | .symbol (.closing delimiter) =>
      match opened with
      | (innermost, _) :: outer => if innermost = delimiter then unclosed? outer tokens else none
      | [] => none
    | _ => unclosed? opened tokens

section Unclosed

variable {opened : List (Delimiter × Span)} {token : Token} {delimiter : Delimiter}

theorem unclosed?_append (opened : List (Delimiter × Span)) (front back : List Token) :
    unclosed? opened (front ++ back) = (unclosed? opened front).bind (unclosed? · back) := by
  induction front generalizing opened with
  | nil => rfl
  | cons token front ih =>
    rw [List.cons_append, unclosed?, unclosed?]
    split
    · exact ih _
    · split
      · split
        · exact ih _
        · rfl
      · rfl
    · exact ih _

theorem unclosed?_of_isFlat (h : IsFlat token.kind) : unclosed? opened [token] = some opened := by
  rw [unclosed?]
  split
  · next delimiter hkind => exact absurd hkind (h delimiter).1
  · next delimiter hkind => exact absurd hkind (h delimiter).2
  · rfl

theorem unclosed?_of_opening (h : token.kind = .symbol (.opening delimiter)) :
    unclosed? opened [token] = some ((delimiter, token.span) :: opened) := by
  rw [unclosed?, h]
  rfl

theorem unclosed?_of_closing {span : Span} (h : token.kind = .symbol (.closing delimiter)) :
    unclosed? ((delimiter, span) :: opened) [token] = some opened := by
  rw [unclosed?, h]
  exact if_pos rfl

end Unclosed

/-- The tokens between the cursors leave open what the second one notes as open, if what the first
one notes is open before them. -/
def Cursor.Tallies (cursor visited : Cursor) : Prop :=
  ∃ tokens, cursor.ahead = tokens ++ visited.ahead ∧
    unclosed? cursor.opened tokens = some visited.opened

theorem Cursor.advanced_opened (cursor : Cursor) : cursor.advanced.opened = cursor.opened := by
  rw [Cursor.advanced]
  split <;> rfl

section Tallying

variable {cursor mid later : Cursor} {delimiter : Delimiter}

theorem Cursor.Tallies.refl (cursor : Cursor) : cursor.Tallies cursor :=
  ⟨[], rfl, rfl⟩

theorem Cursor.Tallies.trans (hfront : cursor.Tallies mid) (hback : mid.Tallies later) :
    cursor.Tallies later := by
  obtain ⟨front, hahead, hopened⟩ := hfront
  obtain ⟨back, hmore, hlater⟩ := hback
  refine ⟨front ++ back, by rw [hahead, hmore, List.append_assoc], ?_⟩
  rw [unclosed?_append, hopened]
  exact hlater

theorem Cursor.Tallies.advanced (h : IsFlat (cursor.kind 0)) : cursor.Tallies cursor.advanced := by
  cases hahead : cursor.ahead with
  | nil =>
    rw [Cursor.advanced, hahead]
    exact .refl cursor
  | cons token rest =>
    have hkind : cursor.kind 0 = token.kind := congrArg Token.kind (peek_of_ahead hahead)
    refine ⟨[token], by rw [hahead, advanced_of_ahead hahead]; rfl, ?_⟩
    rw [advanced_of_ahead hahead]
    exact unclosed?_of_isFlat (hkind ▸ h)

theorem Cursor.Tallies.entered (h : cursor.kind 0 = .symbol (.opening delimiter)) :
    cursor.Tallies (cursor.entered delimiter) := by
  obtain ⟨token, rest, hahead, hcurrent, hkind⟩ := exists_ahead h TokenKind.noConfusion
  refine ⟨[token], by rw [hahead, Cursor.entered, advanced_of_ahead hahead]; rfl, ?_⟩
  rw [Cursor.entered, hcurrent]
  exact unclosed?_of_opening hkind

/-- What is closed is what has been opened last. -/
theorem Cursor.Tallies.left {span : Span} {opened : List (Delimiter × Span)}
    (h : cursor.kind 0 = .symbol (.closing delimiter))
    (hopened : cursor.opened = (delimiter, span) :: opened) :
    cursor.Tallies (Move.leave.apply cursor) := by
  obtain ⟨token, rest, hahead, hcurrent, hkind⟩ := exists_ahead h TokenKind.noConfusion
  refine ⟨[token], ?_, ?_⟩
  · show cursor.ahead = [token] ++ cursor.advanced.ahead
    rw [hahead, advanced_of_ahead hahead]
    rfl
  · show unclosed? cursor.opened [token] = some cursor.opened.tail
    rw [hopened]
    exact unclosed?_of_closing hkind

end Tallying

namespace Route

/-- From the cursor, the route leads to what the parser comes to. On the way, it passes delimiters
only as such, and if the parse succeeds it has closed those that it has opened. -/
structure Follows {α : Type} (route : Route α) (parser : Parse α) (cursor : Cursor) : Prop where
  walk_eq : route.walk cursor = parser cursor
  tallies : ∀ visited ∈ route.visits cursor, cursor.Tallies visited
  opened_eq : ∀ value later, parser cursor = .ok value later → later.opened = cursor.opened

/-- The route takes the steps of the parser wherever it begins. -/
def Traces {α : Type} (route : Route α) (parser : Parse α) : Prop :=
  ∀ cursor, route.Follows parser cursor

section Kinds

variable {cursor : Cursor}

theorem isFlat_of_keyword {k : Keyword} (h : cursor.kind 0 = .keyword k) :
    IsFlat (cursor.kind 0) := by
  rw [h]
  exact Parse.isFlat_of_symbol? rfl

end Kinds

section Rules

variable {α β : Type} {route : Route α} {parser : Parse α} {next : α → Route β}
  {next' : α → Parse β} {cursor : Cursor}

theorem Follows.pure (value : α) (cursor : Cursor) :
    (Pure.pure value : Route α).Follows (Pure.pure value) cursor where
  walk_eq := rfl
  tallies := by
    intro visited hmem
    rw [List.mem_singleton.mp hmem]
    exact .refl cursor
  opened_eq := by
    rintro _ _ ⟨⟩
    rfl

theorem Follows.expected (choices : List Expectation) (cursor : Cursor) :
    (Route.expected choices : Route α).Follows (Parse.expected choices) cursor where
  walk_eq := rfl
  tallies := by
    intro visited hmem
    rw [List.mem_singleton.mp hmem]
    exact .refl cursor
  opened_eq := nofun

theorem Follows.tooDeep (cursor : Cursor) :
    (Route.tooDeep : Route α).Follows Parse.tooDeep cursor where
  walk_eq := rfl
  tallies := by
    intro visited hmem
    rw [List.mem_singleton.mp hmem]
    exact .refl cursor
  opened_eq := nofun

theorem Follows.bind (h : route.Follows parser cursor)
    (hnext : ∀ value mid, parser cursor = .ok value mid →
      (next value).Follows (next' value) mid) :
    (route >>= next).Follows (parser >>= next') cursor where
  walk_eq := by
    rw [walk_bind]
    cases hrun : parser cursor with
    | ok value mid =>
      rw [Parse.bind_of_ok (h.walk_eq.trans hrun), Parse.bind_of_ok hrun]
      exact (hnext value mid hrun).walk_eq
    | error error mid =>
      rw [Parse.bind_of_error (h.walk_eq.trans hrun), Parse.bind_of_error hrun]
  tallies := by
    intro visited hmem
    rcases visits_bind hmem with hmem | ⟨value, mid, hrun, hmem⟩
    · exact h.tallies visited hmem
    · have hmid := h.tallies mid (last_mem_visits (.inl ⟨value, hrun⟩))
      exact hmid.trans ((hnext value mid (h.walk_eq.symm.trans hrun)).tallies visited hmem)
  opened_eq := by
    intro result later hrun
    cases hfirst : parser cursor with
    | ok value mid =>
      rw [Parse.bind_of_ok hfirst] at hrun
      rw [(hnext value mid hfirst).opened_eq result later hrun, h.opened_eq value mid hfirst]
    | error error mid =>
      rw [Parse.bind_of_error hfirst] at hrun
      cases hrun

/-- A question about the cursor. -/
theorem ask_follows {question : Cursor → α}
    (hlook : parser cursor = .ok (question cursor) cursor) :
    (Route.ask question).Follows parser cursor where
  walk_eq := hlook.symm
  tallies := (Follows.pure (question cursor) cursor).tallies
  opened_eq := by
    rintro value later hrun
    cases hlook.symm.trans hrun
    rfl

theorem Follows.ask {question : Cursor → α} (hlook : parser cursor = .ok (question cursor) cursor)
    (hnext : (next (question cursor)).Follows (next' (question cursor)) cursor) :
    (Route.ask question >>= next).Follows (parser >>= next') cursor := by
  refine (ask_follows hlook).bind fun value mid hrun => ?_
  cases hlook.symm.trans hrun
  exact hnext

theorem Follows.here {next : Cursor → Route β} {next' : Cursor → Parse β}
    (hnext : (next cursor).Follows (next' cursor) cursor) :
    (Route.here >>= next).Follows (MonadState.get >>= next') cursor :=
  .ask (show (MonadState.get : Parse Cursor) cursor = .ok (id cursor) cursor from
    Parse.get_run cursor) hnext

/-- A token that is no delimiter is passed. -/
theorem advance_follows (hflat : IsFlat (cursor.kind 0)) :
    Route.advance.Follows Parse.advance cursor where
  walk_eq := rfl
  tallies := by
    intro visited hmem
    rcases List.mem_cons.mp hmem with rfl | hmem
    · exact .refl _
    · rw [List.mem_singleton.mp hmem]
      exact .advanced hflat
  opened_eq := by
    rintro _ _ ⟨⟩
    exact advanced_opened cursor

theorem Follows.advance {next : Unit → Route β} {next' : Unit → Parse β}
    (hflat : IsFlat (cursor.kind 0)) (hnext : (next ()).Follows (next' ()) cursor.advanced) :
    (Route.advance >>= next).Follows (Parse.advance >>= next') cursor := by
  refine (advance_follows hflat).bind fun _ mid hrun => ?_
  cases hrun
  exact hnext

theorem close_ok {delimiter : Delimiter} (h : cursor.kind 0 = .symbol (.closing delimiter)) :
    (close delimiter).walk cursor = .ok () (Move.leave.apply cursor) := by
  show (if cursor.atSymbol (.closing delimiter) then take .leave
    else Route.expected [.symbol (.closing delimiter)] : Route Unit).walk cursor = _
  rw [if_pos (Parse.atSymbol_iff.mpr h)]
  rfl

theorem close_error {delimiter : Delimiter} (h : cursor.kind 0 ≠ .symbol (.closing delimiter)) :
    (close delimiter).walk cursor =
      .error (cursor.fault [.symbol (.closing delimiter)]) cursor := by
  show (if cursor.atSymbol (.closing delimiter) then take .leave
    else Route.expected [.symbol (.closing delimiter)] : Route Unit).walk cursor = _
  rw [if_neg (mt Parse.atSymbol_iff.mp h)]
  rfl

theorem close_visits {delimiter : Delimiter} {visited : Cursor}
    (h : visited ∈ (close delimiter).visits cursor) :
    visited = cursor ∨
      cursor.kind 0 = .symbol (.closing delimiter) ∧ visited = Move.leave.apply cursor := by
  change visited ∈ (if cursor.atSymbol (.closing delimiter) then take .leave
    else Route.expected [.symbol (.closing delimiter)] : Route Unit).visits cursor at h
  split at h
  · next hfound =>
    rcases List.mem_cons.mp h with rfl | h
    · exact .inl rfl
    · exact .inr ⟨Parse.atSymbol_iff.mp hfound, List.mem_singleton.mp h⟩
  · exact .inl (List.mem_singleton.mp h)

/-- What delimiters enclose. -/
theorem Follows.within {delimiter : Delimiter}
    (hkind : cursor.kind 0 = .symbol (.opening delimiter))
    (h : route.Follows parser (cursor.entered delimiter)) :
    (Route.within delimiter route).Follows (Parse.within delimiter parser) cursor where
  walk_eq := by
    show (route >>= fun value => close delimiter >>= fun _ => (Pure.pure value : Route α)).walk
      (cursor.entered delimiter) = _
    rw [walk_bind, Parse.within, Parse.bind_of_ok (Parse.within_start delimiter cursor)]
    cases hrun : parser (cursor.entered delimiter) with
    | error error mid =>
      rw [Parse.bind_of_error (h.walk_eq.trans hrun), Parse.bind_of_error hrun]
    | ok value mid =>
      rw [Parse.bind_of_ok (h.walk_eq.trans hrun), Parse.bind_of_ok hrun, walk_bind]
      by_cases hclosing : mid.kind 0 = .symbol (.closing delimiter)
      · rw [Parse.bind_of_ok (close_ok hclosing), Parse.bind_of_ok (Parse.symbol_ok hclosing)]
        show _ = EStateM.Result.ok value { mid.advanced with opened := mid.advanced.opened.tail }
        rw [advanced_opened]
        rfl
      · rw [Parse.bind_of_error (close_error hclosing),
          Parse.bind_of_error (Parse.symbol_error hclosing)]
  tallies := by
    intro visited hmem
    rcases List.mem_cons.mp hmem with rfl | hmem
    · exact .refl _
    refine (Tallies.entered hkind).trans ?_
    rcases visits_bind (show visited ∈ (route >>= _).visits _ from hmem) with
      hmem | ⟨value, mid, hrun, hmem⟩
    · exact h.tallies visited hmem
    refine (h.tallies mid (last_mem_visits (.inl ⟨value, hrun⟩))).trans ?_
    rcases close_visits (visits_wrapped hmem) with rfl | ⟨hclosing, rfl⟩
    · exact .refl _
    · exact .left hclosing (h.opened_eq value mid (h.walk_eq.symm.trans hrun))
  opened_eq := by
    intro value later hrun
    rw [Parse.within, Parse.bind_of_ok (Parse.within_start delimiter cursor)] at hrun
    obtain ⟨_, mid, hfirst, hrest⟩ := Parse.bind_ok hrun
    obtain ⟨_, mid', hclose, hlast⟩ := Parse.bind_ok hrest
    have hopened := h.opened_eq _ mid hfirst
    by_cases hclosing : mid.kind 0 = .symbol (.closing delimiter)
    · cases (Parse.symbol_ok hclosing).symm.trans hclose
      cases hlast
      show mid.advanced.opened.tail = cursor.opened
      rw [advanced_opened, hopened]
      rfl
    · cases (Parse.symbol_error hclosing).symm.trans hclose

theorem Follows.nested {levels : Nat} (h : route.Follows parser { cursor with levels := levels }) :
    (Route.nested levels route).Follows (Parse.nested levels parser) cursor where
  walk_eq := by
    show (route >>= fun value => take (.level (levels + 1)) >>= fun _ =>
      (Pure.pure value : Route α)).walk { cursor with levels := levels } =
        (parser >>= fun value => (modify fun cursor : Cursor =>
          { cursor with levels := levels + 1 }) >>= fun _ => Pure.pure value)
            { cursor with levels := levels }
    rw [walk_bind]
    cases hrun : parser { cursor with levels := levels } with
    | error error mid =>
      rw [Parse.bind_of_error (h.walk_eq.trans hrun), Parse.bind_of_error hrun]
    | ok value mid =>
      rw [Parse.bind_of_ok (h.walk_eq.trans hrun), Parse.bind_of_ok hrun]
      rfl
  tallies := by
    intro visited hmem
    rcases List.mem_cons.mp hmem with rfl | hmem
    · exact .refl _
    rcases visits_bind (show visited ∈ (route >>= _).visits _ from hmem) with
      hmem | ⟨value, mid, hrun, hmem⟩
    · exact h.tallies visited hmem
    have hmid : cursor.Tallies mid := h.tallies mid (last_mem_visits (.inl ⟨value, hrun⟩))
    rcases List.mem_cons.mp hmem with rfl | hmem
    · exact hmid
    · rw [List.mem_singleton.mp hmem]
      exact hmid
  opened_eq := by
    intro value later hrun
    change (parser >>= fun value => (modify fun cursor : Cursor =>
      { cursor with levels := levels + 1 }) >>= fun _ => Pure.pure value)
        { cursor with levels := levels } = _ at hrun
    obtain ⟨_, mid, hfirst, hrest⟩ := Parse.bind_ok hrun
    cases hrest
    exact h.opened_eq _ mid hfirst

theorem Follows.onlyIf {found : Route Bool} {found' : Parse Bool}
    (hfound : found.Follows found' cursor)
    (h : ∀ mid, found' cursor = .ok true mid → route.Follows parser mid) :
    (Route.onlyIf found route).Follows (Parse.onlyIf found' parser) cursor := by
  refine hfound.bind fun value mid hrun => ?_
  cases value with
  | true => exact (h mid hrun).bind fun result later _ => .pure (some result) later
  | false => exact .pure none mid

theorem Traces.repeatUpTo {item? : Route (Option α)} {item?' : Parse (Option α)}
    (h : item?.Traces item?') (rounds : Nat) :
    (Route.repeatUpTo item? rounds).Traces (Walk.repeatUpTo item?' rounds) := by
  induction rounds with
  | zero => exact fun cursor => .pure [] cursor
  | succ rounds ih =>
    intro cursor
    refine (h cursor).bind fun value mid _ => ?_
    cases value with
    | none => exact .pure [] mid
    | some value => exact (ih mid).bind fun values later _ => .pure (value :: values) later

theorem Traces.repeated {item? : Route (Option α)} {item?' : Parse (Option α)}
    (h : item?.Traces item?') : (Route.repeated item?).Traces (Walk.repeated item?') :=
  fun cursor => .here (h.repeatUpTo cursor.ahead.length cursor)

theorem eatSymbol_traces {s : Symbol} (hflat : IsFlat (.symbol s)) :
    (eatSymbol s).Traces (Parse.eatSymbol s) := by
  intro cursor
  refine .ask (Parse.atSymbol_run s cursor) ?_
  cases hfound : cursor.atSymbol s with
  | true => exact .advance (Parse.atSymbol_iff.mp hfound ▸ hflat) (.pure true _)
  | false => exact .pure false cursor

theorem Traces.comma (h : route.Traces parser) :
    (Route.onlyIf (eatSymbol .comma) route).Traces
      (Parse.onlyIf (Parse.eatSymbol .comma) parser) := fun cursor =>
  .onlyIf (eatSymbol_traces (Parse.isFlat_symbol (by simp) (by simp)) cursor) fun mid _ => h mid

theorem Traces.commaList (h : route.Traces parser) :
    (Route.commaList route).Traces (Parse.commaList parser) := by
  intro cursor
  exact (h cursor).bind fun first mid _ =>
    (h.comma.repeated mid).bind fun more later _ => .pure (first :: more) later

theorem Follows.delimitedList {delimiter : Delimiter}
    (hkind : cursor.kind 0 = .symbol (.opening delimiter)) (h : route.Traces parser) :
    (Route.delimitedList delimiter route).Follows (Parse.delimitedList delimiter parser)
      cursor := by
  refine .within hkind (.ask (Parse.atSymbol_run _ _) ?_)
  split
  · exact .pure [] _
  · exact h.commaList _

end Rules

section Words

/-- What a keyword leads. -/
theorem Follows.led {α β : Type} {route : Route α} {parser : Parse α} {cursor : Cursor}
    {k : Keyword} (hkind : cursor.kind 0 = .keyword k) (make : α → β) (h : route.Traces parser) :
    (Route.advance >>= fun _ => route >>= fun value => Pure.pure (make value)).Follows
      (Parse.advance >>= fun _ => parser >>= fun value => Pure.pure (make value)) cursor :=
  .advance (isFlat_of_keyword hkind) ((h _).bind fun _ later _ => .pure _ later)

theorem eatKeyword_traces (k : Keyword) : (eatKeyword k).Traces (Parse.eatKeyword k) := by
  intro cursor
  refine .ask (Parse.atKeyword_run k cursor) ?_
  cases hfound : cursor.atKeyword k with
  | true => exact .advance (isFlat_of_keyword (Parse.atKeyword_iff.mp hfound)) (.pure true _)
  | false => exact .pure false cursor

theorem symbol_traces {s : Symbol} (hflat : IsFlat (.symbol s)) :
    (symbol s).Traces (Parse.symbol s) := by
  intro cursor
  refine .ask (Parse.atSymbol_run s cursor) ?_
  cases hfound : cursor.atSymbol s with
  | true => exact advance_follows (Parse.atSymbol_iff.mp hfound ▸ hflat)
  | false => exact .expected _ cursor

theorem keyword_traces (k : Keyword) : (keyword k).Traces (Parse.keyword k) := by
  intro cursor
  refine .ask (Parse.atKeyword_run k cursor) ?_
  cases hfound : cursor.atKeyword k with
  | true => exact advance_follows (isFlat_of_keyword (Parse.atKeyword_iff.mp hfound))
  | false => exact .expected _ cursor

theorem identifier_traces : identifier.Traces Parse.identifier := by
  intro cursor
  refine .ask (Parse.kind_run 0 cursor) ?_
  cases hkind : cursor.kind 0 with
  | identifier name =>
    exact .advance (hkind ▸ Parse.isFlat_of_symbol? rfl) (.pure name _)
  | _ => exact .expected _ cursor

theorem name_traces : name.Traces Parse.name := by
  intro cursor
  refine .here ?_
  cases hname : cursor.name? 0 with
  | some name => exact .advance (Parse.isFlat_of_name? hname).1 (.pure name _)
  | none => exact .expected _ cursor

theorem duration_traces : duration.Traces Parse.duration := by
  intro cursor
  refine .ask (Parse.kind_run 0 cursor) ?_
  cases hkind : cursor.kind 0 with
  | duration value => exact .advance (hkind ▸ Parse.isFlat_of_symbol? rfl) (.pure value _)
  | _ => exact .expected _ cursor

end Words

end Route
end EdgeQuery
