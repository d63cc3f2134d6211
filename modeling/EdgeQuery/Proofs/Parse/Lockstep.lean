import EdgeQuery.Proofs.Reference

/-!
Two parses side by side. Where two cursors have alike tokens ahead, up to a semicolon or to the end
of both, parsers that do the same come to the same value and to alike cursors, or to the same fault
at alike tokens: no step within a statement passes a semicolon or looks behind one. What counts as
alike is left open as far as offsets are concerned, so the two texts may differ in layout, one may
be a part of the other, and both may be one text read with different numbers of nesting levels.
-/

namespace EdgeQuery

open Cursor Parse Walk

/-- The fault with another place. -/
def SyntaxError.movedTo (error : SyntaxError) (span : Span) : SyntaxError :=
  match error with
  | .invalidCharacter c _ => .invalidCharacter c span
  | .numberOutOfRange _ => .numberOutOfRange span
  | .unexpected expected found _ => .unexpected expected found span
  | .unterminated construct _ => .unterminated construct span
  | .tooDeep _ => .tooDeep span

theorem SyntaxError.movedTo_span (error : SyntaxError) : error.movedTo error.span = error := by
  cases error <;> rfl

/-- How two texts that are read side by side are compared. -/
structure Likeness where
  /-- Which offsets stand for each other. -/
  offset : Nat → Nat → Prop
  /-- The tokens that only the second text has, behind a semicolon. -/
  more : List Token
  /-- Whether the first text may be read with fewer nesting levels than the second. -/
  fewer : Prop

namespace Likeness

section Definitions

variable (like : Likeness) {α : Type}

structure Spans (left right : Span) : Prop where
  start : like.offset left.start right.start
  stop : like.offset left.stop right.stop

structure Tokens (left right : Token) : Prop where
  kind_eq : right.kind = left.kind
  text_eq : right.text = left.text
  spans : like.Spans left.span right.span

/-- The faults are the same, at places that stand for each other. -/
structure Errors (left right : SyntaxError) : Prop where
  eq_movedTo : right = left.movedTo right.span
  spans : like.Spans left.span right.span

def Opened (left right : Delimiter × Span) : Prop :=
  left.1 = right.1 ∧ like.Spans left.2 right.2

/-- The cursors have the same ahead, and the first has no more than `room` tokens. If the second has
more than the first, that is behind a semicolon. -/
structure Cursors (room : Nat) (left right : Cursor) : Prop where
  ahead : ∃ front, List.Forall₂ like.Tokens left.ahead front ∧ right.ahead = front ++ like.more
  closed : like.more = [] ∧ like.offset left.size right.size ∨
    ∃ token ∈ left.ahead, token.kind = .symbol .semicolon
  opened : List.Forall₂ like.Opened left.opened right.opened
  behind : like.offset left.behind right.behind
  length_le : left.ahead.length ≤ room

/-- The parses have come to the same, unless the first one has run out of nesting levels and may
have fewer of them. How many tokens may be left can depend on the value. -/
inductive Agree (room : α → Nat) :
    EStateM.Result SyntaxError Cursor α → EStateM.Result SyntaxError Cursor α → Prop
  | ok {value : α} {left right : Cursor} :
    like.Cursors (room value) left right → Agree room (.ok value left) (.ok value right)
  | error {error error' : SyntaxError} {left right : Cursor} {n : Nat} :
    like.Errors error error' → like.Cursors n left right →
      Agree room (.error error left) (.error error' right)
  | tooDeep {span : Span} {left : Cursor} {result : EStateM.Result SyntaxError Cursor α} :
    like.fewer → Agree room (.error (.tooDeep span) left) result

/-- Begun at alike cursors where a token of this kind stands, the parsers agree. -/
def StepsAt (kind : TokenKind) (first second : Parse α) : Prop :=
  ∀ (room : Nat) (left right : Cursor), like.Cursors room left right → left.kind 0 = kind →
    like.Agree (fun _ => room) (first left) (second right)

/-- Begun at alike cursors where tokens of these two kinds stand, the parsers agree. -/
def StepsAtPair (kind other : TokenKind) (first second : Parse α) : Prop :=
  ∀ (room : Nat) (left right : Cursor), like.Cursors room left right → left.kind 0 = kind →
    left.kind 1 = other → like.Agree (fun _ => room) (first left) (second right)

/-- Begun at alike cursors, the parsers agree. -/
def Steps (first second : Parse α) : Prop :=
  ∀ (room : Nat) (left right : Cursor), like.Cursors room left right →
    like.Agree (fun _ => room) (first left) (second right)

/-- The room that is left when an item has taken a token. -/
def roomBehind (room : Nat) (value : Option α) : Nat :=
  if value.isSome then room else room + 1

/-- Begun at alike cursors, the parsers agree, and they take a token each if they yield a value. -/
def Items (first second : Parse (Option α)) : Prop :=
  ∀ (room : Nat) (left right : Cursor), like.Cursors (room + 1) left right →
    like.Agree (roomBehind room) (first left) (second right)

/-- As many nesting levels, or fewer where that is allowed. -/
def Levels (first second : Nat) : Prop :=
  first = second ∨ like.fewer ∧ first ≤ second

end Definitions

section Cursors

variable {like : Likeness} {room : Nat} {left right : Cursor} {kind : TokenKind}

theorem Cursors.mono {room' : Nat} (h : like.Cursors room left right) (hle : room ≤ room') :
    like.Cursors room' left right :=
  { h with length_le := Nat.le_trans h.length_le hle }

/-- At the end of the first text the second one ends, too. -/
theorem Cursors.ahead_nil (h : like.Cursors room left right) (hahead : left.ahead = []) :
    right.ahead = [] ∧ like.more = [] ∧ like.offset left.size right.size := by
  obtain ⟨front, hfront, hright⟩ := h.ahead
  rw [hahead] at hfront
  cases hfront
  rcases h.closed with ⟨hmore, hsize⟩ | ⟨token, hmem, -⟩
  · exact ⟨by rw [hright, hmore]; rfl, hmore, hsize⟩
  · rw [hahead] at hmem
    cases hmem

theorem tokens_atEnd {size size' : Nat} (h : like.offset size size') :
    like.Tokens (Token.atEnd size) (Token.atEnd size') :=
  ⟨rfl, rfl, h, h⟩

theorem peek_of_ahead_nil {cursor : Cursor} (n : Nat) (h : cursor.ahead = []) :
    cursor.peek n = Token.atEnd cursor.size := by
  rw [peek, h]
  rfl

theorem Cursors.current (h : like.Cursors room left right) :
    like.Tokens left.current right.current := by
  obtain ⟨front, hfront, hright⟩ := h.ahead
  rw [Cursor.current, Cursor.current]
  cases hahead : left.ahead with
  | nil =>
    obtain ⟨hnil, -, hsize⟩ := h.ahead_nil hahead
    rw [peek_of_ahead_nil 0 hahead, peek_of_ahead_nil 0 hnil]
    exact tokens_atEnd hsize
  | cons token rest =>
    rw [hahead] at hfront
    obtain ⟨token', rest', htoken, -, rfl⟩ := List.forall₂_cons_left_iff.mp hfront
    rw [peek_of_ahead hahead, peek_of_ahead hright]
    exact htoken

theorem Cursors.kind_eq (h : like.Cursors room left right) : right.kind 0 = left.kind 0 :=
  h.current.kind_eq

theorem Tokens.name?_eq {left right : Token} (h : like.Tokens left right) :
    right.name? = left.name? := by
  rw [Token.name?, Token.name?, h.kind_eq, h.text_eq]

theorem Cursors.name?_eq (h : like.Cursors room left right) : right.name? 0 = left.name? 0 :=
  h.current.name?_eq

theorem Cursors.atSymbol_eq (h : like.Cursors room left right) (symbol : Symbol) :
    right.atSymbol symbol = left.atSymbol symbol := by
  rw [Cursor.atSymbol, Cursor.atSymbol, h.kind_eq]

theorem Cursors.atKeyword_eq (h : like.Cursors room left right) (keyword : Keyword) :
    right.atKeyword keyword = left.atKeyword keyword := by
  rw [Cursor.atKeyword, Cursor.atKeyword, h.kind_eq]

/-- Behind a token that is no semicolon the second text goes on as the first one does. -/
theorem Cursors.advanced (h : like.Cursors room left right)
    (hkind : left.kind 0 ≠ .symbol .semicolon) :
    like.Cursors room left.advanced right.advanced := by
  obtain ⟨front, hfront, hright⟩ := h.ahead
  cases hahead : left.ahead with
  | nil =>
    obtain ⟨hnil, -, -⟩ := h.ahead_nil hahead
    rw [Cursor.advanced, Cursor.advanced, hahead, hnil]
    exact h
  | cons token rest =>
    rw [hahead] at hfront
    obtain ⟨token', rest', htoken, hrest, rfl⟩ := List.forall₂_cons_left_iff.mp hfront
    rw [List.cons_append] at hright
    rw [advanced_of_ahead hahead, advanced_of_ahead hright]
    have hlength := h.length_le
    rw [hahead, List.length_cons] at hlength
    refine ⟨⟨rest', hrest, rfl⟩, ?_, h.opened, htoken.spans.stop, by dsimp only; omega⟩
    rcases h.closed with hend | ⟨other, hmem, hother⟩
    · exact .inl hend
    · rw [hahead] at hmem
      rcases List.mem_cons.mp hmem with rfl | hmem
      · rw [Cursor.kind, peek_of_ahead hahead] at hkind
        exact absurd hother hkind
      · exact .inr ⟨other, hmem, hother⟩

/-- Taking a token leaves less room. -/
theorem Cursors.advanced_lt (h : like.Cursors (room + 1) left right)
    (hkind : left.kind 0 ≠ .symbol .semicolon) (hend : left.kind 0 ≠ .endOfInput) :
    like.Cursors room left.advanced right.advanced := by
  obtain ⟨token, rest, hahead, -, -⟩ := exists_ahead rfl hend
  have hlength := h.length_le
  refine { h.advanced hkind with length_le := ?_ }
  rw [advanced_of_ahead hahead]
  rw [hahead, List.length_cons] at hlength
  exact Nat.le_of_succ_le_succ hlength

theorem Cursors.next (h : like.Cursors room left right)
    (hkind : left.kind 0 ≠ .symbol .semicolon) : like.Tokens (left.peek 1) (right.peek 1) := by
  rw [← peek_advanced, ← peek_advanced]
  exact (h.advanced hkind).current

theorem Cursors.atEnd_eq (h : like.Cursors room left right) : right.atEnd = left.atEnd := by
  obtain ⟨front, hfront, hright⟩ := h.ahead
  rw [Cursor.atEnd, Cursor.atEnd]
  cases hahead : left.ahead with
  | nil => rw [(h.ahead_nil hahead).1]
  | cons token rest =>
    rw [hahead] at hfront
    obtain ⟨token', rest', -, -, rfl⟩ := List.forall₂_cons_left_iff.mp hfront
    rw [hright]
    rfl

theorem Cursors.withLevels (h : like.Cursors room left right) (levels levels' : Nat) :
    like.Cursors room { left with levels := levels } { right with levels := levels' } :=
  ⟨h.ahead, h.closed, h.opened, h.behind, h.length_le⟩

theorem Cursors.entered (h : like.Cursors room left right) {delimiter : Delimiter}
    (hkind : left.kind 0 = .symbol (.opening delimiter)) :
    like.Cursors room (left.entered delimiter) (right.entered delimiter) := by
  have hadvanced := h.advanced (by rw [hkind]; exact TokenKind.symbol.inj |>.mt (by simp))
  exact { hadvanced with opened := .cons ⟨rfl, h.current.spans⟩ h.opened }

theorem Cursors.closed_behind (h : like.Cursors room left right) :
    like.Cursors room { left with opened := left.opened.tail }
      { right with opened := right.opened.tail } := by
  refine ⟨h.ahead, h.closed, ?_, h.behind, h.length_le⟩
  have hopened := h.opened
  generalize left.opened = first, right.opened = second at hopened
  cases hopened with
  | nil => exact .nil
  | cons _ hrest => exact hrest

theorem errors_ofLexical {error : LexicalError} {span span' : Span} (h : like.Spans span span') :
    like.Errors (.ofLexical error span) (.ofLexical error span') := by
  cases error <;> exact ⟨rfl, h⟩

/-- At alike cursors the same is expected in vain. -/
theorem Cursors.fault (h : like.Cursors room left right) (choices : List Expectation) :
    like.Errors (left.fault choices) (right.fault choices) := by
  have hspans := h.current.spans
  have hkind := h.current.kind_eq
  have hopened := h.opened
  unfold Cursor.fault
  dsimp only
  rw [hkind]
  cases left.current.kind with
  | error error => exact errors_ofLexical hspans
  | endOfInput =>
    generalize left.opened = first, right.opened = second at hopened ⊢
    cases hopened with
    | nil => exact ⟨rfl, hspans⟩
    | @cons entry entry' _ _ hentry _ =>
      obtain ⟨delimiter, start⟩ := entry
      obtain ⟨delimiter', start'⟩ := entry'
      obtain ⟨rfl, hstart⟩ : delimiter = delimiter' ∧ like.Spans start start' := hentry
      exact ⟨rfl, hstart⟩
  | _ => exact ⟨rfl, hspans⟩

end Cursors

section Outcomes

variable {like : Likeness} {α β : Type} {room : Nat} {left right : Cursor} {kind : TokenKind}
  {first second : Parse α} {next next' : α → Parse β}

theorem Agree.mono {before after : α → Nat} {result result' : EStateM.Result SyntaxError Cursor α}
    (h : like.Agree before result result') (hle : ∀ value, before value ≤ after value) :
    like.Agree after result result' := by
  cases h with
  | ok hcursors => exact .ok (hcursors.mono (hle _))
  | error herror hcursors => exact .error herror hcursors
  | tooDeep hfewer => exact .tooDeep hfewer

/-- What agrees and goes on in agreement agrees. -/
theorem Agree.bind {before : α → Nat} {after : β → Nat}
    (h : like.Agree before (first left) (second right))
    (hnext : ∀ value mid mid', like.Cursors (before value) mid mid' →
      like.Agree after (next value mid) (next' value mid')) :
    like.Agree after ((first >>= next) left) ((second >>= next') right) := by
  generalize hfirst : first left = result, hsecond : second right = result' at h
  cases h with
  | ok hcursors =>
    rw [bind_of_ok hfirst, bind_of_ok hsecond]
    exact hnext _ _ _ hcursors
  | error herror hcursors =>
    rw [bind_of_error hfirst, bind_of_error hsecond]
    exact .error herror hcursors
  | tooDeep hfewer =>
    rw [bind_of_error hfirst]
    exact .tooDeep hfewer

theorem Steps.at (h : like.Steps first second) : like.StepsAt kind first second :=
  fun room left right hcursors _ => h room left right hcursors

theorem Steps.pure (value : α) : like.Steps (Pure.pure value) (Pure.pure value) :=
  fun _ _ _ hcursors => .ok hcursors

theorem Steps.expected (choices : List Expectation) :
    like.Steps (Parse.expected choices : Parse α) (Parse.expected choices) :=
  fun _ _ _ hcursors => .error (hcursors.fault choices) hcursors

theorem Steps.tooDeep : like.Steps (Parse.tooDeep : Parse α) Parse.tooDeep :=
  fun _ _ _ hcursors => .error ⟨rfl, hcursors.current.spans⟩ hcursors

/-- A parser that has no nesting level left agrees with any that may have more. -/
theorem Steps.tooDeep_left (h : like.fewer) : like.Steps (Parse.tooDeep : Parse α) second :=
  fun _ _ _ _ => .tooDeep h

theorem Steps.bind (h : like.Steps first second)
    (hnext : ∀ value, like.Steps (next value) (next' value)) :
    like.Steps (first >>= next) (second >>= next') :=
  fun room left right hcursors =>
    (h room left right hcursors).bind fun value mid mid' => hnext value room mid mid'

theorem Steps.map {γ : Type} (make : α → γ) (h : like.Steps first second) :
    like.Steps (first >>= fun value => Pure.pure (make value))
      (second >>= fun value => Pure.pure (make value)) :=
  h.bind fun value => .pure (make value)

theorem StepsAt.bind (h : like.StepsAt kind first second)
    (hnext : ∀ value, like.Steps (next value) (next' value)) :
    like.StepsAt kind (first >>= next) (second >>= next') :=
  fun room left right hcursors hkind =>
    (h room left right hcursors hkind).bind fun value mid mid' => hnext value room mid mid'

theorem Steps.of_at (h : ∀ kind, like.StepsAt kind first second) : like.Steps first second :=
  fun room left right hcursors => h _ room left right hcursors rfl

/-- A parser that looks at the kind of the current token. -/
theorem Steps.look {next next' : TokenKind → Parse β}
    (h : ∀ kind, like.StepsAt kind (next kind) (next' kind)) :
    like.Steps (Parse.kind 0 >>= next) (Parse.kind 0 >>= next') := by
  intro room left right hcursors
  rw [bind_of_ok (kind_run 0 left), bind_of_ok (kind_run 0 right), hcursors.kind_eq]
  exact h _ room left right hcursors rfl

theorem StepsAt.atPair {other : TokenKind} (h : like.StepsAt kind first second) :
    like.StepsAtPair kind other first second :=
  fun room left right hcursors hkind _ => h room left right hcursors hkind

theorem Steps.atPair {other : TokenKind} (h : like.Steps first second) :
    like.StepsAtPair kind other first second :=
  h.at.atPair

/-- A parser that looks at the kind of the token behind the current one, which is no semicolon. -/
theorem StepsAt.lookNext {next next' : TokenKind → Parse β} (hkind : kind ≠ .symbol .semicolon)
    (h : ∀ other, like.StepsAtPair kind other (next other) (next' other)) :
    like.StepsAt kind (Parse.kind 1 >>= next) (Parse.kind 1 >>= next') := by
  intro room left right hcursors hleft
  have hnext := (hcursors.next (hleft ▸ hkind)).kind_eq
  rw [bind_of_ok (kind_run 1 left), bind_of_ok (kind_run 1 right), Cursor.kind, Cursor.kind, hnext]
  exact h _ room left right hcursors hleft rfl

/-- A parser that looks at the kinds of two tokens. At a semicolon the second of them must not
matter, since it is another one in the second text. -/
theorem Steps.lookBoth {next next' : TokenKind → TokenKind → Parse β}
    (h : ∀ kind other, kind ≠ .symbol .semicolon →
      like.StepsAtPair kind other (next kind other) (next' kind other))
    (hsemicolon : ∀ other other', like.Steps (next (.symbol .semicolon) other)
      (next' (.symbol .semicolon) other')) :
    like.Steps (Parse.kind 0 >>= fun kind => Parse.kind 1 >>= next kind)
      (Parse.kind 0 >>= fun kind => Parse.kind 1 >>= next' kind) := by
  refine .look fun kind => ?_
  by_cases hkind : kind = .symbol .semicolon
  · subst hkind
    exact fun room left right hcursors _ =>
      hsemicolon (left.kind 1) (right.kind 1) room left right hcursors
  · exact .lookNext hkind fun other => h kind other hkind

/-- Taking a token that is no semicolon. -/
theorem stepsAt_advance (hkind : kind ≠ .symbol .semicolon) :
    like.StepsAt kind Parse.advance Parse.advance :=
  fun _ _ _ hcursors hleft => .ok (hcursors.advanced (hleft ▸ hkind))

theorem StepsAt.advance {next next' : Unit → Parse β} (hkind : kind ≠ .symbol .semicolon)
    (h : like.Steps (next ()) (next' ())) :
    like.StepsAt kind (Parse.advance >>= next) (Parse.advance >>= next') :=
  (stepsAt_advance hkind).bind fun _ => h

/-- Taking a token that is no semicolon, in front of another one. -/
theorem StepsAtPair.advance {other : TokenKind} {next next' : Unit → Parse β}
    (hkind : kind ≠ .symbol .semicolon) (h : like.StepsAt other (next ()) (next' ())) :
    like.StepsAtPair kind other (Parse.advance >>= next) (Parse.advance >>= next') := by
  intro room left right hcursors hleft hother
  refine h room left.advanced right.advanced (hcursors.advanced (hleft ▸ hkind)) ?_
  rw [Cursor.kind, peek_advanced]
  exact hother

theorem Steps.atSymbol {symbol : Symbol} {next next' : Bool → Parse β}
    (htrue : like.StepsAt (.symbol symbol) (next true) (next' true))
    (hfalse : like.Steps (next false) (next' false)) :
    like.Steps (Parse.atSymbol symbol >>= next) (Parse.atSymbol symbol >>= next') := by
  intro room left right hcursors
  rw [bind_of_ok (atSymbol_run symbol left), bind_of_ok (atSymbol_run symbol right),
    hcursors.atSymbol_eq]
  cases hfound : left.atSymbol symbol with
  | true => exact htrue room left right hcursors (atSymbol_iff.mp hfound)
  | false => exact hfalse room left right hcursors

theorem Steps.atKeyword {keyword : Keyword} {next next' : Bool → Parse β}
    (htrue : like.StepsAt (.keyword keyword) (next true) (next' true))
    (hfalse : like.Steps (next false) (next' false)) :
    like.Steps (Parse.atKeyword keyword >>= next) (Parse.atKeyword keyword >>= next') := by
  intro room left right hcursors
  rw [bind_of_ok (atKeyword_run keyword left), bind_of_ok (atKeyword_run keyword right),
    hcursors.atKeyword_eq]
  cases hfound : left.atKeyword keyword with
  | true => exact htrue room left right hcursors (atKeyword_iff.mp hfound)
  | false => exact hfalse room left right hcursors

theorem symbol_ne_semicolon {symbol : Symbol} (h : symbol ≠ .semicolon) :
    TokenKind.symbol symbol ≠ .symbol .semicolon :=
  fun heq => h (TokenKind.symbol.inj heq)

theorem steps_eatSymbol {symbol : Symbol} (h : symbol ≠ .semicolon) :
    like.Steps (eatSymbol symbol) (eatSymbol symbol) :=
  .atSymbol (.advance (symbol_ne_semicolon h) (.pure true)) (.pure false)

theorem steps_atKeyword (keyword : Keyword) :
    like.Steps (Parse.atKeyword keyword) (Parse.atKeyword keyword) := by
  intro room left right hcursors
  rw [atKeyword_run, atKeyword_run, hcursors.atKeyword_eq]
  exact .ok hcursors

theorem steps_eatKeyword (keyword : Keyword) :
    like.Steps (eatKeyword keyword) (eatKeyword keyword) :=
  .atKeyword (.advance TokenKind.noConfusion (.pure true)) (.pure false)

theorem steps_symbol {symbol : Symbol} (h : symbol ≠ .semicolon) :
    like.Steps (Parse.symbol symbol) (Parse.symbol symbol) :=
  .atSymbol (stepsAt_advance (symbol_ne_semicolon h)) (.expected _)

theorem steps_keyword (keyword : Keyword) :
    like.Steps (Parse.keyword keyword) (Parse.keyword keyword) :=
  .atKeyword (stepsAt_advance TokenKind.noConfusion) (.expected _)

theorem steps_identifier : like.Steps identifier identifier := by
  refine .look fun kind => ?_
  cases kind with
  | identifier name => exact .advance TokenKind.noConfusion (.pure name)
  | _ => exact (Steps.expected _).at

theorem steps_duration : like.Steps duration duration := by
  refine .look fun kind => ?_
  cases kind with
  | duration value => exact .advance TokenKind.noConfusion (.pure value)
  | _ => exact (Steps.expected _).at

theorem ne_semicolon_of_name? {token : Token} {name : String} (h : token.name? = some name) :
    token.kind ≠ .symbol .semicolon := by
  rcases kind_of_name? h with hkind | ⟨k, hkind⟩ <;> rw [hkind] <;> exact TokenKind.noConfusion

theorem steps_name : like.Steps name name := by
  intro room left right hcursors
  rw [Parse.name, bind_of_ok (get_run left), bind_of_ok (get_run right), hcursors.name?_eq]
  cases hname : left.name? 0 with
  | none => exact Steps.expected _ room left right hcursors
  | some name =>
    exact StepsAt.advance (ne_semicolon_of_name? hname) (.pure name) room left right hcursors rfl

theorem steps_endOfInput : like.Steps endOfInput endOfInput := by
  intro room left right hcursors
  rw [endOfInput, bind_of_ok (get_run left), bind_of_ok (get_run right), hcursors.atEnd_eq]
  cases left.atEnd with
  | true => exact .ok hcursors
  | false => exact Steps.expected _ room left right hcursors

/-- What a delimiter encloses is read alike. -/
theorem StepsAt.within {delimiter : Delimiter} (h : like.Steps first second) :
    like.StepsAt (.symbol (.opening delimiter)) (Parse.within delimiter first)
      (Parse.within delimiter second) := by
  intro room left right hcursors hkind
  rw [Parse.within, Parse.within, bind_of_ok (within_start delimiter left),
    bind_of_ok (within_start delimiter right)]
  refine (h room _ _ (hcursors.entered hkind)).bind ?_
  intro value mid mid' hmid
  refine (steps_symbol (by simp) room mid mid' hmid).bind ?_
  intro _ later later' hlater
  exact .ok hlater.closed_behind

theorem StepsAt.nested {levels levels' : Nat} (h : like.StepsAt kind first second) :
    like.StepsAt kind (Parse.nested levels first) (Parse.nested levels' second) := by
  intro room left right hcursors hkind
  refine (h room _ _ (hcursors.withLevels levels levels') hkind).bind ?_
  intro value mid mid' hmid
  exact .ok (hmid.withLevels (levels + 1) (levels' + 1))

theorem Steps.nested {levels levels' : Nat} (h : like.Steps first second) :
    like.Steps (Parse.nested levels first) (Parse.nested levels' second) :=
  .of_at fun _ => h.at.nested

/-- A part that is read only if it is there. -/
theorem Steps.onlyIf {found found' : Parse Bool} (hfound : like.Steps found found')
    (h : like.Steps first second) :
    like.Steps (Parse.onlyIf found first) (Parse.onlyIf found' second) := by
  refine hfound.bind fun found => ?_
  cases found with
  | true => exact h.map some
  | false => exact .pure none

/-- A part that is read only if the symbol that it begins with is there. -/
theorem Steps.onlyIf_atSymbol {symbol : Symbol} (h : like.StepsAt (.symbol symbol) first second) :
    like.Steps (Parse.onlyIf (Parse.atSymbol symbol) first)
      (Parse.onlyIf (Parse.atSymbol symbol) second) :=
  .atSymbol (h.bind fun value => .pure (some value)) (.pure none)

end Outcomes

section Repetition

variable {like : Likeness} {α β : Type} {kind : TokenKind} {first second : Parse (Option α)}
  {item item' : Parse α}

/-- Items that agree, one after another, agree. The induction is on the rounds; the second reader
has as many more of them as it has more tokens. -/
theorem Items.repeatUpTo (h : like.Items first second) {rounds room : Nat} {left right : Cursor}
    (hcursors : like.Cursors rounds left right) (hroom : rounds ≤ room) :
    like.Agree (fun _ => room) (repeatUpTo first rounds left)
      (repeatUpTo second (rounds + like.more.length) right) := by
  induction rounds generalizing left right with
  | zero =>
    have hahead : left.ahead = [] :=
      List.eq_nil_of_length_eq_zero (Nat.le_zero.mp hcursors.length_le)
    rw [(hcursors.ahead_nil hahead).2.1]
    exact .ok (hcursors.mono hroom)
  | succ rounds ih =>
    rw [Nat.add_right_comm]
    refine (h rounds left right hcursors).bind ?_
    intro value mid mid' hmid
    cases value with
    | none => exact .ok (hmid.mono hroom)
    | some value =>
      refine (ih hmid (Nat.le_of_succ_le hroom)).bind ?_
      intro values later later' hlater
      exact .ok hlater

theorem Items.repeated (h : like.Items first second) :
    like.Steps (Walk.repeated first) (Walk.repeated second) := by
  intro room left right hcursors
  have hlength : right.ahead.length = left.ahead.length + like.more.length := by
    obtain ⟨front, hfront, hright⟩ := hcursors.ahead
    rw [hright, List.length_append, hfront.length_eq]
  have hrun (walk : Parse (Option α)) (cursor : Cursor) :
    Walk.repeated walk cursor = Walk.repeatUpTo walk cursor.ahead.length cursor := rfl
  rw [hrun, hrun, hlength]
  exact h.repeatUpTo { hcursors with length_le := Nat.le_refl _ } hcursors.length_le

theorem room_le_roomBehind (room : Nat) (value : Option α) : room ≤ roomBehind room value := by
  rw [roomBehind]
  split <;> omega

/-- What is read behind a token that has been taken is an item. -/
theorem Steps.agree_behind (h : like.Steps first second) {room : Nat} {left right : Cursor}
    (hcursors : like.Cursors (room + 1) left right) (hkind : left.kind 0 ≠ .symbol .semicolon)
    (hend : left.kind 0 ≠ .endOfInput) :
    like.Agree (roomBehind room) (first left.advanced) (second right.advanced) :=
  (h room _ _ (hcursors.advanced_lt hkind hend)).mono (room_le_roomBehind room)

/-- A keyword that an item begins with leaves less room. -/
theorem agree_keyword {keyword : Keyword} {room : Nat} {left right : Cursor}
    (hcursors : like.Cursors (room + 1) left right) (hkind : left.kind 0 = .keyword keyword) :
    like.Agree (fun _ => room) (Parse.keyword keyword left) (Parse.keyword keyword right) := by
  rw [keyword_ok hkind, keyword_ok (hcursors.kind_eq.trans hkind)]
  exact .ok (hcursors.advanced_lt (by simp [hkind]) (by simp [hkind]))

/-- Behind the first of several items each one is told by the comma before it. -/
theorem items_comma (h : like.Steps item item') :
    like.Items (onlyIf (eatSymbol .comma) item) (onlyIf (eatSymbol .comma) item') := by
  intro room left right hcursors
  by_cases hleft : left.kind 0 = .symbol .comma
  · have hright : right.kind 0 = .symbol .comma := hcursors.kind_eq.trans hleft
    rw [onlyIf, onlyIf, bind_of_ok (eatSymbol_true hleft), bind_of_ok (eatSymbol_true hright)]
    exact (h.map some).agree_behind hcursors (by simp [hleft]) (by simp [hleft])
  · have hright : right.kind 0 ≠ .symbol .comma := hcursors.kind_eq ▸ hleft
    rw [onlyIf, onlyIf, bind_of_ok (eatSymbol_false hleft), bind_of_ok (eatSymbol_false hright)]
    exact .ok hcursors

theorem Steps.commaList (h : like.Steps item item') :
    like.Steps (Parse.commaList item) (Parse.commaList item') :=
  h.bind fun first => (items_comma h).repeated.map (first :: ·)

theorem StepsAt.delimitedList {delimiter : Delimiter} (h : like.Steps item item') :
    like.StepsAt (.symbol (.opening delimiter)) (Parse.delimitedList delimiter item)
      (Parse.delimitedList delimiter item') :=
  .within (.atSymbol (Steps.pure []).at h.commaList)

end Repetition
end Likeness
end EdgeQuery
