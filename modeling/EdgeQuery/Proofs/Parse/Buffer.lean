import EdgeQuery.Proofs.Statement.Route
import EdgeQuery.Proofs.Token.Offsets

/-!
A parser that has the whole text with all of its tokens, and counts those that it has read. Each
token it looks at and each text it takes is asked for by index or by offset; it is always there, so
the parser takes the steps of the one that has the tokens that are left.
-/

namespace EdgeQuery

open Cursor OffsetScanner Text

/-- A place among the tokens of a text. -/
structure Buffer where
  text : List Char
  tokens : List Mark
  /-- The number of tokens that have been read. -/
  place : Nat
  comments : List Comment
  limit : Nat
  levels : Nat
  opened : List (Delimiter × Span)

namespace Buffer

/-- The token that is `n` places ahead; beyond the last one it is the last one. -/
def peek? (buffer : Buffer) (n : Nat) : Option Token := do
  let last ← sub? buffer.tokens.length 1
  let mark ← buffer.tokens[min (buffer.place + n) last]?
  return ⟨mark.1, ← mark.lexeme? buffer.text, mark.2⟩

/-- The place behind the current token, unless it marks the end. -/
def advance? (buffer : Buffer) : Option Buffer := do
  let token ← buffer.peek? 0
  if token.kind = .endOfInput then return buffer
  else return { buffer with place := buffer.place + 1 }

/-- The offset at which the last token read ends. -/
def behind? (buffer : Buffer) : Option Nat := do
  if buffer.place = 0 then return 0
  else
    let mark ← buffer.tokens[← sub? buffer.place 1]?
    return mark.2.stop

/-- All there is to see from the place. -/
def view? (buffer : Buffer) : Option Cursor := do
  let last ← sub? buffer.tokens.length 1
  let ahead ← (List.range (← sub? last buffer.place)).mapM buffer.peek?
  let mark ← buffer.tokens[last]?
  let behind ← buffer.behind?
  return ⟨ahead, mark.2.start, behind, buffer.comments, buffer.limit, buffer.levels, buffer.opened⟩

/-- The place behind a move. -/
def after? : Move → Buffer → Option Buffer
  | .advance, buffer => buffer.advance?
  | .enter delimiter, buffer => do
    let token ← buffer.peek? 0
    let later ← buffer.advance?
    return { later with opened := (delimiter, token.span) :: buffer.opened }
  | .leave, buffer => do
    let later ← buffer.advance?
    return { later with opened := buffer.opened.tail }
  | .level levels, buffer => return { buffer with levels := levels }

/-- The place at which a cursor stands that has passed as many tokens. -/
def of (text : List Char) (tokens : List Token) (place : Nat) (cursor : Cursor) : Buffer :=
  ⟨text, tokens.map Token.mark, place, cursor.comments, cursor.limit, cursor.levels, cursor.opened⟩

/-- The cursor stands at the place: of the tokens, which can all be taken from the text, it has left
as many as have been read. -/
structure Shows (dialect : Dialect) (text : List Char) (tokens : List Token) (buffer : Buffer)
    (cursor : Cursor) : Prop where
  reads : ∀ token ∈ tokens, Reads text token
  between : cursor.Between dialect cursor.limit
  passed : ∃ passed, tokens = passed ++ cursor.ahead ++ [Token.atEnd cursor.size] ∧
    cursor.behind = lastStop passed 0 ∧ buffer = of text tokens passed.length cursor

variable {dialect : Dialect} {text : List Char} {tokens : List Token} {buffer : Buffer}
  {cursor : Cursor}

theorem getElem?_min {α : Type} (front : List α) (last : α) (n : Nat) :
    (front ++ [last])[min n front.length]? = some (front[n]?.getD last) := by
  by_cases hn : n < front.length
  · rw [Nat.min_eq_left (Nat.le_of_lt hn), List.getElem?_append_left hn,
      List.getElem?_eq_getElem hn]
    rfl
  · rw [Nat.min_eq_right (Nat.le_of_not_lt hn), List.getElem?_append_right (Nat.le_refl _),
      Nat.sub_self, List.getElem?_eq_none (Nat.le_of_not_lt hn)]
    rfl

namespace Shows

/-- The index of the last token, which marks the end. -/
theorem last_eq (h : Shows dialect text tokens buffer cursor) :
    sub? buffer.tokens.length 1 = some (buffer.place + cursor.ahead.length) := by
  obtain ⟨-, -, passed, rfl, -, rfl⟩ := h
  have hlength : (of text (passed ++ cursor.ahead ++ [Token.atEnd cursor.size]) passed.length
      cursor).tokens.length = passed.length + cursor.ahead.length + 1 := by
    simp [of, Nat.add_assoc]
  rw [hlength]
  exact sub?_add_right _ 1

/-- Every token that the cursor sees ahead stands among the tokens of the text. -/
theorem getElem?_eq (h : Shows dialect text tokens buffer cursor) (n : Nat) :
    buffer.tokens[buffer.place + min n cursor.ahead.length]? = some (cursor.peek n).mark ∧
      (cursor.peek n).mark.lexeme? buffer.text = some (cursor.peek n).text := by
  obtain ⟨hreads, -, passed, htokens, -, rfl⟩ := h
  have hfound : tokens[passed.length + min n cursor.ahead.length]? = some (cursor.peek n) := by
    rw [htokens, List.append_assoc, List.getElem?_append_right (Nat.le_add_right _ _),
      Nat.add_sub_cancel_left]
    exact getElem?_min cursor.ahead _ n
  refine ⟨?_, hreads _ (List.mem_of_getElem? hfound)⟩
  show (tokens.map Token.mark)[passed.length + min n cursor.ahead.length]? = _
  rw [List.getElem?_map, hfound]
  rfl

/-- Every token that the cursor sees ahead can be looked at, however far ahead. -/
theorem peek?_eq (h : Shows dialect text tokens buffer cursor) (n : Nat) :
    buffer.peek? n = some (cursor.peek n) := by
  obtain ⟨hmark, hlexeme⟩ := h.getElem?_eq n
  have hplace : min (buffer.place + n) (buffer.place + cursor.ahead.length) =
      buffer.place + min n cursor.ahead.length := by
    omega
  simp only [peek?, h.last_eq, hplace, hmark, hlexeme, Option.bind_eq_bind, Option.bind_some]
  rfl

theorem behind?_eq (h : Shows dialect text tokens buffer cursor) :
    buffer.behind? = some cursor.behind := by
  obtain ⟨-, -, passed, htokens, hbehind, rfl⟩ := h
  cases passed using List.reverseRecOn with
  | nil =>
    rw [hbehind]
    rfl
  | append_singleton passed token =>
    have hplace : (of text tokens (passed ++ [token]).length cursor).place = passed.length + 1 := by
      simp [of]
    have hmark : (of text tokens (passed ++ [token]).length cursor).tokens[passed.length]? =
        some token.mark := by
      simp [of, htokens]
    simp only [behind?, hplace, Nat.add_one_ne_zero, if_false, sub?_add_right, hmark,
      Option.bind_eq_bind, Option.bind_some, hbehind, lastStop_append]
    rfl

/-- From the place there is to see what the cursor sees. -/
theorem view?_eq (h : Shows dialect text tokens buffer cursor) : buffer.view? = some cursor := by
  have hpeek : buffer.peek? = fun n => some (cursor.peek n) := funext h.peek?_eq
  have hahead : (List.range cursor.ahead.length).map cursor.peek = cursor.ahead := by
    refine List.ext_getElem (by simp) fun n hleft hright => ?_
    rw [List.getElem_map, List.getElem_range, peek, List.getElem?_eq_getElem hright]
    rfl
  have hall : (List.range cursor.ahead.length).mapM buffer.peek? = some cursor.ahead := by
    rw [hpeek]
    exact List.mapM_pure.trans (congrArg some hahead)
  have hend : buffer.tokens[buffer.place + cursor.ahead.length]? =
      some (Token.atEnd cursor.size).mark := by
    have hmark := (h.getElem?_eq cursor.ahead.length).1
    rw [Nat.min_self, peek, List.getElem?_eq_none (Nat.le_refl _)] at hmark
    exact hmark
  simp only [view?, h.last_eq, sub?_add, hall, hend, h.behind?_eq, Option.bind_eq_bind,
    Option.bind_some]
  obtain ⟨-, -, passed, -, -, rfl⟩ := h
  rfl

theorem withComments {comments : List Comment} (h : Shows dialect text tokens buffer cursor)
    (hpassed : ∀ comment ∈ comments, comment.Passed cursor.size) :
    Shows dialect text tokens { buffer with comments := comments }
      { cursor with comments := comments } := by
  obtain ⟨hreads, hbetween, passed, htokens, hbehind, rfl⟩ := h
  exact ⟨hreads, ⟨hbetween.genuine, hpassed, rfl⟩, passed, htokens, hbehind, rfl⟩

theorem withLevels (h : Shows dialect text tokens buffer cursor) (levels : Nat) :
    Shows dialect text tokens { buffer with levels := levels }
      { cursor with levels := levels } := by
  obtain ⟨hreads, hbetween, passed, htokens, hbehind, rfl⟩ := h
  exact ⟨hreads, ⟨hbetween.genuine, hbetween.passed, rfl⟩, passed, htokens, hbehind, rfl⟩

theorem withOpened (h : Shows dialect text tokens buffer cursor)
    (opened : List (Delimiter × Span)) :
    Shows dialect text tokens { buffer with opened := opened }
      { cursor with opened := opened } := by
  obtain ⟨hreads, hbetween, passed, htokens, hbehind, rfl⟩ := h
  exact ⟨hreads, ⟨hbetween.genuine, hbetween.passed, rfl⟩, passed, htokens, hbehind, rfl⟩

/-- What is no token is the same. -/
theorem fields_eq (h : Shows dialect text tokens buffer cursor) :
    buffer.comments = cursor.comments ∧ buffer.limit = cursor.limit ∧
      buffer.levels = cursor.levels ∧ buffer.opened = cursor.opened := by
  obtain ⟨-, -, passed, -, -, rfl⟩ := h
  exact ⟨rfl, rfl, rfl, rfl⟩

/-- The mark of the end is seen where no token is left. -/
theorem kind_eq_endOfInput (h : Shows dialect text tokens buffer cursor) :
    cursor.current.kind = .endOfInput ↔ cursor.ahead = [] := by
  constructor
  · intro hkind
    by_contra hne
    obtain ⟨token, rest, hahead⟩ := List.exists_cons_of_ne_nil hne
    have hgenuine := h.between.genuine token (hahead ▸ List.mem_cons_self)
    rw [current, peek_of_ahead hahead] at hkind
    rw [Token.Genuine, hkind] at hgenuine
    exact hgenuine
  · intro hahead
    rw [current, peek, hahead]
    rfl

/-- Passing a token leads to where the cursor gets by it. -/
theorem advance?_eq (h : Shows dialect text tokens buffer cursor) :
    ∃ later, buffer.advance? = some later ∧ Shows dialect text tokens later cursor.advanced := by
  have hend := h.kind_eq_endOfInput
  have hpeek : buffer.peek? 0 = some cursor.current := h.peek?_eq 0
  cases hahead : cursor.ahead with
  | nil =>
    refine ⟨buffer, ?_, ?_⟩
    · simp [advance?, hpeek, hend.mpr hahead]
    · rw [advanced, hahead]
      exact h
  | cons token rest =>
    have hkind : cursor.current.kind ≠ .endOfInput := fun hkind =>
      List.cons_ne_nil token rest (hahead.symm.trans (hend.mp hkind))
    refine ⟨{ buffer with place := buffer.place + 1 }, ?_, ?_⟩
    · simp [advance?, hpeek, hkind]
    · obtain ⟨front, hskips⟩ := SourceFile.advanced_skips cursor
      rw [advanced_of_ahead hahead] at hskips ⊢
      obtain ⟨hreads, hbetween, passed, htokens, hbehind, rfl⟩ := h
      refine ⟨hreads, hbetween.leaves hskips.toLeaves, passed ++ [token], ?_, ?_, ?_⟩
      · rw [htokens, hahead]
        simp
      · rw [lastStop_append]
        rfl
      · simp [of]

/-- A move leads to where it leads the cursor. -/
theorem after?_eq (move : Move) (h : Shows dialect text tokens buffer cursor) :
    ∃ later, buffer.after? move = some later ∧
      Shows dialect text tokens later (move.apply cursor) := by
  obtain ⟨later, hadvance, hlater⟩ := h.advance?_eq
  have hpeek : buffer.peek? 0 = some cursor.current := h.peek?_eq 0
  obtain ⟨-, -, -, hopened⟩ := h.fields_eq
  cases move with
  | advance => exact ⟨later, hadvance, hlater⟩
  | enter delimiter =>
    refine ⟨_, ?_, hlater.withOpened ((delimiter, cursor.current.span) :: cursor.opened)⟩
    simp [after?, hpeek, hadvance, hopened]
  | leave =>
    refine ⟨_, ?_, hlater.withOpened cursor.opened.tail⟩
    simp [after?, hadvance, hopened]
  | level levels => exact ⟨_, rfl, h.withLevels levels⟩

end Shows
end Buffer

/-- The same outcome, at a place where the cursor stands. -/
inductive Buffer.Shown (dialect : Dialect) (text : List Char) (tokens : List Token) {ε α : Type} :
    Option (EStateM.Result ε Buffer α) → EStateM.Result ε Cursor α → Prop
  | ok {value : α} {buffer : Buffer} {cursor : Cursor}
    (h : Shows dialect text tokens buffer cursor) :
    Shown dialect text tokens (some (.ok value buffer)) (.ok value cursor)
  | error {error : ε} {buffer : Buffer} {cursor : Cursor}
    (h : Shows dialect text tokens buffer cursor) :
    Shown dialect text tokens (some (.error error buffer)) (.error error cursor)

namespace Buffer.Shown

variable {dialect : Dialect} {text : List Char} {tokens : List Token} {ε α : Type}
  {checked : Option (EStateM.Result ε Buffer α)} {cursor : Cursor}

theorem exists_ok {value : α} (h : Shown dialect text tokens checked (.ok value cursor)) :
    ∃ buffer, checked = some (.ok value buffer) ∧ buffer.Shows dialect text tokens cursor := by
  cases h with
  | ok hshows => exact ⟨_, rfl, hshows⟩

theorem exists_error {error : ε} (h : Shown dialect text tokens checked (.error error cursor)) :
    ∃ buffer, checked = some (.error error buffer) ∧ buffer.Shows dialect text tokens cursor := by
  cases h with
  | error hshows => exact ⟨_, rfl, hshows⟩

end Buffer.Shown

namespace Route

variable {α : Type}

/-- Takes the steps of the route from a place among the tokens of a text. -/
def run? : Route α → Buffer → Option (EStateM.Result SyntaxError Buffer α)
  | done value, buffer => return .ok value buffer
  | fault choices, buffer => do
    let cursor ← buffer.view?
    return .error (cursor.fault choices) buffer
  | tooDeep, buffer => do
    let token ← buffer.peek? 0
    return .error (.tooDeep token.span) buffer
  | look next, buffer => do
    let cursor ← buffer.view?
    (next cursor).run? buffer
  | step move next, buffer => do
    let later ← buffer.after? move
    next.run? later

/-- On the way, all that is looked at is there. The induction is on the steps. -/
theorem run?_shown {dialect : Dialect} {text : List Char} {tokens : List Token} (route : Route α)
    {buffer : Buffer} {cursor : Cursor} (h : buffer.Shows dialect text tokens cursor) :
    Buffer.Shown dialect text tokens (route.run? buffer) (route.walk cursor) := by
  induction route generalizing buffer cursor with
  | done value => exact .ok h
  | fault choices =>
    rw [run?, h.view?_eq]
    exact .error h
  | tooDeep =>
    rw [run?, h.peek?_eq]
    exact .error h
  | look next ih =>
    rw [run?, h.view?_eq]
    exact ih cursor h
  | step move next ih =>
    obtain ⟨later, hafter, hlater⟩ := h.after?_eq move
    rw [run?, hafter]
    exact ih hlater

end Route
end EdgeQuery
