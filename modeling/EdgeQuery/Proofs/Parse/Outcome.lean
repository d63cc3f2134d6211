import EdgeQuery.Parse.Cursor
import EdgeQuery.Proofs.Token.Genuine

/-!
What a parse leaves behind. Where it succeeds, it has passed some tokens and brought the cursor back
to the level and the open delimiters it began with; where it fails, the cursor stands at the token
at fault, with the delimiters that the tokens passed have opened. `Parse.Reads` says so and adds
what is known of the value; there is a rule for each way to put parsers together.
-/

namespace EdgeQuery

namespace Cursor

/-- The cursor behind some tokens, with the rest ahead of it. -/
def past (cursor : Cursor) (tokens rest : List Token) : Cursor :=
  { cursor with
    ahead := rest
    behind := tokens.foldl (fun _ token => token.span.stop) cursor.behind }

/-- The later cursor is the one behind the tokens, which stand ahead of the first. -/
def Passes (cursor : Cursor) (tokens : List Token) (later : Cursor) : Prop :=
  cursor.ahead = tokens ++ later.ahead ∧ later = cursor.past tokens later.ahead

/-- The delimiters that are open behind the tokens. -/
def openedAfter (opened : List (Delimiter × Span)) : List Token → List (Delimiter × Span)
  | [] => opened
  | token :: tokens =>
    match token.kind with
    | .symbol (.opening delimiter) => openedAfter ((delimiter, token.span) :: opened) tokens
    | .symbol (.closing _) => openedAfter opened.tail tokens
    | _ => openedAfter opened tokens

/-- Whether every delimiter that the tokens open is closed by them, and none else. -/
def Balanced (tokens : List Token) : Prop :=
  ∀ opened, openedAfter opened tokens = opened

/-- Where a parse that began at the cursor may stand when it has failed, and with which fault. -/
def Strays (cursor : Cursor) (error : SyntaxError) (later : Cursor) : Prop :=
  later.levels ≤ cursor.levels ∧
  (∃ tokens, cursor.ahead = tokens ++ later.ahead ∧
    later = { cursor.past tokens later.ahead with
      levels := later.levels
      opened := openedAfter cursor.opened tokens }) ∧
  ((∃ choices, error = later.fault choices) ∨ error = .tooDeep later.current.span)

/-- The cursor behind an opening delimiter, which is noted as open. -/
def entered (cursor : Cursor) (delimiter : Delimiter) : Cursor :=
  { cursor.advanced with opened := (delimiter, cursor.current.span) :: cursor.opened }

/-- The tokens ahead are ones that the dialect has read, and so many nesting levels are left. -/
structure At (dialect : Dialect) (levels : Nat) (cursor : Cursor) : Prop where
  genuine : ∀ token ∈ cursor.ahead, token.Genuine dialect
  levels_eq : cursor.levels = levels

section Passing

variable {cursor mid later : Cursor} {tokens front back : List Token} {token : Token}
  {dialect : Dialect} {levels : Nat}

theorem Passes.refl (cursor : Cursor) : cursor.Passes [] cursor :=
  ⟨rfl, rfl⟩

theorem Passes.eq_of_nil (h : cursor.Passes [] later) : later = cursor := by
  obtain ⟨hahead, hlater⟩ := h
  rw [hlater, past, ← List.nil_append later.ahead, ← hahead]
  rfl

theorem Passes.trans (hfront : cursor.Passes front mid) (hback : mid.Passes back later) :
    cursor.Passes (front ++ back) later := by
  obtain ⟨hahead, hmid⟩ := hfront
  obtain ⟨hahead', hlater⟩ := hback
  refine ⟨by rw [hahead, hahead', List.append_assoc], ?_⟩
  rw [hlater, hmid, past, past, past, List.foldl_append]

/-- The cursor between two parts of what is passed. -/
theorem Passes.split (h : cursor.Passes (front ++ back) later) :
    ∃ mid, cursor.Passes front mid ∧ mid.Passes back later := by
  obtain ⟨hahead, hlater⟩ := h
  refine ⟨cursor.past front (back ++ later.ahead), ⟨?_, rfl⟩, rfl, ?_⟩
  · rw [hahead, List.append_assoc]
    rfl
  · rw [past, List.foldl_append] at hlater
    exact hlater

theorem exists_passes (h : cursor.ahead = front ++ back) :
    ∃ later, cursor.Passes front later ∧ later.ahead = back :=
  ⟨cursor.past front back, ⟨h, rfl⟩, rfl⟩

theorem Passes.levels_eq (h : cursor.Passes tokens later) : later.levels = cursor.levels := by
  rw [h.2]
  rfl

theorem Passes.opened_eq (h : cursor.Passes tokens later) : later.opened = cursor.opened := by
  rw [h.2]
  rfl

theorem Passes.limit_eq (h : cursor.Passes tokens later) : later.limit = cursor.limit := by
  rw [h.2]
  rfl

theorem Passes.size_eq (h : cursor.Passes tokens later) : later.size = cursor.size := by
  rw [h.2]
  rfl

theorem Passes.comments_eq (h : cursor.Passes tokens later) :
    later.comments = cursor.comments := by
  rw [h.2]
  rfl

theorem Passes.behind_eq (h : cursor.Passes (front ++ [token]) later) :
    later.behind = token.span.stop := by
  rw [h.2, past, List.foldl_append]
  rfl

theorem Passes.length_eq (h : cursor.Passes tokens later) :
    cursor.ahead.length = tokens.length + later.ahead.length := by
  rw [h.1, List.length_append]

theorem Passes.advanced (h : cursor.ahead = token :: back) :
    cursor.Passes [token] cursor.advanced := by
  rw [Cursor.advanced, h]
  exact ⟨h, rfl⟩

theorem Passes.current_eq (h : cursor.Passes (token :: back) later) : cursor.current = token := by
  rw [current, peek, h.1]
  rfl

theorem Passes.kind_eq (h : cursor.Passes (token :: back) later) : cursor.kind 0 = token.kind := by
  rw [kind, ← h.current_eq]
  rfl

/-- Behind the first of the tokens, the others are left. -/
theorem Passes.tail (h : cursor.Passes (token :: back) later) :
    cursor.advanced.Passes back later := by
  obtain ⟨hahead, hlater⟩ := h
  rw [Cursor.advanced, hahead]
  exact ⟨rfl, hlater⟩

theorem Passes.advanced_eq (h : cursor.Passes [token] later) : later = cursor.advanced :=
  h.tail.eq_of_nil

theorem Passes.withLevels (h : cursor.Passes tokens later) (levels : Nat) :
    Passes { cursor with levels := levels } tokens { later with levels := levels } := by
  obtain ⟨hahead, hlater⟩ := h
  refine ⟨hahead, ?_⟩
  rw [hlater]
  rfl

theorem Passes.withOpened (h : cursor.Passes tokens later) (opened : List (Delimiter × Span)) :
    Passes { cursor with opened := opened } tokens { later with opened := opened } := by
  obtain ⟨hahead, hlater⟩ := h
  refine ⟨hahead, ?_⟩
  rw [hlater]
  rfl

theorem At.passes (h : cursor.At dialect levels) (hpass : cursor.Passes tokens later) :
    later.At dialect levels := by
  refine ⟨?_, hpass.levels_eq.trans h.levels_eq⟩
  intro token hmem
  exact h.genuine token (hpass.1 ▸ List.mem_append_right _ hmem)

theorem At.tokens_genuine (h : cursor.At dialect levels) (hpass : cursor.Passes tokens later) :
    ∀ token ∈ tokens, token.Genuine dialect := by
  intro token hmem
  exact h.genuine token (hpass.1 ▸ List.mem_append_left _ hmem)

theorem peek_of_ahead (h : cursor.ahead = token :: back) : cursor.peek 0 = token := by
  rw [peek, h]
  rfl

theorem advanced_of_ahead (h : cursor.ahead = token :: back) :
    cursor.advanced = { cursor with ahead := back, behind := token.span.stop } := by
  rw [Cursor.advanced, h]

theorem advanced_withOpened (cursor : Cursor) (opened : List (Delimiter × Span)) :
    ({ cursor with opened := opened } : Cursor).advanced =
      { cursor.advanced with opened := opened } := by
  rcases cursor with ⟨ahead⟩
  cases ahead <;> rfl

/-- A token stands here unless the kind is that of the mark at the end. -/
theorem exists_ahead {kind : TokenKind} (h : cursor.kind 0 = kind) (hend : kind ≠ .endOfInput) :
    ∃ token rest, cursor.ahead = token :: rest ∧ cursor.current = token ∧ token.kind = kind := by
  cases hahead : cursor.ahead with
  | nil =>
    rw [← h, Cursor.kind, peek, hahead] at hend
    exact absurd rfl hend
  | cons token rest =>
    have hcurrent : cursor.current = token := by
      rw [current, peek, hahead]
      rfl
    exact ⟨token, rest, rfl, hcurrent, hcurrent ▸ h⟩

end Passing

section Opening

variable {token : Token} {front back tokens : List Token} {opened : List (Delimiter × Span)}

theorem openedAfter_append (opened : List (Delimiter × Span)) (front back : List Token) :
    openedAfter opened (front ++ back) = openedAfter (openedAfter opened front) back := by
  induction front generalizing opened with
  | nil => rfl
  | cons token front ih =>
    rw [List.cons_append, openedAfter, openedAfter]
    split <;> exact ih _

theorem Balanced.nil : Balanced [] := fun _ => rfl

theorem Balanced.append (hfront : Balanced front) (hback : Balanced back) :
    Balanced (front ++ back) := by
  intro opened
  rw [openedAfter_append, hfront, hback]

/-- Whether a token is no delimiter. -/
def IsFlat (kind : TokenKind) : Prop :=
  ∀ delimiter, kind ≠ .symbol (.opening delimiter) ∧ kind ≠ .symbol (.closing delimiter)

theorem Balanced.of_isFlat (h : IsFlat token.kind) : Balanced [token] := by
  intro opened
  rw [openedAfter]
  split
  · next delimiter hkind => exact absurd hkind (h delimiter).1
  · next delimiter hkind => exact absurd hkind (h delimiter).2
  · rfl

theorem openedAfter_opening {delimiter : Delimiter}
    (h : token.kind = .symbol (.opening delimiter)) (opened : List (Delimiter × Span)) :
    openedAfter opened (token :: tokens) =
      openedAfter ((delimiter, token.span) :: opened) tokens := by
  rw [openedAfter, h]

theorem openedAfter_closing {delimiter : Delimiter}
    (h : token.kind = .symbol (.closing delimiter)) (opened : List (Delimiter × Span)) :
    openedAfter opened [token] = opened.tail := by
  rw [openedAfter, h]
  rfl

theorem Balanced.enclosed {opening closing : Token} {delimiter : Delimiter}
    (hopening : opening.kind = .symbol (.opening delimiter)) (hinner : Balanced tokens)
    (hclosing : closing.kind = .symbol (.closing delimiter)) :
    Balanced (opening :: tokens ++ [closing]) := by
  intro opened
  rw [List.cons_append, openedAfter_opening hopening, openedAfter_append, hinner,
    openedAfter_closing hclosing]
  rfl

end Opening

section Straying

variable {cursor mid later : Cursor} {tokens : List Token} {error : SyntaxError}

theorem Strays.here (h : (∃ choices, error = cursor.fault choices) ∨
    error = .tooDeep cursor.current.span) : cursor.Strays error cursor :=
  ⟨Nat.le_refl _, ⟨[], rfl, rfl⟩, h⟩

/-- A fault behind tokens that have been passed. -/
theorem Strays.after (hpass : cursor.Passes tokens mid) (hbalanced : Balanced tokens)
    (hstray : mid.Strays error later) : cursor.Strays error later := by
  obtain ⟨hlevels, ⟨more, hahead, hlater⟩, herror⟩ := hstray
  refine ⟨hpass.levels_eq ▸ hlevels, ⟨tokens ++ more, ?_, ?_⟩, herror⟩
  · rw [hpass.1, hahead, List.append_assoc]
  · rw [openedAfter_append, hbalanced, hlater, hpass.2]
    simp only [past, List.foldl_append]

/-- A fault behind an opening delimiter that is noted as open. -/
theorem Strays.of_entered {delimiter : Delimiter}
    (hkind : cursor.kind 0 = .symbol (.opening delimiter))
    (h : (cursor.entered delimiter).Strays error later) : cursor.Strays error later := by
  obtain ⟨opening, rest, hahead, hcurrent, hopening⟩ := exists_ahead hkind TokenKind.noConfusion
  obtain ⟨hlevels, ⟨tokens, hmore, hlater⟩, herror⟩ := h
  rw [entered, advanced_of_ahead hahead, hcurrent] at hlevels hmore hlater
  refine ⟨hlevels, ⟨opening :: tokens, ?_, ?_⟩, herror⟩
  · rw [hahead, List.cons_append]
    exact congrArg _ hmore
  · rw [openedAfter_opening hopening]
    exact hlater

end Straying
end Cursor

open Cursor

namespace Parse

/-- What a parse that begins at the cursor comes to: where it succeeds, the value, the tokens passed
and the cursor behind them fulfil the condition. -/
def Reads {α : Type} (parser : Parse α) (cursor : Cursor)
    (post : α → List Token → Cursor → Prop) : Prop :=
  match parser cursor with
  | .ok value later => ∃ tokens, cursor.Passes tokens later ∧ Balanced tokens ∧ post value tokens later
  | .error error later => cursor.Strays error later

section Runs

variable {ε α β : Type} {walk : Walk ε α} {next : α → Walk ε β} {cursor later : Cursor}

theorem bind_of_ok {value : α} (h : walk cursor = .ok value later) :
    (walk >>= next) cursor = next value later := by
  show EStateM.bind walk next cursor = _
  rw [EStateM.bind, h]

theorem bind_of_error {error : ε} (h : walk cursor = .error error later) :
    (walk >>= next) cursor = .error error later := by
  show EStateM.bind walk next cursor = _
  rw [EStateM.bind, h]

theorem bind_ok {result : β} (h : (walk >>= next) cursor = .ok result later) :
    ∃ value mid, walk cursor = .ok value mid ∧ next value mid = .ok result later := by
  change EStateM.bind walk next cursor = .ok result later at h
  rw [EStateM.bind] at h
  split at h
  · next value mid hrun => exact ⟨value, mid, hrun, h⟩
  · cases h

end Runs

section Rules

variable {α β : Type} {parser : Parse α} {next : α → Parse β} {cursor later : Cursor}
  {post : α → List Token → Cursor → Prop} {goal : β → List Token → Cursor → Prop} {value : α}

/-- A parse whose value is only wrapped. -/
theorem bind_pure_of_ok {γ : Type} (make : α → γ) (h : parser cursor = .ok value later) :
    (parser >>= fun value => pure (make value)) cursor = .ok (make value) later := by
  rw [bind_of_ok h]
  rfl

theorem Reads.of_ok (h : parser.Reads cursor post) (hok : parser cursor = .ok value later) :
    ∃ tokens, cursor.Passes tokens later ∧ Balanced tokens ∧ post value tokens later := by
  unfold Reads at h
  rwa [hok] at h

theorem Reads.of_error {error : SyntaxError} (h : parser.Reads cursor post)
    (herror : parser cursor = .error error later) : cursor.Strays error later := by
  unfold Reads at h
  rwa [herror] at h

theorem Reads.mono {weaker : α → List Token → Cursor → Prop} (h : parser.Reads cursor post)
    (himp : ∀ value tokens later, cursor.Passes tokens later → post value tokens later →
      weaker value tokens later) : parser.Reads cursor weaker := by
  unfold Reads at h ⊢
  split at h
  · obtain ⟨tokens, hpass, hbalanced, hpost⟩ := h
    exact ⟨tokens, hpass, hbalanced, himp _ _ _ hpass hpost⟩
  · exact h

theorem Reads.and_run (h : parser.Reads cursor post) :
    parser.Reads cursor fun value tokens later =>
      post value tokens later ∧ parser cursor = .ok value later := by
  unfold Reads at h ⊢
  cases hrun : parser cursor with
  | ok value later =>
    rw [hrun] at h
    obtain ⟨tokens, hpass, hbalanced, hpost⟩ := h
    exact ⟨tokens, hpass, hbalanced, hpost, rfl⟩
  | error error later =>
    rw [hrun] at h
    exact h

theorem Reads.pure (h : post value [] cursor) : Reads (Pure.pure value) cursor post :=
  ⟨[], .refl cursor, .nil, h⟩

theorem Reads.bind (h : parser.Reads cursor post)
    (hnext : ∀ value tokens mid, cursor.Passes tokens mid → post value tokens mid →
      (next value).Reads mid fun result more later => goal result (tokens ++ more) later) :
    (parser >>= next).Reads cursor goal := by
  unfold Reads
  cases hrun : parser cursor with
  | error error mid =>
    rw [bind_of_error hrun]
    exact h.of_error hrun
  | ok value mid =>
    rw [bind_of_ok hrun]
    obtain ⟨tokens, hpass, hbalanced, hpost⟩ := h.of_ok hrun
    have hmore := hnext value tokens mid hpass hpost
    unfold Reads at hmore
    split at hmore
    · obtain ⟨more, hpass', hbalanced', hgoal⟩ := hmore
      exact ⟨tokens ++ more, hpass.trans hpass', hbalanced.append hbalanced', hgoal⟩
    · exact hmore.after hpass hbalanced

/-- A step that only looks. -/
theorem Reads.look (hlook : parser cursor = .ok value cursor)
    (hnext : (next value).Reads cursor goal) : (parser >>= next).Reads cursor goal := by
  have hread : parser.Reads cursor fun result tokens _ => result = value ∧ tokens = [] := by
    unfold Reads
    rw [hlook]
    exact ⟨[], .refl cursor, .nil, rfl, rfl⟩
  refine hread.bind ?_
  rintro _ _ mid hpass ⟨rfl, rfl⟩
  rwa [hpass.eq_of_nil]

theorem Reads.expected (choices : List Expectation) :
    (Parse.expected choices : Parse α).Reads cursor post :=
  Strays.here (.inl ⟨choices, rfl⟩)

theorem Reads.tooDeep : (Parse.tooDeep : Parse α).Reads cursor post :=
  Strays.here (.inr rfl)

theorem Reads.advance {token : Token} {rest : List Token}
    {post : Unit → List Token → Cursor → Prop} (hahead : cursor.ahead = token :: rest)
    (hflat : IsFlat token.kind) (h : post () [token] cursor.advanced) :
    Parse.advance.Reads cursor post :=
  ⟨[token], .advanced hahead, .of_isFlat hflat, h⟩

end Rules
end Parse
end EdgeQuery
