import Mathlib
import EdgeQuery.Proofs.Query
import EdgeQuery.Proofs.Statement.Prompt
import EdgeQuery.Proofs.Token.Tiling

/-!
Faults are reported where they are. The tokens before the one that a statement is given up at can be
continued to those of a statement, if the statement may nest as deep as it likes, and so they can
together with a keyword or a symbol that the fault asks for.
-/

namespace EdgeQuery

open Cursor Parse

namespace Tiling

variable {text : String} {tokens : List Token} {comments : List Comment}

/-- No two tokens have the same span, nor has one the span of the mark at the end. -/
theorem spans_nodup (h : Tiling text tokens comments) :
    ((tokens ++ [Token.atEnd text.utf8ByteSize]).map Token.span).Nodup := by
  rw [List.map_append, List.nodup_append]
  refine ⟨?_, List.pairwise_singleton _ _, ?_⟩
  · refine List.pairwise_map.mpr (h.tokens_inOrder.imp_of_mem ?_)
    intro token other htoken _ hbefore heq
    have hextent := (h.token_extent token htoken).1
    rw [heq] at hextent hbefore
    exact absurd (Nat.lt_of_lt_of_le hextent hbefore) (Nat.lt_irrefl _)
  · intro span hmem other hother heq
    obtain ⟨token, htoken, rfl⟩ := List.mem_map.mp hmem
    obtain rfl := List.mem_singleton.mp hother
    have hextent := (h.token_extent token htoken).1
    rw [heq] at hextent
    exact Nat.lt_irrefl _ hextent

end Tiling

/-- The tokens of a text are told apart by their spans. -/
theorem Scanner.span_eq_iff {text : String} {dialect : Dialect} {p q : Nat} {token other : Token}
    (hp : (ofText text dialect).tokens.1[p]? = some token)
    (hq : (ofText text dialect).tokens.1[q]? = some other) :
    other.span = token.span ↔ q = p := by
  have hnodup : ((ofText text dialect).tokens.1.map Token.span).Nodup := by
    obtain ⟨tokens, htokens, htiling⟩ := exists_tiling text dialect
    rw [htokens]
    exact htiling.spans_nodup
  constructor
  · intro hspan
    have hlt : q < ((ofText text dialect).tokens.1.map Token.span).length := by
      rw [List.length_map]
      exact (List.getElem?_eq_some_iff.mp hq).1
    refine (List.getElem?_inj hlt hnodup).mp ?_
    rw [List.getElem?_map, List.getElem?_map, hp, hq]
    exact congrArg some hspan
  · rintro rfl
    rw [Option.some.inj (hq.symm.trans hp)]

/-- The current token is the first of those ahead, or the mark behind them. -/
theorem Cursor.getElem?_current (cursor : Cursor) :
    (cursor.ahead ++ [Token.atEnd cursor.size])[0]? = some cursor.current := by
  rw [current, peek]
  cases cursor.ahead <;> rfl

/-- The current token stands behind those that have been read of the text. -/
theorem Cursor.tokens_of_ahead {text : String} {dialect : Dialect} {limit : Nat} {later : Cursor}
    {front : List Token} (hahead : (ofText text dialect limit).ahead = front ++ later.ahead)
    (hsize : (ofText text dialect limit).size = later.size) :
    (Scanner.ofText text dialect).tokens.1[front.length]? = some later.current ∧
      (Scanner.ofText text dialect).tokens.1.take front.length = front := by
  have htokens : (Scanner.ofText text dialect).tokens.1 =
      front ++ (later.ahead ++ [Token.atEnd later.size]) := by
    rw [← List.append_assoc, ← hahead, ← hsize]
    exact tokens_ofText text dialect limit
  rw [htokens, List.take_left, List.getElem?_append_right (Nat.le_refl _), Nat.sub_self]
  exact ⟨later.getElem?_current, rfl⟩

/-- The cursor at the beginning of the tokens. -/
def Cursor.ofTokens (tokens : List Token) (size limit : Nat) : Cursor where
  ahead := tokens
  size := size
  behind := 0
  comments := []
  limit := limit
  levels := limit
  opened := []

namespace Statement

/-- The tokens are read as a single statement when nesting is not limited: from some limit on, the
same statement is read, however large the limit is. -/
def Accepts (tokens : List Token) : Prop :=
  ∃ statement bound, ∀ limit size, bound ≤ limit →
    ∃ later, parseSingle (ofTokens tokens size limit) = .ok statement later

/-- The tokens can be continued to some that are read as a single statement. -/
def Viable (dialect : Dialect) (tokens : List Token) : Prop :=
  Opens dialect Accepts tokens

section Reading

variable {dialect : Dialect} {limit : Nat} {cursor : Cursor} {front back : List Token}

theorem ofTokens_between {tokens : List Token} (size limit : Nat)
    (h : ∀ token ∈ tokens, token.Genuine dialect) :
    (ofTokens tokens size limit).Between dialect limit :=
  ⟨h, List.forall_mem_nil _, rfl⟩

/-- What is written for a statement is read as one. -/
theorem accepts_of_spells {room : Nat} {statement : Statement} (hfits : statement.Fits dialect room)
    (hgenuine : ∀ token ∈ front ++ back, token.Genuine dialect)
    (hspells : Spells statement.pieces front)
    (hback : back = [] ∨ ∃ token, back = [token] ∧ token.kind = .symbol .semicolon) :
    Accepts (front ++ back) := by
  refine ⟨statement, room, fun limit size hle => ?_⟩
  have hall : (start (ofTokens (front ++ back) size limit)).ahead = front ++ back ++ [] :=
    (List.append_nil _).symm
  obtain ⟨later, hpass, hlater⟩ := exists_passes hall
  have hmark := kind_of_ahead_nil hlater
  have hrun := parseTerminated_complete (ofTokens_between size limit hgenuine) hpass hspells
    (hfits.mono hle) (hback.imp_left fun hnil => ⟨hnil, by rw [hmark]; rfl, by simp [hmark]⟩)
  refine ⟨later, ?_⟩
  rw [parseSingle, bind_of_ok hrun, bind_of_ok (endOfInput_run hlater)]
  rfl

/-- The tokens, if the dialect has them, are read as a single statement. -/
def Reliable (dialect : Dialect) (tokens : List Token) : Prop :=
  (∀ token ∈ tokens, token.Genuine dialect) → Accepts tokens

theorem parseTerminated_stops (h : cursor.Between dialect limit) :
    parseTerminated.Stops dialect cursor (Reliable dialect) := by
  have hstops : (parseAt limit >>= fun statement => eatSymbol .semicolon >>= fun _ =>
      pure statement).Stops dialect (start cursor) (Reliable dialect) := by
    refine .bind (parseAt_sound dialect limit _ (start_at h))
      ((parseAt_prompt dialect limit _ (start_at h)).mono ?_) fun statement tokens mid _ _ =>
        Total.stops ((eatSymbol_total .semicolon).bind fun _ => .pure statement)
    rintro tokens ⟨room, statement, -, hfits, hspells⟩
    refine .whole fun hgenuine => ?_
    rw [← List.append_nil tokens] at hgenuine ⊢
    exact accepts_of_spells hfits hgenuine hspells (.inl rfl)
  rw [← h.limit_eq] at hstops
  exact hstops

/-- A statement is given up at the first token that cannot stand where it stands. -/
theorem parseSingle_opens (h : cursor.Between dialect limit) :
    parseSingle.Stops dialect cursor (Reliable dialect) := by
  intro error later hrun
  cases hfirst : parseTerminated cursor with
  | error fault mid =>
    rw [parseSingle, bind_of_error hfirst] at hrun
    obtain ⟨rfl, rfl⟩ := EStateM.Result.error.inj hrun
    exact parseTerminated_stops h fault mid hfirst
  | ok statement mid =>
    obtain ⟨tokens, hpass, -, hfits, front, back, rfl, hspells, hback⟩ :=
      (parseTerminated_reads h).of_ok hfirst
    have hahead : cursor.ahead = front ++ back ++ mid.ahead := hpass.1
    have hend : endOfInput.Stops dialect mid
        fun more => Reliable dialect (front ++ back ++ more) := by
      refine endOfInput_stops (.whole fun hgenuine => ?_)
      rw [List.append_nil] at hgenuine ⊢
      exact accepts_of_spells hfits hgenuine hspells hback
    rw [parseSingle, bind_of_ok hfirst] at hrun
    obtain ⟨more, hmore, hopens, hall⟩ := hend.wrapped (fun _ => statement) error later hrun
    refine ⟨front ++ back ++ more, by simp only [hahead, hmore, List.append_assoc],
      hopens.behind, ?_⟩
    intro choice hmem token hkind
    rw [List.append_assoc]
    exact (hall choice hmem token hkind).behind

/-- The token is not expected there. -/
theorem parseSingle_stops (h : cursor.Between dialect limit) (choices : List Expectation)
    (found : TokenKind) (span : Span) (later : Cursor)
    (hrun : parseSingle cursor = .error (.unexpected choices found span) later) :
    ∃ front, cursor.ahead = front ++ later.ahead ∧ Opens dialect (Reliable dialect) front ∧
      ∀ choice ∈ choices, ∀ token : Token, choice.kind? = some token.kind →
        Opens dialect (Reliable dialect) (front ++ [token]) :=
  parseSingle_opens h _ later hrun

/-- The token that a statement is given up at is the current one. -/
theorem parseSingle_strays (h : cursor.Between dialect limit) {error : SyntaxError}
    {later : Cursor} (hrun : parseSingle cursor = .error error later) :
    (start cursor).Strays error later := by
  have hend (mid : Cursor) : endOfInput.Reads mid fun _ _ _ => True := by
    refine .look (get_run mid) ?_
    split
    · exact .pure trivial
    · exact .expected [.endOfInput]
  have hreads : parseSingle.Reads (start cursor) fun _ _ _ => True :=
    (parseTerminated_reads h).bind fun _ _ mid _ _ =>
      (hend mid).bind fun _ _ _ _ _ => .pure trivial
  exact hreads.of_error hrun

end Reading

theorem viable_of_opens {dialect : Dialect} {tokens : List Token}
    (hgenuine : ∀ token ∈ tokens, token.Genuine dialect)
    (h : Opens dialect (Reliable dialect) tokens) : Viable dialect tokens := by
  obtain ⟨more, hmore, hreliable⟩ := h
  exact ⟨more, hmore, hreliable (List.forall_mem_append.mpr ⟨hgenuine, hmore⟩)⟩

/-- Where something unexpected is found in a text, it is a token of the text that no other token
shares its span with. The tokens before can be continued to a statement, and so they can together
with every keyword and every symbol that the fault asks for. -/
theorem viable_of_fault {text : String} {dialect : Dialect} {choices : List Expectation}
    {found : TokenKind} {span : Span}
    (h : Statement.ofText text dialect = .error (.unexpected choices found span)) :
    let tokens := (Scanner.ofText text dialect).tokens.1
    ∃ p token, tokens[p]? = some token ∧ token.kind = found ∧
      (∀ (q : Nat) (other : Token), tokens[q]? = some other → (other.span = span ↔ q = p)) ∧
      Viable dialect (tokens.take p) ∧
      ∀ choice ∈ choices, ∀ kind, choice.kind? = some kind →
        (∃ sample : Token, sample.Genuine dialect ∧ sample.kind = kind) ∧
        ∀ sample : Token, sample.Genuine dialect → sample.kind = kind →
          Viable dialect (tokens.take p ++ [sample]) := by
  intro tokens
  obtain ⟨later, hrun⟩ := run_eq_error.mp h
  have hbetween := ofText_between text dialect nestingLimit
  obtain ⟨front, hahead, hopens, hall⟩ := parseSingle_stops hbetween choices found span later hrun
  obtain ⟨-, ⟨passed, -, hlater⟩, ⟨others, hfault⟩ | hdeep⟩ := parseSingle_strays hbetween hrun
  swap
  · cases hdeep
  obtain ⟨-, rfl, rfl⟩ := of_fault hfault.symm
  have hgenuine : ∀ token ∈ front, token.Genuine dialect := fun token hmem =>
    hbetween.genuine token (hahead ▸ List.mem_append_left _ hmem)
  have hsize : (Cursor.ofText text dialect nestingLimit).size = later.size := by
    rw [hlater]
    rfl
  obtain ⟨hhere, hfront⟩ := tokens_of_ahead hahead hsize
  refine ⟨front.length, later.current, hhere, rfl,
    fun q other hother => Scanner.span_eq_iff hhere hother, ?_⟩
  rw [hfront]
  refine ⟨viable_of_opens hgenuine hopens, fun choice hmem kind hkind =>
    ⟨choice.exists_token dialect hkind, fun sample hsample hsamplekind => ?_⟩⟩
  refine viable_of_opens (List.forall_mem_append.mpr ⟨hgenuine, by simpa using hsample⟩) ?_
  exact hall choice hmem sample (hsamplekind ▸ hkind)

set_option maxRecDepth 8192 in
/-- A SELECT that ends behind what it projects asks for FROM. -/
theorem viable_of_fault_from :
    Statement.ofText "SELECT a" .strict =
      .error (.unexpected [.keyword .FROM] .endOfInput ⟨8, 8⟩) ∧
    let tokens := (Scanner.ofText "SELECT a" .strict).tokens.1
    ∃ p token, tokens[p]? = some token ∧ token.kind = .endOfInput ∧
      (∀ (q : Nat) (other : Token), tokens[q]? = some other → (other.span = ⟨8, 8⟩ ↔ q = p)) ∧
      Viable .strict (tokens.take p) ∧
      ∀ choice ∈ [Expectation.keyword .FROM], ∀ kind, choice.kind? = some kind →
        (∃ sample : Token, sample.Genuine .strict ∧ sample.kind = kind) ∧
        ∀ sample : Token, sample.Genuine .strict → sample.kind = kind →
          Viable .strict (tokens.take p ++ [sample]) := by
  have h : Statement.ofText "SELECT a" .strict =
      .error (.unexpected [.keyword .FROM] .endOfInput ⟨8, 8⟩) := by cbv
  exact ⟨h, viable_of_fault h⟩

end Statement
end EdgeQuery
