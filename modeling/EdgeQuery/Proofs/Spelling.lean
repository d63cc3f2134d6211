import EdgeQuery.Proofs.Token.Rescan
import EdgeQuery.Statement.Printed

/-!
Which tokens can be written for the pieces of a canonical text. Some keywords have other spellings
than their own, and some may be left out or followed by a word that means nothing. Apart from that,
the pieces determine the kinds of the tokens.
-/

namespace EdgeQuery

/-- The ways to write a keyword where it has its meaning. -/
def Keyword.spellings : Keyword → List (List TokenKind)
  | .OR => [[.keyword .OR], [.symbol .bars]]
  | .AND => [[.keyword .AND], [.symbol .ampersands]]
  | .BY => [[], [.keyword .BY]]
  | .ALL => [[.keyword .ALL], [.keyword .BY, .keyword .ALL]]
  | .LIMIT => [[.keyword .LIMIT], [.keyword .LIMIT, .keyword .BY]]
  | .START => [[.keyword .START], [.keyword .START, .keyword .AT]]
  | k => [[.keyword k]]

theorem Keyword.keyword_mem_spellings (k : Keyword) : [TokenKind.keyword k] ∈ k.spellings := by
  cases k <;> simp [Keyword.spellings]

/-- Whether the tokens are what can be written for a piece. No tokens are written for a comment, and
none that mean something stand for it. -/
def Piece.SpelledBy : Piece → List Token → Prop
  | .symbol s, tokens => ∃ token, tokens = [token] ∧ token.kind = .symbol s
  | .keyword k, tokens => tokens.map Token.kind ∈ k.spellings
  | .word name, tokens => ∃ token, tokens = [token] ∧ token.name? = some name
  | .variable name, tokens => ∃ token, tokens = [token] ∧ token.kind = .variable name
  | .number value, tokens => ∃ token, tokens = [token] ∧ token.kind = .number value
  | .duration value, tokens => ∃ token, tokens = [token] ∧ token.kind = .duration value
  | .string content, tokens => ∃ token, tokens = [token] ∧ token.kind = .string content
  | .space, tokens | .lineEnd, tokens => tokens = []
  | .comment _, _ => False

/-- Whether the tokens are what can be written for the pieces, in their order. -/
def Spells : List Piece → List Token → Prop
  | [], tokens => tokens = []
  | piece :: pieces, tokens =>
    ∃ front back, tokens = front ++ back ∧ piece.SpelledBy front ∧ Spells pieces back

section Rules

variable {piece : Piece} {pieces left right : List Piece} {tokens front back : List Token}

@[simp]
theorem spells_nil : Spells [] tokens ↔ tokens = [] := Iff.rfl

theorem Spells.cons (hpiece : piece.SpelledBy front) (hpieces : Spells pieces back) :
    Spells (piece :: pieces) (front ++ back) :=
  ⟨front, back, rfl, hpiece, hpieces⟩

theorem spells_singleton : Spells [piece] tokens ↔ piece.SpelledBy tokens := by
  constructor
  · rintro ⟨front, back, rfl, hpiece, rfl⟩
    rwa [List.append_nil]
  · intro h
    exact ⟨tokens, [], (List.append_nil tokens).symm, h, rfl⟩

theorem spells_append :
    Spells (left ++ right) tokens ↔
      ∃ front back, tokens = front ++ back ∧ Spells left front ∧ Spells right back := by
  induction left generalizing tokens with
  | nil => simp
  | cons piece pieces ih =>
    constructor
    · rintro ⟨first, later, rfl, hpiece, hlater⟩
      obtain ⟨front, back, rfl, hleft, hright⟩ := ih.mp hlater
      exact ⟨first ++ front, back, (List.append_assoc ..).symm, .cons hpiece hleft, hright⟩
    · rintro ⟨front, back, rfl, ⟨first, later, rfl, hpiece, hlater⟩, hright⟩
      rw [List.append_assoc]
      exact .cons hpiece (ih.mpr ⟨later, back, rfl, hlater, hright⟩)

theorem Spells.append (hleft : Spells left front) (hright : Spells right back) :
    Spells (left ++ right) (front ++ back) :=
  spells_append.mpr ⟨front, back, rfl, hleft, hright⟩

@[simp]
theorem spells_space : Spells (.space :: pieces) tokens ↔ Spells pieces tokens := by
  constructor
  · rintro ⟨front, back, rfl, rfl, h⟩
    exact h
  · intro h
    exact ⟨[], tokens, rfl, rfl, h⟩

/-- What is written for pieces of which the first is written as one token. -/
theorem spells_cons_of_single {p : Token → Prop}
    (h : ∀ front, piece.SpelledBy front ↔ ∃ token, front = [token] ∧ p token) :
    Spells (piece :: pieces) tokens ↔
      ∃ token back, tokens = token :: back ∧ p token ∧ Spells pieces back := by
  constructor
  · rintro ⟨front, back, rfl, hpiece, hback⟩
    obtain ⟨token, rfl, htoken⟩ := (h front).mp hpiece
    exact ⟨token, back, rfl, htoken, hback⟩
  · rintro ⟨token, back, rfl, htoken, hback⟩
    exact ⟨[token], back, rfl, (h [token]).mpr ⟨token, rfl, htoken⟩, hback⟩

@[simp]
theorem spells_symbol {s : Symbol} :
    Spells (.symbol s :: pieces) tokens ↔
      ∃ token back, tokens = token :: back ∧ token.kind = .symbol s ∧ Spells pieces back :=
  spells_cons_of_single fun _ => Iff.rfl

@[simp]
theorem spells_word {name : String} :
    Spells (.word name :: pieces) tokens ↔
      ∃ token back, tokens = token :: back ∧ token.name? = some name ∧ Spells pieces back :=
  spells_cons_of_single fun _ => Iff.rfl

/-- A keyword that is always written as itself. -/
theorem spells_keyword {k : Keyword} (h : k.spellings = [[.keyword k]]) :
    Spells (.keyword k :: pieces) tokens ↔
      ∃ token back, tokens = token :: back ∧ token.kind = .keyword k ∧ Spells pieces back := by
  apply spells_cons_of_single
  intro front
  rw [Piece.SpelledBy, h, List.mem_singleton, List.map_eq_singleton_iff]

theorem spells_enclosed {delimiter : Delimiter} {inner : List Piece} :
    Spells (Piece.enclosed delimiter inner) tokens ↔
      ∃ opening middle closing, tokens = opening :: middle ++ [closing] ∧
        opening.kind = .symbol (.opening delimiter) ∧ Spells inner middle ∧
        closing.kind = .symbol (.closing delimiter) := by
  rw [Piece.enclosed, List.cons_append, spells_symbol]
  constructor
  · rintro ⟨opening, back, rfl, hopening, hback⟩
    obtain ⟨middle, last, rfl, hmiddle, hlast⟩ := spells_append.mp hback
    obtain ⟨closing, rfl, hclosing⟩ := spells_singleton.mp hlast
    exact ⟨opening, middle, closing, rfl, hopening, hmiddle, hclosing⟩
  · rintro ⟨opening, middle, closing, rfl, hopening, hmiddle, hclosing⟩
    refine ⟨opening, middle ++ [closing], rfl, hopening, hmiddle.append ?_⟩
    exact spells_singleton.mpr ⟨closing, rfl, hclosing⟩

theorem spells_optional {α : Type} {written : α → List Piece} {value : Option α} :
    Spells (Piece.optional (value.map written)) tokens ↔ Spells (value.elim [] written) tokens := by
  cases value with
  | none => rfl
  | some v => exact spells_space

theorem spells_flag {k : Keyword} {flag : Bool} (h : k.spellings = [[.keyword k]]) :
    Spells (Piece.flag k flag) tokens ↔
      flag = false ∧ tokens = [] ∨
        flag = true ∧ ∃ token, tokens = [token] ∧ token.kind = .keyword k := by
  cases flag <;> simp [Piece.flag, spells_keyword h]

theorem spells_leading {k : Keyword} {flag : Bool} (h : k.spellings = [[.keyword k]]) :
    Spells (Piece.leading k flag) tokens ↔ Spells (Piece.flag k flag) tokens := by
  cases flag <;> simp [Piece.leading, Piece.flag, spells_keyword h]

/-- Most keywords are written first wherever they are written. -/
theorem Spells.exists_keyword {k : Keyword} (h : Spells (.keyword k :: pieces) tokens)
    (hk : ∀ spelling ∈ k.spellings, spelling.head? = some (.keyword k)) :
    ∃ token back, tokens = token :: back ∧ token.kind = .keyword k := by
  obtain ⟨front, back, rfl, hfront, -⟩ := h
  have hhead := hk _ hfront
  cases front with
  | nil => cases hhead
  | cons token front => exact ⟨token, front ++ back, rfl, Option.some.inj hhead⟩

end Rules

/-- What is written between the items of a list, and each item behind it. -/
theorem intercalate_cons_eq_flatMap {α : Type} (separator first : List α) (more : List (List α)) :
    separator.intercalate (first :: more) = first ++ more.flatMap (separator ++ ·) := by
  induction more generalizing first with
  | nil => simp [List.intercalate]
  | cons second more ih =>
    rw [List.intercalate_cons_cons, ih, List.flatMap_cons, List.append_assoc, List.append_assoc]

theorem Piece.commaList_cons (first : List Piece) (more : List (List Piece)) :
    Piece.commaList (first :: more) =
      first ++ more.flatMap ([.symbol .comma, .space] ++ ·) :=
  intercalate_cons_eq_flatMap ..

theorem Piece.dotted_cons (first : List Piece) (more : List (List Piece)) :
    Piece.dotted (first :: more) = first ++ more.flatMap ([.symbol .dot] ++ ·) :=
  intercalate_cons_eq_flatMap ..

/-- The piece that a token is read for is spelled by it. Which name a keyword is depends on how it is
written. -/
theorem Piece.spelledBy_of_kind? {dialect : Dialect} {piece : Piece} {token : Token}
    (hkind : piece.kind? dialect = some token.kind)
    (htext : ∀ k, token.kind = .keyword k → token.text = piece.text) :
    piece.SpelledBy [token] := by
  cases piece with
  | keyword k =>
    have hk : token.kind = .keyword k := (Option.some.inj hkind).symm
    show [token.kind] ∈ k.spellings
    rw [hk]
    exact k.keyword_mem_spellings
  | word name =>
    have hword : token.kind = dialect.wordKind name := (Option.some.inj hkind).symm
    rw [Dialect.wordKind] at hword
    refine ⟨token, rfl, ?_⟩
    cases hname : dialect.keyword? name with
    | none =>
      rw [hname] at hword
      rw [Token.name?, hword]
    | some k =>
      rw [hname] at hword
      rw [Token.name?, hword]
      exact congrArg some (htext k hword)
  | space => cases hkind
  | lineEnd => cases hkind
  | comment content => cases hkind
  | _ => exact ⟨token, rfl, (Option.some.inj hkind).symm⟩

def Piece.isComment : Piece → Bool
  | .comment _ => true
  | _ => false

/-- No tokens are written for a space or the end of a line. -/
theorem Piece.spelledBy_nil {dialect : Dialect} {piece : Piece} (hcomment : piece.isComment = false)
    (hkind : piece.kind? dialect = none) : piece.SpelledBy [] := by
  cases piece with
  | space => rfl
  | lineEnd => rfl
  | comment content => cases hcomment
  | _ => cases hkind

/-- The tokens that canonical pieces are read as spell these pieces, if no comment is among them. -/
theorem spells_tokens {pieces : List Piece} (h : ∀ piece ∈ pieces, piece.isComment = false)
    (dialect : Dialect) (offset : Nat) : Spells pieces (Piece.tokens dialect offset pieces) := by
  induction pieces generalizing offset with
  | nil => rfl
  | cons piece pieces ih =>
    have hlater := ih fun other hmem => h other (List.mem_cons_of_mem piece hmem)
    rw [Piece.tokens]
    split
    · next kind hkind => exact .cons (Piece.spelledBy_of_kind? hkind fun _ _ => rfl) (hlater _)
    · next hnone => exact Spells.cons (Piece.spelledBy_nil (h piece (by simp)) hnone) (hlater _)

theorem Spells.isComment_eq_false {pieces : List Piece} {tokens : List Token}
    (h : Spells pieces tokens) : ∀ piece ∈ pieces, piece.isComment = false := by
  induction pieces generalizing tokens with
  | nil => exact List.forall_mem_nil _
  | cons piece pieces ih =>
    obtain ⟨front, back, rfl, hpiece, hback⟩ := h
    refine List.forall_mem_cons.mpr ⟨?_, ih hback⟩
    cases piece with
    | comment content => exact hpiece.elim
    | _ => rfl

/-- A name is read in one way only. -/
theorem Token.Genuine.kind_of_name? {dialect : Dialect} {token : Token} {name : String}
    (h : token.Genuine dialect) (hname : token.name? = some name) :
    token.kind = dialect.wordKind name := by
  unfold Token.Genuine at h
  unfold Token.name? at hname
  split at hname
  · next other hkind =>
    obtain rfl := Option.some.inj hname
    rw [hkind] at h ⊢
    have hfree : dialect.IsFree other := h
    rw [Dialect.wordKind, hfree.2]
  · next k hkind =>
    obtain rfl := Option.some.inj hname
    rw [hkind] at h ⊢
    have hword : dialect.keyword? token.text = some k := h.2
    rw [Dialect.wordKind, hword]
  · cases hname

/-- What has been read from a text can be read back once it is written. -/
theorem Spells.readable {dialect : Dialect} {pieces : List Piece} {tokens : List Token}
    (h : Spells pieces tokens) (hgenuine : ∀ token ∈ tokens, token.Genuine dialect) :
    ∀ piece ∈ pieces, piece.Readable := by
  induction pieces generalizing tokens with
  | nil => simp
  | cons piece pieces ih =>
    obtain ⟨front, back, rfl, hpiece, hback⟩ := h
    have hfront : ∀ token ∈ front, token.Genuine dialect :=
      fun token hmem => hgenuine token (List.mem_append_left _ hmem)
    intro other hmem
    rcases List.mem_cons.mp hmem with rfl | hmem
    · cases other with
      | word name =>
        obtain ⟨token, rfl, hname⟩ := hpiece
        exact (hfront token (by simp)).isName_of_name? hname
      | «variable» name =>
        obtain ⟨token, rfl, hkind⟩ := hpiece
        have := hfront token (by simp)
        rwa [Token.Genuine, hkind] at this
      | string content =>
        obtain ⟨token, rfl, hkind⟩ := hpiece
        have := hfront token (by simp)
        rwa [Token.Genuine, hkind] at this
      | comment content => exact hpiece.elim
      | _ => trivial
    · exact ih hback (fun token h => hgenuine token (List.mem_append_right _ h)) other hmem

/-- What a token means, whichever way it is spelled; nothing for the words and marks that may be
left out. -/
def TokenKind.essential? : TokenKind → Option TokenKind
  | .symbol .semicolon | .keyword .BY | .keyword .AT => none
  | .symbol .bars => some (.keyword .OR)
  | .symbol .ampersands => some (.keyword .AND)
  | kind => some kind

/-- The kinds of the tokens, as far as they mean something. -/
def essentials (tokens : List Token) : List TokenKind :=
  tokens.filterMap fun token => token.kind.essential?

theorem essentials_append (front back : List Token) :
    essentials (front ++ back) = essentials front ++ essentials back :=
  List.filterMap_append

theorem Keyword.essentials_eq {k : Keyword} {tokens : List Token}
    (h : tokens.map Token.kind ∈ k.spellings) :
    essentials tokens = (TokenKind.keyword k).essential?.toList := by
  have hmap : essentials tokens = (tokens.map Token.kind).filterMap TokenKind.essential? := by
    rw [essentials, List.filterMap_map]
    rfl
  have hall : ∀ spelling ∈ k.spellings,
      spelling.filterMap TokenKind.essential? = (TokenKind.keyword k).essential?.toList := by
    cases k <;> decide
  rw [hmap]
  exact hall _ h

/-- What a piece means is what the tokens mean that it is written as. -/
theorem Piece.SpelledBy.essentials_eq {dialect : Dialect} {piece : Piece} {tokens : List Token}
    (h : piece.SpelledBy tokens) (hgenuine : ∀ token ∈ tokens, token.Genuine dialect) :
    essentials tokens = ((piece.kind? dialect).bind TokenKind.essential?).toList := by
  have hsingle : ∀ token : Token,
      essentials [token] = token.kind.essential?.toList := by
    intro token
    rw [essentials, List.filterMap_cons]
    cases token.kind.essential? <;> rfl
  cases piece with
  | keyword k => exact Keyword.essentials_eq h
  | word name =>
    obtain ⟨token, rfl, hname⟩ := h
    rw [hsingle, (hgenuine token (by simp)).kind_of_name? hname]
    rfl
  | space => rw [show tokens = [] from h]; rfl
  | lineEnd => rw [show tokens = [] from h]; rfl
  | comment content => exact h.elim
  | _ =>
    obtain ⟨token, rfl, hkind⟩ := h
    rw [hsingle, hkind]
    rfl

/-- What the tokens mean is settled by the pieces that they spell. -/
theorem Spells.essentials_eq {dialect : Dialect} {pieces : List Piece} {tokens : List Token}
    (h : Spells pieces tokens) (hgenuine : ∀ token ∈ tokens, token.Genuine dialect) :
    essentials tokens = pieces.filterMap fun piece =>
      (piece.kind? dialect).bind TokenKind.essential? := by
  induction pieces generalizing tokens with
  | nil => rw [show tokens = [] from h]; rfl
  | cons piece pieces ih =>
    obtain ⟨front, back, rfl, hpiece, hback⟩ := h
    have hfront := hpiece.essentials_eq fun token hmem =>
      hgenuine token (List.mem_append_left _ hmem)
    have hlater := ih hback fun token hmem => hgenuine token (List.mem_append_right _ hmem)
    rw [essentials_append, hfront, hlater, List.filterMap_cons]
    cases (piece.kind? dialect).bind TokenKind.essential? <;> rfl

end EdgeQuery
