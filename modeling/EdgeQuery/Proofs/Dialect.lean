import EdgeQuery.Proofs.Token.Place
import EdgeQuery.Query
import Mathlib

/-!
The two dialects read a text alike. They cut it into the same tokens and comments; a token is of
another kind in the relaxed dialect only where it is a name in the strict one that differs from a
keyword in the case of its letters, and there it is that keyword. A text without such a name is read
as the same tree, or with the same faults.
-/

namespace EdgeQuery

/-- The texts differ in the case of ASCII letters at most. -/
def EqualsIgnoringCase (text other : String) : Prop :=
  text.toList.map Char.toLower = other.toList.map Char.toLower

instance (text other : String) : Decidable (EqualsIgnoringCase text other) :=
  inferInstanceAs (Decidable (_ = _))

namespace Keyword

theorem map_toUpper_text (keyword : Keyword) :
    keyword.text.toList.map Char.toUpper = keyword.text.toList := by
  cases keyword <;> decide

/-- A text in capitals is the keyword exactly if the text is the keyword but for the case. -/
theorem map_toUpper_eq_text_iff {text : String} {keyword : Keyword} :
    text.toList.map Char.toUpper = keyword.text.toList ↔ EqualsIgnoringCase text keyword.text := by
  unfold EqualsIgnoringCase
  constructor
  · intro h
    rw [← h, List.map_map]
    exact List.map_congr_left fun c _ => (Char.toLower_toUpper_eq_toLower c).symm
  · intro h
    have hupper (chars : List Char) :
        chars.map Char.toUpper = (chars.map Char.toLower).map Char.toUpper := by
      rw [List.map_map]
      exact List.map_congr_left fun c _ => (Char.toUpper_toLower_eq_toUpper c).symm
    rw [hupper, h, ← hupper, map_toUpper_text]

/-- What is looked up without regard to case is the one keyword that the text is but for the
case. -/
theorem ofTextAnyCase?_eq_some_iff {text : String} {keyword : Keyword} :
    ofTextAnyCase? text = some keyword ↔ EqualsIgnoringCase text keyword.text := by
  rw [← map_toUpper_eq_text_iff]
  constructor
  · intro h
    have hfound := List.find?_some h
    exact (by simpa using hfound : keyword.text.toList = _).symm
  · intro h
    have hself := ofTextAnyCase?_text keyword
    rwa [ofTextAnyCase?, map_toUpper_text, ← h] at hself

end Keyword

/-- A name of the strict dialect is a keyword in the relaxed one if it is one but for the case. What
is a keyword in any dialect is one in the relaxed dialect. -/
def TokenKind.relaxed : TokenKind → TokenKind
  | .identifier name => Dialect.relaxed.wordKind name
  | kind => kind

def Lexeme.relaxed (lexeme : Lexeme) : Lexeme :=
  { lexeme with kind := lexeme.kind.relaxed }

def Token.relaxed (token : Token) : Token :=
  { token with kind := token.kind.relaxed }

def Scanner.relaxed (scanner : Scanner) : Scanner :=
  { scanner with dialect := .relaxed }

section Steps

variable (dialect : Dialect)

theorem Dialect.relaxed_wordKind (name : String) :
    (dialect.wordKind name).relaxed = Dialect.relaxed.wordKind name := by
  have hrelaxed (k : Keyword) (h : dialect.keyword? name = some k) :
      Dialect.relaxed.keyword? name = some k := by
    cases dialect with
    | strict =>
      rw [← Keyword.text_of_ofText? h]
      exact Keyword.ofTextAnyCase?_text k
    | relaxed => exact h
  cases h : dialect.keyword? name with
  | none =>
    rw [wordKind, h]
    rfl
  | some k =>
    rw [wordKind, wordKind, h, hrelaxed k h]
    rfl

/-- Whatever the dialect, the relaxed one reads the same characters as a token. -/
theorem Lexeme.scan_relaxed (c : Char) (text : List Char) :
    scan .relaxed c text = (scan dialect c text).relaxed := by
  unfold scan
  split
  · show Lexeme.mk _ _ _ = Lexeme.mk _ _ _
    congr 1
    exact (dialect.relaxed_wordKind _).symm
  split
  · unfold number
    dsimp only
    split
    · split <;> rfl
    · rfl
  split
  · unfold string
    dsimp only
    split <;> rfl
  split
  · unfold variableName
    split <;> rfl
  · unfold symbol
    split <;> rfl

end Steps

theorem TokenKind.relaxed_eq_endOfInput {kind : TokenKind} :
    kind.relaxed = .endOfInput ↔ kind = .endOfInput := by
  cases kind with
  | identifier name =>
    simp only [relaxed, Dialect.wordKind]
    split <;> simp
  | _ => rfl

namespace Scanner

theorem handOut_relaxed (scanner : Scanner) (unclosed : Bool) :
    scanner.relaxed.handOut unclosed =
      ((scanner.handOut unclosed).1.relaxed, (scanner.handOut unclosed).2.relaxed) := by
  have hrest : scanner.relaxed.rest = scanner.rest := rfl
  unfold handOut
  rw [hrest]
  split
  · rfl
  · cases scanner.rest with
    | nil => rfl
    | cons c text =>
      dsimp only
      rw [show scanner.relaxed.dialect = .relaxed from rfl,
        Lexeme.scan_relaxed scanner.dialect c text]
      rfl

/-- One step: the same characters are passed, and only the kind of the token may change. -/
theorem next_relaxed (scanner : Scanner) :
    scanner.relaxed.next = (scanner.next.1.relaxed, scanner.next.2.relaxed) :=
  handOut_relaxed scanner.pastGap _

/-- All steps, by induction on the tokens. -/
theorem tokens_relaxed (scanner : Scanner) :
    scanner.relaxed.tokens = (scanner.tokens.1.map Token.relaxed, scanner.tokens.2.relaxed) :=
  tokens_map (fun _ => TokenKind.relaxed_eq_endOfInput) next_relaxed scanner

end Scanner

/-- In the strict dialect the token is a name that is the keyword but for the case. -/
def Token.Resembles (token : Token) (keyword : Keyword) : Prop :=
  ∃ name, token.kind = .identifier name ∧ EqualsIgnoringCase name keyword.text

/-- The other token is what the relaxed dialect makes of a token of the strict one. -/
structure Token.Relaxes (token other : Token) : Prop where
  span_eq : other.span = token.span
  text_eq : other.text = token.text
  keyword : ∀ k, token.Resembles k → other.kind = .keyword k
  kind_eq : (∀ k, ¬ token.Resembles k) → other.kind = token.kind

theorem Token.relaxes_relaxed (token : Token) : token.Relaxes token.relaxed where
  span_eq := rfl
  text_eq := rfl
  keyword := by
    rintro k ⟨name, hkind, hname⟩
    have hfound : Dialect.relaxed.keyword? name = some k :=
      Keyword.ofTextAnyCase?_eq_some_iff.mpr hname
    rw [relaxed, hkind]
    show Dialect.relaxed.wordKind name = _
    rw [Dialect.wordKind, hfound]
  kind_eq := by
    intro h
    cases hkind : token.kind with
    | identifier name =>
      have hnone : Dialect.relaxed.keyword? name = none := by
        refine Option.eq_none_iff_forall_ne_some.mpr fun k hfound => h k ⟨name, hkind, ?_⟩
        exact Keyword.ofTextAnyCase?_eq_some_iff.mp hfound
      rw [relaxed, hkind]
      show Dialect.relaxed.wordKind name = _
      rw [Dialect.wordKind, hnone]
    | _ =>
      rw [relaxed, hkind]
      rfl

theorem Token.relaxed_eq_self {token : Token} (h : ∀ k, ¬ token.Resembles k) :
    token.relaxed = token :=
  congrArg (fun kind => { token with kind := kind }) (token.relaxes_relaxed.kind_eq h)

/-- Without a name that is a keyword but for the case, a text has the same tokens in both
dialects. -/
theorem Scanner.tokens_relaxed_eq_self {scanner : Scanner}
    (h : ∀ token ∈ scanner.tokens.1, ∀ k, ¬ token.Resembles k) :
    scanner.relaxed.tokens = (scanner.tokens.1, scanner.tokens.2.relaxed) := by
  have hsame : scanner.tokens.1.map Token.relaxed = scanner.tokens.1.map id :=
    List.map_congr_left fun token hmem => Token.relaxed_eq_self (h token hmem)
  rw [tokens_relaxed, hsame, List.map_id]

/-- A parser cannot tell the dialects apart by a text without such names. -/
theorem Cursor.ofText_relaxed {text : String} (limit : Nat)
    (h : ∀ token ∈ (Scanner.ofText text .strict).tokens.1, ∀ k, ¬ token.Resembles k) :
    ofText text .relaxed limit = ofText text .strict limit := by
  have htokens : (Scanner.ofText text .relaxed).tokens = _ := Scanner.tokens_relaxed_eq_self h
  rw [ofText, htokens]
  rfl

/-- The dialects differ in the names that are keywords but for the case. In both a text has as many
tokens with the same spans, and the same comments; the kind of a token is another one exactly where
it is such a name in the strict dialect, and there it is the keyword in the relaxed one. Without
such names, every reader comes to the same. -/
theorem dialects_agree (text : String) :
    let strict := (Scanner.ofText text .strict).tokens
    let relaxed := (Scanner.ofText text .relaxed).tokens
    List.Forall₂ Token.Relaxes strict.1 relaxed.1 ∧
      relaxed.2.comments = strict.2.comments ∧
      ((∀ token ∈ strict.1, ∀ k, ¬ token.Resembles k) →
        SourceFile.ofText text .relaxed = SourceFile.ofText text .strict ∧
          SourceFile.recoverText text .relaxed = SourceFile.recoverText text .strict ∧
          Statement.ofText text .relaxed = Statement.ofText text .strict ∧
          Expr.ofText text .relaxed = Expr.ofText text .strict) := by
  intro strict relaxed
  have htokens : relaxed = (strict.1.map Token.relaxed, strict.2.relaxed) :=
    Scanner.tokens_relaxed (Scanner.ofText text .strict)
  refine ⟨?_, ?_, fun hnone => ?_⟩
  · rw [htokens, List.forall₂_map_right_iff]
    exact List.forall₂_same.mpr fun token _ => token.relaxes_relaxed
  · rw [htokens]
    rfl
  · have hcursor := Cursor.ofText_relaxed nestingLimit hnone
    have hrun {α : Type} (parser : Parse α) :
        parser.run text .relaxed nestingLimit = parser.run text .strict nestingLimit := by
      rw [Parse.run, Parse.run, hcursor]
    refine ⟨hrun _, ?_, hrun _, hrun _⟩
    rw [SourceFile.recoverText, SourceFile.recoverText, hcursor]

set_option maxRecDepth 8192 in
/-- A name that only begins like a keyword resembles none, and what stands in a comment does not
matter. -/
theorem dialects_agree_ordered :
    let text := "CREATE ordered # order"
    (∀ token ∈ (Scanner.ofText text .strict).tokens.1, ∀ k, ¬ token.Resembles k) ∧
      SourceFile.ofText text .relaxed = SourceFile.ofText text .strict ∧
      SourceFile.recoverText text .relaxed = SourceFile.recoverText text .strict ∧
      Statement.ofText text .relaxed = Statement.ofText text .strict ∧
      Expr.ofText text .relaxed = Expr.ofText text .strict := by
  intro text
  have htokens : (Scanner.ofText text .strict).tokens.1 =
      [⟨.keyword .CREATE, "CREATE", ⟨0, 6⟩⟩, ⟨.identifier "ordered", "ordered", ⟨7, 14⟩⟩,
        Token.atEnd 22] := by cbv
  have hnone : ∀ token ∈ (Scanner.ofText text .strict).tokens.1, ∀ k, ¬ token.Resembles k := by
    rw [htokens]
    rintro token hmem k ⟨name, hkind, hname⟩
    have hfound := Keyword.ofTextAnyCase?_eq_some_iff.mpr hname
    simp only [List.mem_cons, List.not_mem_nil, or_false] at hmem
    rcases hmem with rfl | rfl | rfl <;> cases hkind
    have hfree : Keyword.ofTextAnyCase? "ordered" = none := by cbv
    rw [hfree] at hfound
    cases hfound
  exact ⟨hnone, (dialects_agree text).2.2 hnone⟩

-- The strict dialect has a name here, and the relaxed one the keyword.
example : Token.Resembles ⟨.identifier "Order", "Order", ⟨0, 5⟩⟩ .ORDER := ⟨"Order", rfl, by decide⟩

end EdgeQuery
