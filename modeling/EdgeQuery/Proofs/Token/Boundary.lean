import EdgeQuery.Piece
import EdgeQuery.Proofs.Token.Genuine
import EdgeQuery.Proofs.Token.Unit

/-!
Where the tokens of a canonical text end. A piece is read back as the token it was written for as
long as the text behind it cannot be taken for a part of it.
-/

namespace EdgeQuery

/-- How the dialect reads a name. -/
def Dialect.wordKind (dialect : Dialect) (name : String) : TokenKind :=
  match dialect.keyword? name with
  | some k => .keyword k
  | none => .identifier name

/-- Whether the symbol is over before the character: the two make up no longer symbol, and they
begin no comment. -/
def Symbol.stopsAt : Symbol → Char → Bool
  | colon, c => c != ':'
  | minus, c => c != '>' && c != '-'
  | less, c => c != '=' && c != '-'
  | greater, c => c != '='
  | slash, c => c != '/' && c != '*'
  | _, _ => true

namespace Piece

/-- The kind of the token that a piece is read as; spaces, line ends and comments are no tokens. -/
def kind? (dialect : Dialect) : Piece → Option TokenKind
  | .symbol s => some (.symbol s)
  | .keyword k => some (.keyword k)
  | .word name => some (dialect.wordKind name)
  | .variable name => some (.variable name)
  | .number value => some (.number value)
  | .duration value => some (.duration value)
  | .string content => some (.string content)
  | .space | .lineEnd | .comment _ => none

/-- Whether the payload of a piece can be read back. -/
def Readable : Piece → Prop
  | .word name | .variable name => isName name
  | .string content => isQuotable content
  | .comment content => IsComment content.toList
  | _ => True

/-- Whether a name, a keyword, a number or a duration is over before the character: no name goes on
with it, and no unit of time begins with it. -/
def endsWord (c : Char) : Bool :=
  !Lexeme.isNameChar c && c != 'µ' && c != 'μ'

/-- Whether the piece is over before the character. -/
def stopsAt : Piece → Char → Bool
  | .symbol s, c => s.stopsAt c
  | .word _, c | .variable _, c | .keyword _, c | .number _, c | .duration _, c => endsWord c
  | .comment _, c => c == '\n'
  | .space, _ | .lineEnd, _ | .string _, _ => true

/-- Whether the piece is over before the text. -/
def StopsBefore (piece : Piece) (rest : List Char) : Prop :=
  ∀ c ∈ rest.head?, piece.stopsAt c

end Piece

theorem takeWhile_append_stop {α : Type} {p : α → Bool} {front rest : List α} (h : ∀ c ∈ front, p c)
    (hstop : ∀ c ∈ rest.head?, p c = false) :
    (front ++ rest).takeWhile p = front ∧ (front ++ rest).dropWhile p = rest := by
  rw [List.takeWhile_append_of_pos h, List.dropWhile_append_of_pos h]
  cases rest with
  | nil => simp
  | cons c rest =>
    have hc : p c = false := hstop c (by simp)
    simp [hc]

theorem isBlank_of_printable {c : Char} (hlow : 33 ≤ c.toNat) (hhigh : c.toNat ≤ 126) :
    Text.isBlank c = false := by
  rw [Bool.eq_false_iff]
  intro hblank
  simp only [Text.isBlank, Text.inRanges, List.any_eq_true, Text.CodeRange.contains,
    Bool.and_eq_true, decide_eq_true_eq] at hblank
  obtain ⟨range, hmem, hfirst, hlast⟩ := hblank
  have hout : ∀ range ∈ Text.blankRanges, range.last < 33 ∨ 126 < range.first := by decide
  have := hout range hmem
  omega

theorem CommentScan.scan_eq_noComment {c : Char} (text : List Char)
    (h : c ≠ '/' ∧ c ≠ '-' ∧ c ≠ '#') : scan (c :: text) = .noComment := by
  unfold scan
  split <;> simp_all

theorem CommentScan.exists_cons_of_isComment {chars : List Char} (h : IsComment chars) :
    ∃ c tail, chars = c :: tail ∧ Text.isBlank c = false := by
  rcases closed_cases h with ⟨body, front, rfl, -, -⟩ | ⟨opener, hopener, body, rfl, -⟩
  · exact ⟨'/', '*' :: body, rfl, by decide⟩
  · simp only [List.mem_cons, List.not_mem_nil, or_false] at hopener
    rcases hopener with rfl | rfl | rfl <;> exact ⟨_, _, rfl, by decide⟩

namespace Lexeme

theorem isNameStart_range {c : Char} (h : isNameStart c) : 65 ≤ c.toNat ∧ c.toNat ≤ 122 := by
  have h : ((decide ('A'.val ≤ c.val ∧ c.val ≤ 'Z'.val) ||
    (decide ('a'.val ≤ c.val) && decide (c.val ≤ 'z'.val))) || c == '_') = true := h
  simp only [Bool.or_eq_true, Bool.and_eq_true, decide_eq_true_eq, beq_iff_eq,
    UInt32.le_iff_toNat_le] at h
  rcases h with (⟨hlow, hhigh⟩ | ⟨hlow, hhigh⟩) | rfl
  · exact ⟨hlow, Nat.le_trans hhigh (by decide)⟩
  · exact ⟨Nat.le_trans (by decide) hlow, hhigh⟩
  · decide

theorem isDigit_range {c : Char} (h : c.isDigit) : 48 ≤ c.toNat ∧ c.toNat ≤ 57 := by
  exact Char.isDigit_iff_toNat.mp h

theorem isDigit_not_isNameStart {c : Char} (h : c.isDigit) : isNameStart c = false := by
  have hdigit := isDigit_range h
  rw [Bool.eq_false_iff]
  intro hstart
  have := isNameStart_range hstart
  omega

theorem isNameChar_of_isDigit {c : Char} (h : c.isDigit) : isNameChar c := by
  simp [isNameChar, Char.isAlphanum, h]

/-- What a text has to be for the scanner to read exactly `chars` at its front as a token. -/
def Fronts (dialect : Dialect) (kind : TokenKind) (chars rest : List Char) : Prop :=
  ∃ c tail, chars = c :: tail ∧ Text.isBlank c = false ∧
    CommentScan.scan (chars ++ rest) = .noComment ∧
    scan dialect c (tail ++ rest) = ⟨kind, chars, rest⟩

theorem endsWord_not_isNameChar {rest : List Char} (h : ∀ c ∈ rest.head?, Piece.endsWord c) :
    ∀ c ∈ rest.head?, isNameChar c = false := by
  intro c hc
  have := h c hc
  simp only [Piece.endsWord, Bool.and_eq_true, Bool.not_eq_true'] at this
  exact this.1.1

/-- The characters of a name: one that begins names, and then more that go on with one. -/
theorem exists_cons_of_isName {name : String} (h : isName name) :
    ∃ c tail, name.toList = c :: tail ∧ isNameStart c ∧ ∀ d ∈ c :: tail, isNameChar d := by
  unfold isName at h
  split at h
  · cases h
  · next c tail htext =>
    rw [Bool.and_eq_true] at h
    obtain ⟨hstart, htail⟩ := h
    refine ⟨c, tail, htext, hstart, ?_⟩
    intro d hd
    rcases List.mem_cons.mp hd with rfl | hd
    · exact isNameChar_of_isNameStart hstart
    · exact List.all_eq_true.mp htail d hd

theorem fronts_word {name : String} {rest : List Char} (dialect : Dialect) (hname : isName name)
    (hstop : ∀ c ∈ rest.head?, Piece.endsWord c) :
    Fronts dialect (dialect.wordKind name) name.toList rest := by
  obtain ⟨c, tail, htext, hstart, hall⟩ := exists_cons_of_isName hname
  obtain ⟨hlow, hhigh⟩ := isNameStart_range hstart
  obtain ⟨htake, hdrop⟩ := takeWhile_append_stop hall (endsWord_not_isNameChar hstop)
  have hback : String.ofList (c :: tail) = name := by rw [← htext, String.ofList_toList]
  rw [htext]
  refine ⟨c, tail, rfl, isBlank_of_printable (by omega) (by omega), ?_, ?_⟩
  · apply CommentScan.scan_eq_noComment
    refine ⟨?_, ?_, ?_⟩ <;> rintro rfl <;> simp at hlow
  · rw [scan, if_pos hstart, word]
    simp only [List.cons_append] at htake hdrop ⊢
    rw [htake, hdrop, hback]
    rfl

theorem fronts_variable {name : String} {rest : List Char} (dialect : Dialect)
    (hname : isName name) (hstop : ∀ c ∈ rest.head?, Piece.endsWord c) :
    Fronts dialect (.variable name) ('$' :: name.toList) rest := by
  obtain ⟨c, tail, htext, hstart, hall⟩ := exists_cons_of_isName hname
  obtain ⟨htake, hdrop⟩ := takeWhile_append_stop hall (endsWord_not_isNameChar hstop)
  have hback : String.ofList (c :: tail) = name := by rw [← htext, String.ofList_toList]
  have hhead : (c :: tail ++ rest).head?.any isNameStart = true := hstart
  rw [htext]
  refine ⟨'$', c :: tail, rfl, by decide, CommentScan.scan_eq_noComment _ (by decide), ?_⟩
  have hscan : scan dialect '$' (c :: tail ++ rest) = variableName (c :: tail ++ rest) := rfl
  rw [hscan, variableName, if_pos hhead]
  dsimp only
  rw [htake, hdrop, hback]

/-- The decimal digits of a number. -/
theorem exists_cons_of_toString (value : UInt64) :
    ∃ c tail, (toString value.toNat).toList = c :: tail ∧ (∀ d ∈ c :: tail, d.isDigit) ∧
      Nat.ofDigitChars 10 (c :: tail) 0 = value.toNat := by
  have hdigits : (toString value.toNat).toList = Nat.toDigits 10 value.toNat := by
    rw [Nat.toString_eq_ofList_toDigits, String.toList_ofList]
  rw [hdigits]
  cases htext : Nat.toDigits 10 value.toNat with
  | nil => exact absurd htext Nat.toDigits_ne_nil
  | cons c tail =>
    refine ⟨c, tail, rfl, ?_, ?_⟩
    · intro d hd
      exact Nat.isDigit_of_mem_toDigits (by decide) (by decide) (htext ▸ hd)
    · rw [← htext, Nat.ofDigitChars_ten_toDigits]

theorem not_isDigit_of_not_isNameChar {c : Char} (h : isNameChar c = false) : c.isDigit = false := by
  rw [Bool.eq_false_iff]
  intro hdigit
  rw [isNameChar_of_isDigit hdigit] at h
  cases h

/-- No unit of time begins where a word is over. -/
theorem unit?_eq_none {rest : List Char} (h : ∀ c ∈ rest.head?, Piece.endsWord c) :
    unit? rest = none := by
  rw [unit?_eq_none_iff]
  rintro ⟨suffix, unit⟩ hmem ⟨later, rfl, -⟩
  have hall : ∀ entry ∈ DurationUnit.suffixes,
      entry.1.head?.any (fun c => !Piece.endsWord c) = true := by decide
  have hfirst := hall _ hmem
  cases suffix with
  | nil => cases hfirst
  | cons c suffix => simp [h c rfl] at hfirst

/-- A unit of time is found where its own suffix stands and a word is over behind it. -/
theorem unit?_text (unit : DurationUnit) {rest : List Char}
    (h : ∀ c ∈ rest.head?, Piece.endsWord c) :
    unit? (unit.text.toList ++ rest) = some (unit.text.toList, unit, rest) :=
  unit?_eq_some_iff.mpr ⟨by cases unit <;> decide, rfl, endsWord_not_isNameChar h⟩

theorem scan_digits (dialect : Dialect) {value : UInt64} {c : Char} {tail rest : List Char}
    (hall : ∀ d ∈ c :: tail, d.isDigit) (hvalue : Nat.ofDigitChars 10 (c :: tail) 0 = value.toNat)
    (hstop : ∀ d ∈ rest.head?, d.isDigit = false) :
    scan dialect c (tail ++ rest) =
      match unit? rest with
      | some (suffix, unit, later) =>
        ⟨.duration ⟨value, unit⟩, c :: tail ++ suffix, later⟩
      | none => ⟨.number value, c :: tail, rest⟩ := by
  have hdigit := hall c (by simp)
  obtain ⟨htake, hdrop⟩ := takeWhile_append_stop hall hstop
  have hsize : Nat.ofDigitChars 10 (c :: tail) 0 < UInt64.size := by
    rw [hvalue]
    exact value.toNat_lt_size
  have hword : UInt64.ofNatLT (Nat.ofDigitChars 10 (c :: tail) 0) hsize = value := by
    simp only [hvalue]
    exact UInt64.ofNatLT_toNat value
  have hnumber : scan dialect c (tail ++ rest) = number (c :: tail ++ rest) := by
    rw [scan, isDigit_not_isNameStart hdigit, hdigit]
    rfl
  rw [hnumber, number]
  cases hunit : unit? rest <;> simp only [htake, hdrop, hunit, hsize, hword, dite_true]

theorem fronts_digits {c : Char} {tail : List Char} (h : ∀ d ∈ c :: tail, d.isDigit)
    (rest : List Char) :
    Text.isBlank c = false ∧ CommentScan.scan (c :: rest) = .noComment := by
  obtain ⟨hlow, hhigh⟩ := isDigit_range (h c (by simp))
  refine ⟨isBlank_of_printable (by omega) (by omega), CommentScan.scan_eq_noComment rest ?_⟩
  refine ⟨?_, ?_, ?_⟩ <;> rintro rfl <;> simp at hlow

theorem fronts_number {value : UInt64} {rest : List Char} (dialect : Dialect)
    (hstop : ∀ c ∈ rest.head?, Piece.endsWord c) :
    Fronts dialect (.number value) (toString value.toNat).toList rest := by
  obtain ⟨c, tail, htext, hall, hvalue⟩ := exists_cons_of_toString value
  obtain ⟨hblank, hcomment⟩ := fronts_digits hall (tail ++ rest)
  have hdigits : ∀ d ∈ rest.head?, d.isDigit = false :=
    fun d hd => not_isDigit_of_not_isNameChar (endsWord_not_isNameChar hstop d hd)
  rw [htext]
  refine ⟨c, tail, rfl, hblank, hcomment, ?_⟩
  rw [scan_digits dialect hall hvalue hdigits, unit?_eq_none hstop]

theorem fronts_duration {value : Duration} {rest : List Char} (dialect : Dialect)
    (hstop : ∀ c ∈ rest.head?, Piece.endsWord c) :
    Fronts dialect (.duration value) value.text.toList rest := by
  obtain ⟨c, tail, htext, hall, hvalue⟩ := exists_cons_of_toString value.value
  obtain ⟨hblank, hcomment⟩ := fronts_digits hall (tail ++ value.unit.text.toList ++ rest)
  have hdigits : ∀ d ∈ (value.unit.text.toList ++ rest).head?, d.isDigit = false := by
    cases value.unit <;> rintro d ⟨⟩ <;> decide
  have hchars : value.text.toList = c :: (tail ++ value.unit.text.toList) := by
    rw [Duration.text, String.toList_append, htext]
    rfl
  rw [hchars]
  refine ⟨c, tail ++ value.unit.text.toList, rfl, hblank, hcomment, ?_⟩
  rw [List.append_assoc, scan_digits dialect hall hvalue hdigits, unit?_text value.unit hstop]
  rfl

theorem fronts_string {content : String} {rest : List Char} (dialect : Dialect)
    (h : isQuotable content) :
    Fronts dialect (.string content) (Piece.string content).text.toList rest := by
  obtain ⟨mark, hmark, hquote, hnot⟩ : ∃ mark : Char, (mark = '\'' ∨ mark = '"') ∧
      Piece.quoteFor content = String.ofList [mark] ∧ mark ∉ content.toList := by
    by_cases hsingle : '\'' ∈ content.toList
    · have hdouble : '"' ∉ content.toList := by
        simpa [isQuotable, hsingle] using h
      exact ⟨'"', .inr rfl, by rw [Piece.quoteFor, if_pos hsingle], hdouble⟩
    · exact ⟨'\'', .inl rfl, by rw [Piece.quoteFor, if_neg hsingle], hsingle⟩
  have hchars : (Piece.string content).text.toList = mark :: (content.toList ++ [mark]) := by
    simp [Piece.text, hquote]
  have hscan : scan dialect mark (content.toList ++ [mark] ++ rest) =
      string mark (content.toList ++ mark :: rest) := by
    rw [List.append_assoc, List.singleton_append]
    rcases hmark with rfl | rfl <;> rfl
  rw [hchars]
  refine ⟨mark, content.toList ++ [mark], rfl, ?_, ?_, ?_⟩
  · rcases hmark with rfl | rfl <;> decide
  · apply CommentScan.scan_eq_noComment
    rcases hmark with rfl | rfl <;> decide
  · rw [hscan, string_closed rest hnot, String.ofList_toList]
    rfl

/-- The longest symbol at the front of a symbol's own text is that symbol, unless the text goes on
in a way that makes up a longer one. -/
theorem longest?_text {symbol : Symbol} {c : Char} {tail rest : List Char}
    (htext : symbol.text.toList = c :: tail)
    (hstop : ∀ d ∈ rest.head?, symbol.stopsAt d) :
    Symbol.longest? c (tail ++ rest) = some symbol := by
  rcases symbol with _ | _ | _ | _ | _ | _ | _ | _ | _ | _ | _ | _ | _ | d | d | d
  all_goals try cases d
  all_goals
    simp [Symbol.text] at htext
    obtain ⟨rfl, rfl⟩ := htext
    cases rest with
    | nil => rfl
    | cons d rest =>
      have hd := hstop d rfl
      simp_all [Symbol.stopsAt, Symbol.longest?]

theorem scan_symbol_noComment {symbol : Symbol} {rest : List Char}
    (hstop : ∀ c ∈ rest.head?, symbol.stopsAt c) :
    CommentScan.scan (symbol.text.toList ++ rest) = .noComment := by
  rcases symbol with _ | _ | _ | _ | _ | _ | _ | _ | _ | _ | _ | _ | _ | d | d | d
  all_goals try cases d
  all_goals
    cases rest with
    | nil => simp [Symbol.text, CommentScan.scan]
    | cons d rest =>
      have hd := hstop d rfl
      simp_all [Symbol.stopsAt, Symbol.text, CommentScan.scan]

/-- A symbol begins with a character that begins symbols only. -/
theorem exists_cons_of_symbol (symbol : Symbol) :
    ∃ c tail, symbol.text.toList = c :: tail ∧ Text.isBlank c = false ∧
      isNameStart c = false ∧ c.isDigit = false ∧ ¬(c = '\'' ∨ c = '"') ∧ c ≠ '$' := by
  rcases symbol with _ | _ | _ | _ | _ | _ | _ | _ | _ | _ | _ | _ | _ | d | d | d
  all_goals try cases d
  all_goals exact ⟨_, _, rfl, by decide, by decide, by decide, by decide, by decide⟩

theorem fronts_symbol {symbol : Symbol} {rest : List Char} (dialect : Dialect)
    (hstop : ∀ c ∈ rest.head?, symbol.stopsAt c) :
    Fronts dialect (.symbol symbol) symbol.text.toList rest := by
  have hcomment := scan_symbol_noComment hstop
  obtain ⟨c, tail, htext, hblank, hstart, hdigit, hquote, hdollar⟩ := exists_cons_of_symbol symbol
  have hlongest := longest?_text htext hstop
  have hdrop : (tail ++ rest).drop (symbol.text.toList.length - 1) = rest := by
    rw [htext, List.length_cons, Nat.add_sub_cancel, List.drop_left]
  refine ⟨c, tail, htext, hblank, hcomment, ?_⟩
  rw [scan, hstart, hdigit, if_neg hquote, if_neg hdollar, Lexeme.symbol, hlongest]
  simp only [hdrop]
  rfl

end Lexeme

/-- A piece is read as the token that it was written for. -/
theorem Piece.fronts {dialect : Dialect} {piece : Piece} {kind : TokenKind} {rest : List Char}
    (hkind : piece.kind? dialect = some kind) (hreadable : piece.Readable)
    (hstop : piece.StopsBefore rest) :
    Lexeme.Fronts dialect kind piece.text.toList rest := by
  cases piece with
  | symbol s =>
    obtain rfl := Option.some.inj hkind
    exact Lexeme.fronts_symbol dialect hstop
  | keyword k =>
    have hname : isName k.text := by cases k <;> decide
    have hword : dialect.wordKind k.text = .keyword k := by
      rw [Dialect.wordKind, dialect.keyword?_text]
    obtain rfl := Option.some.inj hkind
    rw [← hword]
    exact Lexeme.fronts_word dialect hname hstop
  | word name =>
    obtain rfl := Option.some.inj hkind
    exact Lexeme.fronts_word dialect hreadable hstop
  | «variable» name =>
    obtain rfl := Option.some.inj hkind
    rw [show (Piece.variable name).text.toList = '$' :: name.toList from String.toList_append]
    exact Lexeme.fronts_variable dialect hreadable hstop
  | number value =>
    obtain rfl := Option.some.inj hkind
    exact Lexeme.fronts_number dialect hstop
  | duration value =>
    obtain rfl := Option.some.inj hkind
    exact Lexeme.fronts_duration dialect hstop
  | string content =>
    obtain rfl := Option.some.inj hkind
    exact Lexeme.fronts_string dialect hreadable
  | space => cases hkind
  | lineEnd => cases hkind
  | comment content => cases hkind

end EdgeQuery
