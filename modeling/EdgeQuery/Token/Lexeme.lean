import EdgeQuery.Dialect
import EdgeQuery.Token

/-!
The lexeme at the front of a text that begins with neither a blank nor a comment: which characters
belong to it, and what kind of token they are. Nothing is lost: the characters and the rest make up
the text again (`scan_append`).
-/

namespace EdgeQuery

/-- The characters of a token, its kind, and the text after it. -/
structure Lexeme where
  kind : TokenKind
  chars : List Char
  rest : List Char

namespace Lexeme

/-- Names are written in ASCII letters, digits and underscores. -/
def isNameChar (c : Char) : Bool :=
  c.isAlphanum || c == '_'

def isNameStart (c : Char) : Bool :=
  c.isAlpha || c == '_'

/-- A name or a keyword. -/
def word (dialect : Dialect) (text : List Char) : Lexeme :=
  let chars := text.takeWhile isNameChar
  let name := String.ofList chars
  let kind := match dialect.keyword? name with
    | some keyword => TokenKind.keyword keyword
    | none => TokenKind.identifier name
  ⟨kind, chars, text.dropWhile isNameChar⟩

/-- What follows `front` in `text`, if `text` begins with it. -/
def after? : List Char → List Char → Option (List Char)
  | [], text => some text
  | _ :: _, [] => none
  | c :: front, d :: text => if c = d then after? front text else none

/-- Whether a unit suffix may end before this text: no name goes on there. -/
def endsName (text : List Char) : Bool :=
  text.head?.all fun c => !isNameChar c

/-- The unit suffix at the front of a text, and what follows it. -/
def unit? (text : List Char) : Option (List Char × DurationUnit × List Char) :=
  DurationUnit.suffixes.findSome? fun (suffix, unit) =>
    match after? suffix text with
    | some rest => if endsName rest then some (suffix, unit, rest) else none
    | none => none

/-- A number, or a duration where a unit suffix follows directly. -/
def number (text : List Char) : Lexeme :=
  let digits := text.takeWhile Char.isDigit
  let rest := text.dropWhile Char.isDigit
  let value := Nat.ofDigitChars 10 digits 0
  if h : value < UInt64.size then
    match unit? rest with
    | some (suffix, unit, rest) =>
      ⟨.duration ⟨UInt64.ofNatLT value h, unit⟩, digits ++ suffix, rest⟩
    | none => ⟨.number (UInt64.ofNatLT value h), digits, rest⟩
  else ⟨.error .numberOutOfRange, digits, rest⟩

/-- A string between two `mark`s. There are no escapes: the next mark closes it. -/
def string (mark : Char) (text : List Char) : Lexeme :=
  let content := text.takeWhile (· != mark)
  match text.dropWhile (· != mark) with
  | [] => ⟨.error .unterminatedString, mark :: content, []⟩
  | _ :: rest => ⟨.string (String.ofList content), mark :: content ++ [mark], rest⟩

/-- A variable, whose dollar sign stands before `text`. -/
def variableName (text : List Char) : Lexeme :=
  if text.head?.any isNameStart then
    let name := text.takeWhile isNameChar
    ⟨.variable (String.ofList name), '$' :: name, text.dropWhile isNameChar⟩
  else ⟨.error (.invalidCharacter '$'), ['$'], text⟩

/-- A symbol, or a character that begins no token. -/
def symbol (c : Char) (text : List Char) : Lexeme :=
  match Symbol.longest? c text with
  | some s =>
    let chars := s.text.toList
    ⟨.symbol s, chars, text.drop (chars.length - 1)⟩
  | none => ⟨.error (.invalidCharacter c), [c], text⟩

/-- The lexeme that begins with `c`, when `text` follows. -/
def scan (dialect : Dialect) (c : Char) (text : List Char) : Lexeme :=
  if isNameStart c then word dialect (c :: text)
  else if c.isDigit then number (c :: text)
  else if c = '\'' ∨ c = '"' then string c text
  else if c = '$' then variableName text
  else symbol c text

theorem after?_append {front text rest : List Char} (h : after? front text = some rest) :
    front ++ rest = text := by
  fun_induction after? front text with
  | case1 text => simpa using h.symm
  | case2 => simp at h
  | case3 front d text ih => simp [ih h]
  | case4 => simp at h

theorem unit?_append {text suffix rest : List Char} {unit : DurationUnit}
    (h : unit? text = some (suffix, unit, rest)) : suffix ++ rest = text := by
  obtain ⟨⟨front, other⟩, _, hfound⟩ := List.exists_of_findSome?_eq_some h
  dsimp only at hfound
  split at hfound
  · next after hafter =>
    split at hfound
    · simp only [Option.some.injEq, Prod.mk.injEq] at hfound
      obtain ⟨rfl, rfl, rfl⟩ := hfound
      exact after?_append hafter
    · simp at hfound
  · simp at hfound

theorem word_append (dialect : Dialect) (text : List Char) :
    (word dialect text).chars ++ (word dialect text).rest = text :=
  List.takeWhile_append_dropWhile

theorem number_append (text : List Char) : (number text).chars ++ (number text).rest = text := by
  unfold number
  dsimp only
  split
  · split
    · next hunit =>
      dsimp only
      rw [List.append_assoc, unit?_append hunit, List.takeWhile_append_dropWhile]
    · exact List.takeWhile_append_dropWhile
  · exact List.takeWhile_append_dropWhile

/-- The first mark closes a string. -/
theorem string_closed {mark : Char} {content : List Char} (rest : List Char)
    (h : mark ∉ content) :
    string mark (content ++ mark :: rest) =
      ⟨.string (String.ofList content), mark :: content ++ [mark], rest⟩ := by
  have hall : ∀ c ∈ content, (c != mark) = true := by
    intro c hc
    simpa using ne_of_mem_of_not_mem hc h
  simp [string, List.takeWhile_append_of_pos hall, List.dropWhile_append_of_pos hall]

theorem string_open {mark : Char} {text : List Char} (h : mark ∉ text) :
    string mark text = ⟨.error .unterminatedString, mark :: text, []⟩ := by
  have hall : ∀ c ∈ text, (c != mark) = true := by
    intro c hc
    simpa using ne_of_mem_of_not_mem hc h
  have htake : (text ++ []).takeWhile (· != mark) = text ++ [] :=
    List.takeWhile_append_of_pos hall
  have hdrop : (text ++ []).dropWhile (· != mark) = [] := List.dropWhile_append_of_pos hall
  rw [List.append_nil] at htake hdrop
  simp [string, htake, hdrop]

/-- A string is closed by the first mark, or there is none. -/
theorem string_cases (mark : Char) (text : List Char) :
    (∃ content rest, mark ∉ content ∧ text = content ++ mark :: rest ∧
      string mark text = ⟨.string (String.ofList content), mark :: content ++ [mark], rest⟩) ∨
    mark ∉ text ∧ string mark text = ⟨.error .unterminatedString, mark :: text, []⟩ := by
  by_cases hmem : mark ∈ text
  · obtain ⟨content, rest, rfl, hnot⟩ := List.eq_append_cons_of_mem hmem
    exact .inl ⟨content, rest, hnot, rfl, string_closed rest hnot⟩
  · exact .inr ⟨hmem, string_open hmem⟩

theorem string_append (mark : Char) (text : List Char) :
    (string mark text).chars ++ (string mark text).rest = mark :: text := by
  rcases string_cases mark text with ⟨content, rest, -, rfl, hstring⟩ | ⟨-, hstring⟩ <;>
    rw [hstring]
  · simp
  · exact List.append_nil _

theorem variableName_append (text : List Char) :
    (variableName text).chars ++ (variableName text).rest = '$' :: text := by
  unfold variableName
  split
  · simp [List.takeWhile_append_dropWhile]
  · rfl

theorem symbol_append (c : Char) (text : List Char) :
    (symbol c text).chars ++ (symbol c text).rest = c :: text := by
  unfold symbol
  split
  · next s hs =>
    unfold Symbol.longest? at hs
    split at hs <;> cases hs <;> rfl
  · rfl

theorem scan_append (dialect : Dialect) (c : Char) (text : List Char) :
    (scan dialect c text).chars ++ (scan dialect c text).rest = c :: text := by
  unfold scan
  split
  · exact word_append dialect (c :: text)
  split
  · exact number_append (c :: text)
  split
  · exact string_append c text
  split
  · next hc => rw [variableName_append, hc]
  · exact symbol_append c text

theorem isNameChar_of_isNameStart {c : Char} (h : isNameStart c) : isNameChar c := by
  simp only [isNameStart, isNameChar, Char.isAlphanum, Bool.or_eq_true] at *
  exact h.imp_left Or.inl

theorem chars_ne_nil (dialect : Dialect) (c : Char) (text : List Char) :
    (scan dialect c text).chars ≠ [] := by
  unfold scan
  split
  · next hc => simp [word, isNameChar_of_isNameStart hc]
  split
  · next hc =>
    unfold number
    dsimp only
    split
    · split <;> simp [hc]
    · simp [hc]
  split
  · unfold string
    dsimp only
    split <;> simp
  split
  · unfold variableName
    split <;> simp
  · unfold symbol
    split
    · exact Symbol.text_ne_nil _
    · simp

/-- A lexeme takes at least one character. -/
theorem scan_rest_length (dialect : Dialect) (c : Char) (text : List Char) :
    (scan dialect c text).rest.length < (c :: text).length := by
  have hpos := List.length_pos_iff.mpr (chars_ne_nil dialect c text)
  have hsum := congrArg List.length (scan_append dialect c text)
  rw [List.length_append] at hsum
  omega

end Lexeme
end EdgeQuery
