import EdgeQuery.Proofs.Token.Origin
import EdgeQuery.Proofs.Token.Unit
import Mathlib

/-!
Numbers and durations. A run of digits is read as a whole, whatever its length: it is a number or,
with a unit of time behind it, a duration, unless its value does not fit into 64 bits.
-/

namespace EdgeQuery

/-- The value of a run of decimal digits, each counted by its place. -/
def decimal : List Char → Nat
  | [] => 0
  | c :: digits => (c.toNat - '0'.toNat) * 10 ^ digits.length + decimal digits

theorem ofDigitChars_eq (digits : List Char) (init : Nat) :
    Nat.ofDigitChars 10 digits init = init * 10 ^ digits.length + decimal digits := by
  induction digits generalizing init with
  | nil => simp [decimal]
  | cons c digits ih =>
    rw [Nat.ofDigitChars_cons, ih, decimal, List.length_cons]
    ring

namespace Lexeme

variable {c : Char} {digits rest : List Char}

theorem scan_digit (dialect : Dialect) (text : List Char) (h : c.isDigit) :
    scan dialect c text = number (c :: text) := by
  rw [scan, isDigit_not_isNameStart h, h]
  rfl

/-- What a run of digits is read as, up to the characters behind it. -/
theorem number_append_digits (hall : ∀ d ∈ digits, d.isDigit)
    (hstop : ∀ d ∈ rest.head?, d.isDigit = false) :
    number (digits ++ rest) =
      if decimal digits < 2 ^ 64 then
        match unit? rest with
        | some (suffix, unit, later) =>
          ⟨.duration ⟨UInt64.ofNat (decimal digits), unit⟩, digits ++ suffix, later⟩
        | none => ⟨.number (UInt64.ofNat (decimal digits)), digits, rest⟩
      else ⟨.error .numberOutOfRange, digits, rest⟩ := by
  obtain ⟨htake, hdrop⟩ := takeWhile_append_stop hall hstop
  have hvalue : Nat.ofDigitChars 10 digits 0 = decimal digits := by
    rw [ofDigitChars_eq, Nat.zero_mul, Nat.zero_add]
  have hsize : 2 ^ 64 = UInt64.size := rfl
  rw [hsize, number]
  simp only [htake, hdrop, hvalue]
  split
  · rcases unit? rest with _ | ⟨suffix, unit, later⟩ <;> simp only [UInt64.ofNatLT_eq_ofNat]
  · rfl

end Lexeme

/-- The token where a run of digits begins is read from there. -/
theorem Token.ReadFrom.number {dialect : Dialect} {offset : Nat} {digits rest : List Char}
    {token : Token} (h : token.ReadFrom dialect offset (digits ++ rest))
    (hdigits : digits ≠ [] ∧ ∀ c ∈ digits, c.isDigit) :
    token.kind = (Lexeme.number (digits ++ rest)).kind ∧
      token.span = ⟨offset, offset + width (Lexeme.number (digits ++ rest)).chars⟩ := by
  obtain ⟨hne, hall⟩ := hdigits
  obtain ⟨c, tail, rfl⟩ := List.exists_cons_of_ne_nil hne
  rw [List.cons_append] at h ⊢
  have hscan := Lexeme.scan_digit dialect (tail ++ rest) (hall c (by simp))
  cases h with
  | lexeme =>
    rw [hscan]
    exact ⟨rfl, rfl⟩
  | openComment _ hopen =>
    rw [(Lexeme.fronts_digits hall (tail ++ rest)).2] at hopen
    cases hopen

/-- A run of digits is a number of its value, or a duration where a unit of time stands behind it
and no name goes on there; from 2 ^ 64 on it is a fault. No two units can stand behind one run, so
the order in which they are tried does not matter. -/
theorem Scanner.number_or_duration {text : String} {dialect : Dialect} {token : Token}
    {front digits rest : List Char} (hmem : token ∈ (ofText text dialect).tokens.1)
    (htext : text.toList = front ++ (digits ++ rest)) (hstart : token.span.start = width front)
    (hdigits : digits ≠ [] ∧ ∀ c ∈ digits, c.isDigit)
    (hstop : ∀ c ∈ rest.head?, c.isDigit = false) :
    (2 ^ 64 ≤ decimal digits →
      token.kind = .error .numberOutOfRange ∧
        token.span = ⟨width front, width (front ++ digits)⟩) ∧
    (∀ entry ∈ DurationUnit.suffixes, ∀ other ∈ DurationUnit.suffixes,
      Lexeme.SuffixAt entry.1 rest → Lexeme.SuffixAt other.1 rest → entry = other) ∧
    (∀ table, table.Perm DurationUnit.suffixes →
      Lexeme.unitIn? table rest = Lexeme.unit? rest) ∧
    (decimal digits < 2 ^ 64 →
      (∀ suffix unit, (suffix, unit) ∈ DurationUnit.suffixes → Lexeme.SuffixAt suffix rest →
        token.kind = .duration ⟨UInt64.ofNat (decimal digits), unit⟩ ∧
          token.span = ⟨width front, width (front ++ digits ++ suffix)⟩) ∧
      ((∀ entry ∈ DurationUnit.suffixes, ¬ Lexeme.SuffixAt entry.1 rest) →
        token.kind = .number (UInt64.ofNat (decimal digits)) ∧
          token.span = ⟨width front, width (front ++ digits)⟩)) := by
  obtain ⟨hkind, hspan⟩ := (ofText_readFrom hmem htext hstart).number hdigits
  rw [Lexeme.number_append_digits hdigits.2 hstop] at hkind hspan
  refine ⟨fun hlarge => ?_, fun _ hentry _ hother => Lexeme.suffixAt_unique hentry hother,
    fun _ hperm => Lexeme.unitIn?_perm hperm rest, fun hsmall => ⟨?_, fun hnone => ?_⟩⟩
  · rw [if_neg (Nat.not_lt.mpr hlarge)] at hkind hspan
    exact ⟨hkind, by rw [hspan, width_append]⟩
  · rintro suffix unit hmem ⟨later, hrest, hlater⟩
    rw [if_pos hsmall, Lexeme.unit?_eq_some_iff.mpr ⟨hmem, hrest, hlater⟩] at hkind hspan
    exact ⟨hkind, by rw [hspan, List.append_assoc, width_append front]⟩
  · rw [if_pos hsmall, Lexeme.unit?_eq_none_iff.mpr hnone] at hkind hspan
    exact ⟨hkind, by rw [hspan, width_append]⟩

/-- Zeros in front count for nothing, and the micro sign takes two bytes. -/
theorem Scanner.number_or_duration_micro :
    let token : Token := ⟨.duration ⟨7, .microseconds⟩, "007µs", ⟨0, 6⟩⟩
    token ∈ (ofText "007µs;" .strict).tokens.1 ∧
      decimal ['0', '0', '7'] = 7 ∧
      token.kind = .duration ⟨UInt64.ofNat 7, .microseconds⟩ ∧
      token.span = ⟨0, width ['0', '0', '7', 'µ', 's']⟩ := by
  intro token
  have hmem : token ∈ (ofText "007µs;" .strict).tokens.1 := by
    have htokens : (ofText "007µs;" .strict).tokens.1 =
        [token, ⟨.symbol .semicolon, ";", ⟨6, 7⟩⟩, Token.atEnd 7] := by cbv
    rw [htokens]
    exact List.mem_cons_self
  have htext : "007µs;".toList = [] ++ (['0', '0', '7'] ++ ['µ', 's', ';']) := by rfl
  have hread := number_or_duration hmem htext rfl (by simp) (by simp)
  obtain ⟨hkind, hspan⟩ := (hread.2.2.2 (by decide)).1 ['µ', 's'] .microseconds (by decide)
    ⟨[';'], rfl, Lexeme.endsName_iff.mp rfl⟩
  exact ⟨hmem, by decide, hkind, hspan⟩

end EdgeQuery
