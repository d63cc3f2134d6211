import EdgeQuery.Token.Lexeme

/-!
Units of time behind a number. Of two suffixes that stand at the front of one text, the shorter one
is always followed by a character of a name, so at most one is read, and the order in which the
suffixes are tried does not matter.
-/

namespace EdgeQuery.Lexeme

variable {text rest suffix : List Char} {unit : DurationUnit}

/-- The suffix stands at the front of the text, and no name goes on behind it. -/
def SuffixAt (suffix text : List Char) : Prop :=
  ∃ rest, text = suffix ++ rest ∧ ∀ c ∈ rest.head?, isNameChar c = false

/-- The unit suffix at the front of a text, if the suffixes are tried in the order of the table. -/
def unitIn? (table : List (List Char × DurationUnit)) (text : List Char) :
    Option (List Char × DurationUnit × List Char) :=
  table.findSome? fun (suffix, unit) =>
    match after? suffix text with
    | some rest => if endsName rest then some (suffix, unit, rest) else none
    | none => none

theorem unit?_eq_unitIn? (text : List Char) : unit? text = unitIn? DurationUnit.suffixes text := rfl

theorem after?_eq_some_iff {front : List Char} :
    after? front text = some rest ↔ text = front ++ rest := by
  constructor
  · exact fun h => (after?_append h).symm
  · rintro rfl
    induction front with
    | nil => rfl
    | cons c front ih => simpa [after?] using ih

theorem endsName_iff : endsName text = true ↔ ∀ c ∈ text.head?, isNameChar c = false := by
  cases text <;> simp [endsName]

/-- What ends a name ends it still when more text follows. -/
theorem endsName_of_append (h : endsName (text ++ rest) = true) : endsName text = true := by
  cases text with
  | nil => rfl
  | cons c text => exact h

/-- A suffix with which another one begins goes on with a character of a name. -/
theorem eq_of_begins :
    ∀ entry ∈ DurationUnit.suffixes, ∀ other ∈ DurationUnit.suffixes, entry.1 <+: other.1 →
      endsName (other.1.drop entry.1.length) = true → entry = other := by
  decide

theorem suffixAt_eq_of_begins {entry other : List Char × DurationUnit}
    (hentry : entry ∈ DurationUnit.suffixes) (hother : other ∈ DurationUnit.suffixes)
    (h : SuffixAt entry.1 text) (hsecond : SuffixAt other.1 text) (hbegins : entry.1 <+: other.1) :
    entry = other := by
  refine eq_of_begins entry hentry other hother hbegins ?_
  obtain ⟨rest, rfl, hends⟩ := h
  obtain ⟨behind, heq, -⟩ := hsecond
  obtain ⟨more, hmore⟩ := hbegins
  rw [← hmore, List.append_assoc, List.append_cancel_left_eq] at heq
  rw [← hmore, List.drop_left]
  rw [heq] at hends
  exact endsName_of_append (endsName_iff.mpr hends)

/-- At most one suffix can be read. -/
theorem suffixAt_unique {entry other : List Char × DurationUnit}
    (hentry : entry ∈ DurationUnit.suffixes) (hother : other ∈ DurationUnit.suffixes)
    (h : SuffixAt entry.1 text) (hsecond : SuffixAt other.1 text) : entry = other := by
  obtain ⟨rest, htext, -⟩ := id h
  obtain ⟨behind, hbehind, -⟩ := id hsecond
  rcases List.prefix_or_prefix_of_prefix ⟨rest, htext.symm⟩ ⟨behind, hbehind.symm⟩ with
    hbegins | hbegins
  · exact suffixAt_eq_of_begins hentry hother h hsecond hbegins
  · exact (suffixAt_eq_of_begins hother hentry hsecond h hbegins).symm

section Table

variable {table : List (List Char × DurationUnit)}

theorem mem_of_unitIn? (h : unitIn? table text = some (suffix, unit, rest)) :
    (suffix, unit) ∈ table ∧ text = suffix ++ rest ∧ endsName rest = true := by
  obtain ⟨entry, hmem, hfound⟩ := List.exists_of_findSome?_eq_some h
  dsimp only at hfound
  split at hfound
  · next behind hafter =>
    split at hfound
    · next hends =>
      simp only [Option.some.injEq, Prod.mk.injEq] at hfound
      obtain ⟨rfl, rfl, rfl⟩ := hfound
      exact ⟨hmem, after?_eq_some_iff.mp hafter, hends⟩
    · cases hfound
  · cases hfound

theorem unitIn?_isSome (hmem : (suffix, unit) ∈ table) (h : SuffixAt suffix text) :
    (unitIn? table text).isSome := by
  obtain ⟨rest, htext, hends⟩ := h
  rw [unitIn?, List.findSome?_isSome_iff]
  refine ⟨(suffix, unit), hmem, ?_⟩
  simp [after?_eq_some_iff.mpr htext, endsName_iff.mpr hends]

/-- With the suffixes in any order, the one is found that can be read. -/
theorem unitIn?_eq_some_iff (h : table.Perm DurationUnit.suffixes) :
    unitIn? table text = some (suffix, unit, rest) ↔
      (suffix, unit) ∈ DurationUnit.suffixes ∧ text = suffix ++ rest ∧
        ∀ c ∈ rest.head?, isNameChar c = false := by
  constructor
  · intro hfound
    obtain ⟨hmem, htext, hends⟩ := mem_of_unitIn? hfound
    exact ⟨h.mem_iff.mp hmem, htext, endsName_iff.mp hends⟩
  · rintro ⟨hmem, htext, hends⟩
    have hsome := unitIn?_isSome (h.mem_iff.mpr hmem) ⟨rest, htext, hends⟩
    obtain ⟨⟨other, kind, behind⟩, hfound⟩ := Option.isSome_iff_exists.mp hsome
    obtain ⟨hother, hbehind, hlast⟩ := mem_of_unitIn? hfound
    have hentry := suffixAt_unique hmem (h.mem_iff.mp hother) ⟨rest, htext, hends⟩
      ⟨behind, hbehind, endsName_iff.mp hlast⟩
    obtain ⟨rfl, rfl⟩ := Prod.mk.inj hentry
    rw [htext, List.append_cancel_left_eq] at hbehind
    rw [hfound, hbehind]

/-- The order of the suffixes does not matter. -/
theorem unitIn?_perm (h : table.Perm DurationUnit.suffixes) (text : List Char) :
    unitIn? table text = unit? text := by
  rw [unit?_eq_unitIn?]
  ext ⟨suffix, unit, rest⟩
  rw [unitIn?_eq_some_iff h, unitIn?_eq_some_iff (List.Perm.refl _)]

end Table

/-- The unit that is found. -/
theorem unit?_eq_some_iff :
    unit? text = some (suffix, unit, rest) ↔
      (suffix, unit) ∈ DurationUnit.suffixes ∧ text = suffix ++ rest ∧
        ∀ c ∈ rest.head?, isNameChar c = false :=
  unitIn?_eq_some_iff (List.Perm.refl _)

theorem unit?_eq_none_iff :
    unit? text = none ↔ ∀ entry ∈ DurationUnit.suffixes, ¬ SuffixAt entry.1 text := by
  constructor
  · rintro hnone ⟨suffix, unit⟩ hmem ⟨rest, htext, hends⟩
    rw [unit?_eq_some_iff.mpr ⟨hmem, htext, hends⟩] at hnone
    cases hnone
  · intro hnone
    cases hunit : unit? text with
    | none => rfl
    | some found =>
      obtain ⟨suffix, unit, rest⟩ := found
      obtain ⟨hmem, htext, hends⟩ := unit?_eq_some_iff.mp hunit
      exact absurd ⟨rest, htext, hends⟩ (hnone (suffix, unit) hmem)

end EdgeQuery.Lexeme
