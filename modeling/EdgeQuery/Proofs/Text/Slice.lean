import EdgeQuery.Span

/-!
Parts of a text between byte offsets. Where offsets are out of order, beyond the end or inside a
character, there is no part between them: taking it would fail, and here it is `none`.
-/

namespace EdgeQuery.Text

/-- The part behind the offset. -/
def behind? : List Char → Nat → Option (List Char)
  | text, 0 => some text
  | [], _ + 1 => none
  | c :: text, offset + 1 =>
    if c.utf8Size ≤ offset + 1 then behind? text (offset + 1 - c.utf8Size) else none

/-- The part in front of the offset. -/
def before? : List Char → Nat → Option (List Char)
  | _, 0 => some []
  | [], _ + 1 => none
  | c :: text, offset + 1 =>
    if c.utf8Size ≤ offset + 1 then (before? text (offset + 1 - c.utf8Size)).map (c :: ·) else none

/-- The difference of two offsets, which must not be negative. -/
def sub? (offset less : Nat) : Option Nat :=
  if less ≤ offset then some (offset - less) else none

/-- The part between two offsets. -/
def slice? (text : List Char) (start stop : Nat) : Option (List Char) := do
  before? (← behind? text start) (← sub? stop start)

/-- Whether the offset lies between characters of the text, at the beginning or at the end. -/
def isBoundary (text : List Char) (offset : Nat) : Bool :=
  (behind? text offset).isSome

/-- The number of bytes behind the offset. -/
def remaining (text : List Char) (offset : Nat) : Nat :=
  width text - offset

/-- The offset lies between characters, and the rest is what stands behind it. -/
def Cut (text : List Char) (offset : Nat) (rest : List Char) : Prop :=
  ∃ front, text = front ++ rest ∧ offset = width front

variable {text chars front rest : List Char} {c : Char} {offset less : Nat}

theorem exists_width_succ (c : Char) (chars : List Char) : ∃ n, width (c :: chars) = n + 1 := by
  have hpos := c.utf8Size_pos
  exact ⟨width (c :: chars) - 1, by rw [width_cons]; omega⟩

theorem behind?_append (front rest : List Char) :
    behind? (front ++ rest) (width front) = some rest := by
  induction front with
  | nil => exact behind?.eq_1 rest
  | cons c front ih =>
    obtain ⟨n, hn⟩ := exists_width_succ c front
    have hsum : n + 1 = c.utf8Size + width front := by rw [← hn, width_cons]
    have hdiff : n + 1 - c.utf8Size = width front := by omega
    rw [hn, List.cons_append, behind?, if_pos (by omega), hdiff]
    exact ih

theorem before?_append (front rest : List Char) :
    before? (front ++ rest) (width front) = some front := by
  induction front with
  | nil => exact before?.eq_1 rest
  | cons c front ih =>
    obtain ⟨n, hn⟩ := exists_width_succ c front
    have hsum : n + 1 = c.utf8Size + width front := by rw [← hn, width_cons]
    have hdiff : n + 1 - c.utf8Size = width front := by omega
    rw [hn, List.cons_append, before?, if_pos (by omega), hdiff, ih]
    rfl

/-- Exactly at the offsets between characters there is something behind. -/
theorem behind?_eq_some_iff : behind? text offset = some rest ↔ Cut text offset rest := by
  constructor
  · intro h
    fun_induction behind? text offset with
    | case1 text => exact ⟨[], Option.some.inj h, rfl⟩
    | case2 offset => cases h
    | case3 c text offset hle ih =>
      obtain ⟨front, rfl, hwidth⟩ := ih h
      refine ⟨c :: front, rfl, ?_⟩
      rw [width_cons, ← hwidth]
      omega
    | case4 c text offset hlt => cases h
  · rintro ⟨front, rfl, rfl⟩
    exact behind?_append front rest

theorem before?_eq_some_iff :
    before? text offset = some front ↔ ∃ rest, text = front ++ rest ∧ offset = width front := by
  constructor
  · intro h
    fun_induction before? text offset generalizing front with
    | case1 text =>
      cases h
      exact ⟨text, rfl, rfl⟩
    | case2 offset => cases h
    | case3 c text offset hle ih =>
      obtain ⟨chars, hchars, rfl⟩ := Option.map_eq_some_iff.mp h
      obtain ⟨rest, rfl, hwidth⟩ := ih hchars
      refine ⟨rest, rfl, ?_⟩
      rw [width_cons, ← hwidth]
      omega
    | case4 c text offset hlt => cases h
  · rintro ⟨rest, rfl, rfl⟩
    exact before?_append front rest

theorem sub?_eq_some (h : less ≤ offset) : sub? offset less = some (offset - less) :=
  if_pos h

theorem sub?_add (less offset : Nat) : sub? (less + offset) less = some offset := by
  rw [sub?_eq_some (Nat.le_add_right less offset), Nat.add_sub_cancel_left]

theorem sub?_add_right (offset less : Nat) : sub? (offset + less) less = some offset := by
  rw [sub?_eq_some (Nat.le_add_left less offset), Nat.add_sub_cancel]

namespace Cut

theorem start (text : List Char) : Cut text 0 text :=
  ⟨[], rfl, rfl⟩

theorem behind (h : Cut text offset rest) : behind? text offset = some rest :=
  behind?_eq_some_iff.mpr h

theorem isBoundary (h : Cut text offset rest) : isBoundary text offset = true := by
  rw [Text.isBoundary, h.behind]
  rfl

/-- Behind some characters more, the offset lies between characters, too. -/
theorem skip (h : Cut text offset (chars ++ rest)) : Cut text (offset + width chars) rest := by
  obtain ⟨front, rfl, rfl⟩ := h
  exact ⟨front ++ chars, (List.append_assoc front chars rest).symm, (width_append front chars).symm⟩

theorem tail (h : Cut text offset (c :: rest)) : Cut text (offset + c.utf8Size) rest := by
  have hone : Cut text offset ([c] ++ rest) := h
  exact hone.skip

theorem width_eq (h : Cut text offset rest) : width text = offset + width rest := by
  obtain ⟨front, rfl, rfl⟩ := h
  exact width_append front rest

/-- Where fewer characters are left, there are fewer bytes. -/
theorem remaining_lt {later : Nat} {behind : List Char} (h : Cut text offset rest)
    (hlater : Cut text later behind) (hlength : behind.length < rest.length) :
    remaining text later < remaining text offset := by
  have hrest := h.width_eq
  have hbehind := hlater.width_eq
  have hlt : width behind < width rest := by
    obtain ⟨front, htext, -⟩ := h
    obtain ⟨longer, hlonger, -⟩ := hlater
    rcases List.append_eq_append_iff.mp (htext.symm.trans hlonger) with
      ⟨more, -, hmore⟩ | ⟨more, -, hmore⟩
    · cases more with
      | nil =>
        rw [hmore, List.nil_append] at hlength
        exact absurd hlength (Nat.lt_irrefl _)
      | cons c more =>
        have hpos := c.utf8Size_pos
        rw [hmore, width_append, width_cons]
        omega
    · rw [hmore, List.length_append] at hlength
      omega
  rw [remaining, remaining]
  omega

theorem remaining_tail (h : Cut text offset (c :: rest)) :
    remaining text (offset + c.utf8Size) < remaining text offset :=
  h.remaining_lt h.tail (Nat.lt_succ_self rest.length)

theorem slice (h : Cut text offset (chars ++ rest)) :
    slice? text offset (offset + width chars) = some chars := by
  have hbefore := before?_append chars rest
  simp only [slice?, h.behind, sub?_add, Option.bind_eq_bind, Option.bind_some, hbefore]

end Cut

/-- The part between two offsets is what stands there. -/
theorem slice?_eq_some_iff {start stop : Nat} :
    slice? text start stop = some chars ↔
      ∃ front back, text = front ++ chars ++ back ∧ start = width front ∧
        stop = width (front ++ chars) := by
  constructor
  · intro h
    obtain ⟨behind, hbehind, h⟩ := Option.bind_eq_some_iff.mp h
    obtain ⟨size, hsize, hbefore⟩ := Option.bind_eq_some_iff.mp h
    obtain ⟨front, rfl, rfl⟩ := behind?_eq_some_iff.mp hbehind
    obtain ⟨back, rfl, rfl⟩ := before?_eq_some_iff.mp hbefore
    refine ⟨front, back, (List.append_assoc front chars back).symm, rfl, ?_⟩
    rw [sub?] at hsize
    split at hsize
    · have hsize := Option.some.inj hsize
      rw [width_append]
      omega
    · cases hsize
  · rintro ⟨front, back, rfl, rfl, rfl⟩
    rw [width_append]
    have hcut : Cut (front ++ chars ++ back) (width front) (chars ++ back) :=
      ⟨front, List.append_assoc front chars back, rfl⟩
    exact hcut.slice

-- There is none that ends inside a character.
example : slice? ['a', 'é', 'b'] 1 2 = none := by decide

end EdgeQuery.Text
