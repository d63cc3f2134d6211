import EdgeQuery.Duration
import Mathlib

/-!
Durations in seconds and nanoseconds. The conversion is exact: no nanosecond is lost or made up, and
it fails only where the seconds need more than 64 bits. Its first step, the product of the count and
the unit, always fits into 128 bits, so the same conversion in words of fixed sizes fails nowhere
else. Of two counts of one unit that can be converted the smaller one is the shorter time, and a
count below one that can be converted can be converted, too.
-/

namespace EdgeQuery

section Words

variable {v w : Nat}

/-- The product of two words, unless it takes more bits than they have. -/
def product? (a b : BitVec w) : Option (BitVec w) :=
  if a.umulOverflow b then none else some (a * b)

/-- The number that a word holds as a word of `v` bits, unless it takes more. -/
def resized? (v : Nat) (a : BitVec w) : Option (BitVec v) :=
  if a.toNat < 2 ^ v then some (a.setWidth v) else none

theorem product?_eq_some_iff {a b c : BitVec w} :
    product? a b = some c ↔ c.toNat = a.toNat * b.toNat := by
  have hproduct : (a * b).toNat = a.toNat * b.toNat % 2 ^ w := BitVec.toNat_mul a b
  rw [product?, BitVec.umulOverflow]
  by_cases hfits : a.toNat * b.toNat < 2 ^ w
  · rw [Nat.mod_eq_of_lt hfits] at hproduct
    rw [if_neg (by simpa using hfits), Option.some.injEq, ← hproduct, BitVec.toNat_inj, eq_comm]
  · rw [if_pos (by simpa using hfits)]
    refine ⟨nofun, fun h => absurd c.isLt ?_⟩
    rwa [h]

theorem resized?_eq_some_iff {a : BitVec w} {c : BitVec v} :
    resized? v a = some c ↔ c.toNat = a.toNat := by
  have hresized : (a.setWidth v).toNat = a.toNat % 2 ^ v := BitVec.toNat_setWidth v a
  rw [resized?]
  by_cases hfits : a.toNat < 2 ^ v
  · rw [Nat.mod_eq_of_lt hfits] at hresized
    rw [if_pos hfits, Option.some.injEq, ← hresized, BitVec.toNat_inj, eq_comm]
  · rw [if_neg hfits]
    refine ⟨nofun, fun h => absurd c.isLt ?_⟩
    rwa [h]

end Words

namespace SecondsAndNanos

/-- The time comes before the other: by its seconds, or by its nanoseconds in the same second. -/
def Precedes (time other : SecondsAndNanos) : Prop :=
  time.seconds < other.seconds ∨ time.seconds = other.seconds ∧ time.nanos < other.nanos

/-- All of the time in nanoseconds. -/
def total (time : SecondsAndNanos) : Nat :=
  time.seconds.toNat * 1000000000 + time.nanos

variable {time other : SecondsAndNanos}

/-- Times that have less than a second in nanoseconds are in the order of their nanoseconds. -/
theorem precedes_iff (h : time.nanos < 1000000000) (hother : other.nanos < 1000000000) :
    time.Precedes other ↔ time.total < other.total := by
  rw [Precedes, total, total, UInt64.lt_iff_toNat_lt, ← UInt64.toNat_inj]
  omega

end SecondsAndNanos

theorem DurationUnit.nanos_pos (unit : DurationUnit) : 0 < unit.nanos := by
  cases unit <;> decide

namespace Duration

variable {duration : Duration} {time : SecondsAndNanos}

/-- The time in nanoseconds in a word of 128 bits. -/
def nanosWord? (duration : Duration) : Option (BitVec 128) :=
  product? (duration.value.toBitVec.setWidth 128) (BitVec.ofNat 128 duration.unit.nanos)

/-- The conversion to seconds and nanoseconds in words of 128, 64 and 32 bits. -/
def wordSeconds? (duration : Duration) : Option SecondsAndNanos := do
  let total ← duration.nanosWord?
  let seconds ← resized? 64 (total / 1000000000#128)
  let nanos ← resized? 32 (total % 1000000000#128)
  return ⟨⟨seconds⟩, nanos.toNat⟩

/-- Even the most years are less than 2 ^ 128 nanoseconds. -/
theorem totalNanos_lt (duration : Duration) : duration.totalNanos < 2 ^ 128 := by
  have hunit : duration.unit.nanos ≤ 2 ^ 64 := by cases duration.unit <;> decide
  calc duration.totalNanos ≤ duration.value.toNat * 2 ^ 64 := Nat.mul_le_mul_left _ hunit
    _ < 2 ^ 64 * 2 ^ 64 := Nat.mul_lt_mul_of_pos_right duration.value.toNat_lt (by decide)

/-- The product of the count and the unit does not overflow. -/
theorem exists_nanosWord (duration : Duration) :
    ∃ total, duration.nanosWord? = some total ∧ total.toNat = duration.totalNanos := by
  have hvalue : (duration.value.toBitVec.setWidth 128).toNat = duration.value.toNat := by
    rw [BitVec.toNat_setWidth]
    exact Nat.mod_eq_of_lt (Nat.lt_trans duration.value.toNat_lt (by decide))
  have hunit : (BitVec.ofNat 128 duration.unit.nanos).toNat = duration.unit.nanos := by
    cases duration.unit <;> rfl
  have htotal : (BitVec.ofNat 128 duration.totalNanos).toNat = duration.totalNanos := by
    rw [BitVec.toNat_ofNat]
    exact Nat.mod_eq_of_lt duration.totalNanos_lt
  refine ⟨BitVec.ofNat 128 duration.totalNanos, product?_eq_some_iff.mpr ?_, htotal⟩
  rw [hvalue, hunit, htotal]
  rfl

/-- The time that a duration is converted to is as long as the duration, and no other is. -/
theorem toSeconds?_eq_some_iff :
    duration.toSeconds? = some time ↔
      time.nanos < 1000000000 ∧ time.total = duration.totalNanos := by
  obtain ⟨seconds, nanos⟩ := time
  rw [SecondsAndNanos.total, toSeconds?]
  dsimp only
  constructor
  · intro h
    split at h
    · simp only [Option.some.injEq, SecondsAndNanos.mk.injEq] at h
      obtain ⟨rfl, rfl⟩ := h
      rw [UInt64.toNat_ofNatLT]
      omega
    · cases h
  · rintro ⟨hnanos, htotal⟩
    have hseconds : duration.totalNanos / 1000000000 = seconds.toNat := by omega
    have hrest : duration.totalNanos % 1000000000 = nanos := by omega
    rw [dif_pos (hseconds ▸ seconds.toNat_lt)]
    simp only [hseconds, hrest, UInt64.ofNatLT_toNat]

/-- In words of fixed sizes the conversion comes to the same. -/
theorem wordSeconds?_eq (duration : Duration) :
    duration.wordSeconds? = duration.toSeconds? := by
  obtain ⟨total, htotal, hvalue⟩ := duration.exists_nanosWord
  have hdiv : (total / 1000000000#128).toNat = duration.totalNanos / 1000000000 := by
    rw [BitVec.toNat_udiv, hvalue]
    rfl
  have hmod : (total % 1000000000#128).toNat = duration.totalNanos % 1000000000 := by
    rw [BitVec.toNat_umod, hvalue]
    rfl
  ext ⟨time, rest⟩
  simp only [wordSeconds?, htotal, Option.bind_eq_bind, Option.bind_some, Option.bind_eq_some_iff,
    resized?_eq_some_iff, hdiv, hmod, toSeconds?_eq_some_iff]
  constructor
  · rintro ⟨seconds, hseconds, nanos, hnanos, ⟨⟩⟩
    have htime : (UInt64.ofBitVec seconds).toNat = duration.totalNanos / 1000000000 := hseconds
    rw [SecondsAndNanos.total, htime, hnanos]
    dsimp only
    omega
  · rintro ⟨hrest, htime⟩
    have hword : (BitVec.ofNat 32 rest).toNat = rest := by
      rw [BitVec.toNat_ofNat]
      exact Nat.mod_eq_of_lt (Nat.lt_trans hrest (by decide))
    dsimp only [SecondsAndNanos.total] at hrest htime
    refine ⟨time.toBitVec, ?_, BitVec.ofNat 32 rest, ?_, by rw [hword]; rfl⟩
    · show time.toNat = _
      omega
    · rw [hword]
      omega

/-- Only where the seconds take more than 64 bits there is no time to convert to. -/
theorem toSeconds?_eq_none_iff :
    duration.toSeconds? = none ↔ 2 ^ 64 ≤ duration.totalNanos / 1000000000 := by
  rw [toSeconds?]
  split
  · next h => exact iff_of_false nofun (Nat.not_le.mpr h)
  · next h => exact iff_of_true rfl (Nat.not_lt.mp h)

theorem toSeconds?_ne_none (h : duration.unit.nanos ≤ DurationUnit.seconds.nanos) :
    duration.toSeconds? ≠ none := by
  rw [Ne, toSeconds?_eq_none_iff, Nat.not_le]
  calc duration.totalNanos / 1000000000
      ≤ duration.value.toNat * 1000000000 / 1000000000 :=
        Nat.div_le_div_right (Nat.mul_le_mul_left _ h)
    _ = duration.value.toNat := Nat.mul_div_cancel _ (by decide)
    _ < 2 ^ 64 := duration.value.toNat_lt

theorem totalNanos_lt_totalNanos (unit : DurationUnit) {fewer more : UInt64} (h : fewer < more) :
    (Duration.mk fewer unit).totalNanos < (Duration.mk more unit).totalNanos :=
  Nat.mul_lt_mul_of_pos_right (UInt64.lt_iff_toNat_lt.mp h) unit.nanos_pos

/-- Fewer of one unit are converted where more of it are, and to an earlier time. -/
theorem exists_toSeconds?_of_lt {unit : DurationUnit} {fewer more : UInt64} (hlt : fewer < more)
    {later : SecondsAndNanos} (h : (Duration.mk more unit).toSeconds? = some later) :
    ∃ time, (Duration.mk fewer unit).toSeconds? = some time ∧ time.Precedes later := by
  have htotal := totalNanos_lt_totalNanos unit hlt
  have hsome : (Duration.mk fewer unit).toSeconds? ≠ none := by
    intro hnone
    have hle := Nat.div_le_div_right (c := 1000000000) (Nat.le_of_lt htotal)
    rw [toSeconds?_eq_none_iff.mpr (Nat.le_trans (toSeconds?_eq_none_iff.mp hnone) hle)] at h
    cases h
  obtain ⟨time, htime⟩ := Option.ne_none_iff_exists'.mp hsome
  obtain ⟨hnanos, heq⟩ := toSeconds?_eq_some_iff.mp htime
  obtain ⟨hlater, heq'⟩ := toSeconds?_eq_some_iff.mp h
  refine ⟨time, htime, (SecondsAndNanos.precedes_iff hnanos hlater).mpr ?_⟩
  rwa [heq, heq']

/-- The product of the count and the unit fits into 128 bits. A duration is converted unless its
seconds need more than 64 bits, to the one time of less than a second in nanoseconds that is as long
as the duration; nothing up to a second per unit is too long. Of one unit, all counts up to some
number are converted, a smaller count to an earlier time. -/
theorem conversion_exact (duration : Duration) :
    (∃ total, duration.nanosWord? = some total ∧
      total.toNat = duration.value.toNat * duration.unit.nanos) ∧
    duration.wordSeconds? = duration.toSeconds? ∧
    (duration.toSeconds? = none ↔
      2 ^ 64 ≤ duration.value.toNat * duration.unit.nanos / 10 ^ 9) ∧
    (∀ time, duration.toSeconds? = some time ↔ time.nanos < 10 ^ 9 ∧
      time.seconds.toNat * 10 ^ 9 + time.nanos = duration.value.toNat * duration.unit.nanos) ∧
    (duration.unit.nanos ≤ DurationUnit.seconds.nanos → duration.toSeconds? ≠ none) ∧
    ∀ more later, duration.value < more →
      (Duration.mk more duration.unit).toSeconds? = some later →
      ∃ time, duration.toSeconds? = some time ∧ time.Precedes later :=
  ⟨duration.exists_nanosWord, duration.wordSeconds?_eq, toSeconds?_eq_none_iff,
    fun _ => toSeconds?_eq_some_iff, toSeconds?_ne_none,
    fun _ _ hlt h => exists_toSeconds?_of_lt hlt h⟩

/-- The most minutes that are converted, and one less of them; the most milliseconds of all. -/
theorem conversion_exact_longest :
    let duration : Duration := ⟨307445734561825859, .minutes⟩
    let later : SecondsAndNanos := ⟨18446744073709551600, 0⟩
    let short : Duration := ⟨18446744073709551615, .milliseconds⟩
    duration.value < 307445734561825860 ∧
      (Duration.mk 307445734561825860 .minutes).toSeconds? = some later ∧
      (∃ time, duration.toSeconds? = some time ∧ time.Precedes later) ∧
      short.unit.nanos ≤ DurationUnit.seconds.nanos ∧ short.toSeconds? ≠ none := by
  intro duration later short
  have hlt : duration.value < 307445734561825860 := by decide
  have hlater : (Duration.mk 307445734561825860 .minutes).toSeconds? = some later := by decide
  have hshort : short.unit.nanos ≤ DurationUnit.seconds.nanos := by decide
  obtain ⟨-, -, -, -, -, hfewer⟩ := conversion_exact duration
  obtain ⟨-, -, -, -, hsecond, -⟩ := conversion_exact short
  exact ⟨hlt, hlater, hfewer 307445734561825860 later hlt hlater, hshort, hsecond hshort⟩

-- One minute more is too long.
example : (Duration.mk 307445734561825861 .minutes).toSeconds? = none := by decide

end Duration
end EdgeQuery
