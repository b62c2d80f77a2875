/-
Durations as a Rust standard library has them: whole numbers of nanoseconds
whose seconds fit in 64 bits.

Floating-point factors are read as exact rationals: what is left of their
arithmetic is the rounding to nanoseconds and the failure of a product outside
the representable range.
-/
import Mathlib

/-- A `Duration`, in nanoseconds. -/
abbrev Duration := ℕ

namespace Duration

def nanosPerSec : ℕ := 10 ^ 9

/-- One past the longest duration. -/
def limit : ℕ := 2 ^ 64 * nanosPerSec

/-- `Duration::from_secs` -/
def fromSecs (secs : ℕ) : Duration := secs * nanosPerSec

/-- `as_secs` -/
def asSecs (d : Duration) : ℕ := d / nanosPerSec

/-- `as_millis` -/
def asMillis (d : Duration) : ℕ := d / 10 ^ 6

/-- To the nearest integer, ties to the even one. -/
def roundHalfEven (q : ℚ) : ℤ :=
  let below := ⌊q⌋
  if q - below < 1 / 2 then below
  else if 1 / 2 < q - below then below + 1
  else if below % 2 = 0 then below
  else below + 1

/-- `mul_f64`; `none` where it panics. -/
def mulF64 (d : Duration) (factor : ℚ) : Option Duration :=
  let nanos := roundHalfEven (factor * d)
  if 0 ≤ nanos ∧ nanos < limit then some nanos.toNat else none

theorem le_roundHalfEven {n : ℤ} {q : ℚ} (h : (n : ℚ) ≤ q) : n ≤ roundHalfEven q := by
  have hfloor : n ≤ ⌊q⌋ := Int.le_floor.2 h
  unfold roundHalfEven
  simp only
  split
  · exact hfloor
  · split
    · omega
    · split
      · exact hfloor
      · omega

/-- Below an even number by more than half: rounded below it. -/
theorem roundHalfEven_lt {n : ℤ} {q : ℚ} (h : q < n - 1 / 2) : roundHalfEven q < n := by
  have hlt : ⌊q⌋ < n := Int.floor_lt.2 (by linarith)
  unfold roundHalfEven
  simp only
  split
  · exact hlt
  · next hge =>
    have hle : (⌊q⌋ : ℚ) + 1 < n := by
      have : (⌊q⌋ : ℚ) + 1 / 2 ≤ q := by linarith
      linarith
    have hle : ⌊q⌋ + 1 < n := by exact_mod_cast hle
    split
    · exact hle
    · split <;> omega

/-- At least half below an even number: rounded to it or above. -/
theorem le_roundHalfEven_of_half {n : ℤ} (hn : n % 2 = 0) {q : ℚ} (h : n - 1 / 2 ≤ q) : n ≤ roundHalfEven q := by
  by_cases hq : (n : ℚ) ≤ q
  · exact le_roundHalfEven hq
  · have hfloor : ⌊q⌋ = n - 1 := by
      rw [Int.floor_eq_iff]
      push_cast
      constructor <;> linarith
    unfold roundHalfEven
    simp only [hfloor]
    rw [if_neg (by push_cast; linarith)]
    split
    · omega
    · rw [if_neg (by omega)]
      omega

/-- Rounding goes up by at most a half. -/
theorem roundHalfEven_le (q : ℚ) : (roundHalfEven q : ℚ) ≤ q + 1 / 2 := by
  have hfloor := Int.floor_le q
  unfold roundHalfEven
  simp only
  split
  · linarith
  · next hge =>
    split
    · push_cast
      linarith
    · split
      · linarith
      · push_cast
        linarith

/-- **When a product is a duration**: exactly when it rounds into the representable range. -/
theorem mulF64_eq_none {d : Duration} {factor : ℚ} (hf : 0 ≤ factor) :
    mulF64 d factor = none ↔ (limit : ℚ) - 1 / 2 ≤ factor * d := by
  have hnonneg : 0 ≤ roundHalfEven (factor * d) := le_roundHalfEven (by push_cast; positivity)
  unfold mulF64
  simp only [hnonneg, true_and]
  constructor
  · intro h
    by_contra hlt
    push Not at hlt
    have : roundHalfEven (factor * d) < (limit : ℤ) := roundHalfEven_lt (by exact_mod_cast hlt)
    simp [this] at h
  · intro h
    have : (limit : ℤ) ≤ roundHalfEven (factor * d) :=
      le_roundHalfEven_of_half (by decide) (by exact_mod_cast h)
    simp [not_lt.2 this]

/-- A factor of at least one does not shorten. -/
theorem le_of_mulF64 {d product : Duration} {factor : ℚ} (hf : 1 ≤ factor) (h : mulF64 d factor = some product) :
    d ≤ product := by
  have hd : (d : ℚ) ≤ factor * d := by
    have : (0 : ℚ) ≤ d := by positivity
    nlinarith
  have hle : (d : ℤ) ≤ roundHalfEven (factor * d) := le_roundHalfEven (by exact_mod_cast hd)
  unfold mulF64 at h
  simp only at h
  split at h
  · next hrange =>
    obtain rfl := Option.some.inj h
    exact (Int.le_toNat hrange.1).2 hle
  · cases h

/-- A product is within half a nanosecond of the exact one. -/
theorem mulF64_le {d product : Duration} {factor : ℚ} (h : mulF64 d factor = some product) :
    (product : ℚ) ≤ factor * d + 1 / 2 := by
  unfold mulF64 at h
  simp only at h
  split at h
  · next hrange =>
    obtain rfl := Option.some.inj h
    have hcast : (((roundHalfEven (factor * d)).toNat : ℤ) : ℚ) = (roundHalfEven (factor * d) : ℚ) := by
      rw [Int.toNat_of_nonneg hrange.1]
    have hle := roundHalfEven_le (factor * d)
    push_cast at hcast
    linarith
  · cases h

end Duration
