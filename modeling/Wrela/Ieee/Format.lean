import Mathlib.Tactic
import Mathlib.Data.Nat.Log

/-!
# Binary floating-point formats

A word of a format is a sign, an exponent and a significand.  Every finite number of the format is a
whole number of units, the least positive number; it is read as a rational.
-/

namespace Wrela.Ieee

structure Format where
  mantissaBits : ℕ
  exponentBits : ℕ
  mantissa_pos : 0 < mantissaBits
  exponent_large : 1 < exponentBits

def binary32 : Format := ⟨23, 8, by decide, by decide⟩

def binary64 : Format := ⟨52, 11, by decide, by decide⟩

/-- What a word stands for; both zeros are the number zero. -/
inductive Datum where
  | nan
  | infinite (negative : Bool)
  | finite (value : ℚ)
deriving DecidableEq

/-- The nearest whole number, and the even one of two that are as near. -/
def roundToEven (x : ℚ) : ℕ :=
  ⌊x⌋₊ + if 1 / 2 < x - ⌊x⌋₊ ∨ (x - ⌊x⌋₊ = 1 / 2 ∧ Odd ⌊x⌋₊) then 1 else 0

section RoundToEven

variable {x : ℚ} {n : ℕ}

theorem roundToEven_le (hx : 0 ≤ x) (h : x ≤ n) : roundToEven x ≤ n := by
  have hfloor := Nat.floor_le hx
  unfold roundToEven
  split
  · rename_i hup
    have hlt : (⌊x⌋₊ : ℚ) < n := by
      rcases hup with hup | ⟨hup, -⟩ <;> linarith
    exact_mod_cast hlt
  · exact_mod_cast hfloor.trans h

theorem le_roundToEven (h : n ≤ x) : n ≤ roundToEven x :=
  (Nat.le_floor h).trans (Nat.le_add_right ..)

/-- A tie is rounded to the even number. -/
theorem le_roundToEven_iff (hx : 0 ≤ x) (heven : Even n) :
    n ≤ roundToEven x ↔ (n : ℚ) - 1 / 2 ≤ x := by
  have hfloor := Nat.floor_le hx
  have hceil := Nat.lt_floor_add_one x
  unfold roundToEven
  rcases lt_trichotomy n (⌊x⌋₊ + 1) with hlt | heq | hgt
  · have hle : (n : ℚ) ≤ ⌊x⌋₊ := by exact_mod_cast Nat.lt_succ_iff.1 hlt
    exact iff_of_true (by omega) (by linarith)
  · have hodd : Odd ⌊x⌋₊ := by
      rw [heq, Nat.even_add_one, Nat.not_even_iff_odd] at heven
      exact heven
    have hcast : (n : ℚ) = ⌊x⌋₊ + 1 := by exact_mod_cast heq
    rw [hcast]
    simp only [hodd, and_true]
    constructor
    · intro h
      split at h
      · rename_i hup
        rcases hup with hup | hup <;> linarith
      · omega
    · intro h
      rw [if_pos (by rcases (show (1 : ℚ) / 2 ≤ x - ⌊x⌋₊ by linarith).lt_or_eq with hup | hup <;> tauto)]
      omega
  · have hge : (⌊x⌋₊ : ℚ) + 2 ≤ n := by exact_mod_cast hgt
    refine iff_of_false ?_ (by linarith)
    split <;> omega

/-- No whole number is nearer, and one that is as near is the same or odd. -/
theorem abs_sub_roundToEven (hx : 0 ≤ x) (n : ℕ) :
    |x - roundToEven x| ≤ |x - n| ∧
      (|x - roundToEven x| = |x - n| → n = roundToEven x ∨ Even (roundToEven x)) := by
  have hfloor := Nat.floor_le hx
  have hceil := Nat.lt_floor_add_one x
  unfold roundToEven
  split
  · rename_i hup
    have hhalf : 1 / 2 ≤ x - ⌊x⌋₊ := by
      rcases hup with hup | ⟨hup, -⟩ <;> linarith
    push_cast
    rw [abs_sub_comm, abs_of_nonneg (by linarith)]
    rcases le_or_gt n ⌊x⌋₊ with hbelow | habove
    · have hn : (n : ℚ) ≤ ⌊x⌋₊ := by exact_mod_cast hbelow
      rw [abs_of_nonneg (by linarith)]
      refine ⟨by linarith, fun h ↦ .inr ?_⟩
      rcases hup with hup | ⟨-, hodd⟩
      · linarith
      · exact hodd.add_one
    · have hn : (⌊x⌋₊ : ℚ) + 1 ≤ n := by exact_mod_cast habove
      rw [abs_sub_comm, abs_of_nonneg (by linarith)]
      refine ⟨by linarith, fun h ↦ .inl ?_⟩
      have hsame : (n : ℚ) = ⌊x⌋₊ + 1 := by linarith
      exact_mod_cast hsame
  · rename_i hdown
    rw [not_or, not_lt, not_and, Nat.not_odd_iff_even] at hdown
    rw [Nat.add_zero, abs_of_nonneg (by linarith)]
    rcases le_or_gt n ⌊x⌋₊ with hbelow | habove
    · have hn : (n : ℚ) ≤ ⌊x⌋₊ := by exact_mod_cast hbelow
      rw [abs_of_nonneg (by linarith)]
      refine ⟨by linarith, fun h ↦ .inl ?_⟩
      have hsame : (n : ℚ) = ⌊x⌋₊ := by linarith
      exact_mod_cast hsame
    · have hn : (⌊x⌋₊ : ℚ) + 1 ≤ n := by exact_mod_cast habove
      rw [abs_sub_comm, abs_of_nonneg (by linarith)]
      exact ⟨by linarith, fun h ↦ .inr (hdown.2 (by linarith))⟩

end RoundToEven

namespace Format

variable (format : Format)

def bias : ℕ := 2 ^ (format.exponentBits - 1) - 1

def signBit : ℕ := 2 ^ (format.exponentBits + format.mantissaBits)

def storageBits : ℕ := format.exponentBits + format.mantissaBits + 1

/-- The word of positive infinity; the words between it and the sign are not numbers. -/
def infinity : ℕ := (2 ^ format.exponentBits - 1) * 2 ^ format.mantissaBits

/-- The number of units in one. -/
def scale : ℕ := 2 ^ (format.bias - 1 + format.mantissaBits)

/-- The number of units of a word without a sign. -/
def units (magnitude : ℕ) : ℕ :=
  if magnitude / 2 ^ format.mantissaBits = 0 then magnitude % 2 ^ format.mantissaBits
  else (2 ^ format.mantissaBits + magnitude % 2 ^ format.mantissaBits) *
    2 ^ (magnitude / 2 ^ format.mantissaBits - 1)

def magnitudeValue (magnitude : ℕ) : ℚ := format.units magnitude / format.scale

def decode (word : ℕ) : Datum :=
  let magnitude := word % format.signBit
  let negative := decide (format.signBit ≤ word)
  if format.infinity < magnitude then .nan
  else if magnitude = format.infinity then .infinite negative
  else .finite (if negative then -format.magnitudeValue magnitude else format.magnitudeValue magnitude)

/-- The exponent, above the least one, of a number of units. -/
def exponentOf (x : ℚ) : ℕ := Nat.log 2 ⌊x⌋₊ - format.mantissaBits

/-- The significand is added to the exponent, so that one that overflows raises the exponent. -/
def roundUnits (x : ℚ) : ℕ :=
  format.exponentOf x * 2 ^ format.mantissaBits + roundToEven (x / 2 ^ format.exponentOf x)

/-- The word without a sign that a number is rounded to. -/
def roundMagnitude (value : ℚ) : ℕ := min format.infinity (format.roundUnits (value * format.scale))

/-- The word that the number is rounded to. -/
def round (value : ℚ) : ℕ :=
  (if value < 0 then format.signBit else 0) + format.roundMagnitude |value|

/-- No finite number of the format is nearer, and of two that are as near the word is even. -/
def NearestEven (value : ℚ) (word : ℕ) : Prop :=
  ∃ nearest, format.decode word = .finite nearest ∧
    ∀ other candidate, format.decode other = .finite candidate →
      |value - nearest| ≤ |value - candidate| ∧
        (|value - nearest| = |value - candidate| → candidate = nearest ∨ Even word)

/-- The number is at least as large as the largest finite number and half of its last place. -/
def Overflows (value : ℚ) : Prop :=
  ((2 ^ (format.mantissaBits + 2) - 1) * 2 ^ (2 ^ format.exponentBits - 4) : ℚ) / format.scale ≤
    |value|

instance (value : ℚ) : Decidable (format.Overflows value) := inferInstanceAs (Decidable (_ ≤ _))

end Format

namespace Datum

/-- The order of the numbers; a word that is no number is not below and not above another. -/
def less : Datum → Datum → Bool
  | finite left, finite right => decide (left < right)
  | infinite true, infinite right => !right
  | infinite true, finite _ => true
  | finite _, infinite right => !right
  | _, _ => false

def equal : Datum → Datum → Bool
  | finite left, finite right => decide (left = right)
  | infinite left, infinite right => left == right
  | _, _ => false

end Datum

/-- The whole number towards zero. -/
def truncate (value : ℚ) : ℤ := if value < 0 then ⌈value⌉ else ⌊value⌋

namespace Format

/-- A word of another format.  What is no number stays so, and its other bits are not determined. -/
def convert (source target : Format) (word : ℕ) : ℕ :=
  (if source.signBit ≤ word then target.signBit else 0) +
    match source.decode word with
    | .nan => target.infinity + 2 ^ (target.mantissaBits - 1)
    | .infinite _ => target.infinity
    | .finite value => target.roundMagnitude |value|

end Format

end Wrela.Ieee
