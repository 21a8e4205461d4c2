import Mathlib.Algebra.Order.Floor.Semifield
import Wrela.Ieee.Rounding

/-!
# Rounding whole numbers

A whole number has a positive exponent, and its significand is the number shifted to the precision.
-/

namespace Wrela.Ieee

/-- Shift to the right, to the nearest whole number, the even one of two that are as near. -/
def shiftToEven (value shift : ℕ) : ℕ :=
  value / 2 ^ shift +
    if 2 ^ shift < 2 * (value % 2 ^ shift) ∨
      (2 * (value % 2 ^ shift) = 2 ^ shift ∧ Odd (value / 2 ^ shift)) then 1 else 0

theorem roundToEven_natCast (value : ℕ) : roundToEven value = value := by
  simp [roundToEven]

theorem roundToEven_div (value shift : ℕ) :
    roundToEven ((value : ℚ) / 2 ^ shift) = shiftToEven value shift := by
  have hpos : (0 : ℚ) < 2 ^ shift := by positivity
  have hfloor : ⌊(value : ℚ) / 2 ^ shift⌋₊ = value / 2 ^ shift := by
    have h := @Nat.floor_div_eq_div ℚ _ _ _ _ value (2 ^ shift)
    push_cast at h
    exact h
  have hrest : (value : ℚ) / 2 ^ shift - (value / 2 ^ shift : ℕ) =
      (value % 2 ^ shift : ℕ) / 2 ^ shift := by
    have hsplit := Nat.div_add_mod value (2 ^ shift)
    have hcast : (value : ℚ) = 2 ^ shift * (value / 2 ^ shift : ℕ) + (value % 2 ^ shift : ℕ) := by
      exact_mod_cast hsplit.symm
    rw [eq_div_iff hpos.ne', sub_mul, div_mul_cancel₀ _ hpos.ne']
    linarith
  have hgreater : (1 : ℚ) / 2 < (value % 2 ^ shift : ℕ) / 2 ^ shift ↔
      2 ^ shift < 2 * (value % 2 ^ shift) := by
    rw [lt_div_iff₀ hpos]
    constructor <;> intro h
    · have hcast : (2 : ℚ) ^ shift < 2 * (value % 2 ^ shift : ℕ) := by linarith
      exact_mod_cast hcast
    · have hcast : (2 : ℚ) ^ shift < 2 * (value % 2 ^ shift : ℕ) := by exact_mod_cast h
      linarith
  have hequal : (value % 2 ^ shift : ℕ) / (2 : ℚ) ^ shift = 1 / 2 ↔
      2 * (value % 2 ^ shift) = 2 ^ shift := by
    rw [div_eq_iff hpos.ne']
    constructor <;> intro h
    · have hcast : 2 * ((value % 2 ^ shift : ℕ) : ℚ) = 2 ^ shift := by linarith
      exact_mod_cast hcast
    · have hcast : 2 * ((value % 2 ^ shift : ℕ) : ℚ) = 2 ^ shift := by exact_mod_cast h
      linarith
  rw [roundToEven, hfloor, hrest, shiftToEven]
  simp only [hgreater, hequal]

namespace Format

variable {format : Format} {value : ℕ}

theorem bias_pos (format : Format) : 0 < format.bias := by
  have hlarge := format.exponent_large
  have htwo : 2 ^ 1 ≤ 2 ^ (format.exponentBits - 1) := Nat.pow_le_pow_right (by norm_num) (by omega)
  unfold bias
  omega

theorem log_mul_two_pow (hpos : 0 < value) (shift : ℕ) :
    Nat.log 2 (value * 2 ^ shift) = Nat.log 2 value + shift := by
  induction shift with
  | zero => simp
  | succ shift ih =>
    rw [pow_succ, ← mul_assoc, Nat.log_mul_base (by norm_num) (by positivity), ih]
    rfl

theorem exponentOf_natCast (hpos : 0 < value) :
    format.exponentOf (value * format.scale) = Nat.log 2 value + format.bias - 1 := by
  have hbias := format.bias_pos
  have hfloor : ⌊(value : ℚ) * format.scale⌋₊ = value * format.scale := by
    exact_mod_cast Nat.floor_natCast (value * format.scale)
  rw [exponentOf, hfloor, scale, log_mul_two_pow hpos]
  omega

/-- The significand of a whole number. -/
def wholeSignificand (format : Format) (value : ℕ) : ℕ :=
  if format.mantissaBits ≤ Nat.log 2 value then
    shiftToEven value (Nat.log 2 value - format.mantissaBits)
  else value * 2 ^ (format.mantissaBits - Nat.log 2 value)

theorem roundUnits_natCast (hpos : 0 < value) :
    format.roundUnits (value * format.scale) =
      (Nat.log 2 value + format.bias - 1) * 2 ^ format.mantissaBits +
        format.wholeSignificand value := by
  have hbias := format.bias_pos
  have hsignificand : roundToEven (value * format.scale / 2 ^ (Nat.log 2 value + format.bias - 1)) =
      format.wholeSignificand value := by
    have hscale : (value : ℚ) * format.scale / 2 ^ (Nat.log 2 value + format.bias - 1) =
        value * 2 ^ format.mantissaBits / 2 ^ Nat.log 2 value := by
      rw [show Nat.log 2 value + format.bias - 1 = Nat.log 2 value + (format.bias - 1) by omega,
        scale, pow_add]
      push_cast
      rw [pow_add]
      field_simp
    rw [hscale, wholeSignificand]
    split
    · rename_i hle
      obtain ⟨shift, hshift⟩ := Nat.exists_eq_add_of_le hle
      rw [hshift, Nat.add_sub_cancel_left, ← roundToEven_div, pow_add]
      congr 1
      field_simp
    · rename_i hgt
      obtain ⟨shift, hshift⟩ := Nat.exists_eq_add_of_le (not_le.1 hgt).le
      rw [hshift, Nat.add_sub_cancel_left, ← roundToEven_natCast (value * 2 ^ shift), pow_add]
      congr 1
      push_cast
      field_simp
  rw [roundUnits, exponentOf_natCast hpos, hsignificand]

/-- The significand of a whole number, with what does not fit the precision cut off. -/
def cutSignificand (format : Format) (value : ℕ) : ℕ :=
  if format.mantissaBits ≤ Nat.log 2 value then
    value / 2 ^ (Nat.log 2 value - format.mantissaBits)
  else value * 2 ^ (format.mantissaBits - Nat.log 2 value)

theorem cutSignificand_bounds (hpos : 0 < value) :
    2 ^ format.mantissaBits ≤ format.cutSignificand value ∧
      format.cutSignificand value < 2 ^ (format.mantissaBits + 1) := by
  have hlow := Nat.pow_log_le_self 2 hpos.ne'
  have hhigh := Nat.lt_pow_succ_log_self (show 1 < 2 by norm_num) value
  rw [cutSignificand]
  split
  · rename_i hle
    obtain ⟨shift, hshift⟩ := Nat.exists_eq_add_of_le hle
    rw [hshift] at hlow hhigh
    rw [hshift, Nat.add_sub_cancel_left, Nat.le_div_iff_mul_le (by positivity),
      Nat.div_lt_iff_lt_mul (by positivity), ← pow_add, ← pow_add]
    exact ⟨hlow, by rwa [show format.mantissaBits + 1 + shift = format.mantissaBits + shift + 1 by omega]⟩
  · rename_i hgt
    obtain ⟨shift, hshift⟩ := Nat.exists_eq_add_of_le (not_le.1 hgt).le
    rw [hshift, Nat.add_sub_cancel_left, pow_add,
      show Nat.log 2 value + shift + 1 = Nat.log 2 value + 1 + shift by omega, pow_add _ _ shift]
    exact ⟨Nat.mul_le_mul_right _ hlow, Nat.mul_lt_mul_of_pos_right hhigh (by positivity)⟩

theorem wholeSignificand_bounds (hpos : 0 < value) :
    2 ^ format.mantissaBits ≤ format.wholeSignificand value ∧
      format.wholeSignificand value ≤ 2 ^ (format.mantissaBits + 1) := by
  have hcut := @cutSignificand_bounds format value hpos
  rw [cutSignificand] at hcut
  unfold wholeSignificand shiftToEven
  split <;> rename_i hle
  · rw [if_pos hle] at hcut
    split <;> omega
  · rw [if_neg hle] at hcut
    omega

/-- A significand that overflows raises the exponent, and its leading bit is not stored. -/
theorem roundUnits_packed (hpos : 0 < value) {carry : Bool}
    (hcarry : carry = decide (format.wholeSignificand value = 2 ^ (format.mantissaBits + 1))) :
    (Nat.log 2 value + carry.toNat + format.bias) * 2 ^ format.mantissaBits +
        (if carry then 2 ^ format.mantissaBits else format.wholeSignificand value) %
          2 ^ format.mantissaBits =
      format.roundUnits (value * format.scale) := by
  have hbias := format.bias_pos
  obtain ⟨hlow, hhigh⟩ := @wholeSignificand_bounds format value hpos
  rw [roundUnits_natCast hpos]
  obtain ⟨rest, hrest⟩ : ∃ rest, Nat.log 2 value + format.bias = rest + 1 :=
    ⟨Nat.log 2 value + format.bias - 1, by omega⟩
  rw [show Nat.log 2 value + carry.toNat + format.bias = rest + 1 + carry.toNat by omega,
    show Nat.log 2 value + format.bias - 1 = rest by omega]
  cases carry with
  | true =>
    have hsignificand := of_decide_eq_true hcarry.symm
    rw [hsignificand, if_pos rfl, Nat.mod_self, Bool.toNat_true, pow_succ]
    ring
  | false =>
    have hsignificand := of_decide_eq_false hcarry.symm
    rw [pow_succ, mul_two] at hhigh hsignificand
    rw [if_neg Bool.false_ne_true, Nat.mod_eq_sub_mod hlow, Nat.mod_eq_of_lt (by omega),
      Bool.toNat_false, Nat.add_zero, Nat.succ_mul]
    omega

theorem two_pow_exponentBits (format : Format) : 2 ^ format.exponentBits = 2 * format.bias + 2 := by
  have hlarge := format.exponent_large
  have hbias := format.bias_pos
  rw [bias] at hbias ⊢
  rw [show format.exponentBits = format.exponentBits - 1 + 1 by omega, pow_succ, Nat.add_sub_cancel]
  omega

theorem roundUnits_le_infinity (hpos : 0 < value) (hlog : Nat.log 2 value ≤ format.bias) :
    format.roundUnits (value * format.scale) ≤ format.infinity := by
  have hbias := format.bias_pos
  obtain ⟨-, hhigh⟩ := @wholeSignificand_bounds format value hpos
  rw [roundUnits_natCast hpos, infinity, two_pow_exponentBits]
  calc (Nat.log 2 value + format.bias - 1) * 2 ^ format.mantissaBits +
        format.wholeSignificand value
      ≤ (Nat.log 2 value + format.bias - 1) * 2 ^ format.mantissaBits +
        2 * 2 ^ format.mantissaBits := by rw [pow_succ] at hhigh; omega
    _ = (Nat.log 2 value + format.bias + 1) * 2 ^ format.mantissaBits := by
        rw [← Nat.add_mul]
        congr 1
        omega
    _ ≤ (2 * format.bias + 2 - 1) * 2 ^ format.mantissaBits := Nat.mul_le_mul_right _ (by omega)

end Format

end Wrela.Ieee

/-!
## Truncation towards zero

The bounds that a truncated number is tested against, and the words that stand for them exactly.
-/

namespace Wrela.Ieee

section Truncate

variable {value : ℚ} {bound : ℕ}

theorem truncate_of_nonneg (h : 0 ≤ value) : truncate value = ⌊value⌋ := if_neg h.not_gt

theorem truncate_neg (h : 0 ≤ value) : truncate (-value) = -⌊value⌋ := by
  rw [truncate]
  rcases h.eq_or_lt with rfl | hpos
  · simp
  · rw [if_pos (neg_lt_zero.2 hpos), Int.ceil_neg]

theorem truncate_lt_iff (hbound : 0 < bound) : truncate value < bound ↔ value < bound := by
  rw [truncate]
  split
  · rename_i hneg
    have hceil : ⌈value⌉ ≤ 0 := Int.ceil_le.2 (by exact_mod_cast hneg.le)
    have hcast : (0 : ℚ) < bound := by exact_mod_cast hbound
    exact iff_of_true (by omega) (hneg.trans hcast)
  · rw [Int.floor_lt, Int.cast_natCast]

theorem neg_le_truncate_iff : -(bound : ℤ) ≤ truncate value ↔ -(bound : ℚ) - 1 < value := by
  rw [truncate]
  split
  · have hceil := @Int.lt_ceil ℚ _ _ _ (-(bound : ℤ) - 1) value
    push_cast at hceil
    rw [← hceil]
    omega
  · rename_i hnonneg
    have hfloor : 0 ≤ ⌊value⌋ := Int.floor_nonneg.2 (not_lt.1 hnonneg)
    have hcast : (0 : ℚ) ≤ bound := by positivity
    exact iff_of_true (by omega) (by linarith)

end Truncate

namespace Format

variable {format : Format} {value : ℚ} {word magnitude exponent bound : ℕ}

theorem abs_lt_of_decode (h : format.decode word = .finite value) :
    |value| < 2 ^ (format.bias + 1) := by
  have hlt := lt_infinity_of_decode h
  have hbias := format.bias_pos
  rw [abs_of_decode h, magnitudeValue, div_lt_iff₀ format.scale_pos]
  rw [infinity, two_pow_exponentBits] at hlt
  generalize word % format.signBit = magnitude at hlt
  have hexponent : magnitude / 2 ^ format.mantissaBits < 2 * format.bias + 1 :=
    Nat.div_lt_of_lt_mul (by rwa [mul_comm])
  have hrest := Nat.mod_lt magnitude (show 0 < 2 ^ format.mantissaBits by positivity)
  have hunits : format.units magnitude < 2 ^ (format.bias + 1) * format.scale := by
    have hpower : 2 ^ (format.bias + 1) * format.scale =
        (2 ^ format.mantissaBits + 2 ^ format.mantissaBits) * 2 ^ (2 * format.bias - 1) := by
      rw [scale, ← mul_two, ← pow_succ, ← pow_add, ← pow_add]
      congr 1
      omega
    rw [hpower, units]
    split
    · calc magnitude % 2 ^ format.mantissaBits
          < 2 ^ format.mantissaBits + 2 ^ format.mantissaBits := by omega
        _ ≤ _ := Nat.le_mul_of_pos_right _ (by positivity)
    · calc (2 ^ format.mantissaBits + magnitude % 2 ^ format.mantissaBits) *
            2 ^ (magnitude / 2 ^ format.mantissaBits - 1)
          < (2 ^ format.mantissaBits + 2 ^ format.mantissaBits) *
            2 ^ (magnitude / 2 ^ format.mantissaBits - 1) :=
            Nat.mul_lt_mul_of_pos_right (by omega) (by positivity)
        _ ≤ _ := Nat.mul_le_mul_left _ (Nat.pow_le_pow_right (by norm_num) (by omega))
  exact_mod_cast hunits

/-- Beyond the precision every number is whole. -/
theorem whole_of_decode (h : format.decode word = .finite value)
    (hlarge : 2 ^ format.mantissaBits ≤ |value|) : ∃ whole : ℤ, value = whole := by
  have hscale := format.scale_pos
  rw [abs_of_decode h, magnitudeValue, le_div_iff₀ hscale] at hlarge
  have hunits : 2 ^ (format.mantissaBits + (format.bias - 1 + format.mantissaBits)) ≤
      format.units (word % format.signBit) := by
    rw [scale] at hlarge
    rw [pow_add]
    exact_mod_cast hlarge
  obtain ⟨whole, hwhole⟩ := two_pow_dvd_units (.inr hunits)
  have habs : format.magnitudeValue (word % format.signBit) = whole := by
    rw [magnitudeValue, hwhole, div_eq_iff hscale.ne', scale]
    push_cast
    ring
  have hvalue := value_of_decode h
  rw [habs] at hvalue
  refine ⟨if format.signBit ≤ word then -whole else whole, ?_⟩
  rw [hvalue]
  split <;> simp

theorem decode_infinity (format : Format) (negative : Bool) :
    format.decode ((if negative then format.signBit else 0) + format.infinity) =
      .infinite negative := by
  have hlt := format.infinity_lt_signBit
  cases negative <;> simp [decode, Nat.mod_eq_of_lt hlt, hlt]

theorem roundMagnitude_lt (format : Format) (value : ℚ) :
    format.roundMagnitude value < format.signBit :=
  (Nat.min_le_left ..).trans_lt format.infinity_lt_signBit

theorem signBit_le_round_iff (format : Format) (value : ℚ) :
    format.signBit ≤ format.round value ↔ value < 0 := by
  have hlt := format.roundMagnitude_lt |value|
  rw [round]
  split <;> rename_i hsign
  · exact iff_of_true (Nat.le_add_right ..) hsign
  · exact iff_of_false (by omega) hsign

theorem round_lt (format : Format) (value : ℚ) : format.round value < 2 ^ format.storageBits := by
  have hlt := format.roundMagnitude_lt |value|
  have hstorage : 2 ^ format.storageBits = format.signBit + format.signBit := by
    rw [storageBits, signBit, pow_succ, mul_two]
  rw [round, hstorage]
  split <;> omega

/-- Rounding gives an infinity exactly where the number overflows. -/
theorem decode_round_infinite_iff (value : ℚ) :
    (∃ negative, format.decode (format.round value) = .infinite negative) ↔
      format.Overflows value := by
  constructor
  · rintro ⟨negative, hinfinite⟩
    by_contra hfinite
    obtain ⟨nearest, hnearest, -⟩ := round_nearestEven hfinite
    rw [hnearest] at hinfinite
    cases hinfinite
  · intro hoverflow
    have hmagnitude : format.roundMagnitude |value| = format.infinity :=
      Nat.min_eq_left ((overflows_iff value).1 hoverflow)
    have hdecode := format.decode_infinity (decide (value < 0))
    refine ⟨decide (value < 0), ?_⟩
    rw [round, hmagnitude]
    simpa using hdecode

theorem decode_powerOfTwo (hexponent : exponent ≤ format.bias) (negative : Bool) :
    format.decode ((if negative then format.signBit else 0) +
        (exponent + format.bias) * 2 ^ format.mantissaBits) =
      .finite (if negative then -2 ^ exponent else 2 ^ exponent) := by
  have hbias := format.bias_pos
  have hlt : (exponent + format.bias) * 2 ^ format.mantissaBits < format.infinity := by
    rw [infinity, two_pow_exponentBits]
    exact Nat.mul_lt_mul_of_pos_right (by omega) (by positivity)
  have hvalue : format.magnitudeValue ((exponent + format.bias) * 2 ^ format.mantissaBits) =
      2 ^ exponent := by
    have hunits := @units_pack format (exponent + format.bias - 1) (2 ^ format.mantissaBits)
      (Nat.pow_le_pow_right (by norm_num) (by omega)) (.inr le_rfl)
    rw [← Nat.succ_mul, show (exponent + format.bias - 1).succ = exponent + format.bias by omega]
      at hunits
    rw [magnitudeValue, hunits, div_eq_iff format.scale_pos.ne', scale]
    push_cast
    rw [← pow_add, ← pow_add]
    congr 1
    omega
  rw [decode_signed hlt, hvalue]

theorem wholeSignificand_of_lt (hpos : 0 < bound) (hlt : bound < 2 ^ (format.mantissaBits + 1)) :
    format.wholeSignificand bound = bound * 2 ^ (format.mantissaBits - Nat.log 2 bound) := by
  have hlog : Nat.log 2 bound ≤ format.mantissaBits :=
    Nat.lt_succ_iff.1 (Nat.log_lt_of_lt_pow hpos.ne' hlt)
  rw [wholeSignificand]
  split
  · rw [show Nat.log 2 bound = format.mantissaBits by omega]
    simp [shiftToEven, Nat.mod_one]
  · rfl

/-- A whole number within the precision is its own rounding. -/
theorem decode_roundMagnitude (hpos : 0 < bound) (hlt : bound < 2 ^ (format.mantissaBits + 1))
    (hlog : Nat.log 2 bound < format.bias) (negative : Bool) :
    format.decode ((if negative then format.signBit else 0) + format.roundMagnitude bound) =
      .finite (if negative then -bound else bound) := by
  have hbias := format.bias_pos
  obtain ⟨hlow, hhigh⟩ := @wholeSignificand_bounds format bound hpos
  have hexact := @wholeSignificand_of_lt format bound hpos hlt
  have hunits := @units_pack format (Nat.log 2 bound + format.bias - 1)
    (format.wholeSignificand bound) hhigh (.inr hlow)
  rw [← roundUnits_natCast hpos, hexact] at hunits
  have hvalue : format.magnitudeValue (format.roundUnits (bound * format.scale)) = bound := by
    have hlogle : Nat.log 2 bound ≤ format.mantissaBits :=
      Nat.lt_succ_iff.1 (Nat.log_lt_of_lt_pow hpos.ne' hlt)
    rw [magnitudeValue, hunits, div_eq_iff format.scale_pos.ne', scale]
    push_cast
    rw [mul_assoc, ← pow_add]
    congr 2
    omega
  have hfinite : format.roundUnits (bound * format.scale) < format.infinity := by
    rw [roundUnits_natCast hpos, infinity, two_pow_exponentBits]
    rw [pow_succ] at hhigh
    calc (Nat.log 2 bound + format.bias - 1) * 2 ^ format.mantissaBits +
          format.wholeSignificand bound
        ≤ (Nat.log 2 bound + format.bias - 1) * 2 ^ format.mantissaBits +
          2 * 2 ^ format.mantissaBits := by omega
      _ = (Nat.log 2 bound + format.bias + 1) * 2 ^ format.mantissaBits := by
          rw [← Nat.add_mul]
          congr 1
          omega
      _ < (2 * format.bias + 2 - 1) * 2 ^ format.mantissaBits :=
          Nat.mul_lt_mul_of_pos_right (by omega) (by positivity)
  rw [roundMagnitude, Nat.min_eq_right hfinite.le, decode_signed hfinite, hvalue]

end Format

end Wrela.Ieee
