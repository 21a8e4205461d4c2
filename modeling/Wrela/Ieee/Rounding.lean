import Wrela.Ieee.Format

/-!
# Rounding is to the nearest number

Counted in units, the numbers of one exponent are the multiples of a power of two, and larger ones
are multiples too; so the nearest number is the nearest multiple.
-/

namespace Wrela.Ieee.Format

variable {format : Format} {x : ℚ} {exponent significand magnitude : ℕ}

theorem units_pack (hsignificand : significand ≤ 2 ^ (format.mantissaBits + 1))
    (h : exponent = 0 ∨ 2 ^ format.mantissaBits ≤ significand) :
    format.units (exponent * 2 ^ format.mantissaBits + significand) =
      significand * 2 ^ exponent := by
  have hpos : 0 < 2 ^ format.mantissaBits := by positivity
  rw [pow_succ] at hsignificand
  unfold units
  generalize 2 ^ format.mantissaBits = step at *
  rcases lt_or_ge significand step with hlow | hhigh
  · obtain rfl : exponent = 0 := by omega
    simp [Nat.div_eq_of_lt hlow, Nat.mod_eq_of_lt hlow]
  · obtain ⟨fraction, rfl⟩ := Nat.exists_eq_add_of_le hhigh
    rcases lt_or_ge fraction step with hfraction | hcarry
    · have hform : exponent * step + (step + fraction) = fraction + step * (exponent + 1) := by ring
      simp [hform, Nat.add_mul_div_left _ _ hpos, Nat.div_eq_of_lt hfraction,
        Nat.mod_eq_of_lt hfraction]
    · obtain rfl : fraction = step := by omega
      have hform : exponent * fraction + (fraction + fraction) = fraction * (exponent + 2) := by ring
      simp [hform, hpos]
      ring

theorem two_pow_dvd_units
    (h : exponent = 0 ∨ 2 ^ (format.mantissaBits + exponent) ≤ format.units magnitude) :
    2 ^ exponent ∣ format.units magnitude := by
  rcases h with rfl | h
  · simp
  · unfold units at h ⊢
    have hfraction := Nat.mod_lt magnitude (show 0 < 2 ^ format.mantissaBits by positivity)
    split at h
    · rw [pow_add] at h
      exact absurd (h.trans_lt hfraction) (not_lt.2 (Nat.le_mul_of_pos_right _ (by positivity)))
    · rename_i hnormal
      rw [if_neg hnormal]
      refine Dvd.dvd.mul_left (pow_dvd_pow 2 ?_) _
      generalize magnitude / 2 ^ format.mantissaBits = biased at *
      by_contra hlarge
      have hlt : (2 ^ format.mantissaBits + magnitude % 2 ^ format.mantissaBits) *
          2 ^ (biased - 1) < 2 ^ (format.mantissaBits + 1) * 2 ^ (biased - 1) :=
        Nat.mul_lt_mul_of_pos_right (by rw [pow_succ]; omega) (by positivity)
      rw [← pow_add] at hlt
      have hle := (Nat.pow_lt_pow_iff_right (show 1 < 2 by norm_num)).1 (h.trans_lt hlt)
      omega

theorem exponentOf_cases (hx : 0 ≤ x) :
    (format.exponentOf x = 0 ∨ (2 : ℚ) ^ (format.mantissaBits + format.exponentOf x) ≤ x) ∧
      x < 2 ^ (format.mantissaBits + format.exponentOf x + 1) := by
  have hceil := Nat.lt_floor_add_one x
  have hlog : ⌊x⌋₊ + 1 ≤ 2 ^ (Nat.log 2 ⌊x⌋₊ + 1) := Nat.lt_pow_succ_log_self (by norm_num) _
  constructor
  · by_cases hzero : format.exponentOf x = 0
    · exact .inl hzero
    · refine .inr ?_
      have hsplit : format.mantissaBits + format.exponentOf x = Nat.log 2 ⌊x⌋₊ := by
        unfold exponentOf at hzero ⊢
        omega
      have hfloor : ⌊x⌋₊ ≠ 0 := by
        intro h
        rw [exponentOf, h] at hzero
        simp at hzero
      rw [hsplit]
      calc ((2 : ℚ) ^ Nat.log 2 ⌊x⌋₊) = ((2 ^ Nat.log 2 ⌊x⌋₊ : ℕ) : ℚ) := by push_cast; rfl
        _ ≤ ⌊x⌋₊ := by exact_mod_cast Nat.pow_log_le_self 2 hfloor
        _ ≤ x := Nat.floor_le hx
  · have hle : Nat.log 2 ⌊x⌋₊ + 1 ≤ format.mantissaBits + format.exponentOf x + 1 := by
      unfold exponentOf
      omega
    calc x < ((⌊x⌋₊ + 1 : ℕ) : ℚ) := by push_cast; exact hceil
      _ ≤ ((2 ^ (Nat.log 2 ⌊x⌋₊ + 1) : ℕ) : ℚ) := by exact_mod_cast hlog
      _ ≤ 2 ^ (format.mantissaBits + format.exponentOf x + 1) := by
        push_cast
        exact pow_le_pow_right₀ (by norm_num) hle

/-- The significand of a rounded number. -/
def significandOf (format : Format) (x : ℚ) : ℕ := roundToEven (x / 2 ^ format.exponentOf x)

theorem significandOf_le (hx : 0 ≤ x) : format.significandOf x ≤ 2 ^ (format.mantissaBits + 1) := by
  have hpos : (0 : ℚ) < 2 ^ format.exponentOf x := by positivity
  refine roundToEven_le (by positivity) ?_
  rw [div_le_iff₀ hpos]
  push_cast
  rw [← pow_add, show format.mantissaBits + 1 + format.exponentOf x =
    format.mantissaBits + format.exponentOf x + 1 by ring]
  exact (exponentOf_cases hx).2.le

theorem le_significandOf (hx : 0 ≤ x) :
    format.exponentOf x = 0 ∨ 2 ^ format.mantissaBits ≤ format.significandOf x := by
  have hpos : (0 : ℚ) < 2 ^ format.exponentOf x := by positivity
  refine (exponentOf_cases hx).1.imp_right fun h ↦ le_roundToEven ?_
  rw [le_div_iff₀ hpos]
  push_cast
  rwa [← pow_add]

theorem units_roundUnits (hx : 0 ≤ x) :
    format.units (format.roundUnits x) = format.significandOf x * 2 ^ format.exponentOf x :=
  units_pack (significandOf_le hx) (le_significandOf hx)

theorem even_roundUnits : Even (format.roundUnits x) ↔ Even (format.significandOf x) := by
  have heven : Even (format.exponentOf x * 2 ^ format.mantissaBits) :=
    ((Nat.even_pow.2 ⟨even_two, format.mantissa_pos.ne'⟩)).mul_left _
  rw [roundUnits, Nat.even_add]
  exact iff_true_left heven

/-- Among the multiples of the last place the rounded number is the nearest. -/
theorem nearest_multiple (hx : 0 ≤ x) (hdvd : 2 ^ format.exponentOf x ∣ magnitude) :
    |x - format.units (format.roundUnits x)| ≤ |x - magnitude| ∧
      (|x - format.units (format.roundUnits x)| = |x - magnitude| →
        magnitude = format.units (format.roundUnits x) ∨ Even (format.roundUnits x)) := by
  obtain ⟨multiple, rfl⟩ := hdvd
  rw [units_roundUnits hx, even_roundUnits, mul_comm (2 ^ format.exponentOf x)]
  have hpos : (0 : ℚ) < 2 ^ format.exponentOf x := by positivity
  have hscaled (count : ℕ) : |x - (count * 2 ^ format.exponentOf x : ℕ)| =
      |x / 2 ^ format.exponentOf x - count| * 2 ^ format.exponentOf x := by
    rw [← abs_of_pos hpos, ← abs_mul, abs_of_pos hpos, sub_mul, div_mul_cancel₀ _ hpos.ne']
    push_cast
    rfl
  obtain ⟨hle, htie⟩ := @abs_sub_roundToEven (x / 2 ^ format.exponentOf x) (by positivity)
    multiple
  rw [hscaled, hscaled]
  refine ⟨mul_le_mul_of_nonneg_right hle hpos.le, fun h ↦ ?_⟩
  exact (htie (mul_right_cancel₀ hpos.ne' h)).imp_left (congrArg (· * _))

/-- No number of units that a word has is nearer. -/
theorem nearest_units (hx : 0 ≤ x) (magnitude : ℕ) :
    |x - format.units (format.roundUnits x)| ≤ |x - format.units magnitude| ∧
      (|x - format.units (format.roundUnits x)| = |x - format.units magnitude| →
        format.units magnitude = format.units (format.roundUnits x) ∨
          Even (format.roundUnits x)) := by
  by_cases hlarge : format.exponentOf x = 0 ∨
      2 ^ (format.mantissaBits + format.exponentOf x) ≤ format.units magnitude
  · exact nearest_multiple hx (two_pow_dvd_units hlarge)
  · -- the power of two below the number is nearer than anything below it
    rw [not_or, not_le] at hlarge
    obtain ⟨hzero, hsmall⟩ := hlarge
    have hbelow := (@exponentOf_cases format x hx).1.resolve_left hzero
    have hpower := (@nearest_multiple format x (2 ^ (format.mantissaBits + format.exponentOf x)) hx
      (pow_dvd_pow 2 (Nat.le_add_left ..))).1
    have hcast : (format.units magnitude : ℚ) < 2 ^ (format.mantissaBits + format.exponentOf x) := by
      exact_mod_cast hsmall
    push_cast at hpower
    rw [abs_of_nonneg (show 0 ≤ x - 2 ^ (format.mantissaBits + format.exponentOf x) by linarith)]
      at hpower
    rw [abs_of_nonneg (show 0 ≤ x - format.units magnitude by linarith)]
    exact ⟨by linarith, fun h ↦ by linarith⟩

theorem four_le_two_pow (format : Format) : 4 ≤ 2 ^ format.exponentBits := by
  calc 4 = 2 ^ 2 := rfl
    _ ≤ 2 ^ format.exponentBits := Nat.pow_le_pow_right (by norm_num) format.exponent_large

/-- The significand overflows at the largest exponent from half of the last place on. -/
theorem infinity_le_roundUnits_iff (hx : 0 ≤ x) :
    format.infinity ≤ format.roundUnits x ↔
      (2 ^ (format.mantissaBits + 2) - 1) * 2 ^ (2 ^ format.exponentBits - 4) ≤ x := by
  have hfour := format.four_le_two_pow
  have hle := @significandOf_le format x hx
  have hge := @le_significandOf format x hx
  obtain ⟨hbelow, habove⟩ := @exponentOf_cases format x hx
  have hunits : format.roundUnits x =
      format.exponentOf x * 2 ^ format.mantissaBits + format.significandOf x := rfl
  rw [hunits, infinity]
  obtain ⟨top, htop⟩ := Nat.exists_eq_add_of_le' hfour
  rw [htop, Nat.add_sub_cancel]
  have hstep : 0 < 2 ^ format.mantissaBits := by positivity
  have hstep' : (1 : ℚ) ≤ 2 ^ format.mantissaBits := one_le_pow₀ (by norm_num)
  have hpower : (0 : ℚ) < 2 ^ top := by positivity
  rw [pow_succ] at hle
  rcases lt_trichotomy (format.exponentOf x) (top + 1) with hlow | heq | hhigh
  · refine iff_of_false ?_ (not_le.2 ?_)
    · rw [not_le]
      calc format.exponentOf x * 2 ^ format.mantissaBits + format.significandOf x
          ≤ top * 2 ^ format.mantissaBits + 2 ^ format.mantissaBits * 2 :=
            Nat.add_le_add (Nat.mul_le_mul_right _ (Nat.lt_succ_iff.1 hlow)) hle
        _ < (top + 4 - 1) * 2 ^ format.mantissaBits := by
            rw [show top + 4 - 1 = top + 3 by omega]
            nlinarith
    · calc x < 2 ^ (format.mantissaBits + format.exponentOf x + 1) := habove
        _ ≤ 2 ^ (format.mantissaBits + 1 + top) := pow_le_pow_right₀ (by norm_num) (by omega)
        _ ≤ (2 ^ (format.mantissaBits + 2) - 1) * 2 ^ top := by
            rw [pow_add, pow_add _ _ 2, pow_succ]
            nlinarith
  · have heven : Even (2 ^ (format.mantissaBits + 1)) := Nat.even_pow.2 ⟨even_two, by omega⟩
    have hround := @le_roundToEven_iff (x / 2 ^ (top + 1)) _ (by positivity) heven
    have hleft : (top + 4 - 1) * 2 ^ format.mantissaBits ≤
        format.exponentOf x * 2 ^ format.mantissaBits + format.significandOf x ↔
          2 ^ (format.mantissaBits + 1) ≤ format.significandOf x := by
      have hform : (top + 4 - 1) * 2 ^ format.mantissaBits =
          (top + 1) * 2 ^ format.mantissaBits + 2 ^ (format.mantissaBits + 1) := by
        rw [show top + 4 - 1 = top + 3 by omega]
        ring
      rw [hform, heq, Nat.add_le_add_iff_left]
    rw [hleft, significandOf, heq, hround, le_div_iff₀ (by positivity)]
    push_cast
    rw [show ((2 : ℚ) ^ (format.mantissaBits + 1) - 1 / 2) * 2 ^ (top + 1) =
      (2 ^ (format.mantissaBits + 2) - 1) * 2 ^ top by ring]
  · refine iff_of_true ?_ ?_
    · have hlarge := hge.resolve_left (by omega)
      calc (top + 4 - 1) * 2 ^ format.mantissaBits
          = (top + 2) * 2 ^ format.mantissaBits + 2 ^ format.mantissaBits := by
            rw [show top + 4 - 1 = top + 3 by omega]
            ring
        _ ≤ format.exponentOf x * 2 ^ format.mantissaBits + format.significandOf x :=
            Nat.add_le_add (Nat.mul_le_mul_right _ hhigh) hlarge
    · calc (2 ^ (format.mantissaBits + 2) - 1) * 2 ^ top
          ≤ (2 : ℚ) ^ (format.mantissaBits + 2) * 2 ^ top := by nlinarith
        _ = 2 ^ (format.mantissaBits + 2 + top) := (pow_add ..).symm
        _ ≤ 2 ^ (format.mantissaBits + format.exponentOf x) :=
            pow_le_pow_right₀ (by norm_num) (by omega)
        _ ≤ x := hbelow.resolve_left (by omega)

theorem overflows_iff (value : ℚ) :
    format.Overflows value ↔ format.infinity ≤ format.roundUnits (|value| * format.scale) := by
  have hscale : (0 : ℚ) < format.scale := by unfold scale; positivity
  rw [infinity_le_roundUnits_iff (by positivity), Overflows, div_le_iff₀ hscale]

theorem infinity_lt_signBit (format : Format) : format.infinity < format.signBit := by
  have hfour := format.four_le_two_pow
  rw [infinity, signBit, pow_add]
  exact Nat.mul_lt_mul_of_pos_right (by omega) (by positivity)

theorem decode_signed (hmagnitude : magnitude < format.infinity) (negative : Bool) :
    format.decode ((if negative then format.signBit else 0) + magnitude) =
      .finite (if negative then -format.magnitudeValue magnitude
        else format.magnitudeValue magnitude) := by
  have hlt := hmagnitude.trans format.infinity_lt_signBit
  cases negative <;>
    simp [decode, Nat.mod_eq_of_lt hlt, hmagnitude.not_gt, hmagnitude.ne, hlt.not_ge]

theorem scale_pos (format : Format) : (0 : ℚ) < format.scale := by
  unfold scale
  positivity

theorem magnitudeValue_nonneg (format : Format) (magnitude : ℕ) :
    0 ≤ format.magnitudeValue magnitude := by
  unfold magnitudeValue
  positivity

variable {word : ℕ} {value : ℚ}

theorem lt_infinity_of_decode (h : format.decode word = .finite value) :
    word % format.signBit < format.infinity := by
  unfold decode at h
  dsimp only at h
  split at h
  · cases h
  · split at h
    · cases h
    · omega

theorem value_of_decode (h : format.decode word = .finite value) :
    value = if format.signBit ≤ word then -format.magnitudeValue (word % format.signBit)
      else format.magnitudeValue (word % format.signBit) := by
  unfold decode at h
  dsimp only at h
  split at h
  · cases h
  · split at h
    · cases h
    · simpa using h.symm

/-- The magnitude of a finite number is that of its word. -/
theorem abs_of_decode (h : format.decode word = .finite value) :
    |value| = format.magnitudeValue (word % format.signBit) := by
  have hnonneg := format.magnitudeValue_nonneg (word % format.signBit)
  rw [value_of_decode h]
  split
  · rw [abs_neg, abs_of_nonneg hnonneg]
  · exact abs_of_nonneg hnonneg

theorem nearest_magnitude (hvalue : 0 ≤ value) (magnitude : ℕ) :
    |value - format.magnitudeValue (format.roundUnits (value * format.scale))| ≤
        |value - format.magnitudeValue magnitude| ∧
      (|value - format.magnitudeValue (format.roundUnits (value * format.scale))| =
          |value - format.magnitudeValue magnitude| →
        format.magnitudeValue magnitude =
            format.magnitudeValue (format.roundUnits (value * format.scale)) ∨
          Even (format.roundUnits (value * format.scale))) := by
  have hscale := format.scale_pos
  have hscaled (count : ℕ) : |value - format.magnitudeValue count| =
      |value * format.scale - format.units count| / format.scale := by
    rw [magnitudeValue, eq_div_iff hscale.ne', ← abs_of_pos hscale, ← abs_mul, abs_of_pos hscale,
      sub_mul, div_mul_cancel₀ _ hscale.ne']
  obtain ⟨hle, htie⟩ := @nearest_units format (value * format.scale) (by positivity) magnitude
  rw [hscaled, hscaled]
  refine ⟨div_le_div_of_nonneg_right hle hscale.le, fun h ↦ ?_⟩
  exact (htie ((div_left_inj' hscale.ne').1 h)).imp_left fun hsame ↦ by
    rw [magnitudeValue, hsame, magnitudeValue]

theorem round_zero (format : Format) : format.roundUnits 0 = 0 := by
  simp [roundUnits, exponentOf, roundToEven]

/-- A number that does not overflow is rounded to the nearest one. -/
theorem round_nearestEven (h : ¬format.Overflows value) :
    format.NearestEven value (format.round value) := by
  rw [overflows_iff, not_le] at h
  have hround : format.round value = (if decide (value < 0) then format.signBit else 0) +
      format.roundUnits (|value| * format.scale) := by
    simp [round, roundMagnitude, min_eq_right h.le]
  have heven : Even (format.round value) ↔ Even (format.roundUnits (|value| * format.scale)) := by
    have hsign : Even format.signBit :=
      Nat.even_pow.2 ⟨even_two, by have hpos := format.mantissa_pos; omega⟩
    rw [hround, Nat.even_add]
    refine iff_true_left ?_
    split
    · exact hsign
    · exact Even.zero
  refine ⟨_, by rw [hround]; exact decode_signed h _, fun other candidate hcandidate ↦ ?_⟩
  have habs := abs_of_decode hcandidate
  obtain ⟨hle, htie⟩ := @nearest_magnitude format _ (abs_nonneg value) (other % format.signBit)
  rw [← habs] at hle htie
  rw [heven]
  have hnonneg := format.magnitudeValue_nonneg (format.roundUnits (|value| * format.scale))
  have hzero (hvalue : value = 0) :
      format.magnitudeValue (format.roundUnits (|value| * format.scale)) = 0 := by
    simp [hvalue, round_zero, magnitudeValue, units]
  generalize format.magnitudeValue (format.roundUnits (|value| * format.scale)) = nearest at *
  have hdistance : |value - if decide (value < 0) = true then -nearest else nearest| =
      abs (|value| - nearest) := by
    rcases lt_or_ge value 0 with hneg | hpos
    · rw [if_pos (by simpa using hneg), abs_of_neg hneg, ← abs_neg]
      congr 1
      ring
    · rw [if_neg (by simpa using hpos), abs_of_nonneg hpos]
  have hcandidate := abs_abs_sub_abs_le value candidate
  rw [hdistance]
  refine ⟨hle.trans hcandidate, fun heq ↦ ?_⟩
  refine (htie (le_antisymm hle (hcandidate.trans_eq heq.symm))).imp_left fun hsame ↦ ?_
  rcases lt_or_ge value 0 with hneg | hpos
  · rw [if_pos (by simpa using hneg)]
    rw [abs_of_neg hneg] at heq
    rcases abs_cases (-value - nearest) with hfirst | hfirst <;>
      rcases abs_cases (value - candidate) with hsecond | hsecond <;>
      rcases abs_cases candidate with hthird | hthird <;> linarith
  · rw [if_neg (by simpa using hpos)]
    rw [abs_of_nonneg hpos] at heq
    rcases hpos.eq_or_lt with rfl | hpos
    · have hnearest := hzero rfl
      rw [hnearest, abs_eq_zero] at hsame
      rw [hsame, hnearest]
    · rcases abs_cases (value - nearest) with hfirst | hfirst <;>
        rcases abs_cases (value - candidate) with hsecond | hsecond <;>
        rcases abs_cases candidate with hthird | hthird <;> linarith

end Wrela.Ieee.Format
