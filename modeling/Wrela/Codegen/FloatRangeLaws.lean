import Mathlib.Data.Nat.Bitwise
import Wrela.Codegen.I128ToFloatLaws

/-!
# Floats are truncated to integers of 128 bits

The lines take the fields of the float and shift its significand to the whole number.  Where the
truncation fits the destination no shift reaches the width.
-/

namespace Wrela.Codegen

open Wrela.Data Wrela.Llvm Wrela.Machine Wrela.Ieee

attribute [local simp] Operation.eval valueOperand temporaryOperand temporary Predicate.holds

/-- The whole part of a number with the given exponent field and significand. -/
def integerPart (format : Format) (exponent significand : ℕ) : ℕ :=
  if format.bias ≤ exponent then
    if format.mantissaBits ≤ exponent - format.bias then
      significand * 2 ^ (exponent - format.bias - format.mantissaBits)
    else significand / 2 ^ (format.mantissaBits - (exponent - format.bias))
  else 0

theorem floor_magnitudeValue (format : Format) (magnitude : ℕ) :
    ⌊format.magnitudeValue magnitude⌋ =
      integerPart format (magnitude / 2 ^ format.mantissaBits)
        (2 ^ format.mantissaBits + magnitude % 2 ^ format.mantissaBits) := by
  have hbias := format.bias_pos
  have hrest := Nat.mod_lt magnitude (show 0 < 2 ^ format.mantissaBits by positivity)
  have hfloor : ⌊format.magnitudeValue magnitude⌋ = (format.units magnitude / format.scale : ℕ) := by
    rw [Format.magnitudeValue]
    exact Rat.floor_natCast_div_natCast ..
  rw [hfloor, Nat.cast_inj, Format.units, integerPart]
  generalize magnitude / 2 ^ format.mantissaBits = exponent
  generalize magnitude % 2 ^ format.mantissaBits = rest at *
  rcases Nat.eq_zero_or_pos exponent with rfl | hpos
  · rw [if_pos rfl, if_neg (by omega), Nat.div_eq_zero_iff]
    exact .inr (hrest.trans_le (Nat.pow_le_pow_right (by norm_num) (by omega)))
  rw [if_neg hpos.ne']
  split
  · rename_i hle
    obtain ⟨whole, rfl⟩ := Nat.exists_eq_add_of_le hle
    have hcancel : (2 ^ format.mantissaBits + rest) * 2 ^ (format.bias + whole - 1) / format.scale =
        (2 ^ format.mantissaBits + rest) * 2 ^ whole / 2 ^ format.mantissaBits := by
      rw [Format.scale, show format.bias + whole - 1 = whole + (format.bias - 1) by omega, pow_add,
        ← mul_assoc, add_comm (format.bias - 1), pow_add]
      exact Nat.mul_div_mul_right _ _ (by positivity)
    rw [hcancel, Nat.add_sub_cancel_left]
    split
    · rename_i hleft
      obtain ⟨shift, rfl⟩ := Nat.exists_eq_add_of_le hleft
      rw [Nat.add_sub_cancel_left, pow_add, mul_left_comm]
      exact Nat.mul_div_cancel_left _ (by positivity)
    · rename_i hright
      obtain ⟨shift, hshift⟩ := Nat.exists_eq_add_of_le (not_le.1 hright).le
      rw [hshift, Nat.add_sub_cancel_left, pow_add, mul_comm (2 ^ whole) (2 ^ shift)]
      exact Nat.mul_div_mul_right _ _ (by positivity)
  · rename_i hgt
    rw [Nat.div_eq_zero_iff]
    right
    calc (2 ^ format.mantissaBits + rest) * 2 ^ (exponent - 1)
        < (2 ^ format.mantissaBits * 2) * 2 ^ (exponent - 1) :=
          Nat.mul_lt_mul_of_pos_right (by omega) (by positivity)
      _ = 2 ^ (exponent + format.mantissaBits) := by
          rw [← pow_succ, ← pow_add]
          congr 1
          omega
      _ ≤ format.scale := Nat.pow_le_pow_right (by norm_num) (by omega)

section Runs

variable {instruction : InstructionId} {result value : ValueId} {env : Environment Name}
  {layout : FloatLayout} {format : Format} {signed negative : Bool}
  {word exponent significand magnitude exponentMask : ℕ}

theorem land_signBit_ne_zero_iff (hword : word < 2 ^ format.storageBits) :
    word &&& format.signBit ≠ 0 ↔ format.signBit ≤ word := by
  have hpos : 0 < format.signBit := by unfold Format.signBit; positivity
  have hlt : word / format.signBit < 2 :=
    Nat.div_lt_of_lt_mul (by rwa [mul_two, ← two_pow_storageBits])
  have hbit : word &&& format.signBit =
      (decide (word / format.signBit % 2 = 1)).toNat * format.signBit := by
    rw [Format.signBit, Nat.and_two_pow, Nat.testBit_eq_decide_div_mod_eq]
  rw [hbit, ← Nat.one_le_div_iff hpos]
  rcases Nat.eq_zero_or_pos (word / format.signBit) with hzero | hone
  · simp [hzero]
  · simp [show word / format.signBit = 1 by omega, hpos.ne']

theorem run_fields (hlayout : LayoutOf layout format)
    (hmask : exponentMask = 2 ^ format.exponentBits - 1)
    (hvalue : env (.value value) = some word) (hword : word < 2 ^ format.storageBits) :
    EndsIn (fieldLines instruction value layout exponentMask) env fun env' ↦
      env' (temporary instruction "negative") = some (decide (format.signBit ≤ word)).toNat ∧
      env' (temporary instruction "exponent_wide") =
        some (word % format.signBit / 2 ^ format.mantissaBits) ∧
      env' (temporary instruction "significand_wide") =
        some (2 ^ format.mantissaBits + word % format.signBit % 2 ^ format.mantissaBits) := by
  have hnarrow := hlayout.narrow
  have hstorage := two_pow_storageBits format
  have hsign : (!decide (word &&& format.signBit = 0)) = decide (format.signBit ≤ word) := by
    rw [← decide_not, decide_eq_decide]
    exact land_signBit_ne_zero_iff hword
  have hexponent : word / 2 ^ format.mantissaBits % 2 ^ format.exponentBits =
      word % format.signBit / 2 ^ format.mantissaBits := by
    rw [Format.signBit, add_comm, pow_add, Nat.mod_mul_right_div_self]
  have hfraction : word % format.signBit % 2 ^ format.mantissaBits =
      word % 2 ^ format.mantissaBits := by
    rw [Format.signBit, add_comm, pow_add, Nat.mod_mul_right_mod]
  have hlow := @lor_low (word % 2 ^ format.mantissaBits) format.mantissaBits 1
    (Nat.mod_lt _ (by positivity))
  rw [one_mul, Nat.or_comm] at hlow
  have hshift : format.mantissaBits < format.storageBits := by
    unfold Format.storageBits
    omega
  simp [fieldLines, hvalue, Cast.eval, hlayout.signMask, hlayout.mantissaBits, hlayout.storageBits,
    hmask, eval_lshr hshift, hexponent, hfraction, hlow, hsign]

theorem run_truncation (hlayout : LayoutOf layout format)
    (hexponent : env (temporary instruction "exponent_wide") = some exponent)
    (hsignificand : env (temporary instruction "significand_wide") = some significand)
    (hpos : 0 < significand) (hlow : exponent < 2 ^ 128)
    (hbound : integerPart format exponent significand < 2 ^ 128) :
    EndsIn (truncationLines instruction layout) env fun env' ↦
      env' (temporary instruction "magnitude") = some (integerPart format exponent significand) ∧
      env' (temporary instruction "negative") = env (temporary instruction "negative") := by
  simp only [temporary] at hexponent hsignificand
  have hnarrow := hlayout.narrow
  have hmantissa : format.mantissaBits < 64 := by
    rw [Format.storageBits] at hnarrow
    omega
  have hright (count : ℕ) (hcount : count < 128) : encode 128 (count : ℤ) = count :=
    encode_natCast (hcount.trans (by norm_num))
  unfold integerPart at hbound ⊢
  rcases lt_or_ge exponent format.bias with hsmall | hwhole
  · simp [truncationLines, hexponent, hsignificand, hlayout.bias, hlayout.mantissaBits,
      hsmall.not_ge, format.mantissa_pos, hright format.mantissaBits (by omega), eval_shl, eval_lshr,
      show format.mantissaBits < 128 by omega]
  · obtain ⟨whole, rfl⟩ := Nat.exists_eq_add_of_le hwhole
    have hraw := encode_natCast ((Nat.le_add_left whole format.bias).trans_lt hlow)
    rw [if_pos hwhole, Nat.add_sub_cancel_left] at hbound ⊢
    rcases lt_or_ge whole format.mantissaBits with hcut | hleft
    · have hshift : encode 128 ((format.mantissaBits : ℤ) - whole) = format.mantissaBits - whole :=
        encode_natCast_sub hcut.le (by omega)
      simp [truncationLines, hexponent, hsignificand, hlayout.bias, hlayout.mantissaBits, hraw, hcut,
        hcut.not_ge, hshift, eval_shl, eval_lshr, show format.mantissaBits - whole < 128 by omega]
    · obtain ⟨shift, rfl⟩ := Nat.exists_eq_add_of_le hleft
      rw [if_pos hleft, Nat.add_sub_cancel_left] at hbound ⊢
      have hshift : shift < 128 := by
        refine (Nat.pow_lt_pow_iff_right (show 1 < 2 by norm_num)).1 (lt_of_le_of_lt ?_ hbound)
        exact Nat.le_mul_of_pos_left _ hpos
      have hmagnitude : encode 128 ((significand : ℤ) * 2 ^ shift) = significand * 2 ^ shift := by
        exact_mod_cast encode_natCast hbound
      push_cast at hraw
      simp [truncationLines, hexponent, hsignificand, hlayout.bias, hlayout.mantissaBits, hraw,
        hright shift hshift, eval_shl, eval_lshr, hshift, hmagnitude]

theorem run_signedResult
    (hmagnitude : env (temporary instruction "magnitude") = some magnitude)
    (hnegative : env (temporary instruction "negative") = some negative.toNat)
    (hbound : magnitude < 2 ^ 128) :
    EndsIn (signedResultLines instruction result signed) env fun env' ↦
      env' (.value result) =
        some (encode 128 (if signed && negative then -(magnitude : ℤ) else magnitude)) := by
  simp only [temporary] at hmagnitude hnegative
  have hword := encode_natCast hbound
  cases signed <;> cases negative <;>
    simp [signedResultLines, negativeOperand, hmagnitude, hnegative, hword]

/-- The magnitude and the sign of a finite number give its truncation. -/
theorem truncate_of_decode (hfinite : format.decode word = .finite number) :
    truncate number =
      if format.signBit ≤ word then -⌊format.magnitudeValue (word % format.signBit)⌋
      else ⌊format.magnitudeValue (word % format.signBit)⌋ := by
  have hnonneg := format.magnitudeValue_nonneg (word % format.signBit)
  rw [Format.value_of_decode hfinite]
  split
  · exact truncate_neg hnonneg
  · exact truncate_of_nonneg hnonneg

theorem run_floatToI128 (hlayout : LayoutOf layout format)
    (hmask : exponentMask = 2 ^ format.exponentBits - 1) (hvalue : env (.value value) = some word)
    (hword : word < 2 ^ format.storageBits) (hfinite : format.decode word = .finite number)
    (hfits : Fits signed 128 (truncate number)) :
    EndsIn (floatToI128Lines instruction result value layout signed exponentMask) env fun env' ↦
      env' (.value result) = some (encode 128 (truncate number)) := by
  have hnarrow := hlayout.narrow
  have htruncate := truncate_of_decode hfinite
  rw [floor_magnitudeValue] at htruncate
  have hpos : 0 < 2 ^ format.mantissaBits +
      word % format.signBit % 2 ^ format.mantissaBits := by positivity
  have hlow : word % format.signBit / 2 ^ format.mantissaBits < 2 ^ 128 :=
    calc word % format.signBit / 2 ^ format.mantissaBits
        ≤ word := (Nat.div_le_self ..).trans (Nat.mod_le ..)
      _ < 2 ^ format.storageBits := hword
      _ ≤ 2 ^ 128 := Nat.pow_le_pow_right (by norm_num) (by omega)
  have hfields := @run_fields instruction value env layout format word exponentMask hlayout hmask
    hvalue hword
  generalize hpart : integerPart format (word % format.signBit / 2 ^ format.mantissaBits)
    (2 ^ format.mantissaBits + word % format.signBit % 2 ^ format.mantissaBits) = part at *
  have hbound : part < 2 ^ 128 := by
    unfold Fits at hfits
    zify
    split at hfits <;> split at htruncate <;> omega
  rw [floatToI128Lines, List.append_assoc]
  refine endsIn_append (hfields.imp fun env₁ ⟨hnegative, hexponent, hsignificand⟩ ↦ ?_)
  refine endsIn_append ((run_truncation hlayout hexponent hsignificand hpos hlow
    (hpart.trans_lt hbound)).imp fun env₂ ⟨hmagnitude, knegative⟩ ↦ ?_)
  rw [hpart] at hmagnitude
  refine (run_signedResult hmagnitude (knegative.trans hnegative) hbound).imp fun env₃ hresult ↦ ?_
  rw [hresult, htruncate]
  cases signed with
  | true => simp
  | false =>
    -- a negative number that fits is truncated to zero
    simp only [Fits, Bool.false_eq_true, if_false] at hfits
    rw [Bool.false_and, if_neg Bool.false_ne_true]
    split
    · rename_i hnegative
      rw [htruncate, if_pos hnegative] at hfits
      rw [show (part : ℤ) = 0 by omega, neg_zero]
    · rfl

end Runs

attribute [local simp] Operation.eval valueOperand temporaryOperand temporary

/-- The format, and the numbers of it in the lines, of a floating kind. -/
inductive FloatKind : CheckedNumericKind → FloatLayout → Format → Prop
  | float32 : FloatKind .float32 layout32 binary32
  | float64 : FloatKind .float64 layout64 binary64

section Bounds

variable {kind destination : CheckedNumericKind} {layout : FloatLayout} {format : Format}
  {exponent bits word : ℕ} {signed : Bool}

section

variable (hkind : FloatKind kind layout format)
include hkind

theorem FloatKind.layoutOf : LayoutOf layout format := by
  cases hkind
  · exact layoutOf_binary32
  · exact layoutOf_binary64

theorem FloatKind.mantissaBits_lt_bias : format.mantissaBits < format.bias := by
  cases hkind <;> decide

theorem decode_floatInfinityBits (negative : Bool) :
    ∃ bound, floatInfinityBits kind negative = .ok bound ∧
      format.decode bound = .infinite negative := by
  cases hkind <;> cases negative <;> exact ⟨_, rfl, by decide⟩

theorem floatPowerOfTwoBits_eq (hexponent : exponent ≤ format.bias) (negative : Bool) :
    floatPowerOfTwoBits kind exponent negative =
      .ok ((if negative then format.signBit else 0) +
        (exponent + format.bias) * 2 ^ format.mantissaBits) := by
  have hpacked (format : Format) (h : exponent ≤ format.bias) :
      (exponent + format.bias) * 2 ^ format.mantissaBits ||| (if negative then format.signBit else 0) =
        (if negative then format.signBit else 0) +
          (exponent + format.bias) * 2 ^ format.mantissaBits := by
    cases negative with
    | false => simp
    | true =>
      have hlt : (exponent + format.bias) * 2 ^ format.mantissaBits < format.signBit := by
        rw [Format.signBit, pow_add, Format.two_pow_exponentBits]
        exact Nat.mul_lt_mul_of_pos_right (by omega) (by positivity)
      have hlow := @lor_low _ (format.exponentBits + format.mantissaBits) 1 hlt
      rwa [one_mul, Nat.or_comm] at hlow
  cases hkind with
  | float32 =>
    have hword := hpacked binary32 hexponent
    rw [floatPowerOfTwoBits, if_pos (show exponent ≤ 127 from hexponent), Nat.shiftLeft_eq]
    exact congrArg Except.ok hword
  | float64 =>
    have hword := hpacked binary64 hexponent
    rw [floatPowerOfTwoBits, if_pos (show exponent ≤ 1023 from hexponent), Nat.shiftLeft_eq]
    exact congrArg Except.ok hword

theorem decode_floatPowerOfTwoBits (hexponent : exponent ≤ format.bias) (negative : Bool) :
    ∃ bound, floatPowerOfTwoBits kind exponent negative = .ok bound ∧
      format.decode bound = .finite (if negative then -2 ^ exponent else 2 ^ exponent) :=
  ⟨_, floatPowerOfTwoBits_eq hkind hexponent negative, Format.decode_powerOfTwo hexponent negative⟩

end

/-- What a lower bound admits: the numbers whose truncation is not below the minimum. -/
def AboveMinimum (minimum : ℤ) (datum : Datum) : Prop :=
  datum = .infinite false ∨ ∃ number, datum = .finite number ∧ minimum ≤ truncate number

/-- What an upper bound admits: the numbers whose truncation is below the limit. -/
def BelowLimit (limit : ℤ) (datum : Datum) : Prop :=
  datum = .infinite true ∨ ∃ number, datum = .finite number ∧ truncate number < limit

theorem ogt_finite_iff (datum : Datum) (bound : ℚ) :
    FloatPredicate.ogt.holds datum (.finite bound) = true ↔
      datum = .infinite false ∨ ∃ number, datum = .finite number ∧ bound < number := by
  rcases datum with _ | (_ | _) | number
  all_goals simp [FloatPredicate.holds, Datum.less]

theorem oge_finite_iff (datum : Datum) (bound : ℚ) :
    FloatPredicate.oge.holds datum (.finite bound) = true ↔
      datum = .infinite false ∨ ∃ number, datum = .finite number ∧ bound ≤ number := by
  rcases datum with _ | (_ | _) | number
  all_goals simp [FloatPredicate.holds, Datum.less, Datum.equal]
  rw [le_iff_lt_or_eq, @eq_comm _ number]

theorem olt_finite_iff (datum : Datum) (bound : ℚ) :
    FloatPredicate.olt.holds datum (.finite bound) = true ↔
      datum = .infinite true ∨ ∃ number, datum = .finite number ∧ number < bound := by
  rcases datum with _ | (_ | _) | number
  all_goals simp [FloatPredicate.holds, Datum.less]

theorem olt_infinite_iff (datum : Datum) :
    FloatPredicate.olt.holds datum (.infinite false) = true ↔
      datum = .infinite true ∨ ∃ number, datum = .finite number := by
  rcases datum with _ | (_ | _) | number
  all_goals simp [FloatPredicate.holds, Datum.less]

/-- The least integer of the destination. -/
def minimumOf (signed : Bool) (bits : ℕ) : ℤ := if signed then -2 ^ (bits - 1) else 0

/-- The number above the greatest integer of the destination. -/
def limitOf (signed : Bool) (bits : ℕ) : ℤ := 2 ^ if signed then bits - 1 else bits

theorem fits_iff_bounds (signed : Bool) (bits : ℕ) (whole : ℤ) :
    Fits signed bits whole ↔ minimumOf signed bits ≤ whole ∧ whole < limitOf signed bits := by
  cases signed <;> rfl

/-- A number is not below the bound when its truncation is not, as there is none between the bound
and the next whole number. -/
theorem neg_le_iff_of_decode (hcount : format.mantissaBits < count)
    (hdecode : format.decode word = .finite number) :
    (-2 ^ count : ℚ) ≤ number ↔ (-2 ^ count : ℤ) ≤ truncate number := by
  have htruncate := @neg_le_truncate_iff number (2 ^ count)
  push_cast at htruncate
  rw [htruncate]
  constructor
  · intro h
    linarith
  · intro h
    rcases lt_or_ge |number| (2 ^ format.mantissaBits) with hsmall | hlarge
    · have hpower : (2 : ℚ) ^ format.mantissaBits ≤ 2 ^ count :=
        pow_le_pow_right₀ (by norm_num) hcount.le
      linarith [(abs_lt.1 hsmall).1]
    · obtain ⟨whole, rfl⟩ := Format.whole_of_decode hdecode hlarge
      have hlt : (-2 ^ count : ℤ) - 1 < whole := by exact_mod_cast h
      have hle : (-2 ^ count : ℤ) ≤ whole := by omega
      exact_mod_cast hle

/-- An exclusive bound, one below the minimum. -/
theorem ogt_exact {minimum : ℕ} {bound : ℚ} (hbound : bound = -(minimum : ℚ) - 1) (datum : Datum) :
    FloatPredicate.ogt.holds datum (.finite bound) = true ↔ AboveMinimum (-minimum) datum := by
  rw [ogt_finite_iff, AboveMinimum, hbound]
  simp only [neg_le_truncate_iff]

theorem decode_negatedFloat (hlt : minimum + 1 < 2 ^ (format.mantissaBits + 1))
    (hbias : format.mantissaBits < format.bias) :
    format.decode (negatedFloat format (minimum + 1)) = .finite (-(minimum : ℚ) - 1) := by
  have hlog : Nat.log 2 (minimum + 1) < format.mantissaBits + 1 :=
    Nat.log_lt_of_lt_pow (Nat.succ_ne_zero _) hlt
  have hdecode := Format.decode_roundMagnitude (show 0 < minimum + 1 by omega) hlt
    (by omega) true
  have hnonneg : (0 : ℚ) ≤ (minimum : ℚ) + 1 := by positivity
  rw [negatedFloat, Format.round]
  push_cast at hdecode ⊢
  rw [if_neg hnonneg.not_gt, abs_of_nonneg hnonneg, Nat.zero_add]
  simpa [neg_add, sub_eq_add_neg, add_comm] using hdecode

section

variable (hkind : FloatKind kind layout format)
  (hdestination : destination = if signed then .signedInteger else .unsignedInteger)
  (hbits : bits ≤ 128)
include hkind hdestination hbits

theorem lowerBound_exact :
    ∃ bound inclusive, floatIntegerLowerBound kind destination bits = .ok (bound, inclusive) ∧
      ∀ word, (if inclusive then FloatPredicate.oge else .ogt).holds (format.decode word)
          (format.decode bound) = true ↔
        AboveMinimum (minimumOf signed bits) (format.decode word) := by
  have hwide := hkind.layoutOf.wide
  have hbias := hkind.mantissaBits_lt_bias
  cases signed with
  | false =>
    have hexact (bound : ℕ) (hdecode : format.decode bound = .finite (-1)) (word : ℕ) :
        (if false then FloatPredicate.oge else .ogt).holds (format.decode word)
            (format.decode bound) = true ↔
          AboveMinimum (minimumOf false bits) (format.decode word) := by
      rw [hdecode]
      exact @ogt_exact 0 (-1) (by norm_num) _
    cases hkind
    · exact ⟨0xbf800000, false, by simp [floatIntegerLowerBound, hdestination]; rfl,
        hexact _ (by decide +kernel)⟩
    · exact ⟨0xbff0000000000000, false, by simp [floatIntegerLowerBound, hdestination]; rfl,
        hexact _ (by decide +kernel)⟩
  | true =>
    have hlower : floatIntegerLowerBound kind destination bits =
        if bits ≤ format.mantissaBits + 1 then
          .ok (negatedFloat format (2 ^ (bits - 1) + 1), false)
        else do return (← floatPowerOfTwoBits kind (bits - 1) true, true) := by
      cases hkind <;> simp [floatIntegerLowerBound, hdestination] <;> rfl
    rw [hlower]
    split
    · rename_i hle
      have hlt : 2 ^ (bits - 1) + 1 < 2 ^ (format.mantissaBits + 1) := by
        have hpos := format.mantissa_pos
        have hhalf : 2 ^ (bits - 1) ≤ 2 ^ format.mantissaBits :=
          Nat.pow_le_pow_right (by norm_num) (by omega)
        have htwo : 2 ^ 1 ≤ 2 ^ format.mantissaBits := Nat.pow_le_pow_right (by norm_num) hpos
        rw [pow_succ]
        omega
      refine ⟨_, false, rfl, fun word ↦ ?_⟩
      rw [decode_negatedFloat hlt hbias]
      have hexact := ogt_exact (@rfl _ (-((2 ^ (bits - 1) : ℕ) : ℚ) - 1)) (format.decode word)
      push_cast at hexact
      simpa [minimumOf] using hexact
    · rename_i hgt
      obtain ⟨bound, hbound, hdecode⟩ :=
        decode_floatPowerOfTwoBits hkind (show bits - 1 ≤ format.bias by omega) true
      refine ⟨bound, true, by rw [hbound]; rfl, fun word ↦ ?_⟩
      rw [hdecode, if_pos rfl, oge_finite_iff, AboveMinimum]
      refine or_congr_right (exists_congr fun number ↦ and_congr_right fun hnumber ↦ ?_)
      exact neg_le_iff_of_decode (by omega) hnumber

theorem upperBound_exact : ∃ bound, floatIntegerUpperBound kind destination bits = .ok bound ∧
      ∀ word, FloatPredicate.olt.holds (format.decode word) (format.decode bound) = true ↔
        BelowLimit (limitOf signed bits) (format.decode word) := by
  have hexponent : floatIntegerUpperBound kind destination bits =
      floatPowerOfTwoBits kind (if signed then bits - 1 else bits) false := by
    rw [floatIntegerUpperBound, hdestination]
    cases signed <;> rfl
  have hadmitted : (if signed then bits - 1 else bits) ≤ 128 := by split <;> omega
  rw [hexponent, limitOf]
  generalize (if signed then bits - 1 else bits) = exponent at *
  have hpower (number : ℚ) : truncate number < 2 ^ exponent ↔ number < 2 ^ exponent := by
    have hlt := @truncate_lt_iff number (2 ^ exponent) (by positivity)
    push_cast at hlt
    exact hlt
  rcases le_or_gt exponent format.bias with hle | hgt
  · obtain ⟨bound, hbound, hdecode⟩ := decode_floatPowerOfTwoBits hkind hle false
    refine ⟨bound, hbound, fun word ↦ ?_⟩
    rw [hdecode, if_neg Bool.false_ne_true, olt_finite_iff, BelowLimit]
    simp only [hpower]
  · -- every finite number is below the infinity that stands for the bound
    obtain ⟨bound, hbound, hdecode⟩ := decode_floatInfinityBits hkind false
    have hinfinity : floatPowerOfTwoBits kind exponent false = .ok bound := by
      rw [← hbound]
      cases hkind
      · exact if_neg (not_le.2 hgt)
      · exact if_neg (not_le.2 hgt)
    refine ⟨bound, hinfinity, fun word ↦ ?_⟩
    rw [hdecode, olt_infinite_iff, BelowLimit]
    refine or_congr_right (exists_congr fun number ↦ (and_iff_left_of_imp fun hnumber ↦ ?_).symm)
    rw [hpower]
    calc number ≤ |number| := le_abs_self _
      _ < 2 ^ (format.bias + 1) := Format.abs_lt_of_decode hnumber
      _ ≤ 2 ^ exponent := pow_le_pow_right₀ (by norm_num) hgt

end

end Bounds

section Runs

variable {instruction : InstructionId} {value : ValueId} {env : Environment Name}
  {kind destination : CheckedNumericKind} {layout : FloatLayout} {format : Format}
  {bits word : ℕ} {signed : Bool} {suffix : String}

/-- The float is finite, and the integer towards zero from it fits the destination. -/
def Convertible (signed : Bool) (bits : ℕ) (datum : Datum) : Prop :=
  ∃ number, datum = .finite number ∧ Fits signed bits (truncate number)

instance (signed : Bool) (bits : ℕ) (datum : Datum) : Decidable (Convertible signed bits datum) :=
  match datum with
  | .nan => isFalse (by rintro ⟨_, h, -⟩; cases h)
  | .infinite _ => isFalse (by rintro ⟨_, h, -⟩; cases h)
  | .finite number => decidable_of_iff (Fits signed bits (truncate number)) (by simp [Convertible])

theorem convertible_iff (signed : Bool) (bits : ℕ) (datum : Datum) :
    Convertible signed bits datum ↔
      AboveMinimum (minimumOf signed bits) datum ∧ BelowLimit (limitOf signed bits) datum := by
  rw [Convertible, AboveMinimum, BelowLimit]
  rcases datum with _ | negative | number
  · simp
  · cases negative <;> simp
  · simp [fits_iff_bounds]

theorem run_rangeTest (hkind : FloatKind kind layout format)
    (hdestination : destination = if signed then .signedInteger else .unsignedInteger)
    (hbits : bits ≤ 128) (hvalue : env (.value value) = some word) :
    ∃ lines, renderFloatIntegerRangeTest instruction value kind destination bits = .ok lines ∧
      EndsIn lines env fun env' ↦
        env' (temporary instruction "failed") =
          some (!decide (Convertible signed bits (format.decode word))).toNat ∧
        env' (.value value) = some word := by
  obtain ⟨lower, inclusive, hlower, habove⟩ := lowerBound_exact hkind hdestination hbits
  obtain ⟨upper, hupper, hbelow⟩ := upperBound_exact hkind hdestination hbits
  have hformat : (if kind = .float32 then binary32 else binary64) = format := by
    cases hkind <;> rfl
  refine ⟨rangeLines instruction value format lower inclusive upper, ?_, ?_⟩
  · rw [renderFloatIntegerRangeTest, hlower, ← hformat]
    simp only [bind, Except.bind, hupper]
    rfl
  · have hpasses : ((if inclusive then FloatPredicate.oge else .ogt).holds (format.decode word)
          (format.decode lower) &&
        FloatPredicate.olt.holds (format.decode word) (format.decode upper)) =
          decide (Convertible signed bits (format.decode word)) := by
      rw [Bool.eq_iff_iff, Bool.and_eq_true, habove, hbelow, decide_eq_true_iff, convertible_iff]
    simp [rangeLines, notFailedLine, hvalue, hpasses]

theorem run_infinityTest (hkind : FloatKind kind layout format) :
    ∃ lines, renderFloatInfinityTest instruction value kind suffix = .ok lines ∧
      ∀ (env : Environment Name) (word : ℕ), env (.value value) = some word →
        EndsIn lines env fun env' ↦
          env' (temporary instruction suffix) =
            some (decide (∃ negative, format.decode word = .infinite negative)).toNat ∧
          env' (.value value) = some word := by
  obtain ⟨positive, hpositive, hdecodePositive⟩ := decode_floatInfinityBits hkind false
  obtain ⟨negative, hnegative, hdecodeNegative⟩ := decode_floatInfinityBits hkind true
  have hformat : floatFormat kind "an integer reached a floating infinity check" = .ok format := by
    cases hkind <;> rfl
  refine ⟨infinityLines instruction value format positive negative suffix, ?_,
    fun env word hvalue ↦ ?_⟩
  · rw [renderFloatInfinityTest, hformat]
    simp only [bind, Except.bind, hpositive, hnegative]
    rfl
  · have hinfinite (datum : Datum) : (datum.equal (.infinite false) || datum.equal (.infinite true)) =
        decide (∃ negative, datum = .infinite negative) := by
      rcases datum with _ | sign | number
      · simp [Datum.equal]
      · cases sign <;> simp [Datum.equal]
      · simp [Datum.equal]
    simp [infinityLines, hvalue, FloatPredicate.holds, hdecodePositive, hdecodeNegative, hinfinite]

end Runs

end Wrela.Codegen
