import Mathlib.Data.Nat.Size
import Wrela.Codegen.CheckedConversion
import Wrela.Ieee.Integers

/-!
# Integers of 128 bits are rounded to floats

The lines shift the magnitude to the precision, round what was shifted out and pack the result; the
word is that of the rounded integer.
-/

namespace Wrela.Codegen

open Wrela.Data Wrela.Llvm Wrela.Machine Wrela.Ieee

attribute [local simp] Operation.eval valueOperand temporaryOperand temporary Predicate.holds

/-- The numbers that stand in the lines are those of the format. -/
structure LayoutOf (layout : FloatLayout) (format : Format) : Prop where
  precision : layout.precision = format.mantissaBits + 1
  mantissaBits : layout.mantissaBits = format.mantissaBits
  bias : layout.bias = format.bias
  storageBits : layout.storageBits = format.storageBits
  signMask : layout.signMask = format.signBit
  narrow : format.storageBits ≤ 64
  wide : 127 ≤ format.bias

theorem layoutOf_binary32 : LayoutOf layout32 binary32 := by
  constructor <;> decide

theorem layoutOf_binary64 : LayoutOf layout64 binary64 := by
  constructor <;> decide

section Runs

variable {instruction : InstructionId} {result value : ValueId} {env : Environment Name}
  {layout : FloatLayout} {format : Format} {signed : Bool}
  {word magnitude exponent significand shift : ℕ} {zero negative large up : Bool}

theorem leadingZeros_eq (hpos : 0 < magnitude) :
    leadingZeros 128 magnitude = 127 - Nat.log 2 magnitude := by
  have hsize : magnitude.size = Nat.log 2 magnitude + 1 := by
    refine le_antisymm (Nat.size_le.2 (Nat.lt_pow_succ_log_self (by norm_num) _)) ?_
    exact Nat.lt_size.2 (Nat.pow_log_le_self 2 hpos.ne')
  rw [leadingZeros, hsize]
  omega

theorem log_lt (hlt : magnitude < 2 ^ 128) : Nat.log 2 magnitude < 128 := by
  rcases Nat.eq_zero_or_pos magnitude with rfl | hpos
  · norm_num
  · exact Nat.log_lt_of_lt_pow hpos.ne' hlt

theorem select_exponent (hlt : magnitude < 2 ^ 128) :
    (if magnitude = 0 then some 0 else some (encode 128 (127 - (leadingZeros 128 magnitude : ℤ)))) =
      some (Nat.log 2 magnitude) := by
  have hlog := log_lt hlt
  split
  · rename_i hzero
    simp [hzero]
  · rename_i hnonzero
    rw [leadingZeros_eq (Nat.pos_of_ne_zero hnonzero)]
    have hword := @encode_natCast 128 (Nat.log 2 magnitude) (by omega)
    rw [show (127 : ℤ) - ((127 - Nat.log 2 magnitude : ℕ) : ℤ) = Nat.log 2 magnitude by omega, hword]

theorem run_magnitudeExponent (hvalue : env (.value value) = some word) (hword : word < 2 ^ 128) :
    EndsIn (magnitudeExponentLines instruction value signed) env fun env' ↦
      env' (temporary instruction "magnitude") = some (interpret signed 128 word).natAbs ∧
      env' (temporary instruction "exponent") =
        some (Nat.log 2 (interpret signed 128 word).natAbs) ∧
      env' (temporary instruction "zero") =
        some (decide ((interpret signed 128 word).natAbs = 0)).toNat ∧
      env' (temporary instruction "negative") =
        some (decide (interpret true 128 word < 0)).toNat := by
  have habs := @abs_interpret_lt signed 128 word (by norm_num) hword
  have hlt : (interpret signed 128 word).natAbs < 2 ^ 128 := by
    zify
    exact habs
  cases signed with
  | false =>
    have hsame : (interpret false 128 word).natAbs = word := by simp [interpret]
    rw [hsame] at hlt ⊢
    simp [magnitudeExponentLines, hvalue, negativeOperand, select_exponent hlt]
  | true =>
    simp [magnitudeExponentLines, hvalue, negativeOperand, select_natAbs hword,
      select_exponent hlt, -Int.natAbs_eq_zero]

theorem run_significand (hlayout : LayoutOf layout format)
    (hmagnitude : env (temporary instruction "magnitude") = some magnitude)
    (hexponent : env (temporary instruction "exponent") = some (Nat.log 2 magnitude))
    (hzero : env (temporary instruction "zero") = some zero.toNat)
    (hnegative : env (temporary instruction "negative") = some negative.toNat)
    (hlt : magnitude < 2 ^ 128) :
    EndsIn (significandLines instruction layout) env fun env' ↦
      env' (temporary instruction "large") =
        some (decide (format.mantissaBits ≤ Nat.log 2 magnitude)).toNat ∧
      env' (temporary instruction "right_shift") =
        some (Nat.log 2 magnitude - format.mantissaBits) ∧
      env' (temporary instruction "significand") = some (format.cutSignificand magnitude) ∧
      env' (temporary instruction "magnitude") = some magnitude ∧
      env' (temporary instruction "exponent") = some (Nat.log 2 magnitude) ∧
      env' (temporary instruction "zero") = some zero.toNat ∧
      env' (temporary instruction "negative") = some negative.toNat := by
  simp only [temporary] at hmagnitude hexponent hzero hnegative
  have hprecision : layout.precision - 1 = format.mantissaBits := by
    rw [hlayout.precision, Nat.add_sub_cancel]
  have hlog := log_lt hlt
  have hnarrow := hlayout.narrow
  have hpower := Nat.lt_pow_succ_log_self (show 1 < 2 by norm_num) magnitude
  simp [significandLines, hmagnitude, hexponent, hzero, hnegative, hprecision,
    Format.cutSignificand]
  generalize Nat.log 2 magnitude = exponent at *
  have hmantissa : format.mantissaBits < 64 := by
    unfold Format.storageBits at hnarrow
    omega
  rcases lt_or_ge exponent format.mantissaBits with hsmall | hlarge
  · have hshift : encode 128 ((format.mantissaBits : ℤ) - exponent) =
        format.mantissaBits - exponent := encode_natCast_sub hsmall.le (by omega)
    have hfits : encode 128 ((magnitude : ℤ) * 2 ^ (format.mantissaBits - exponent)) =
        magnitude * 2 ^ (format.mantissaBits - exponent) := by
      have hproduct : magnitude * 2 ^ (format.mantissaBits - exponent) < 2 ^ 128 :=
        calc magnitude * 2 ^ (format.mantissaBits - exponent)
            < 2 ^ (exponent + 1) * 2 ^ (format.mantissaBits - exponent) :=
              Nat.mul_lt_mul_of_pos_right hpower (by positivity)
          _ = 2 ^ (format.mantissaBits + 1) := by
              rw [← pow_add]
              congr 1
              omega
          _ ≤ 2 ^ 128 := Nat.pow_le_pow_right (by norm_num) (by omega)
      exact_mod_cast encode_natCast hproduct
    simp [hsmall, hsmall.not_ge, hshift, eval_lshr, eval_shl,
      show format.mantissaBits - exponent < 128 by omega, show exponent - format.mantissaBits = 0 by omega,
      hfits]
  · have hshift : encode 128 ((exponent : ℤ) - format.mantissaBits) =
        exponent - format.mantissaBits := encode_natCast_sub hlarge (by omega)
    simp [hlarge, hlarge.not_gt, hshift, eval_lshr, eval_shl,
      show exponent - format.mantissaBits < 128 by omega]

theorem run_remainder
    (hmagnitude : env (temporary instruction "magnitude") = some magnitude)
    (hright : env (temporary instruction "right_shift") = some shift) (hshift : shift < 128) :
    EndsIn (remainderLines instruction) env fun env' ↦
      env' (temporary instruction "shift_nonzero") = some (decide (shift ≠ 0)).toNat ∧
      env' (temporary instruction "half") = some (2 ^ (shift - 1)) ∧
      env' (temporary instruction "remainder") = some (magnitude % 2 ^ shift) ∧
      env' (temporary instruction "large") = env (temporary instruction "large") ∧
      env' (temporary instruction "significand") = env (temporary instruction "significand") ∧
      env' (temporary instruction "exponent") = env (temporary instruction "exponent") ∧
      env' (temporary instruction "zero") = env (temporary instruction "zero") ∧
      env' (temporary instruction "negative") = env (temporary instruction "negative") := by
  simp only [temporary] at hmagnitude hright
  have hbit (count : ℕ) (hcount : count < 128) : encode 128 (2 ^ count) = 2 ^ count := by
    exact_mod_cast @encode_natCast 128 (2 ^ count) (Nat.pow_lt_pow_right (by norm_num) hcount)
  have hmask : encode 128 (2 ^ shift - 1) = 2 ^ shift - 1 := by
    have hpower := Nat.pow_lt_pow_right (show 1 < 2 by norm_num) hshift
    exact_mod_cast @encode_natCast_sub 128 (2 ^ shift) 1 Nat.one_le_two_pow hpower
  rcases Nat.eq_zero_or_pos shift with rfl | hpos
  · have hone := hbit 0 (by norm_num)
    simp at hone
    simp [remainderLines, hmagnitude, hright, eval_shl, hone]
    exact (Nat.mod_one _).symm
  · have hhalf : encode 128 ((shift : ℤ) - 1) = shift - 1 := by
      exact_mod_cast @encode_natCast_sub 128 shift 1 hpos (by omega)
    simp [remainderLines, hmagnitude, hright, eval_shl, hshift, hpos.ne', hhalf,
      show shift - 1 < 128 by omega, hbit, hmask]

/-- Whether a shifted number is rounded up. -/
def roundsUp (large : Bool) (shift magnitude significand : ℕ) : Bool :=
  large && decide (shift ≠ 0) && (decide (2 ^ (shift - 1) < magnitude % 2 ^ shift) ||
    (decide (magnitude % 2 ^ shift = 2 ^ (shift - 1)) && decide (Odd significand)))

theorem run_roundUp
    (hlarge : env (temporary instruction "large") = some large.toNat)
    (hnonzero : env (temporary instruction "shift_nonzero") = some (decide (shift ≠ 0)).toNat)
    (hhalf : env (temporary instruction "half") = some (2 ^ (shift - 1)))
    (hremainder : env (temporary instruction "remainder") = some (magnitude % 2 ^ shift))
    (hsignificand : env (temporary instruction "significand") = some significand) :
    EndsIn (roundUpLines instruction) env fun env' ↦
      env' (temporary instruction "round_up") =
        some (roundsUp large shift magnitude significand).toNat ∧
      env' (temporary instruction "significand") = some significand ∧
      env' (temporary instruction "exponent") = env (temporary instruction "exponent") ∧
      env' (temporary instruction "zero") = env (temporary instruction "zero") ∧
      env' (temporary instruction "negative") = env (temporary instruction "negative") := by
  simp only [temporary] at hlarge hnonzero hhalf hremainder hsignificand
  have hodd : (!decide (significand % 2 = 0)) = decide (Odd significand) := by
    rw [← decide_not, decide_eq_decide, Nat.odd_iff]
    omega
  simp [roundUpLines, hlarge, hnonzero, hhalf, hremainder, hsignificand, roundsUp, hodd]

theorem run_normalize (hlayout : LayoutOf layout format)
    (hup : env (temporary instruction "round_up") = some up.toNat)
    (hsignificand : env (temporary instruction "significand") = some significand)
    (hexponent : env (temporary instruction "exponent") = some exponent)
    (hsmall : significand < 2 ^ 127) (hlow : exponent < 128) :
    EndsIn (normalizeLines instruction layout) env fun env' ↦
      env' (temporary instruction "normalized") =
        some (if significand + up.toNat = 2 ^ (format.mantissaBits + 1) then
            2 ^ format.mantissaBits
          else significand + up.toNat) ∧
      env' (temporary instruction "final_exponent") =
        some (exponent + (decide (significand + up.toNat = 2 ^ (format.mantissaBits + 1))).toNat) ∧
      env' (temporary instruction "zero") = env (temporary instruction "zero") ∧
      env' (temporary instruction "negative") = env (temporary instruction "negative") := by
  simp only [temporary] at hup hsignificand hexponent
  have hflag := Bool.toNat_le up
  have hrounded : encode 128 ((significand : ℤ) + up.toNat) = significand + up.toNat := by
    exact_mod_cast @encode_natCast 128 (significand + up.toNat) (by omega)
  have hexponents (carry : Bool) : encode 128 ((exponent : ℤ) + carry.toNat) =
      exponent + carry.toNat := by
    have hcarry := Bool.toNat_le carry
    exact_mod_cast @encode_natCast 128 (exponent + carry.toNat) (by omega)
  simp [normalizeLines, hup, hsignificand, hexponent, hlayout.precision, Cast.eval, hrounded,
    hexponents]
  exact (apply_ite some ..).symm

theorem wholeSignificand_eq (format : Format) (magnitude : ℕ) :
    format.wholeSignificand magnitude = format.cutSignificand magnitude +
      (roundsUp (decide (format.mantissaBits ≤ Nat.log 2 magnitude))
        (Nat.log 2 magnitude - format.mantissaBits) magnitude
        (format.cutSignificand magnitude)).toNat := by
  unfold Format.wholeSignificand Format.cutSignificand shiftToEven roundsUp
  by_cases hle : format.mantissaBits ≤ Nat.log 2 magnitude
  · simp only [hle, if_true, decide_true, Bool.true_and]
    generalize Nat.log 2 magnitude - format.mantissaBits = shift
    congr 1
    rcases Nat.eq_zero_or_pos shift with rfl | hpos
    · simp [Nat.mod_one]
    · obtain ⟨half, hhalf⟩ : ∃ half, 2 ^ (shift - 1) = half := ⟨_, rfl⟩
      have hsplit := two_pow_split hpos
      rw [hsplit, hhalf]
      by_cases hgreater : half < magnitude % (2 * half) <;>
        by_cases hequal : magnitude % (2 * half) = half <;>
        by_cases hodd : Odd (magnitude / (2 * half)) <;>
        simp [hpos.ne', hgreater, hequal, hodd]
  · simp [hle]

theorem signBit_lt (hlayout : LayoutOf layout format) : format.signBit < 2 ^ 64 := by
  have hnarrow := hlayout.narrow
  rw [Format.storageBits] at hnarrow
  exact Nat.pow_lt_pow_right (by norm_num) (by omega)

theorem two_pow_storageBits (format : Format) :
    2 ^ format.storageBits = format.signBit + format.signBit := by
  rw [Format.storageBits, Format.signBit, pow_succ, mul_two]

theorem run_pack (hlayout : LayoutOf layout format)
    (hexponent : env (temporary instruction "final_exponent") = some exponent)
    (hsignificand : env (temporary instruction "normalized") = some significand)
    (hzero : env (temporary instruction "zero") = some zero.toNat)
    (hnegative : env (temporary instruction "negative") = some negative.toNat)
    (hbound : (exponent + format.bias) * 2 ^ format.mantissaBits +
      significand % 2 ^ format.mantissaBits < format.signBit) :
    EndsIn (packLines instruction result layout signed) env fun env' ↦
      env' (.value result) = some (if zero then 0
        else (if signed && negative then format.signBit else 0) +
          ((exponent + format.bias) * 2 ^ format.mantissaBits +
            significand % 2 ^ format.mantissaBits)) := by
  simp only [temporary] at hexponent hsignificand hzero hnegative
  have hpos : 0 < 2 ^ format.mantissaBits := by positivity
  have hnarrow := hlayout.narrow
  have hsign := signBit_lt hlayout
  have hstorage := two_pow_storageBits format
  have hshift : format.mantissaBits < 128 := by
    rw [Format.storageBits] at hnarrow
    omega
  have hraised : (exponent + format.bias) * 2 ^ format.mantissaBits < 2 ^ 128 := by omega
  have hbiased : encode 128 ((exponent : ℤ) + format.bias) = exponent + format.bias := by
    exact_mod_cast encode_natCast ((Nat.le_mul_of_pos_right _ hpos).trans_lt hraised)
  have hshifted : encode 128 (((exponent : ℤ) + format.bias) * 2 ^ format.mantissaBits) =
      (exponent + format.bias) * 2 ^ format.mantissaBits := by
    exact_mod_cast encode_natCast hraised
  have hor := lor_low (exponent + format.bias) (Nat.mod_lt significand hpos)
  generalize hmagnitude : (exponent + format.bias) * 2 ^ format.mantissaBits +
    significand % 2 ^ format.mantissaBits = magnitude at *
  have hsigned : magnitude ||| format.signBit = format.signBit + magnitude := by
    have hlow := @lor_low magnitude (format.exponentBits + format.mantissaBits) 1 hbound
    rwa [one_mul, Nat.or_comm] at hlow
  cases signed <;> cases zero <;> cases negative <;>
    simp [packLines, negativeOperand, hexponent, hsignificand, hzero, hnegative, Cast.eval,
      hlayout.bias, hlayout.mantissaBits, hlayout.signMask, hlayout.storageBits, hbiased,
      eval_shl hshift, hshifted, hor, hsigned] <;>
    exact Nat.mod_eq_of_lt (by omega)

theorem roundMagnitude_natCast (hpos : 0 < magnitude) (hlog : Nat.log 2 magnitude ≤ format.bias) :
    format.roundMagnitude magnitude = format.roundUnits (magnitude * format.scale) :=
  Nat.min_eq_right (Format.roundUnits_le_infinity hpos hlog)

theorem packed_lt (hlayout : LayoutOf layout format) (hexponent : exponent < 128) (carry : Bool)
    (significand : ℕ) :
    (exponent + carry.toNat + format.bias) * 2 ^ format.mantissaBits +
      significand % 2 ^ format.mantissaBits < format.signBit := by
  have hwide := hlayout.wide
  have hcarry := Bool.toNat_le carry
  have hrest := Nat.mod_lt significand (show 0 < 2 ^ format.mantissaBits by positivity)
  rw [Format.signBit, pow_add, Format.two_pow_exponentBits]
  calc (exponent + carry.toNat + format.bias) * 2 ^ format.mantissaBits +
        significand % 2 ^ format.mantissaBits
      < (exponent + carry.toNat + format.bias + 1) * 2 ^ format.mantissaBits := by
        rw [Nat.succ_mul]
        omega
    _ ≤ (2 * format.bias + 2) * 2 ^ format.mantissaBits := Nat.mul_le_mul_right _ (by omega)

theorem cutSignificand_lt (hlayout : LayoutOf layout format) (magnitude : ℕ) :
    format.cutSignificand magnitude < 2 ^ 127 := by
  have hnarrow := hlayout.narrow
  rw [Format.storageBits] at hnarrow
  rcases Nat.eq_zero_or_pos magnitude with rfl | hpos
  · simp [Format.cutSignificand]
  · exact (Format.cutSignificand_bounds hpos).2.trans_le
      (Nat.pow_le_pow_right (by norm_num) (by omega))

theorem run_i128ToFloat (hlayout : LayoutOf layout format)
    (hvalue : env (.value value) = some word) (hword : word < 2 ^ 128) :
    EndsIn (i128ToFloatLines instruction result value layout signed) env fun env' ↦
      env' (.value result) = some (format.round (interpret signed 128 word)) := by
  have habs := @abs_interpret_lt signed 128 word (by norm_num) hword
  have hlt : (interpret signed 128 word).natAbs < 2 ^ 128 := by
    zify
    exact habs
  have hlog := log_lt hlt
  have hstart := @run_magnitudeExponent instruction value env signed word hvalue hword
  have hsign : (signed && decide (interpret true 128 word < 0)) =
      decide (interpret signed 128 word < 0) := by
    cases signed <;> simp [interpret]
  have hround : format.round (interpret signed 128 word) =
      (if decide (interpret signed 128 word < 0) then format.signBit else 0) +
        format.roundMagnitude (interpret signed 128 word).natAbs := by
    simp [Format.round, Nat.cast_natAbs]
  rw [hround, ← hsign]
  generalize hnatAbs : (interpret signed 128 word).natAbs = magnitude at *
  simp only [i128ToFloatLines, List.append_assoc]
  apply endsIn_append
  refine hstart.imp ?_
  rintro env₁ ⟨hmagnitude, hexponent, hzero, hnegative⟩
  apply endsIn_append
  refine (run_significand hlayout hmagnitude hexponent hzero hnegative hlt).imp ?_
  rintro env₂ ⟨hlarge, hshift, hsignificand, hmagnitude, hexponent, hzero, hnegative⟩
  apply endsIn_append
  refine (run_remainder hmagnitude hshift (by omega)).imp ?_
  rintro env₃
    ⟨hnonzero, hhalf, hremainder, klarge, ksignificand, kexponent, kzero, knegative⟩
  apply endsIn_append
  refine (run_roundUp (klarge.trans hlarge) hnonzero hhalf hremainder
    (ksignificand.trans hsignificand)).imp ?_
  rintro env₄ ⟨hup, hsignificand, kexponent', kzero', knegative'⟩
  apply endsIn_append
  refine (run_normalize hlayout hup hsignificand (kexponent'.trans (kexponent.trans hexponent))
    (cutSignificand_lt hlayout magnitude) hlog).imp ?_
  rintro env₅ ⟨hnormalized, hfinal, kzero'', knegative''⟩
  rw [← wholeSignificand_eq] at hnormalized hfinal
  refine (run_pack hlayout hfinal hnormalized (kzero''.trans (kzero'.trans (kzero.trans hzero)))
    (knegative''.trans (knegative'.trans (knegative.trans hnegative)))
    (packed_lt hlayout hlog _ _)).imp fun env₆ hresult ↦ ?_
  rw [hresult]
  rcases Nat.eq_zero_or_pos magnitude with rfl | hpos
  · rw [Int.natAbs_eq_zero] at hnatAbs
    simp [hsign, hnatAbs, Format.roundMagnitude, Format.round_zero]
  · have hwide := hlayout.wide
    have hpacked := @Format.roundUnits_packed format magnitude hpos _ rfl
    simp only [decide_eq_true_eq] at hpacked
    rw [roundMagnitude_natCast hpos (by omega), ← hpacked]
    simp [hpos.ne']

end Runs

end Wrela.Codegen
