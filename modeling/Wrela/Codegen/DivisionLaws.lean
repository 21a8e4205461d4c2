import Wrela.Codegen.CheckedInteger

/-!
# Long division is exact

The 128 steps leave the quotient and the remainder of the magnitudes, and the sign is then that of
the truncated division.
-/

namespace Wrela.Codegen

open Wrela.Data Wrela.Llvm Wrela.Machine

attribute [local simp] Operation.eval valueOperand temporaryOperand temporary numberedOperand numbered
  Predicate.holds

variable {instruction : InstructionId} {result left right : ValueId} {env env' : Environment Name}
  {dividend divisor k : ℕ}

/-- The state of a long division after the first `k` bits of the dividend. -/
structure Divided (instruction : InstructionId) (dividend divisor k : ℕ) (env : Environment Name) :
    Prop where
  left : env (temporary instruction "division_left") = some dividend
  right : env (temporary instruction "division_right") = some divisor
  remainder : env (numbered instruction "division_remainder" k) =
    some (leadingPart 128 dividend k % divisor)
  quotient : env (numbered instruction "division_quotient" k) =
    some (leadingPart 128 dividend k / divisor * 2 ^ (128 - k))

/-- Only numbered names are assigned. -/
def KeepsUnnumbered (env env' : Environment Name) : Prop :=
  ∀ name, (∀ discriminator suffix step, name ≠ .numbered discriminator suffix step) →
    env' name = env name

theorem run_divisionStep (h : Divided instruction dividend divisor k env) (hk : k < 128)
    (hdividend : dividend < 2 ^ 128) (hdivisor : 0 < divisor) :
    EndsIn (divisionStepLines instruction k) env fun env' ↦
      Divided instruction dividend divisor (k + 1) env' ∧ KeepsUnnumbered env env' := by
  obtain ⟨hleft, hright, hremainder, hquotient⟩ := h
  simp only [temporary, numbered] at hleft hright hremainder hquotient
  have hlead := @leadingPart_succ 128 dividend k hk
  have hlt : leadingPart 128 dividend k < 2 ^ 127 :=
    (leadingPart_lt hdividend hk.le).trans_le (Nat.pow_le_pow_right (by norm_num) (by omega))
  generalize leadingPart 128 dividend k = lead at *
  have hbit := Nat.mod_lt (dividend / 2 ^ (127 - k)) (show 0 < 2 by norm_num)
  generalize hbitdef : dividend / 2 ^ (127 - k) % 2 = bit at *
  have hmod := @mod_two_mul_add lead divisor _ bit hdivisor hbit rfl
  have hdiv := @div_two_mul_add lead divisor _ bit hdivisor hbit rfl
  have hsmall : lead % divisor ≤ lead := Nat.mod_le _ _
  generalize lead % divisor = rest at *
  generalize lead / divisor = whole at *
  have hcandidate : encode 128 (rest * 2) ||| bit = 2 * rest + bit := by
    have hword := @encode_natCast 128 (rest * 2) (by omega)
    push_cast at hword
    rw [hword]
    simpa [mul_comm] using @lor_low bit 1 rest hbit
  have hset : whole * 2 ^ (128 - k) ||| 2 ^ (127 - k) = (2 * whole + 1) * 2 ^ (127 - k) := by
    rw [show 128 - k = 127 - k + 1 by omega, lor_low _ (Nat.pow_lt_pow_succ (by norm_num))]
    ring
  have hkeep : whole * 2 ^ (128 - k) = 2 * whole * 2 ^ (127 - k) := by
    rw [show 128 - k = 127 - k + 1 by omega]
    ring
  have hnext : 128 - (k + 1) = 127 - k := by omega
  rcases le_or_gt divisor (2 * rest + bit) with henough | hshort
  · have hreduced : encode 128 (2 * ↑rest + ↑bit - ↑divisor) = 2 * rest + bit - divisor := by
      have hword := @encode_natCast 128 (2 * rest + bit - divisor) (by omega)
      rw [Nat.cast_sub henough] at hword
      exact_mod_cast hword
    simp +contextual [divisionStepLines, hleft, hright, hremainder, hquotient, KeepsUnnumbered,
      eval_lshr, eval_shl, show 127 - k < 128 by omega, hbitdef, hcandidate, henough.not_gt, henough,
      hset, hreduced]
    constructor <;> simp [hleft, hright, hlead, hmod, hdiv, henough, hnext]
  · simp +contextual [divisionStepLines, hleft, hright, hremainder, hquotient, KeepsUnnumbered,
      eval_lshr, eval_shl, show 127 - k < 128 by omega, hbitdef, hcandidate, hshort, hshort.not_ge]
    constructor <;> simp [hleft, hright, hlead, hmod, hdiv, hshort.not_ge, hnext, hkeep]

/-- The steps for the first `k` bits. -/
theorem run_divisionSteps (h : Divided instruction dividend divisor 0 env) (hk : k ≤ 128)
    (hdividend : dividend < 2 ^ 128) (hdivisor : 0 < divisor) :
    EndsIn ((List.range k).flatMap (divisionStepLines instruction)) env fun env' ↦
      Divided instruction dividend divisor k env' ∧ KeepsUnnumbered env env' := by
  induction k with
  | zero => exact endsIn_nil.2 ⟨h, fun _ _ ↦ rfl⟩
  | succ k ih =>
    rw [List.range_succ, List.flatMap_append, List.flatMap_singleton]
    refine endsIn_append ((ih (by omega)).imp fun middle ⟨hdivided, hkeeps⟩ ↦ ?_)
    refine (run_divisionStep hdivided (by omega) hdividend hdivisor).imp fun last hlast ↦ ?_
    exact ⟨hlast.1, fun name hname ↦ (hlast.2 name hname).trans (hkeeps name hname)⟩

def isSigned : IntegerSignedness → Bool
  | .unsigned => false
  | .signed => true

theorem tdiv_eq_natAbs (left right : ℤ) :
    left.tdiv right = if decide (left < 0) ^^ decide (right < 0) then
      -((left.natAbs / right.natAbs : ℕ) : ℤ) else ((left.natAbs / right.natAbs : ℕ) : ℤ) := by
  rcases le_or_gt 0 left with hleft | hleft <;> rcases le_or_gt 0 right with hright | hright
  · simp only [hleft.not_gt, hright.not_gt, decide_false, Bool.xor_false, Bool.false_eq_true,
      if_false]
    lift left to ℕ using hleft
    lift right to ℕ using hright
    simp
  · simp only [hleft.not_gt, hright, decide_false, decide_true, Bool.false_xor, if_true]
    lift left to ℕ using hleft
    obtain ⟨right, rfl⟩ := Int.exists_eq_neg_ofNat hright.le
    simp [Int.tdiv_neg]
  · simp only [hleft, hright.not_gt, decide_false, decide_true, Bool.xor_false, if_true]
    obtain ⟨left, rfl⟩ := Int.exists_eq_neg_ofNat hleft.le
    lift right to ℕ using hright
    simp [Int.neg_tdiv]
  · simp only [hleft, hright, decide_true, Bool.xor_self, Bool.false_eq_true, if_false]
    obtain ⟨left, rfl⟩ := Int.exists_eq_neg_ofNat hleft.le
    obtain ⟨right, rfl⟩ := Int.exists_eq_neg_ofNat hright.le
    simp [Int.neg_tdiv, Int.tdiv_neg]

theorem tmod_eq_natAbs (left right : ℤ) :
    left.tmod right = if decide (left < 0) then -((left.natAbs % right.natAbs : ℕ) : ℤ)
      else ((left.natAbs % right.natAbs : ℕ) : ℤ) := by
  rcases le_or_gt 0 left with hleft | hleft
  · simp only [hleft.not_gt, decide_false, Bool.false_eq_true, if_false]
    lift left to ℕ using hleft
    simp [Int.tmod_eq_emod_of_nonneg]
  · simp only [hleft, decide_true, if_true]
    obtain ⟨left, rfl⟩ := Int.exists_eq_neg_ofNat hleft.le
    simp [Int.neg_tmod, Int.tmod_eq_emod_of_nonneg]

theorem interpret_false_not_neg (width word : ℕ) :
    decide (interpret false width word < 0) = false := by
  simp [interpret]

theorem encode_neg_interpret (signed : Bool) (width word : ℕ) :
    encode width (-(interpret signed width word)) = encode width (-(word : ℤ)) :=
  encode_congr (Int.ModEq.neg (interpret_emod signed width word))

/-- The magnitude of a word is the word or its negation. -/
theorem select_natAbs (hword : word < 2 ^ 128) :
    (if 0 ≤ interpret true 128 word then some word else some (encode 128 (-(word : ℤ)))) =
      some (interpret true 128 word).natAbs := by
  have habs := @abs_interpret_lt true 128 word (by norm_num) hword
  split
  · rename_i hnonneg
    have hcast := @encode_interpret true 128 word hword
    rw [← Int.natAbs_of_nonneg hnonneg, encode_natCast (by zify; exact habs)] at hcast
    rw [hcast]
  · rename_i hneg
    rw [← encode_neg_interpret true, ← Int.ofNat_natAbs_of_nonpos (not_le.1 hneg).le,
      encode_natCast (by zify; exact habs)]

section Signs

variable {signedness : IntegerSignedness} {l r : ℕ} {lines : Code}

theorem run_magnitude (hl : env (.value left) = some l) (hr : env (.value right) = some r)
    (hlb : l < 2 ^ 128) (hrb : r < 2 ^ 128) :
    EndsIn (magnitudeLines instruction left right signedness) env fun env' ↦
      Divided instruction (interpret (isSigned signedness) 128 l).natAbs
        (interpret (isSigned signedness) 128 r).natAbs 0 env' ∧
      env' (temporary instruction "division_left_negative") =
        some (decide (interpret true 128 l < 0)).toNat ∧
      env' (temporary instruction "division_right_negative") =
        some (decide (interpret true 128 r < 0)).toNat := by
  have hlead : leadingPart 128 (interpret (isSigned signedness) 128 l).natAbs 0 = 0 := by
    refine leadingPart_zero ?_
    have habs := @abs_interpret_lt (isSigned signedness) 128 l (by norm_num) hlb
    zify
    exact habs
  cases signedness with
  | unsigned =>
    have hsame (word : ℕ) : (interpret (isSigned .unsigned) 128 word).natAbs = word := by
      simp [isSigned, interpret]
    simp only [hsame] at hlead ⊢
    simp [magnitudeLines, hl, hr, signTest]
    constructor <;> simp [hlead]
  | signed =>
    simp only [isSigned] at hlead ⊢
    simp [magnitudeLines, hl, hr, signTest, select_natAbs hlb, select_natAbs hrb]
    constructor <;> simp [hlead]

/-- The result is the unsigned one, negated for a negative sign. -/
theorem run_signFix (sign : Bool) (hfinal : env (numbered instruction final 128) = some unsigned)
    (hnegative : negative.eval
      (env.set (temporary instruction "division_unsigned_result") unsigned) = some sign.toNat) :
    EndsIn (signFixLines instruction result signedness final negative) env fun env' ↦
      env' (.value result) =
        some (if isSigned signedness && sign then encode 128 (-unsigned) else unsigned) := by
  simp only [temporary, numbered] at hfinal hnegative
  cases signedness <;> cases sign <;>
    simp_all [signFixLines, signTest, isSigned]

theorem run_unsignedDivision (hl : env (.value left) = some l) (hr : env (.value right) = some r)
    (hlb : l < 2 ^ 128) (hrb : r < 2 ^ 128) (hdivisor : r ≠ 0) :
    EndsIn (magnitudeLines instruction left right signedness ++
        (List.range 128).flatMap (divisionStepLines instruction)) env fun env' ↦
      env' (numbered instruction "division_quotient" 128) =
        some ((interpret (isSigned signedness) 128 l).natAbs /
          (interpret (isSigned signedness) 128 r).natAbs) ∧
      env' (numbered instruction "division_remainder" 128) =
        some ((interpret (isSigned signedness) 128 l).natAbs %
          (interpret (isSigned signedness) 128 r).natAbs) ∧
      env' (temporary instruction "division_left_negative") =
        some (decide (interpret true 128 l < 0)).toNat ∧
      env' (temporary instruction "division_right_negative") =
        some (decide (interpret true 128 r < 0)).toNat := by
  refine endsIn_append ((run_magnitude hl hr hlb hrb).imp fun first ⟨hdivided, hsigns⟩ ↦ ?_)
  have habs := @abs_interpret_lt (isSigned signedness) 128 l (by norm_num) hlb
  have hpos : 0 < (interpret (isSigned signedness) 128 r).natAbs := by
    rw [Int.natAbs_pos, ne_eq, interpret_eq_zero_iff hrb]
    exact hdivisor
  have hsteps := run_divisionSteps hdivided le_rfl (by zify; exact habs) hpos
  refine hsteps.imp fun last ⟨hlast, hkeeps⟩ ↦ ⟨?_, ?_, ?_, ?_⟩
  · simpa using hlast.quotient
  · simpa using hlast.remainder
  · rw [hkeeps _ (by simp), hsigns.1]
  · rw [hkeeps _ (by simp), hsigns.2]

/-- A magnitude below that of an operand, with the sign of the result. -/
theorem encode_signed {magnitude : ℕ} {sign : Bool} (hmagnitude : magnitude < 2 ^ 128) :
    (if sign then encode 128 (-magnitude) else magnitude) =
      encode 128 (if sign then -(magnitude : ℤ) else magnitude) := by
  cases sign with
  | true => rfl
  | false => exact (encode_natCast hmagnitude).symm

/-- The lines for a division give the truncated quotient. -/
theorem run_i128Divide (hl : env (.value left) = some l) (hr : env (.value right) = some r)
    (hlb : l < 2 ^ 128) (hrb : r < 2 ^ 128) (hdivisor : r ≠ 0)
    (hlines : renderI128DivisionOrRemainder instruction result left right .divide signedness =
      .ok lines) :
    EndsIn lines env fun env' ↦ env' (.value result) =
      some (encode 128 ((interpret (isSigned signedness) 128 l).tdiv
        (interpret (isSigned signedness) 128 r))) := by
  cases hlines
  refine endsIn_append ?_
  refine (run_unsignedDivision hl hr hlb hrb hdivisor).imp fun middle ⟨hquotient, _, hsigns⟩ ↦ ?_
  refine (run_signFix (decide (interpret true 128 l < 0) ^^ decide (interpret true 128 r < 0))
    hquotient ?_).imp fun last hlast ↦ ?_
  · simp only [temporary] at hsigns
    simp [hsigns]
  have hlabs := @abs_interpret_lt (isSigned signedness) 128 l (by norm_num) hlb
  have hbound : (interpret (isSigned signedness) 128 l).natAbs /
      (interpret (isSigned signedness) 128 r).natAbs < 2 ^ 128 :=
    (Nat.div_le_self ..).trans_lt (by zify; exact hlabs)
  rw [hlast, encode_signed hbound, tdiv_eq_natAbs]
  cases signedness with
  | signed => rw [isSigned, Bool.true_and]
  | unsigned => rw [isSigned, interpret_false_not_neg, interpret_false_not_neg]; rfl

/-- The lines for a remainder give that of the truncated division. -/
theorem run_i128Remainder (hl : env (.value left) = some l) (hr : env (.value right) = some r)
    (hlb : l < 2 ^ 128) (hrb : r < 2 ^ 128) (hdivisor : r ≠ 0)
    (hlines : renderI128DivisionOrRemainder instruction result left right .remainder signedness =
      .ok lines) :
    EndsIn lines env fun env' ↦ env' (.value result) =
      some (encode 128 ((interpret (isSigned signedness) 128 l).tmod
        (interpret (isSigned signedness) 128 r))) := by
  cases hlines
  refine endsIn_append ?_
  refine (run_unsignedDivision hl hr hlb hrb hdivisor).imp fun middle ⟨_, hremainder, hsigns⟩ ↦ ?_
  refine (run_signFix (decide (interpret true 128 l < 0)) hremainder ?_).imp fun last hlast ↦ ?_
  · simp only [temporary] at hsigns
    simp [hsigns]
  have hlabs := @abs_interpret_lt (isSigned signedness) 128 l (by norm_num) hlb
  have hbound : (interpret (isSigned signedness) 128 l).natAbs %
      (interpret (isSigned signedness) 128 r).natAbs < 2 ^ 128 :=
    (Nat.mod_le ..).trans_lt (by zify; exact hlabs)
  rw [hlast, encode_signed hbound, tmod_eq_natAbs]
  cases signedness with
  | signed => rw [isSigned, Bool.true_and]
  | unsigned => rw [isSigned, interpret_false_not_neg]; rfl

end Signs

end Wrela.Codegen
