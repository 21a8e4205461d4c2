import Wrela.Codegen.DivisionLaws

/-!
# Checked integer operations are exact

What the rendered lines compute, compared with the operation on integers.
-/

namespace Wrela.Codegen

open Wrela.Data Wrela.Llvm Wrela.Machine

/-- The result of an operation on integers, or the code of its failure. -/
def checkedResult (operation : CheckedIntegerOp) (signed : Bool) (bits : ℕ) (left right : ℤ) :
    Except RuntimeFatalCode ℤ :=
  let exact (value : ℤ) : Except RuntimeFatalCode ℤ :=
    if Fits signed bits value then .ok value else .error .arithmetic
  let counted (value : Except RuntimeFatalCode ℤ) : Except RuntimeFatalCode ℤ :=
    if 0 ≤ right ∧ right < bits then value else .error .invalidShiftCount
  match operation with
  | .add => exact (left + right)
  | .subtract => exact (left - right)
  | .multiply => exact (left * right)
  | .divide => if right = 0 then .error .arithmetic else exact (left.tdiv right)
  | .remainder => if right = 0 then .error .arithmetic else .ok (left.tmod right)
  | .shiftLeft =>
    counted (if Fits signed bits (left * 2 ^ right.toNat) then .ok (left * 2 ^ right.toNat)
      else .error .checkedShiftResultLoss)
  | .shiftLeftWrapping =>
    counted (.ok (interpret signed bits (encode bits (left * 2 ^ right.toNat))))
  | .shiftRight => counted (.ok (left / 2 ^ right.toNat))

/-- A run binds the result to the word of the value, or ends in the fatal call. -/
def Delivers (symbol : String) (failure : ScalarFailureProvenance) (result : ValueId) (bits : ℕ)
    (outcome : Outcome Name Label) : Except RuntimeFatalCode ℤ → Prop
  | .ok value => ∃ env, outcome = .ends env ∧ env (.value result) = some (encode bits value)
  | .error code => outcome = .calls symbol [code.asU32, runtimeDetail failure]

attribute [local simp] Operation.eval valueOperand temporaryOperand temporary numberedOperand numbered
  Predicate.holds

section Runs

variable {instruction : InstructionId} {bits l r : ℕ} {result left right : ValueId}
  {env : Environment Name} {symbol : String} {failure : ScalarFailureProvenance} {rest : Code}

theorem run_checkedFailure {code : Operand Name} {word : ℕ} {failed : Bool}
    (hfailed : env (temporary instruction "failed") = some failed.toNat)
    (hcode : code.eval env = some word) :
    run none (checkedFailureLines symbol instruction failure code ++ rest) env =
      if failed then .calls symbol [word, runtimeDetail failure] else run none rest env := by
  rw [temporary] at hfailed
  cases failed <;>
    simp [checkedFailureLines, run, hfailed, hcode]

theorem run_wideArithmetic {operator : BinaryOperator} {signedness : IntegerSignedness}
    {exact : ℤ → ℤ → ℤ}
    (hoperator : ∀ x y : ℤ, operator.eval (2 * bits) (encode (2 * bits) x) (encode (2 * bits) y) =
      some (encode (2 * bits) (exact x y)))
    (hl : env (.value left) = some l) (hr : env (.value right) = some r) (hlb : l < 2 ^ bits)
    (hrb : r < 2 ^ bits) (hbits : 0 < bits)
    (hbound : |exact (interpret (isSigned signedness) bits l)
      (interpret (isSigned signedness) bits r)| + 2 ^ bits ≤ 2 ^ (2 * bits)) :
    EndsIn (wideArithmeticLines instruction bits result left right operator
        (extension signedness)) env fun env' ↦
      env' (.value result) = some (encode bits (exact (interpret (isSigned signedness) bits l)
        (interpret (isSigned signedness) bits r))) ∧
      env' (temporary instruction "failed") = some (Bool.toNat (!decide (Fits (isSigned signedness)
        bits (exact (interpret (isSigned signedness) bits l)
          (interpret (isSigned signedness) bits r))))) := by
  have hwidth : bits ≤ 2 * bits := by omega
  have hextension : extension signedness = if isSigned signedness then Cast.sext else .zext := by
    cases signedness <;> rfl
  simp [wideArithmeticLines, hl, hr, hextension, eval_extension hwidth, hlb, hrb, hoperator,
    Cast.eval.eq_1, encode_mod hwidth, encode_lt, encode_roundtrip_iff hbits hbound]

/-- The values of the function are not touched. -/
def KeepsValues (env env' : Environment Name) : Prop :=
  ∀ id : ValueId, env' (.value id) = env (.value id)

theorem run_signedDivisionTest (hl : env (.value left) = some l) (hr : env (.value right) = some r) :
    EndsIn (signedDivisionTestLines instruction bits left right) env fun env' ↦
      env' (temporary instruction "failed") =
        some (decide (r = 0 ∨ l = 2 ^ (bits - 1) ∧ r = integerMask bits)).toNat ∧
      KeepsValues env env' := by
  simp [signedDivisionTestLines, zeroDivisorLine, hl, hr, KeepsValues]

theorem run_zeroDivisionTest (hr : env (.value right) = some r) :
    EndsIn (zeroDivisionTestLines instruction bits right) env fun env' ↦
      env' (temporary instruction "failed") = some (decide (r = 0)).toNat ∧
      KeepsValues env env' := by
  simp [zeroDivisionTestLines, zeroDivisorLine, hr, KeepsValues]

/-- What the rendered test of a shift count answers. -/
def countInvalid (signedness : IntegerSignedness) (bits r : ℕ) : Bool :=
  match signedness with
  | .signed => decide (interpret true bits r < 0) ||
    decide (interpret true bits r ≥ interpret true bits bits)
  | .unsigned => decide (r ≥ bits)

theorem run_count (hr : env (.value right) = some r) :
    EndsIn (countLines instruction bits right signedness invalid) env fun env' ↦
      env' (temporary instruction invalid) = some (countInvalid signedness bits r).toNat ∧
      KeepsValues env env' := by
  cases signedness with
  | signed =>
    simp [countLines, signedCountLines, hr, KeepsValues, countInvalid]
  | unsigned => simp [countLines, hr, KeepsValues, countInvalid]

theorem run_safeShift (hinvalid : env (temporary instruction "count_invalid") = some invalid.toNat)
    (hl : env (.value left) = some l) (hr : env (.value right) = some r)
    (hcount : invalid = false → r < bits) (hbits : 0 < bits) :
    EndsIn (safeShiftLines instruction bits result left right) env fun env' ↦
      env' (.value result) = some (encode bits (l * 2 ^ (if invalid then 0 else r))) ∧
      env' (temporary instruction "safe_count") = some (if invalid then 0 else r) ∧
      env' (temporary instruction "count_invalid") = some invalid.toNat ∧
      ∀ id ≠ result, env' (.value id) = env (.value id) := by
  rw [temporary] at hinvalid
  cases invalid with
  | true =>
    simp +contextual [safeShiftLines, hinvalid, hl, eval_shl hbits]
  | false =>
    simp +contextual [safeShiftLines, hinvalid, hl, hr, eval_shl (hcount rfl)]

theorem run_lostBits {invalid : Bool} {signedness : IntegerSignedness} {shifted back : ℕ}
    {invalidCount resultLoss : RuntimeFatalCode}
    (hinvalid : env (temporary instruction "count_invalid") = some invalid.toNat)
    (hshifted : env (.value result) = some shifted)
    (hcount : env (temporary instruction "safe_count") = some r)
    (hback : (rightShift signedness).eval bits shifted r = some back)
    (hl : env (.value left) = some l) :
    EndsIn (lostBitsLines instruction bits result left signedness invalidCount resultLoss) env
      fun env' ↦ env' (.value result) = some shifted ∧
        env' (temporary instruction "failed") = some (invalid || decide (back ≠ l)).toNat ∧
        env' (temporary instruction "fatal_code") =
          some (if invalid then invalidCount.asU32 else resultLoss.asU32) := by
  rw [temporary] at hinvalid hcount
  simp only [lostBitsLines, endsIn_assign, endsIn_nil, Operation.eval, Operand.eval_name,
    Operand.eval_constant, temporaryOperand, temporary, valueOperand, Environment.set_apply]
  simp [hinvalid, hl, hshifted, hcount, hback]
  cases invalid <;> simp

end Runs

section Bounds

variable {signed : Bool} {bits l r : ℕ}

theorem two_le_two_pow (hbits : 0 < bits) : (2 : ℤ) ≤ 2 ^ bits := by
  exact_mod_cast Nat.le_self_pow hbits.ne' 2

theorem two_pow_two_mul (bits : ℕ) : (2 : ℤ) ^ (2 * bits) = 2 ^ bits * 2 ^ bits := by
  rw [two_mul, pow_add]

theorem abs_interpret_le (hbits : 0 < bits) (hword : l < 2 ^ bits) :
    |interpret signed bits l| ≤ 2 ^ bits - 1 :=
  Int.le_sub_one_of_lt (abs_interpret_lt hbits hword)

theorem abs_add_bound (hbits : 0 < bits) (hlb : l < 2 ^ bits) (hrb : r < 2 ^ bits) :
    |interpret signed bits l + interpret signed bits r| + 2 ^ bits ≤ 2 ^ (2 * bits) := by
  have hl := @abs_interpret_le signed bits l hbits hlb
  have hr := @abs_interpret_le signed bits r hbits hrb
  have htriangle := abs_add_le (interpret signed bits l) (interpret signed bits r)
  have htwo := two_le_two_pow hbits
  rw [two_pow_two_mul]
  nlinarith

theorem abs_sub_bound (hbits : 0 < bits) (hlb : l < 2 ^ bits) (hrb : r < 2 ^ bits) :
    |interpret signed bits l - interpret signed bits r| + 2 ^ bits ≤ 2 ^ (2 * bits) := by
  have hl := @abs_interpret_le signed bits l hbits hlb
  have hr := @abs_interpret_le signed bits r hbits hrb
  have htriangle := abs_sub (interpret signed bits l) (interpret signed bits r)
  have htwo := two_le_two_pow hbits
  rw [two_pow_two_mul]
  nlinarith

theorem abs_mul_bound (hbits : 0 < bits) (hlb : l < 2 ^ bits) (hrb : r < 2 ^ bits) :
    |interpret signed bits l * interpret signed bits r| + 2 ^ bits ≤ 2 ^ (2 * bits) := by
  have hl := @abs_interpret_le signed bits l hbits hlb
  have hr := @abs_interpret_le signed bits r hbits hrb
  have hproduct := mul_le_mul hl hr (abs_nonneg _) (by linarith [two_le_two_pow hbits])
  have htwo := two_le_two_pow hbits
  rw [abs_mul, two_pow_two_mul]
  nlinarith

end Bounds

section Counts

variable {signedness : IntegerSignedness} {bits l r count : ℕ}

/-- A count that is not negative is the word itself. -/
theorem interpret_of_nonneg (hrb : r < 2 ^ bits) (h : 0 ≤ interpret signed bits r) :
    interpret signed bits r = r := by
  unfold interpret at h ⊢
  split at h
  · have hcast : (r : ℤ) < 2 ^ bits := by exact_mod_cast hrb
    omega
  · rename_i hlow
    rw [if_neg hlow]

/-- The bound of a signed count is itself, except for a width below three. -/
theorem interpret_width (hbits : 3 ≤ bits) : interpret true bits bits = bits := by
  have hlt : bits < 2 ^ (bits - 1) := by
    induction bits, hbits using Nat.le_induction with
    | base => norm_num
    | succ bits hbits ih =>
      have hsplit := two_pow_split (show 0 < bits by omega)
      rw [Nat.add_sub_cancel]
      omega
  rw [interpret, if_neg (by omega)]

/-- The test of a count is right, except for a signed one of a width below three. -/
theorem countInvalid_eq (hwide : signedness = .signed → 3 ≤ bits) :
    countInvalid signedness bits r = !decide (0 ≤ interpret (isSigned signedness) bits r ∧
      interpret (isSigned signedness) bits r < bits) := by
  rw [Bool.eq_iff_iff, Bool.not_eq_true', decide_eq_false_iff_not]
  cases signedness with
  | unsigned => simp [countInvalid, isSigned, interpret]
  | signed =>
    simp [countInvalid, isSigned, interpret_width (hwide rfl), or_iff_not_imp_left]

/-- A signed count of a width below three never passes the test. -/
theorem countInvalid_narrow (hbits : 0 < bits) (hnarrow : bits < 3) (hrb : r < 2 ^ bits) :
    countInvalid .signed bits r = true := by
  interval_cases bits <;> interval_cases r <;> rfl

theorem eval_rightShift (hword : l < 2 ^ bits) (hcount : count < bits) :
    (rightShift signedness).eval bits l count =
      some (encode bits (interpret (isSigned signedness) bits l / 2 ^ count)) := by
  cases signedness with
  | signed => exact eval_ashr hcount
  | unsigned =>
    have hcast : interpret (isSigned .unsigned) bits l / 2 ^ count = (l / 2 ^ count : ℕ) := by
      simp [isSigned, interpret]
    rw [hcast, encode_natCast ((Nat.div_le_self ..).trans_lt hword), rightShift, eval_lshr hcount]

/-- Shifting loses nothing of a value that fits. -/
theorem fits_div {signed : Bool} {value : ℤ} (h : Fits signed bits value) :
    Fits signed bits (value / 2 ^ count) := by
  have hpos : (0 : ℤ) < 2 ^ count := by positivity
  have hmin : (0 : ℤ) < 2 ^ (bits - 1) := by positivity
  unfold Fits at h ⊢
  cases signed with
  | false =>
    simp only [Bool.false_eq_true, if_false] at h ⊢
    exact ⟨Int.ediv_nonneg h.1 hpos.le, (Int.ediv_le_self _ h.1).trans_lt h.2⟩
  | true =>
    simp only [if_true] at h ⊢
    constructor
    · rw [Int.le_ediv_iff_mul_le hpos]
      nlinarith
    · rw [Int.ediv_lt_iff_lt_mul hpos]
      nlinarith

/-- A left shift is undone by the right shift when its exact result fits the width. -/
theorem shift_back_iff {signed : Bool} (hbits : 0 < bits) (hlb : l < 2 ^ bits)
    (hcount : count < bits) :
    encode bits (interpret signed bits (encode bits (interpret signed bits l * 2 ^ count)) /
        2 ^ count) = l ↔
      Fits signed bits (interpret signed bits l * 2 ^ count) := by
  have hpos : (0 : ℤ) < 2 ^ count := by positivity
  generalize hleft : interpret signed bits l = left
  constructor
  · intro h
    have hshifted := @fits_interpret signed bits _ hbits (encode_lt bits (left * 2 ^ count))
    have hback := interpret_encode hbits (@fits_div bits count _ _ hshifted)
    rw [h, hleft] at hback
    have hdvd : (2 : ℤ) ^ count ∣ interpret signed bits (encode bits (left * 2 ^ count)) := by
      have hmod := interpret_emod signed bits (encode bits (left * 2 ^ count))
      rw [encode_cast, Int.emod_emod_of_dvd _ dvd_rfl] at hmod
      have hdiff := Int.dvd_of_emod_eq_zero (Int.emod_eq_emod_iff_emod_sub_eq_zero.1 hmod)
      have hpow : (2 : ℤ) ^ count ∣ 2 ^ bits := pow_dvd_pow 2 hcount.le
      exact (dvd_sub_left (Dvd.intro_left _ rfl)).1 (hpow.trans hdiff)
    rw [hback, Int.ediv_mul_cancel hdvd]
    exact hshifted
  · intro h
    rw [interpret_encode hbits h, Int.mul_ediv_cancel _ hpos.ne', ← hleft, encode_interpret hlb]

/-- Shifting the word is shifting the integer it stands for. -/
theorem encode_shl (signed : Bool) :
    encode bits (l * 2 ^ count) = encode bits (interpret signed bits l * 2 ^ count) :=
  encode_congr (by rw [Int.mul_emod, ← interpret_emod signed bits l, ← Int.mul_emod])

end Counts

section Quotients

variable {signedness : IntegerSignedness} {bits l r : ℕ}

theorem integerMask_iff (hbits : 0 < bits) : r = integerMask bits ↔ interpret true bits r = -1 := by
  have hsplit := two_pow_split hbits
  have hpos : 0 < 2 ^ (bits - 1) := by positivity
  have hcast : ((2 ^ bits : ℕ) : ℤ) = 2 ^ bits := by norm_cast
  simp only [integerMask, interpret, true_and]
  split <;> omega

theorem minimum_iff (hbits : 0 < bits) :
    l = 2 ^ (bits - 1) ↔ interpret true bits l = -2 ^ (bits - 1) := by
  have hsplit := two_pow_split hbits
  have hpos : 0 < 2 ^ (bits - 1) := by positivity
  have hcast : ((2 ^ bits : ℕ) : ℤ) = 2 ^ bits := by norm_cast
  have hhalf : ((2 ^ (bits - 1) : ℕ) : ℤ) = 2 ^ (bits - 1) := by norm_cast
  simp only [interpret, true_and]
  split <;> omega

/-- A quotient fits the width, except for the minimum divided by minus one. -/
theorem fits_tdiv_iff (hleft : Fits signed bits left) (hright : Fits signed bits right) :
    Fits signed bits (left.tdiv right) ↔
      ¬(signed = true ∧ left = -2 ^ (bits - 1) ∧ right = -1) := by
  have hpos : (0 : ℤ) < 2 ^ (bits - 1) := by positivity
  have hle := Int.natAbs_tdiv_le_natAbs left right
  cases signed with
  | false =>
    simp only [Fits, Bool.false_eq_true, if_false, false_and, not_false_eq_true, iff_true] at *
    exact ⟨Int.tdiv_nonneg hleft.1 hright.1, by omega⟩
  | true =>
    simp only [Fits, if_true, true_and] at *
    by_cases hminimum : left = -2 ^ (bits - 1)
    · by_cases hone : right = -1
      · simp [hminimum, hone]
      · have hhalf : (left.tdiv right).natAbs = left.natAbs / right.natAbs := Int.natAbs_tdiv ..
        refine iff_of_true ⟨by omega, ?_⟩ fun h ↦ hone h.2
        rcases le_or_gt 0 right with hsign | hsign
        · have hnonneg := Int.tdiv_nonneg (show 0 ≤ -left by omega) hsign
          rw [Int.neg_tdiv] at hnonneg
          omega
        · have hsmall : left.natAbs / right.natAbs ≤ left.natAbs / 2 :=
            Nat.div_le_div_left (by omega) (by norm_num)
          omega
    · have habs : (left.natAbs : ℤ) < 2 ^ (bits - 1) := by omega
      simp only [hminimum, false_and, not_false_eq_true, iff_true]
      omega

end Quotients

end Wrela.Codegen
