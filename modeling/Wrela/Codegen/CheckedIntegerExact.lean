import Wrela.Codegen.CheckedIntegerLaws
import Wrela.Machine.Interrupts

/-!
# When rendered checked operations are exact

The rendered lines deliver the exact result or the failure of every checked operation but two: a
signed remainder of the minimum by minus one, which below 128 bits is left to the target, and a
signed shift of a width below three, whose count is compared with a negative bound.
-/

namespace Wrela.Codegen

open List Wrela.Data Wrela.Llvm Wrela.Machine

/-- What validation promises of a checked operation: its operands are integers of an admitted width,
it fails with an arithmetic failure, the fatal intrinsic has a symbol, and its result is defined by
it alone. -/
structure CheckedSite (machine : MachineWir) (function : MachineFunction)
    (result left right : ValueId) (failure : ScalarFailureProvenance) (bits : ℕ)
    (symbol : String) : Prop where
  operandBits : (valueType function left).bind (integerBits machine) = .ok bits
  positive : 0 < bits
  admitted : bits ≤ 128
  fatalSymbol : runtimeSymbol machine .fatal = .ok symbol
  failureKind : failure.kind = .arithmetic
  leftDistinct : left ≠ result
  rightDistinct : right ≠ result

/-- The signed remainder that overflows in the native instruction. -/
def MinimumRemainder (operation : CheckedIntegerOp) (signedness : IntegerSignedness)
    (bits l r : ℕ) : Prop :=
  operation = .remainder ∧ signedness = .signed ∧ bits ≠ 128 ∧ DivisionOverflows bits l r

/-- A valid signed count that is compared with a negative bound. -/
def NarrowCount (operation : CheckedIntegerOp) (signedness : IntegerSignedness) (bits r : ℕ) :
    Prop :=
  (operation = .shiftLeft ∨ operation = .shiftLeftWrapping ∨ operation = .shiftRight) ∧
    signedness = .signed ∧ bits < 3 ∧ 0 ≤ interpret true bits r ∧ interpret true bits r < bits

attribute [local simp] Operation.eval valueOperand

section Tests

variable {instruction : InstructionId} {bits l r : ℕ} {result left right : ValueId}
  {env : Environment Name} {symbol : String} {failure : ScalarFailureProvenance}
  {spec : Except RuntimeFatalCode ℤ}

/-- A test, the fatal call for when it failed, and what is left to do when it passed. -/
theorem delivers_checked (fatal : RuntimeFatalCode) {test tail : Code} {code : Operand Name}
    {failed : Bool} {post : Environment Name → Prop}
    (htest : EndsIn test env fun env' ↦ env' (temporary instruction "failed") = some failed.toNat ∧
      code.eval env' = some fatal.asU32 ∧ post env')
    (hfailed : failed = true → spec = .error fatal)
    (hpassed : failed = false → ∃ value, spec = .ok value ∧ ∀ env', post env' →
      EndsIn tail env' fun env'' ↦ env'' (.value result) = some (encode bits value)) :
    Delivers symbol failure result bits
      (run none (test ++ checkedFailureLines symbol instruction failure code ++ tail) env) spec := by
  obtain ⟨env', hrun, htemporary, hcode, hpost⟩ := htest
  rw [append_assoc, run_append hrun, run_checkedFailure htemporary hcode]
  cases failed with
  | true =>
    rw [hfailed rfl]
    rfl
  | false =>
    obtain ⟨value, hspec, htail⟩ := hpassed rfl
    obtain ⟨env'', htailRun, hresult⟩ := htail env' hpost
    rw [hspec]
    exact ⟨env'', htailRun, hresult⟩

variable {machine : MachineWir} {function : MachineFunction} {signedness : IntegerSignedness}
  {operation : CheckedIntegerOp}

theorem renderCheckedFailureWithCode_eq
    (hsite : CheckedSite machine function result left right failure bits symbol)
    (code : FatalCodeOperand) :
    renderCheckedFailureWithCode machine instruction failure code =
      .ok (checkedFailureLines symbol instruction failure code.operand) := by
  rw [renderCheckedFailureWithCode, hsite.fatalSymbol]
  rfl

theorem renderCheckedFailure_eq
    (hsite : CheckedSite machine function result left right failure bits symbol) :
    renderCheckedFailure machine instruction failure =
      .ok (checkedFailureLines symbol instruction failure
        (.constant RuntimeFatalCode.arithmetic.asU32)) := by
  rw [renderCheckedFailure, renderCheckedFailureWithCode_eq hsite, hsite.failureKind]
  rfl

theorem delivers_wideArithmetic (exact : ℤ → ℤ → ℤ)
    (hsite : CheckedSite machine function result left right failure bits symbol)
    (hoperator : ∀ x y : ℤ, operator.eval (2 * bits) (encode (2 * bits) x) (encode (2 * bits) y) =
      some (encode (2 * bits) (exact x y))) (hl : env (.value left) = some l)
    (hr : env (.value right) = some r) (hlb : l < 2 ^ bits) (hrb : r < 2 ^ bits)
    (hbound : |exact (interpret (isSigned signedness) bits l)
      (interpret (isSigned signedness) bits r)| + 2 ^ bits ≤ 2 ^ (2 * bits)) :
    ∃ lines, renderWideArithmetic machine instruction operator signedness bits result left right
        failure = .ok lines ∧
      Delivers symbol failure result bits (run none lines env)
        (let value := exact (interpret (isSigned signedness) bits l)
          (interpret (isSigned signedness) bits r)
        if Fits (isSigned signedness) bits value then .ok value else .error .arithmetic) := by
  have hadmitted := hsite.admitted
  refine ⟨_, by rw [renderWideArithmetic, if_pos (by omega), renderCheckedFailure_eq hsite]; rfl, ?_⟩
  have hlines := @run_wideArithmetic instruction bits l r result left right env operator signedness
    exact hoperator hl hr hlb hrb hsite.positive hbound
  generalize exact (interpret (isSigned signedness) bits l)
    (interpret (isSigned signedness) bits r) = value at *
  rw [← append_nil (_ ++ _)]
  refine delivers_checked .arithmetic (hlines.imp fun env' ⟨hresult, hfailed⟩ ↦
    ⟨hfailed, rfl, hresult⟩) ?_ ?_
  · intro hfits
    rw [if_neg (by simpa using hfits)]
  · intro hfits
    rw [if_pos (by simpa using hfits)]
    exact ⟨value, rfl, fun env' hresult ↦ endsIn_nil.2 hresult⟩

/-- The failures of a division and remainder that the lines test for. -/
def divisionFails (operation : CheckedIntegerOp) (signedness : IntegerSignedness) (bits l r : ℕ) :
    Bool :=
  decide (r = 0 ∨ (operation = .divide ∧ signedness = .signed) ∧
    l = 2 ^ (bits - 1) ∧ r = integerMask bits)

theorem run_divisionTest (hl : env (.value left) = some l) (hr : env (.value right) = some r) :
    EndsIn (if operation = .divide ∧ signedness = .signed then
        signedDivisionTestLines instruction bits left right
      else zeroDivisionTestLines instruction bits right) env fun env' ↦
      env' (temporary instruction "failed") =
        some (divisionFails operation signedness bits l r).toNat ∧
      KeepsValues env env' := by
  unfold divisionFails
  split
  · rename_i hsigned
    simp only [hsigned, true_and]
    exact run_signedDivisionTest hl hr
  · rename_i hother
    simp only [hother, false_and, or_false]
    exact run_zeroDivisionTest hr

/-- The result of a division or remainder, truncated towards zero. -/
def truncated (operation : CheckedIntegerOp) (left right : ℤ) : ℤ :=
  if operation = .divide then left.tdiv right else left.tmod right

/-- The native instruction is exact where it is defined. -/
theorem eval_divisionOperator (hoperation : operation = .divide ∨ operation = .remainder)
    (hlb : l < 2 ^ bits) (hdivisor : r ≠ 0)
    (hdefined : signedness = .signed → ¬DivisionOverflows bits l r) :
    (divisionOperator operation signedness).eval bits l r =
      some (encode bits (truncated operation (interpret (isSigned signedness) bits l)
        (interpret (isSigned signedness) bits r))) := by
  cases signedness with
  | signed =>
    have hsafe := hdefined rfl
    rcases hoperation with rfl | rfl <;>
      simp [divisionOperator, BinaryOperator.eval, truncated, isSigned, hdivisor, hsafe]
  | unsigned =>
    have hquotient : encode bits ((l / r : ℕ) : ℤ) = l / r :=
      encode_natCast ((Nat.div_le_self ..).trans_lt hlb)
    have hremainder : encode bits ((l % r : ℕ) : ℤ) = l % r :=
      encode_natCast ((Nat.mod_le ..).trans_lt hlb)
    rcases hoperation with rfl | rfl
    · simp [divisionOperator, BinaryOperator.eval, truncated, isSigned, hdivisor, interpret]
      exact_mod_cast hquotient.symm
    · simp [divisionOperator, BinaryOperator.eval, truncated, isSigned, hdivisor, interpret]
      exact_mod_cast hremainder.symm

/-- The tested failures are those of the exact division, and where they do not occur the result
fits. -/
theorem checkedResult_division (hoperation : operation = .divide ∨ operation = .remainder)
    (hbits : 0 < bits) (hlb : l < 2 ^ bits) (hrb : r < 2 ^ bits) :
    checkedResult operation (isSigned signedness) bits (interpret (isSigned signedness) bits l)
        (interpret (isSigned signedness) bits r) =
      if divisionFails operation signedness bits l r then .error .arithmetic
      else .ok (truncated operation (interpret (isSigned signedness) bits l)
        (interpret (isSigned signedness) bits r)) := by
  have hl := @fits_interpret (isSigned signedness) bits l hbits hlb
  have hr := @fits_interpret (isSigned signedness) bits r hbits hrb
  rcases hoperation with rfl | rfl
  · by_cases hzero : r = 0
    · simp [checkedResult, divisionFails, hzero]
    · simp only [checkedResult, interpret_eq_zero_iff hrb, hzero, if_false, divisionFails, truncated,
        fits_tdiv_iff hl hr, integerMask_iff hbits, minimum_iff hbits, ite_not]
      cases signedness <;> simp [isSigned]
  · by_cases hzero : r = 0
    · simp [checkedResult, divisionFails, hzero]
    · simp [checkedResult, interpret_eq_zero_iff hrb, hzero, divisionFails, truncated]

theorem renderDivision_eq
    (hsite : CheckedSite machine function result left right failure bits symbol) {tail : Code}
    (htail : (if bits = 128 then
        renderI128DivisionOrRemainder instruction result left right operation signedness
      else .ok [.assign (.value result) (.binary (divisionOperator operation signedness) bits
        (valueOperand left) (valueOperand right))]) = .ok tail) :
    renderDivision machine instruction operation signedness bits result left right failure =
      .ok ((if operation = .divide ∧ signedness = .signed then
          signedDivisionTestLines instruction bits left right
        else zeroDivisionTestLines instruction bits right) ++
          checkedFailureLines symbol instruction failure
            (.constant RuntimeFatalCode.arithmetic.asU32) ++ tail) := by
  rw [renderDivision, renderCheckedFailure_eq hsite]
  split at htail
  · rename_i hbits
    simp only [hbits, if_true, htail]
    rfl
  · rename_i hbits
    cases htail
    simp only [hbits, if_false]
    rfl

theorem delivers_tested (hl : env (.value left) = some l) (hr : env (.value right) = some r)
    {tail : Code} {value : ℤ}
    (hrun : divisionFails operation signedness bits l r = false →
      ∀ env' : Environment Name, KeepsValues env env' →
        EndsIn tail env' fun env'' ↦ env'' (.value result) = some (encode bits value)) :
    Delivers symbol failure result bits
      (run none ((if operation = .divide ∧ signedness = .signed then
          signedDivisionTestLines instruction bits left right
        else zeroDivisionTestLines instruction bits right) ++
          checkedFailureLines symbol instruction failure
            (.constant RuntimeFatalCode.arithmetic.asU32) ++ tail) env)
      (if divisionFails operation signedness bits l r then .error .arithmetic else .ok value) := by
  refine delivers_checked .arithmetic ((run_divisionTest hl hr).imp fun env' ⟨hfailed, hkeeps⟩ ↦
    ⟨hfailed, rfl, hkeeps⟩) (fun h ↦ if_pos h) fun h ↦ ⟨value, ?_, hrun h⟩
  rw [h, if_neg Bool.false_ne_true]

theorem run_longDivision (hoperation : operation = .divide ∨ operation = .remainder)
    (hl : env (.value left) = some l) (hr : env (.value right) = some r) (hlb : l < 2 ^ 128)
    (hrb : r < 2 ^ 128) (hdivisor : r ≠ 0) {tail : Code}
    (htail : renderI128DivisionOrRemainder instruction result left right operation signedness =
      .ok tail) :
    EndsIn tail env fun env' ↦ env' (.value result) = some (encode 128
      (truncated operation (interpret (isSigned signedness) 128 l)
        (interpret (isSigned signedness) 128 r))) := by
  rcases hoperation with rfl | rfl
  · exact run_i128Divide hl hr hlb hrb hdivisor htail
  · exact run_i128Remainder hl hr hlb hrb hdivisor htail

theorem delivers_division (hoperation : operation = .divide ∨ operation = .remainder)
    (hsite : CheckedSite machine function result left right failure bits symbol)
    (hl : env (.value left) = some l) (hr : env (.value right) = some r) (hlb : l < 2 ^ bits)
    (hrb : r < 2 ^ bits) :
    ∃ lines, renderDivision machine instruction operation signedness bits result left right
        failure = .ok lines ∧
      (Delivers symbol failure result bits (run none lines env)
        (checkedResult operation (isSigned signedness) bits (interpret (isSigned signedness) bits l)
          (interpret (isSigned signedness) bits r)) ↔
        ¬MinimumRemainder operation signedness bits l r) := by
  rw [checkedResult_division hoperation hsite.positive hlb hrb]
  have hzero (h : divisionFails operation signedness bits l r = false) : r ≠ 0 := by
    simp only [divisionFails, decide_eq_false_iff_not, not_or] at h
    exact h.1
  by_cases hbits : bits = 128
  · subst hbits
    obtain ⟨tail, htail⟩ : ∃ tail, renderI128DivisionOrRemainder instruction result left right
        operation signedness = .ok tail := by
      rcases hoperation with rfl | rfl <;> exact ⟨_, rfl⟩
    refine ⟨_, renderDivision_eq hsite (by rw [if_pos rfl, htail]), ?_⟩
    refine iff_of_true (delivers_tested hl hr fun h env' hkeeps ↦ ?_) fun h ↦ h.2.2.1 rfl
    exact run_longDivision hoperation (by rw [hkeeps, hl]) (by rw [hkeeps, hr]) hlb hrb (hzero h)
      htail
  · refine ⟨_, renderDivision_eq hsite (if_neg hbits), ?_⟩
    by_cases hminimum : MinimumRemainder operation signedness bits l r
    · refine iff_of_false (fun hdelivers ↦ ?_) (not_not.2 hminimum)
      obtain ⟨rfl, rfl, _, hoverflow⟩ := hminimum
      have hdivisor : r ≠ 0 := by
        rintro rfl
        have hcontra := hoverflow.2
        simp at hcontra
      have hpassed : divisionFails .remainder .signed bits l r = false := by
        simp [divisionFails, hdivisor]
      obtain ⟨env', hrun, hfailed, hkeeps⟩ :=
        @run_divisionTest instruction bits l r left right env .signed .remainder hl hr
      rw [append_assoc, run_append hrun, run_checkedFailure hfailed rfl, hpassed] at hdelivers
      obtain ⟨last, hends, -⟩ := hdelivers
      simp [run, hkeeps left, hkeeps right, hl, hr, divisionOperator, BinaryOperator.eval,
        hoverflow] at hends
    · refine iff_of_true (delivers_tested hl hr fun h env' hkeeps ↦ ?_) hminimum
      have hdefined : signedness = .signed → ¬DivisionOverflows bits l r := by
        rintro rfl hoverflow
        rcases hoperation with rfl | rfl
        · have hoverflow' := And.intro hoverflow.1 ((integerMask_iff hsite.positive).2 hoverflow.2)
          simp [divisionFails, hoverflow'] at h
        · exact hminimum ⟨rfl, rfl, hbits, hoverflow⟩
      have heval := eval_divisionOperator hoperation hlb (hzero h) hdefined
      simp [hkeeps left, hkeeps right, hl, hr, heval]

theorem valid_of_countInvalid (hbits : 0 < bits) (hrb : r < 2 ^ bits)
    (h : countInvalid signedness bits r = false) :
    interpret (isSigned signedness) bits r = r ∧ r < bits := by
  have hwide : signedness = .signed → 3 ≤ bits := by
    rintro rfl
    by_contra hnarrow
    rw [countInvalid_narrow hbits (not_le.1 hnarrow) hrb] at h
    cases h
  rw [countInvalid_eq hwide, Bool.not_eq_false', decide_eq_true_iff] at h
  have hword := interpret_of_nonneg hrb h.1
  exact ⟨hword, by omega⟩

theorem RuntimeFatalCode.asU32_injective : Function.Injective RuntimeFatalCode.asU32 := by
  intro left right h
  cases left <;> cases right <;> first | rfl | cases h

/-- The test of a count decides what is delivered; it is right unless the width is below three. -/
theorem delivers_counted_iff (hbits : 0 < bits) (hrb : r < 2 ^ bits)
    (hvalue : value ≠ .error .invalidShiftCount) (hrun : Delivers symbol failure result bits outcome
      (if countInvalid signedness bits r then .error .invalidShiftCount else value)) :
    Delivers symbol failure result bits outcome
        (if 0 ≤ interpret (isSigned signedness) bits r ∧
          interpret (isSigned signedness) bits r < bits then value
        else .error .invalidShiftCount) ↔
      ¬(signedness = .signed ∧ bits < 3 ∧ 0 ≤ interpret true bits r ∧
        interpret true bits r < bits) := by
  by_cases hnarrow : signedness = .signed ∧ bits < 3 ∧ 0 ≤ interpret true bits r ∧
      interpret true bits r < bits
  · refine iff_of_false (fun hdelivers ↦ ?_) (not_not.2 hnarrow)
    obtain ⟨rfl, hwidth, hcount⟩ := hnarrow
    rw [countInvalid_narrow hbits hwidth hrb, if_pos rfl] at hrun
    rw [isSigned, if_pos hcount] at hdelivers
    rw [Delivers] at hrun
    subst hrun
    cases value with
    | ok value =>
      obtain ⟨env', hends, -⟩ := hdelivers
      cases hends
    | error code =>
      rw [Delivers, Outcome.calls.injEq, List.cons.injEq] at hdelivers
      exact hvalue (congrArg _ (RuntimeFatalCode.asU32_injective hdelivers.2.1).symm)
  · refine iff_of_true ?_ hnarrow
    convert hrun using 1
    by_cases hwide : signedness = .signed → 3 ≤ bits
    · rw [countInvalid_eq hwide]
      simp only [Bool.not_eq_true', decide_eq_false_iff_not, ite_not]
    · rw [Classical.not_imp, not_le] at hwide
      obtain ⟨rfl, hwidth⟩ := hwide
      rw [countInvalid_narrow hbits hwidth hrb, if_pos rfl]
      exact if_neg fun hcount ↦ hnarrow ⟨rfl, hwidth, hcount⟩

section

variable (hsite : CheckedSite machine function result left right failure bits symbol)
  (hl : env (.value left) = some l)
  (hr : env (.value right) = some r)
include hsite hl hr

theorem delivers_shiftRight (hlb : l < 2 ^ bits) (hrb : r < 2 ^ bits) :
    ∃ lines, renderShiftRight machine instruction .shiftRight signedness bits result left right
        failure = .ok lines ∧
      Delivers symbol failure result bits (run none lines env)
        (if countInvalid signedness bits r then .error .invalidShiftCount
        else .ok (interpret (isSigned signedness) bits l /
          2 ^ (interpret (isSigned signedness) bits r).toNat)) := by
  refine ⟨_, by
    simp only [renderShiftRight, CheckedInteger.invalidShiftCountFatalCode,
      renderCheckedFailureWithCode_eq hsite]
    rfl, ?_⟩
  refine delivers_checked .invalidShiftCount ((run_count hr).imp fun env' ⟨hfailed, hkeeps⟩ ↦
    ⟨hfailed, rfl, hkeeps⟩) (fun h ↦ if_pos h) fun h ↦
    ⟨_, if_neg (by simp [h]), fun env' hkeeps ↦ ?_⟩
  obtain ⟨hword, hcount⟩ := valid_of_countInvalid hsite.positive hrb h
  have heval := @eval_rightShift signedness bits l r hlb hcount
  simp [hkeeps left, hkeeps right, hl, hr, heval, hword]

/-- The lines that shift by a count that is known to be valid, or else by nothing. -/
theorem run_countedShift (hrb : r < 2 ^ bits) :
    EndsIn (countLines instruction bits right signedness "count_invalid" ++
        safeShiftLines instruction bits result left right) env fun env' ↦
      env' (.value result) = some (encode bits
        (l * 2 ^ (if countInvalid signedness bits r then 0 else r))) ∧
      env' (temporary instruction "safe_count") =
        some (if countInvalid signedness bits r then 0 else r) ∧
      env' (temporary instruction "count_invalid") = some (countInvalid signedness bits r).toNat ∧
      env' (.value left) = some l := by
  refine endsIn_append ((run_count hr).imp fun middle ⟨hinvalid, hkeeps⟩ ↦ ?_)
  refine (run_safeShift hinvalid (by rw [hkeeps left, hl]) (by rw [hkeeps right, hr])
    (fun h ↦ (valid_of_countInvalid hsite.positive hrb h).2) hsite.positive).imp
    fun last ⟨hresult, hcount, hflag, hother⟩ ↦ ⟨hresult, hcount, hflag, ?_⟩
  rw [hother left hsite.leftDistinct, hkeeps left, hl]

theorem delivers_shiftLeft (hlb : l < 2 ^ bits) (hrb : r < 2 ^ bits) :
    ∃ lines, renderShiftLeft machine instruction .shiftLeft signedness bits result left right
        failure = .ok lines ∧
      Delivers symbol failure result bits (run none lines env)
        (if countInvalid signedness bits r then .error .invalidShiftCount
        else
          let value := interpret (isSigned signedness) bits l *
            2 ^ (interpret (isSigned signedness) bits r).toNat
          if Fits (isSigned signedness) bits value then .ok value
          else .error .checkedShiftResultLoss) := by
  refine ⟨_, by
    simp only [renderShiftLeft, CheckedInteger.invalidShiftCountFatalCode,
      CheckedInteger.resultLossFatalCode, renderCheckedFailureWithCode_eq hsite]
    rfl, ?_⟩
  have hshift := @run_countedShift instruction bits l r result left right env symbol failure machine
    function signedness hsite hl hr hrb
  generalize hinvalid : countInvalid signedness bits r = invalid at *
  generalize hsafe : (if invalid then 0 else r) = count at *
  have hcount : count < bits := by
    cases invalid with
    | true => simpa [← hsafe] using hsite.positive
    | false => simpa [← hsafe] using (valid_of_countInvalid hsite.positive hrb hinvalid).2
  have hcounted (h : invalid = false) : (interpret (isSigned signedness) bits r).toNat = count := by
    subst h
    rw [(valid_of_countInvalid hsite.positive hrb hinvalid).1, Int.toNat_natCast, ← hsafe]
    rfl
  rw [encode_shl (isSigned signedness)] at hshift
  have hback := @shift_back_iff bits l count (isSigned signedness) hsite.positive hlb hcount
  generalize hfitting : interpret (isSigned signedness) bits l * 2 ^ count = value at *
  have htest := endsIn_append (hshift.imp fun middle ⟨hresult, hcountValue, hflag, hleft⟩ ↦
    @run_lostBits instruction bits l count result left middle invalid signedness (encode bits value) _
      .invalidShiftCount .checkedShiftResultLoss hflag hresult hcountValue
      (eval_rightShift (encode_lt ..) hcount) hleft)
  rw [← append_nil (_ ++ checkedFailureLines ..)]
  refine delivers_checked (if invalid then .invalidShiftCount else .checkedShiftResultLoss)
    (htest.imp fun env' ⟨hresult, hfailed, hcode⟩ ↦ ⟨hfailed, ?_, hresult⟩) ?_ ?_
  · exact hcode.trans (by cases invalid <;> rfl)
  · intro hfailed
    cases invalid with
    | true => rfl
    | false =>
      have hlost : ¬Fits (isSigned signedness) bits value := by simpa [hback] using hfailed
      simp [hcounted rfl, hfitting, hlost]
  · intro hpassed
    cases invalid with
    | true => cases hpassed
    | false =>
      have hfits : Fits (isSigned signedness) bits value := by simpa [hback] using hpassed
      refine ⟨value, by simp [hcounted rfl, hfitting, hfits], fun env' hresult ↦ ?_⟩
      exact endsIn_nil.2 hresult

theorem delivers_shiftLeftWrapping (hrb : r < 2 ^ bits) :
    ∃ lines, renderShiftLeft machine instruction .shiftLeftWrapping signedness bits result left right
        failure = .ok lines ∧
      Delivers symbol failure result bits (run none lines env)
        (if countInvalid signedness bits r then .error .invalidShiftCount
        else .ok (interpret (isSigned signedness) bits (encode bits
          (interpret (isSigned signedness) bits l *
            2 ^ (interpret (isSigned signedness) bits r).toNat)))) := by
  refine ⟨_, by
    simp only [renderShiftLeft, CheckedInteger.invalidShiftCountFatalCode,
      renderCheckedFailureWithCode_eq hsite]
    rfl, ?_⟩
  have htest : EndsIn (countLines instruction bits right signedness "count_invalid" ++
      safeShiftLines instruction bits result left right ++ [wrappingFailedLine instruction]) env
      fun env' ↦ env' (temporary instruction "failed") =
          some (countInvalid signedness bits r).toNat ∧
        env' (.value result) = some (encode bits
          (l * 2 ^ (if countInvalid signedness bits r then 0 else r))) := by
    apply endsIn_append
    refine (run_countedShift hsite hl hr hrb).imp ?_
    rintro middle ⟨hresult, -, hflag, -⟩
    rw [temporary] at hflag
    simp [wrappingFailedLine, temporaryOperand, temporary, hflag, hresult]
  rw [append_cons, ← append_nil (_ ++ checkedFailureLines ..)]
  refine delivers_checked .invalidShiftCount
    (htest.imp fun env' hends ↦ ⟨hends.1, rfl, hends.2⟩) (fun h ↦ if_pos h) fun h ↦
    ⟨_, if_neg (by simp [h]), fun env' hresult ↦ endsIn_nil.2 ?_⟩
  obtain ⟨hword, -⟩ := valid_of_countInvalid hsite.positive hrb h
  rw [hresult, h, if_neg Bool.false_ne_true, encode_interpret (encode_lt ..), hword,
    Int.toNat_natCast, encode_shl (isSigned signedness)]

end

end Tests

/-- The lines rendered for a checked operation deliver its exact result or failure, whatever the
operands, except for a native remainder of the minimum by minus one and a valid signed count of a
width below three. -/
theorem renderCheckedInteger_exact_iff (machine : MachineWir) (function : MachineFunction)
    (instruction : InstructionId) (result left right : ValueId) (operation : CheckedIntegerOp)
    (signedness : IntegerSignedness) (failure : ScalarFailureProvenance) (bits : ℕ)
    (symbol : String) (env : Environment Name) (l r : ℕ)
    (hsite : CheckedSite machine function result left right failure bits symbol)
    (hl : env (.value left) = some l) (hr : env (.value right) = some r) (hlb : l < 2 ^ bits)
    (hrb : r < 2 ^ bits) :
    ∃ lines, renderCheckedInteger machine function instruction (some result) operation signedness
        left right failure = .ok lines ∧
      (Delivers symbol failure result bits (run none lines env)
        (checkedResult operation (isSigned signedness) bits (interpret (isSigned signedness) bits l)
          (interpret (isSigned signedness) bits r)) ↔
        ¬MinimumRemainder operation signedness bits l r ∧
          ¬NarrowCount operation signedness bits r) := by
  have hbits := hsite.operandBits
  cases hty : valueType function left with
  | error error => rw [hty] at hbits; cases hbits
  | ok ty =>
    rw [hty] at hbits
    have hinteger : integerBits machine ty = .ok bits := hbits
    simp only [renderCheckedInteger, requiredResult, bind, Except.bind, hty, hinteger]
    cases operation with
    | add =>
      refine (delivers_wideArithmetic (fun x y ↦ x + y) hsite (fun x y ↦ ?_) hl hr hlb hrb
        (abs_add_bound hsite.positive hlb hrb)).imp
        fun lines ⟨hlines, h⟩ ↦ ⟨hlines, iff_of_true h (by simp [MinimumRemainder, NarrowCount])⟩
      rw [eval_add, encode_add]
    | subtract =>
      refine (delivers_wideArithmetic (fun x y ↦ x - y) hsite (fun x y ↦ ?_) hl hr hlb hrb
        (abs_sub_bound hsite.positive hlb hrb)).imp
        fun lines ⟨hlines, h⟩ ↦ ⟨hlines, iff_of_true h (by simp [MinimumRemainder, NarrowCount])⟩
      rw [eval_sub, encode_sub]
    | multiply =>
      refine (delivers_wideArithmetic (fun x y ↦ x * y) hsite (fun x y ↦ ?_) hl hr hlb hrb
        (abs_mul_bound hsite.positive hlb hrb)).imp
        fun lines ⟨hlines, h⟩ ↦ ⟨hlines, iff_of_true h (by simp [MinimumRemainder, NarrowCount])⟩
      rw [eval_mul, encode_mul]
    | divide =>
      refine (delivers_division (.inl rfl) hsite hl hr hlb hrb).imp
        fun lines ⟨hlines, h⟩ ↦ ⟨hlines, h.trans ?_⟩
      simp [NarrowCount]
    | remainder =>
      refine (delivers_division (.inr rfl) hsite hl hr hlb hrb).imp
        fun lines ⟨hlines, h⟩ ↦ ⟨hlines, h.trans ?_⟩
      simp [NarrowCount]
    | shiftLeft =>
      refine (delivers_shiftLeft hsite hl hr hlb hrb).imp fun lines ⟨hlines, h⟩ ↦ ⟨hlines, ?_⟩
      refine (delivers_counted_iff hsite.positive hrb ?_ h).trans ?_
      · dsimp only
        split <;> simp
      · simp [MinimumRemainder, NarrowCount]
    | shiftLeftWrapping =>
      refine (delivers_shiftLeftWrapping hsite hl hr hrb).imp
        fun lines ⟨hlines, h⟩ ↦ ⟨hlines, ?_⟩
      refine (delivers_counted_iff hsite.positive hrb (by simp) h).trans ?_
      simp [MinimumRemainder, NarrowCount]
    | shiftRight =>
      refine (delivers_shiftRight hsite hl hr hlb hrb).imp fun lines ⟨hlines, h⟩ ↦ ⟨hlines, ?_⟩
      refine (delivers_counted_iff hsite.positive hrb (by simp) h).trans ?_
      simp [MinimumRemainder, NarrowCount]

/-- A function with three values of type `i8`. -/
def arithmeticFunction : MachineFunction :=
  { exampleEntry with values := [⟨⟨0⟩, ⟨6⟩, none⟩, ⟨⟨1⟩, ⟨6⟩, none⟩, ⟨⟨2⟩, ⟨6⟩, none⟩] }

/-- An image with the type `i8` and the fatal intrinsic. -/
def arithmeticImage : MachineWir :=
  { quietImage with
    types := quietImage.types ++ [⟨⟨6⟩, .integer 8, 1, 1, some "i8"⟩]
    symbols := quietImage.symbols ++
      [⟨⟨4⟩, "wrela_rt_v2_fatal", .runtime, .externalRuntime .fatal⟩] }

def arithmeticFailure : ScalarFailureProvenance := ⟨.arithmetic, 0, 7⟩

/-- The environment in which the operands are the words. -/
def operandEnvironment (l r : ℕ) : Environment Name :=
  (Environment.set (fun _ ↦ none) (.value ⟨0⟩) l).set (.value ⟨1⟩) r

theorem checkedSite_arithmetic :
    CheckedSite arithmeticImage arithmeticFunction ⟨2⟩ ⟨0⟩ ⟨1⟩ arithmeticFailure 8
      "wrela_rt_v2_fatal" where
  operandBits := by decide
  positive := by decide
  admitted := by decide
  fatalSymbol := by decide
  failureKind := rfl
  leftDistinct := by decide
  rightDistinct := by decide

theorem renderCheckedInteger_exact_iff_division :
    ∃ lines, renderCheckedInteger arithmeticImage arithmeticFunction ⟨7⟩ (some ⟨2⟩) .divide .signed
        ⟨0⟩ ⟨1⟩ arithmeticFailure = .ok lines ∧
      (Delivers "wrela_rt_v2_fatal" arithmeticFailure ⟨2⟩ 8
        (run none lines (operandEnvironment 249 2))
        (checkedResult .divide true 8 (interpret true 8 249) (interpret true 8 2)) ↔
        ¬MinimumRemainder .divide .signed 8 249 2 ∧ ¬NarrowCount .divide .signed 8 2) :=
  renderCheckedInteger_exact_iff arithmeticImage arithmeticFunction ⟨7⟩ ⟨2⟩ ⟨0⟩ ⟨1⟩ .divide .signed
    arithmeticFailure 8 "wrela_rt_v2_fatal" (operandEnvironment 249 2) 249 2 checkedSite_arithmetic
    (by decide) (by decide) (by decide) (by decide)

/-- The native remainder of the minimum of `i8` by minus one is executed. -/
theorem not_renderCheckedInteger_exact :
    ¬∀ (machine : MachineWir) (function : MachineFunction) (instruction : InstructionId)
      (result left right : ValueId) (operation : CheckedIntegerOp)
      (signedness : IntegerSignedness) (failure : ScalarFailureProvenance) (bits : ℕ)
      (symbol : String) (env : Environment Name) (l r : ℕ),
      CheckedSite machine function result left right failure bits symbol →
      env (.value left) = some l → env (.value right) = some r → l < 2 ^ bits → r < 2 ^ bits →
      ∃ lines, renderCheckedInteger machine function instruction (some result) operation signedness
          left right failure = .ok lines ∧
        Delivers symbol failure result bits (run none lines env)
          (checkedResult operation (isSigned signedness) bits
            (interpret (isSigned signedness) bits l) (interpret (isSigned signedness) bits r)) := by
  intro h
  have hl : operandEnvironment 128 255 (.value ⟨0⟩) = some 128 := by decide
  have hr : operandEnvironment 128 255 (.value ⟨1⟩) = some 255 := by decide
  obtain ⟨lines, hlines, hdelivers⟩ := h arithmeticImage arithmeticFunction ⟨7⟩ ⟨2⟩ ⟨0⟩ ⟨1⟩ .remainder
    .signed arithmeticFailure 8 "wrela_rt_v2_fatal" _ 128 255 checkedSite_arithmetic hl hr
    (by decide) (by decide)
  obtain ⟨lines', hlines', hiff⟩ := @delivers_division ⟨7⟩ 8 128 255 ⟨2⟩ ⟨0⟩ ⟨1⟩ _
    "wrela_rt_v2_fatal" arithmeticFailure arithmeticImage arithmeticFunction .signed .remainder
    (.inr rfl) checkedSite_arithmetic hl hr (by decide) (by decide)
  have hsame : lines = lines' := Except.ok.inj (hlines.symm.trans hlines')
  subst hsame
  exact hiff.1 hdelivers ⟨rfl, rfl, by decide, by decide⟩

end Wrela.Codegen
