import Wrela.Llvm.Word
import Wrela.Machine.Model

/-!
# Rendered code

The lines of LLVM text that the renderers write, with the names and labels that stand in them, and
the look-ups that every renderer makes.
-/

namespace Wrela.Codegen

open Wrela.Llvm Wrela.Machine

inductive CodegenError where
  | unsupportedMachineContract (reason : String)
deriving DecidableEq

abbrev Render (α : Type) := Except CodegenError α

def unsupported {α : Type} (reason : String) : Render α :=
  .error (.unsupportedMachineContract reason)

/-- `%v7`, `%t7_failed` and `%t7_division_remainder_3`. -/
inductive Name where
  | value (id : ValueId)
  | temporary (discriminator : UInt32) (suffix : String)
  | numbered (discriminator : UInt32) (suffix : String) (step : ℕ)
deriving DecidableEq

/-- `b7` and `i7_ok`. -/
inductive Label where
  | block (block : UInt32)
  | inner (instruction : UInt32) (suffix : String)
deriving DecidableEq

abbrev CodeLine := Line Name Label

abbrev Code := List CodeLine

def valueOperand (id : ValueId) : Operand Name := .name (.value id)

def requiredResult : Option ValueId → Render ValueId
  | some result => .ok result
  | none => unsupported "a result-producing machine operation omitted its result"

def valueType (function : MachineFunction) (value : ValueId) : Render MachineTypeId :=
  match value.lookup function.values with
  | some record => .ok record.ty
  | none => unsupported "a machine operation referenced an unknown value"

variable (machine : MachineWir)

def typeKind (ty : MachineTypeId) : Render MachineTypeKind :=
  match ty.lookup machine.types with
  | some record => .ok record.kind
  | none => unsupported "LLVM rendering encountered an unknown machine type"

def integerBits (ty : MachineTypeId) : Render ℕ := do
  match ← typeKind machine ty with
  | .integer bits => .ok bits.toNat
  | _ => unsupported "checked integer semantics reached a non-integer type"

def runtimeSymbol (intrinsic : RuntimeIntrinsic) : Render String :=
  match machine.symbols.find? fun symbol ↦ symbol.definition == .externalRuntime intrinsic with
  | some symbol => .ok symbol.name
  | none => unsupported "a runtime call without its exact external symbol"

inductive RuntimeFatalCode where
  | arithmetic | conversion | actorMailboxFull | actorMailboxMismatch | checkedShiftResultLoss
  | invalidShiftCount | actorReplyStateMismatch | actorReplyDuplicateResolve

def RuntimeFatalCode.asU32 : RuntimeFatalCode → ℕ
  | arithmetic => 1
  | conversion => 2
  | actorMailboxFull => 3
  | actorMailboxMismatch => 4
  | checkedShiftResultLoss => 5
  | invalidShiftCount => 6
  | actorReplyStateMismatch => 7
  | actorReplyDuplicateResolve => 8

def runtimeCode : ScalarFailureKind → RuntimeFatalCode
  | .arithmetic => .arithmetic
  | .conversion => .conversion
  | .actorMailboxFull => .actorMailboxFull
  | .actorMailboxMismatch => .actorMailboxMismatch
  | .actorReplyStateMismatch => .actorReplyStateMismatch
  | .actorReplyDuplicateResolve => .actorReplyDuplicateResolve

/-- The two identifiers packed into the detail of a fatal call. -/
def runtimeDetail (failure : ScalarFailureProvenance) : ℕ :=
  failure.flowFunction.toNat * 2 ^ 32 + failure.flowInstruction.toNat

/-- Leave the function through the fatal intrinsic when the test failed. -/
def checkedFailureLines (symbol : String) (instruction : InstructionId)
    (failure : ScalarFailureProvenance) (code : Operand Name) : Code :=
  [.branch (.name (.temporary instruction.val "failed")) (.inner instruction.val "fail")
      (.inner instruction.val "ok"),
    .label (.inner instruction.val "fail"),
    .call symbol [code, .constant (runtimeDetail failure)],
    .unreachable,
    .label (.inner instruction.val "ok")]

inductive FatalCodeOperand where
  | constant (code : RuntimeFatalCode)
  | temporary (instruction : InstructionId)

def FatalCodeOperand.operand : FatalCodeOperand → Operand Name
  | constant code => .constant code.asU32
  | temporary instruction => .name (.temporary instruction.val "fatal_code")

def renderCheckedFailureWithCode (instruction : InstructionId) (failure : ScalarFailureProvenance)
    (code : FatalCodeOperand) : Render Code := do
  let symbol ← runtimeSymbol machine .fatal
  return checkedFailureLines symbol instruction failure code.operand

def renderCheckedFailure (instruction : InstructionId) (failure : ScalarFailureProvenance) :
    Render Code :=
  renderCheckedFailureWithCode machine instruction failure (.constant (runtimeCode failure.kind))

/-! ## Checked integer operations -/

section Lines

variable (instruction : InstructionId)

def temporary (suffix : String) : Name := .temporary instruction.val suffix

def temporaryOperand (suffix : String) : Operand Name := .name (temporary instruction suffix)

def numbered (suffix : String) (step : ℕ) : Name := .numbered instruction.val suffix step

def numberedOperand (suffix : String) (step : ℕ) : Operand Name :=
  .name (numbered instruction suffix step)

variable (bits : ℕ) (result left right : ValueId)

def integerMask : ℕ := 2 ^ bits - 1

/-- Compute in twice the width and see whether the result survives being cut to the width. -/
def wideArithmeticLines (operator : BinaryOperator) (extension : Cast) : Code :=
  let wide := 2 * bits
  [.assign (temporary instruction "wide_left") (.cast extension bits wide (valueOperand left)),
    .assign (temporary instruction "wide_right") (.cast extension bits wide (valueOperand right)),
    .assign (temporary instruction "wide_result")
      (.binary operator wide (temporaryOperand instruction "wide_left")
        (temporaryOperand instruction "wide_right")),
    .assign (.value result)
      (.cast .trunc wide bits (temporaryOperand instruction "wide_result")),
    .assign (temporary instruction "roundtrip")
      (.cast extension bits wide (valueOperand result)),
    .assign (temporary instruction "failed")
      (.compare .ne wide (temporaryOperand instruction "wide_result")
        (temporaryOperand instruction "roundtrip"))]

def zeroDivisorLine : CodeLine :=
  .assign (temporary instruction "zero") (.compare .eq bits (valueOperand right) (.constant 0))

/-- The failures of a signed division: a zero divisor and the minimum divided by minus one. -/
def signedDivisionTestLines : Code :=
  [zeroDivisorLine instruction bits right,
    .assign (temporary instruction "minimum")
      (.compare .eq bits (valueOperand left) (.constant (2 ^ (bits - 1)))),
    .assign (temporary instruction "minus_one")
      (.compare .eq bits (valueOperand right) (.constant (integerMask bits))),
    .assign (temporary instruction "overflow")
      (.binary .and 1 (temporaryOperand instruction "minimum")
        (temporaryOperand instruction "minus_one")),
    .assign (temporary instruction "failed")
      (.binary .or 1 (temporaryOperand instruction "zero")
        (temporaryOperand instruction "overflow"))]

/-- The failure of every other division and remainder: a zero divisor. -/
def zeroDivisionTestLines : Code :=
  [zeroDivisorLine instruction bits right,
    .assign (temporary instruction "failed")
      (.binary .or 1 (temporaryOperand instruction "zero") (.constant 0))]

/-- Whether a signed count is negative or the width and more. -/
def signedCountLines (invalid : String) : Code :=
  [.assign (temporary instruction "negative")
      (.compare .slt bits (valueOperand right) (.constant 0)),
    .assign (temporary instruction "wide_shift")
      (.compare .sge bits (valueOperand right) (.constant bits)),
    .assign (temporary instruction invalid)
      (.binary .or 1 (temporaryOperand instruction "negative")
        (temporaryOperand instruction "wide_shift"))]

def countLines (signedness : IntegerSignedness) (invalid : String) : Code :=
  match signedness with
  | .signed => signedCountLines instruction bits right invalid
  | .unsigned =>
    [.assign (temporary instruction invalid)
      (.compare .uge bits (valueOperand right) (.constant bits))]

/-- Shift by the count, or by nothing when it is not a valid one. -/
def safeShiftLines : Code :=
  [.assign (temporary instruction "safe_count")
      (.select (temporaryOperand instruction "count_invalid") bits (.constant 0)
        (valueOperand right)),
    .assign (.value result)
      (.binary .shl bits (valueOperand left) (temporaryOperand instruction "safe_count"))]

def rightShift : IntegerSignedness → BinaryOperator
  | .unsigned => .lshr
  | .signed => .ashr

/-- Whether shifting back gives another value, and the code of the failure. -/
def lostBitsLines (signedness : IntegerSignedness) (invalidCount resultLoss : RuntimeFatalCode) :
    Code :=
  [.assign (temporary instruction "roundtrip")
      (.binary (rightShift signedness) bits (valueOperand result)
        (temporaryOperand instruction "safe_count")),
    .assign (temporary instruction "lost")
      (.compare .ne bits (temporaryOperand instruction "roundtrip") (valueOperand left)),
    .assign (temporary instruction "failed")
      (.binary .or 1 (temporaryOperand instruction "count_invalid")
        (temporaryOperand instruction "lost")),
    .assign (temporary instruction "fatal_code")
      (.select (temporaryOperand instruction "count_invalid") 32 (.constant invalidCount.asU32)
        (.constant resultLoss.asU32))]

def wrappingFailedLine : CodeLine :=
  .assign (temporary instruction "failed")
    (.binary .or 1 (temporaryOperand instruction "count_invalid") (.constant 0))

def signTest (signedness : IntegerSignedness) (suffix : String) : Operand Name :=
  match signedness with
  | .signed => temporaryOperand instruction suffix
  | .unsigned => .constant 0

/-- The magnitudes of the operands. -/
def magnitudeLines (signedness : IntegerSignedness) : Code :=
  [.assign (temporary instruction "division_left_negative")
      (.compare .slt 128 (valueOperand left) (.constant 0)),
    .assign (temporary instruction "division_right_negative")
      (.compare .slt 128 (valueOperand right) (.constant 0)),
    .assign (temporary instruction "division_left_negated")
      (.binary .sub 128 (.constant 0) (valueOperand left)),
    .assign (temporary instruction "division_right_negated")
      (.binary .sub 128 (.constant 0) (valueOperand right)),
    .assign (temporary instruction "division_left")
      (.select (signTest instruction signedness "division_left_negative") 128
        (temporaryOperand instruction "division_left_negated") (valueOperand left)),
    .assign (temporary instruction "division_right")
      (.select (signTest instruction signedness "division_right_negative") 128
        (temporaryOperand instruction "division_right_negated") (valueOperand right)),
    .assign (numbered instruction "division_remainder" 0)
      (.binary .or 128 (.constant 0) (.constant 0)),
    .assign (numbered instruction "division_quotient" 0)
      (.binary .or 128 (.constant 0) (.constant 0))]

/-- Bring down one bit of the dividend and subtract the divisor when that leaves enough. -/
def divisionStepLines (step : ℕ) : Code :=
  let bit := 127 - step
  let next := step + 1
  [.assign (numbered instruction "division_input_shift" step)
      (.binary .lshr 128 (temporaryOperand instruction "division_left") (.constant bit)),
    .assign (numbered instruction "division_input_bit" step)
      (.binary .and 128 (numberedOperand instruction "division_input_shift" step) (.constant 1)),
    .assign (numbered instruction "division_remainder_shift" step)
      (.binary .shl 128 (numberedOperand instruction "division_remainder" step) (.constant 1)),
    .assign (numbered instruction "division_candidate" step)
      (.binary .or 128 (numberedOperand instruction "division_remainder_shift" step)
        (numberedOperand instruction "division_input_bit" step)),
    .assign (numbered instruction "division_enough" step)
      (.compare .uge 128 (numberedOperand instruction "division_candidate" step)
        (temporaryOperand instruction "division_right")),
    .assign (numbered instruction "division_reduced" step)
      (.binary .sub 128 (numberedOperand instruction "division_candidate" step)
        (temporaryOperand instruction "division_right")),
    .assign (numbered instruction "division_remainder" next)
      (.select (numberedOperand instruction "division_enough" step) 128
        (numberedOperand instruction "division_reduced" step)
        (numberedOperand instruction "division_candidate" step)),
    .assign (numbered instruction "division_quotient_set" step)
      (.binary .or 128 (numberedOperand instruction "division_quotient" step)
        (.constant (2 ^ bit))),
    .assign (numbered instruction "division_quotient" next)
      (.select (numberedOperand instruction "division_enough" step) 128
        (numberedOperand instruction "division_quotient_set" step)
        (numberedOperand instruction "division_quotient" step))]

/-- The unsigned result with the sign that it has for the operands. -/
def signFixLines (signedness : IntegerSignedness) (final : String)
    (negative : Operation Name) : Code :=
  [.assign (temporary instruction "division_unsigned_result")
      (.binary .or 128 (numberedOperand instruction final 128) (.constant 0)),
    .assign (temporary instruction "division_result_negative") negative,
    .assign (temporary instruction "division_signed_negated")
      (.binary .sub 128 (.constant 0) (temporaryOperand instruction "division_unsigned_result")),
    .assign (.value result)
      (.select (signTest instruction signedness "division_result_negative") 128
        (temporaryOperand instruction "division_signed_negated")
        (temporaryOperand instruction "division_unsigned_result"))]

def renderI128DivisionOrRemainder (operation : CheckedIntegerOp) (signedness : IntegerSignedness) :
    Render Code := do
  let lines := magnitudeLines instruction left right signedness ++
    (List.range 128).flatMap (divisionStepLines instruction)
  match operation with
  | .divide =>
    return lines ++ signFixLines instruction result signedness "division_quotient"
      (.binary .xor 1 (temporaryOperand instruction "division_left_negative")
        (temporaryOperand instruction "division_right_negative"))
  | .remainder =>
    return lines ++ signFixLines instruction result signedness "division_remainder"
      (.binary .or 1 (temporaryOperand instruction "division_left_negative") (.constant 0))
  | _ => unsupported "software i128 division received another operation"

end Lines

namespace CheckedInteger

/-- The runtime cause of an invalid shift count. -/
def invalidShiftCountFatalCode : CheckedIntegerOp → Option RuntimeFatalCode
  | .shiftLeft | .shiftLeftWrapping | .shiftRight => some .invalidShiftCount
  | .add | .subtract | .multiply | .divide | .remainder => none

/-- The runtime cause of a checked left shift that loses bits of its result. -/
def resultLossFatalCode : CheckedIntegerOp → Option RuntimeFatalCode
  | .shiftLeft => some .checkedShiftResultLoss
  | .add | .subtract | .multiply | .divide | .remainder | .shiftLeftWrapping | .shiftRight => none

end CheckedInteger

def extension : IntegerSignedness → Cast
  | .unsigned => .zext
  | .signed => .sext

variable (machine : MachineWir) (function : MachineFunction) (instruction : InstructionId)

def renderWideArithmetic (operator : BinaryOperator) (signedness : IntegerSignedness) (bits : ℕ)
    (result left right : ValueId) (failure : ScalarFailureProvenance) : Render Code := do
  if 2 * bits < 2 ^ 16 then
    return wideArithmeticLines instruction bits result left right operator (extension signedness) ++
      (← renderCheckedFailure machine instruction failure)
  else unsupported "checked integer width overflowed"

/-- The native instruction of a division or remainder. -/
def divisionOperator (operation : CheckedIntegerOp) (signedness : IntegerSignedness) :
    BinaryOperator :=
  match operation, signedness with
  | .divide, .unsigned => .udiv
  | .divide, .signed => .sdiv
  | _, .unsigned => .urem
  | _, .signed => .srem

def renderDivision (operation : CheckedIntegerOp) (signedness : IntegerSignedness) (bits : ℕ)
    (result left right : ValueId) (failure : ScalarFailureProvenance) : Render Code := do
  let test := if operation = .divide ∧ signedness = .signed then
    signedDivisionTestLines instruction bits left right
  else zeroDivisionTestLines instruction bits right
  let lines := test ++ (← renderCheckedFailure machine instruction failure)
  if bits = 128 then
    return lines ++
      (← renderI128DivisionOrRemainder instruction result left right operation signedness)
  else
    return lines ++ [.assign (.value result)
      (.binary (divisionOperator operation signedness) bits (valueOperand left)
        (valueOperand right))]

def renderShiftLeft (operation : CheckedIntegerOp) (signedness : IntegerSignedness) (bits : ℕ)
    (result left right : ValueId) (failure : ScalarFailureProvenance) : Render Code := do
  let shift := countLines instruction bits right signedness "count_invalid" ++
    safeShiftLines instruction bits result left right
  match CheckedInteger.invalidShiftCountFatalCode operation with
  | none => unsupported "left shift is missing its invalid-count fatal code"
  | some invalidCount =>
    if operation = .shiftLeft then
      match CheckedInteger.resultLossFatalCode operation with
      | none => unsupported "checked left shift is missing its result-loss fatal code"
      | some resultLoss =>
        return shift ++
          lostBitsLines instruction bits result left signedness invalidCount resultLoss ++
          (← renderCheckedFailureWithCode machine instruction failure (.temporary instruction))
    else
      return shift ++ wrappingFailedLine instruction ::
        (← renderCheckedFailureWithCode machine instruction failure (.constant invalidCount))

def renderShiftRight (operation : CheckedIntegerOp) (signedness : IntegerSignedness) (bits : ℕ)
    (result left right : ValueId) (failure : ScalarFailureProvenance) : Render Code := do
  match CheckedInteger.invalidShiftCountFatalCode operation with
  | none => unsupported "right shift is missing its invalid-count fatal code"
  | some invalidCount =>
    return countLines instruction bits right signedness "failed" ++
      (← renderCheckedFailureWithCode machine instruction failure (.constant invalidCount)) ++
      [.assign (.value result)
        (.binary (rightShift signedness) bits (valueOperand left) (valueOperand right))]

def renderCheckedInteger (result : Option ValueId) (operation : CheckedIntegerOp)
    (signedness : IntegerSignedness) (left right : ValueId) (failure : ScalarFailureProvenance) :
    Render Code := do
  let result ← requiredResult result
  let bits ← integerBits machine (← valueType function left)
  match operation with
  | .add => renderWideArithmetic machine instruction .add signedness bits result left right failure
  | .subtract =>
    renderWideArithmetic machine instruction .sub signedness bits result left right failure
  | .multiply =>
    renderWideArithmetic machine instruction .mul signedness bits result left right failure
  | .divide | .remainder =>
    renderDivision machine instruction operation signedness bits result left right failure
  | .shiftLeft | .shiftLeftWrapping =>
    renderShiftLeft machine instruction operation signedness bits result left right failure
  | .shiftRight =>
    renderShiftRight machine instruction operation signedness bits result left right failure

end Wrela.Codegen
