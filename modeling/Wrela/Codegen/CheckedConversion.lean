import Wrela.Codegen.CheckedIntegerLaws

/-!
# Checked conversions

The lines for a checked conversion between numbers.  An integer of 128 bits is made a float, and a
float such an integer, by operations on the bits, since the target has no instruction for it.  The
range of a float is tested against the floats that bound the integers of the destination.
-/

namespace Wrela.Codegen

open Wrela.Llvm Wrela.Machine Wrela.Ieee

/-- The numbers of a format that stand in the lines. -/
structure FloatLayout where
  precision : ℕ
  mantissaBits : ℕ
  bias : ℕ
  storageBits : ℕ
  signMask : ℕ

def layout32 : FloatLayout := ⟨24, 23, 127, 32, 2 ^ 31⟩

def layout64 : FloatLayout := ⟨53, 52, 1023, 64, 2 ^ 63⟩

section Lines

variable (instruction : InstructionId) (result value : ValueId)

variable (layout : FloatLayout) (signed : Bool)

def negativeOperand : Operand Name :=
  if signed then temporaryOperand instruction "negative" else .constant 0

/-- The magnitude and its highest bit. -/
def magnitudeExponentLines : Code :=
  [.assign (temporary instruction "negative")
      (.compare .slt 128 (valueOperand value) (.constant 0)),
    .assign (temporary instruction "negated_magnitude")
      (.binary .sub 128 (.constant 0) (valueOperand value)),
    .assign (temporary instruction "magnitude")
      (.select (negativeOperand instruction signed) 128
        (temporaryOperand instruction "negated_magnitude") (valueOperand value)),
    .assign (temporary instruction "zero")
      (.compare .eq 128 (temporaryOperand instruction "magnitude") (.constant 0)),
    .assign (temporary instruction "leading")
      (.leadingZeros 128 (temporaryOperand instruction "magnitude")),
    .assign (temporary instruction "raw_exponent")
      (.binary .sub 128 (.constant 127) (temporaryOperand instruction "leading")),
    .assign (temporary instruction "exponent")
      (.select (temporaryOperand instruction "zero") 128 (.constant 0)
        (temporaryOperand instruction "raw_exponent"))]

/-- The significand: the magnitude shifted to the precision. -/
def significandLines : Code :=
  [.assign (temporary instruction "large")
      (.compare .uge 128 (temporaryOperand instruction "exponent")
        (.constant (layout.precision - 1))),
    .assign (temporary instruction "raw_right_shift")
      (.binary .sub 128 (temporaryOperand instruction "exponent")
        (.constant (layout.precision - 1))),
    .assign (temporary instruction "right_shift")
      (.select (temporaryOperand instruction "large") 128
        (temporaryOperand instruction "raw_right_shift") (.constant 0)),
    .assign (temporary instruction "raw_left_shift")
      (.binary .sub 128 (.constant (layout.precision - 1))
        (temporaryOperand instruction "exponent")),
    .assign (temporary instruction "left_shift")
      (.select (temporaryOperand instruction "large") 128 (.constant 0)
        (temporaryOperand instruction "raw_left_shift")),
    .assign (temporary instruction "right_significand")
      (.binary .lshr 128 (temporaryOperand instruction "magnitude")
        (temporaryOperand instruction "right_shift")),
    .assign (temporary instruction "left_significand")
      (.binary .shl 128 (temporaryOperand instruction "magnitude")
        (temporaryOperand instruction "left_shift")),
    .assign (temporary instruction "significand")
      (.select (temporaryOperand instruction "large") 128
        (temporaryOperand instruction "right_significand")
        (temporaryOperand instruction "left_significand"))]

/-- Half of the last place, and what was shifted out. -/
def remainderLines : Code :=
  [.assign (temporary instruction "shift_nonzero")
      (.compare .ne 128 (temporaryOperand instruction "right_shift") (.constant 0)),
    .assign (temporary instruction "raw_half_shift")
      (.binary .sub 128 (temporaryOperand instruction "right_shift") (.constant 1)),
    .assign (temporary instruction "half_shift")
      (.select (temporaryOperand instruction "shift_nonzero") 128
        (temporaryOperand instruction "raw_half_shift") (.constant 0)),
    .assign (temporary instruction "half")
      (.binary .shl 128 (.constant 1) (temporaryOperand instruction "half_shift")),
    .assign (temporary instruction "mask_bit")
      (.binary .shl 128 (.constant 1) (temporaryOperand instruction "right_shift")),
    .assign (temporary instruction "mask")
      (.binary .sub 128 (temporaryOperand instruction "mask_bit") (.constant 1)),
    .assign (temporary instruction "remainder")
      (.binary .and 128 (temporaryOperand instruction "magnitude")
        (temporaryOperand instruction "mask"))]

/-- Whether the significand is rounded up. -/
def roundUpLines : Code :=
  [.assign (temporary instruction "greater_half")
      (.compare .ugt 128 (temporaryOperand instruction "remainder")
        (temporaryOperand instruction "half")),
    .assign (temporary instruction "equal_half")
      (.compare .eq 128 (temporaryOperand instruction "remainder")
        (temporaryOperand instruction "half")),
    .assign (temporary instruction "odd_value")
      (.binary .and 128 (temporaryOperand instruction "significand") (.constant 1)),
    .assign (temporary instruction "odd")
      (.compare .ne 128 (temporaryOperand instruction "odd_value") (.constant 0)),
    .assign (temporary instruction "tie_up")
      (.binary .and 1 (temporaryOperand instruction "equal_half")
        (temporaryOperand instruction "odd")),
    .assign (temporary instruction "round_compare")
      (.binary .or 1 (temporaryOperand instruction "greater_half")
        (temporaryOperand instruction "tie_up")),
    .assign (temporary instruction "roundable")
      (.binary .and 1 (temporaryOperand instruction "large")
        (temporaryOperand instruction "shift_nonzero")),
    .assign (temporary instruction "round_up")
      (.binary .and 1 (temporaryOperand instruction "roundable")
        (temporaryOperand instruction "round_compare"))]

/-- Round up, and raise the exponent when the significand overflows. -/
def normalizeLines : Code :=
  [.assign (temporary instruction "round_increment")
      (.cast .zext 1 128 (temporaryOperand instruction "round_up")),
    .assign (temporary instruction "rounded")
      (.binary .add 128 (temporaryOperand instruction "significand")
        (temporaryOperand instruction "round_increment")),
    .assign (temporary instruction "carry")
      (.compare .eq 128 (temporaryOperand instruction "rounded")
        (.constant (2 ^ layout.precision))),
    .assign (temporary instruction "normalized")
      (.select (temporaryOperand instruction "carry") 128
        (.constant (2 ^ (layout.precision - 1))) (temporaryOperand instruction "rounded")),
    .assign (temporary instruction "carry_increment")
      (.cast .zext 1 128 (temporaryOperand instruction "carry")),
    .assign (temporary instruction "final_exponent")
      (.binary .add 128 (temporaryOperand instruction "exponent")
        (temporaryOperand instruction "carry_increment"))]

/-- Pack the sign, the exponent and the significand. -/
def packLines : Code :=
  [.assign (temporary instruction "biased_exponent")
      (.binary .add 128 (temporaryOperand instruction "final_exponent") (.constant layout.bias)),
    .assign (temporary instruction "exponent_bits")
      (.binary .shl 128 (temporaryOperand instruction "biased_exponent")
        (.constant layout.mantissaBits)),
    .assign (temporary instruction "mantissa_bits")
      (.binary .and 128 (temporaryOperand instruction "normalized")
        (.constant (2 ^ layout.mantissaBits - 1))),
    .assign (temporary instruction "unsigned_bits")
      (.binary .or 128 (temporaryOperand instruction "exponent_bits")
        (temporaryOperand instruction "mantissa_bits")),
    .assign (temporary instruction "source_sign")
      (.select (negativeOperand instruction signed) 128 (.constant layout.signMask) (.constant 0)),
    .assign (temporary instruction "signed_bits")
      (.binary .or 128 (temporaryOperand instruction "unsigned_bits")
        (temporaryOperand instruction "source_sign")),
    .assign (temporary instruction "nonzero_bits")
      (.select (temporaryOperand instruction "zero") 128 (.constant 0)
        (temporaryOperand instruction "signed_bits")),
    .assign (temporary instruction "storage_bits")
      (.cast .trunc 128 layout.storageBits (temporaryOperand instruction "nonzero_bits")),
    .assign (.value result)
      (.cast .bitcast layout.storageBits layout.storageBits
        (temporaryOperand instruction "storage_bits"))]

def i128ToFloatLines : Code :=
  magnitudeExponentLines instruction value signed ++ significandLines instruction layout ++
    remainderLines instruction ++ roundUpLines instruction ++ normalizeLines instruction layout ++
    packLines instruction result layout signed

def renderI128ToFloat (source destination : CheckedNumericKind) : Render Code :=
  match destination with
  | .float32 => .ok (i128ToFloatLines instruction result value layout32 (source = .signedInteger))
  | .float64 => .ok (i128ToFloatLines instruction result value layout64 (source = .signedInteger))
  | _ => unsupported "i128 conversion requested a non-floating destination"

/-- The fields of the float. -/
def fieldLines (exponentMask : ℕ) : Code :=
  [.assign (temporary instruction "storage")
      (.cast .bitcast layout.storageBits layout.storageBits (valueOperand value)),
    .assign (temporary instruction "sign_storage")
      (.binary .and layout.storageBits (temporaryOperand instruction "storage")
        (.constant layout.signMask)),
    .assign (temporary instruction "negative")
      (.compare .ne layout.storageBits (temporaryOperand instruction "sign_storage") (.constant 0)),
    .assign (temporary instruction "shifted_exponent")
      (.binary .lshr layout.storageBits (temporaryOperand instruction "storage")
        (.constant layout.mantissaBits)),
    .assign (temporary instruction "exponent_storage")
      (.binary .and layout.storageBits (temporaryOperand instruction "shifted_exponent")
        (.constant exponentMask)),
    .assign (temporary instruction "fraction_storage")
      (.binary .and layout.storageBits (temporaryOperand instruction "storage")
        (.constant (2 ^ layout.mantissaBits - 1))),
    .assign (temporary instruction "significand_storage")
      (.binary .or layout.storageBits (temporaryOperand instruction "fraction_storage")
        (.constant (2 ^ layout.mantissaBits))),
    .assign (temporary instruction "exponent_wide")
      (.cast .zext layout.storageBits 128 (temporaryOperand instruction "exponent_storage")),
    .assign (temporary instruction "significand_wide")
      (.cast .zext layout.storageBits 128 (temporaryOperand instruction "significand_storage"))]

/-- The significand shifted to the whole number. -/
def truncationLines : Code :=
  [.assign (temporary instruction "has_integer")
      (.compare .uge 128 (temporaryOperand instruction "exponent_wide") (.constant layout.bias)),
    .assign (temporary instruction "raw_exponent")
      (.binary .sub 128 (temporaryOperand instruction "exponent_wide") (.constant layout.bias)),
    .assign (temporary instruction "exponent")
      (.select (temporaryOperand instruction "has_integer") 128
        (temporaryOperand instruction "raw_exponent") (.constant 0)),
    .assign (temporary instruction "left")
      (.compare .uge 128 (temporaryOperand instruction "exponent") (.constant layout.mantissaBits)),
    .assign (temporary instruction "raw_left_shift")
      (.binary .sub 128 (temporaryOperand instruction "exponent") (.constant layout.mantissaBits)),
    .assign (temporary instruction "left_shift")
      (.select (temporaryOperand instruction "left") 128
        (temporaryOperand instruction "raw_left_shift") (.constant 0)),
    .assign (temporary instruction "raw_right_shift")
      (.binary .sub 128 (.constant layout.mantissaBits) (temporaryOperand instruction "exponent")),
    .assign (temporary instruction "right_shift")
      (.select (temporaryOperand instruction "left") 128 (.constant 0)
        (temporaryOperand instruction "raw_right_shift")),
    .assign (temporary instruction "left_magnitude")
      (.binary .shl 128 (temporaryOperand instruction "significand_wide")
        (temporaryOperand instruction "left_shift")),
    .assign (temporary instruction "right_magnitude")
      (.binary .lshr 128 (temporaryOperand instruction "significand_wide")
        (temporaryOperand instruction "right_shift")),
    .assign (temporary instruction "raw_magnitude")
      (.select (temporaryOperand instruction "left") 128
        (temporaryOperand instruction "left_magnitude")
        (temporaryOperand instruction "right_magnitude")),
    .assign (temporary instruction "magnitude")
      (.select (temporaryOperand instruction "has_integer") 128
        (temporaryOperand instruction "raw_magnitude") (.constant 0))]

def signedResultLines : Code :=
  [.assign (temporary instruction "negated")
      (.binary .sub 128 (.constant 0) (temporaryOperand instruction "magnitude")),
    .assign (temporary instruction "converted")
      (.select (negativeOperand instruction signed) 128 (temporaryOperand instruction "negated")
        (temporaryOperand instruction "magnitude")),
    .assign (.value result)
      (.select (.constant 1) 128 (temporaryOperand instruction "converted")
        (temporaryOperand instruction "converted"))]

def floatToI128Lines (exponentMask : ℕ) : Code :=
  fieldLines instruction value layout exponentMask ++ truncationLines instruction layout ++
    signedResultLines instruction result signed

def renderFloatToI128 (source destination : CheckedNumericKind) : Render Code :=
  match source with
  | .float32 =>
    .ok (floatToI128Lines instruction result value layout32 (destination = .signedInteger) 0xff)
  | .float64 =>
    .ok (floatToI128Lines instruction result value layout64 (destination = .signedInteger) 0x7ff)
  | _ => unsupported "float-to-i128 conversion requested a non-floating source"

/-- An integer of another width, or the same one. -/
def resize (source target : ℕ) (signed : Bool) (value : Operand Name) : Operation Name :=
  if target < source then .cast .trunc source target value
  else if source < target then .cast (if signed then .sext else .zext) source target value
  else .select (.constant 1) source value value

/-- Whether the sign stays, where the two kinds differ in it. -/
def validLines (sourceBits destinationBits : ℕ) (sourceSigned destinationSigned : Bool) : Code :=
  if sourceSigned ∧ ¬destinationSigned then
    [.assign (temporary instruction "sign_ok")
        (.compare .sge sourceBits (valueOperand value) (.constant 0)),
      .assign (temporary instruction "valid")
        (.binary .and 1 (temporaryOperand instruction "roundtrip_ok")
          (temporaryOperand instruction "sign_ok"))]
  else if ¬sourceSigned ∧ destinationSigned ∧ destinationBits ≤ sourceBits then
    [.assign (temporary instruction "sign_ok")
        (.compare .ult sourceBits (valueOperand value) (.constant (2 ^ (destinationBits - 1)))),
      .assign (temporary instruction "valid")
        (.binary .and 1 (temporaryOperand instruction "roundtrip_ok")
          (temporaryOperand instruction "sign_ok"))]
  else
    [.assign (temporary instruction "valid")
      (.binary .or 1 (temporaryOperand instruction "roundtrip_ok") (.constant 0))]

def notFailedLine (condition : String) : CodeLine :=
  .assign (temporary instruction "failed")
    (.binary .xor 1 (temporaryOperand instruction condition) (.constant 1))

def integerConversionLines (sourceBits destinationBits : ℕ)
    (sourceSigned destinationSigned : Bool) : Code :=
  [.assign (.value result)
      (resize sourceBits destinationBits sourceSigned (valueOperand value)),
    .assign (temporary instruction "roundtrip")
      (resize destinationBits sourceBits destinationSigned (valueOperand result)),
    .assign (temporary instruction "roundtrip_ok")
      (.compare .eq sourceBits (temporaryOperand instruction "roundtrip") (valueOperand value))] ++
    validLines instruction value sourceBits destinationBits sourceSigned destinationSigned ++
    [notFailedLine instruction "valid"]

def infinityLines (format : Format) (positive negative : ℕ) (suffix : String) : Code :=
  [.assign (temporary instruction "positive_infinity")
      (.floatCompare .oeq format (valueOperand value) (.constant positive)),
    .assign (temporary instruction "negative_infinity")
      (.floatCompare .oeq format (valueOperand value) (.constant negative)),
    .assign (temporary instruction suffix)
      (.binary .or 1 (temporaryOperand instruction "positive_infinity")
        (temporaryOperand instruction "negative_infinity"))]

def finiteLines (format : Format) (positive negative : ℕ) : Code :=
  [.assign (temporary instruction "not_positive_infinity")
      (.floatCompare .one format (valueOperand value) (.constant positive)),
    .assign (temporary instruction "not_negative_infinity")
      (.floatCompare .one format (valueOperand value) (.constant negative)),
    .assign (temporary instruction "finite")
      (.binary .and 1 (temporaryOperand instruction "not_positive_infinity")
        (temporaryOperand instruction "not_negative_infinity"))]

def rangeLines (format : Format) (lower : ℕ) (inclusive : Bool) (upper : ℕ) : Code :=
  [.assign (temporary instruction "lower_ok")
      (.floatCompare (if inclusive then .oge else .ogt) format (valueOperand value)
        (.constant lower)),
    .assign (temporary instruction "upper_ok")
      (.floatCompare .olt format (valueOperand value) (.constant upper)),
    .assign (temporary instruction "range_ok")
      (.binary .and 1 (temporaryOperand instruction "lower_ok")
        (temporaryOperand instruction "upper_ok")),
    notFailedLine instruction "range_ok"]

def neverFailedLines : Code :=
  [.assign (temporary instruction "failed") (.binary .or 1 (.constant 0) (.constant 0))]

/-- A float narrowed to infinity, though it was finite. -/
def narrowedLines : Code :=
  [.assign (temporary instruction "failed")
    (.binary .and 1 (temporaryOperand instruction "finite")
      (temporaryOperand instruction "narrowed_infinity"))]

end Lines

def floatFormat (kind : CheckedNumericKind) (reason : String) : Render Format :=
  match kind with
  | .float32 => .ok binary32
  | .float64 => .ok binary64
  | _ => unsupported reason

def floatInfinityBits (kind : CheckedNumericKind) (negative : Bool) : Render ℕ :=
  match kind with
  | .float32 => .ok (if negative then 0x7f800000 ||| 2 ^ 31 else 0x7f800000)
  | .float64 => .ok (if negative then 0x7ff0000000000000 ||| 2 ^ 63 else 0x7ff0000000000000)
  | _ => unsupported "an integer requested floating infinity"

def floatPowerOfTwoBits (kind : CheckedNumericKind) (exponent : ℕ) (negative : Bool) : Render ℕ :=
  match kind with
  | .float32 =>
    if exponent ≤ 127 then .ok ((exponent + 127) <<< 23 ||| if negative then 2 ^ 31 else 0)
    else floatInfinityBits kind negative
  | .float64 =>
    if exponent ≤ 1023 then .ok ((exponent + 1023) <<< 52 ||| if negative then 2 ^ 63 else 0)
    else floatInfinityBits kind negative
  | _ => unsupported "an integer requested a floating power"

/-- The float that the conversion of a whole number gives, negated. -/
def negatedFloat (format : Format) (magnitude : ℕ) : ℕ := format.signBit + format.round magnitude

/-- The lower bound of the range, and whether the bound itself is in it. -/
def floatIntegerLowerBound (source destination : CheckedNumericKind) (bits : ℕ) :
    Render (ℕ × Bool) := do
  if destination = .unsignedInteger then
    match source with
    | .float32 => return (0xbf800000, false)
    | .float64 => return (0xbff0000000000000, false)
    | _ => unsupported "an integer requested a floating range"
  else
    let (precision, format) ← match source with
      | .float32 => .ok (24, binary32)
      | .float64 => .ok (53, binary64)
      | _ => unsupported "an integer requested a floating range"
    if bits ≤ precision then return (negatedFloat format (2 ^ (bits - 1) + 1), false)
    else return (← floatPowerOfTwoBits source (bits - 1) true, true)

def floatIntegerUpperBound (source destination : CheckedNumericKind) (bits : ℕ) : Render ℕ :=
  floatPowerOfTwoBits source (if destination = .signedInteger then bits - 1 else bits) false

section Renderers

variable (machine : MachineWir) (function : MachineFunction) (instruction : InstructionId)

def renderFloatInfinityTest (value : ValueId) (kind : CheckedNumericKind) (suffix : String) :
    Render Code := do
  let format ← floatFormat kind "an integer reached a floating infinity check"
  return infinityLines instruction value format (← floatInfinityBits kind false)
    (← floatInfinityBits kind true) suffix

def renderFloatFiniteTest (value : ValueId) (kind : CheckedNumericKind) : Render Code := do
  return finiteLines instruction value (if kind = .float32 then binary32 else binary64)
    (← floatInfinityBits kind false) (← floatInfinityBits kind true)

def renderFloatIntegerRangeTest (value : ValueId) (source destination : CheckedNumericKind)
    (destinationBits : ℕ) : Render Code := do
  let (lower, inclusive) ← floatIntegerLowerBound source destination destinationBits
  let upper ← floatIntegerUpperBound source destination destinationBits
  return rangeLines instruction value (if source = .float32 then binary32 else binary64) lower
    inclusive upper

def renderCheckedIntegerConversion (result : ValueId)
    (sourceKind destinationKind : CheckedNumericKind) (value : ValueId)
    (source destination : MachineTypeId) (failure : ScalarFailureProvenance) : Render Code := do
  let sourceBits ← integerBits machine source
  let destinationBits ← integerBits machine destination
  return integerConversionLines instruction result value sourceBits destinationBits
    (sourceKind = .signedInteger) (destinationKind = .signedInteger) ++
    (← renderCheckedFailure machine instruction failure)

def renderIntegerToFloat (result : ValueId) (sourceKind destinationKind : CheckedNumericKind)
    (value : ValueId) (source : MachineTypeId) (failure : ScalarFailureProvenance) :
    Render Code := do
  let sourceBits ← integerBits machine source
  let lines ← if sourceBits = 128 then
      renderI128ToFloat instruction result value sourceKind destinationKind
    else
      .ok [.assign (.value result) (.integerToFloat (sourceKind = .signedInteger) sourceBits
        (if destinationKind = .float32 then binary32 else binary64) (valueOperand value))]
  return lines ++ (← renderFloatInfinityTest instruction result destinationKind "failed") ++
    (← renderCheckedFailure machine instruction failure)

def renderFloatToFloat (result : ValueId) (sourceKind destinationKind : CheckedNumericKind)
    (value : ValueId) (failure : ScalarFailureProvenance) : Render Code := do
  let lines : Code := match sourceKind, destinationKind with
    | .float32, .float64 =>
      [.assign (.value result) (.floatConvert binary32 binary64 (valueOperand value))]
    | .float64, .float32 =>
      [.assign (.value result) (.floatConvert binary64 binary32 (valueOperand value))]
    | .float32, _ =>
      [.assign (.value result) (.select (.constant 1) 32 (valueOperand value) (valueOperand value))]
    | _, _ =>
      [.assign (.value result) (.select (.constant 1) 64 (valueOperand value) (valueOperand value))]
  let test ← if sourceKind = .float64 ∧ destinationKind = .float32 then do
      .ok ((← renderFloatFiniteTest instruction value sourceKind) ++
        (← renderFloatInfinityTest instruction result destinationKind "narrowed_infinity") ++
        narrowedLines instruction)
    else .ok (neverFailedLines instruction)
  return lines ++ test ++ (← renderCheckedFailure machine instruction failure)

def renderFloatToInteger (result : ValueId) (sourceKind destinationKind : CheckedNumericKind)
    (value : ValueId) (destination : MachineTypeId) (failure : ScalarFailureProvenance) :
    Render Code := do
  let destinationBits ← integerBits machine destination
  let test ← renderFloatIntegerRangeTest instruction value sourceKind destinationKind destinationBits
  let lines := test ++ (← renderCheckedFailure machine instruction failure)
  if destinationBits = 128 then
    return lines ++ (← renderFloatToI128 instruction result value sourceKind destinationKind)
  else
    return lines ++ [.assign (.value result) (.floatToInteger (destinationKind = .signedInteger)
      (if sourceKind = .float32 then binary32 else binary64) destinationBits
      (valueOperand value))]

def renderCheckedConversion (result : Option ValueId)
    (sourceKind destinationKind : CheckedNumericKind) (value : ValueId)
    (destination : MachineTypeId) (failure : ScalarFailureProvenance) : Render Code := do
  let result ← requiredResult result
  let source ← valueType function value
  match sourceKind, destinationKind with
  | .unsignedInteger, .unsignedInteger | .unsignedInteger, .signedInteger
  | .signedInteger, .unsignedInteger | .signedInteger, .signedInteger =>
    renderCheckedIntegerConversion machine instruction result sourceKind destinationKind value
      source destination failure
  | .unsignedInteger, .float32 | .unsignedInteger, .float64
  | .signedInteger, .float32 | .signedInteger, .float64 =>
    renderIntegerToFloat machine instruction result sourceKind destinationKind value source failure
  | .float32, .float32 | .float32, .float64 | .float64, .float32 | .float64, .float64 =>
    renderFloatToFloat machine instruction result sourceKind destinationKind value failure
  | .float32, .unsignedInteger | .float32, .signedInteger
  | .float64, .unsignedInteger | .float64, .signedInteger =>
    renderFloatToInteger machine instruction result sourceKind destinationKind value destination
      failure

end Renderers

open Wrela.Data

attribute [local simp] Operation.eval valueOperand temporaryOperand temporary Predicate.holds

section Integers

variable {instruction : InstructionId} {result value : ValueId} {env : Environment Name}
  {source target word : ℕ} {sourceSigned destinationSigned signed : Bool}

theorem eval_resize {operand : Operand Name} (hword : word < 2 ^ source)
    (hoperand : operand.eval env = some word) :
    (resize source target signed operand).eval env =
      some (encode target (interpret signed source word)) := by
  unfold resize
  rcases lt_trichotomy target source with hlt | rfl | hgt
  · have hmod := encode_mod hlt.le (interpret signed source word)
    rw [encode_interpret hword] at hmod
    simp [hlt, hoperand, Cast.eval, hmod]
  · simp [hoperand, encode_interpret hword]
  · have hextension := @eval_extension signed source target word hgt.le hword
    simp only [hgt.not_gt, hgt, if_false, if_true, Operation.eval, hoperand]
    exact congrArg some hextension

/-- Whether the lines find an integer of the source valid in the destination. -/
def conversionValid (source target : ℕ) (sourceSigned destinationSigned : Bool) (word : ℕ) : Bool :=
  decide (encode source (interpret destinationSigned target
      (encode target (interpret sourceSigned source word))) = word) &&
    if sourceSigned ∧ ¬destinationSigned then decide (0 ≤ interpret true source word)
    else if ¬sourceSigned ∧ destinationSigned ∧ target ≤ source then
      decide (word < 2 ^ (target - 1))
    else true

theorem run_integerConversion (hvalue : env (.value value) = some word)
    (hword : word < 2 ^ source) (hdistinct : value ≠ result) :
    EndsIn (integerConversionLines instruction result value source target sourceSigned
        destinationSigned) env fun env' ↦
      env' (.value result) = some (encode target (interpret sourceSigned source word)) ∧
      env' (temporary instruction "failed") =
        some (!conversionValid source target sourceSigned destinationSigned word).toNat := by
  have hresult := @eval_resize env source target word sourceSigned (valueOperand value) hword hvalue
  have hback := fun env' : Environment Name ↦
    @eval_resize env' target source _ destinationSigned (valueOperand result)
      (encode_lt target (interpret sourceSigned source word))
  simp only [integerConversionLines, List.cons_append, List.nil_append, endsIn_assign, hresult]
  refine ⟨_, rfl, _, hback _ (by simp), ?_⟩
  unfold conversionValid validLines
  by_cases hle : target ≤ source <;> cases sourceSigned <;> cases destinationSigned <;>
    simp [notFailedLine, hvalue, hdistinct, hle]

/-- Extended to the source and back, the integers of a narrower destination stay. -/
theorem fits_widen {value : ℤ} (h : Fits signed target value) (hle : target ≤ source) :
    Fits signed source value := by
  have hpow : (2 : ℤ) ^ target ≤ 2 ^ source := pow_le_pow_right₀ (by norm_num) hle
  have hhalf : (2 : ℤ) ^ (target - 1) ≤ 2 ^ (source - 1) :=
    pow_le_pow_right₀ (by norm_num) (by omega)
  unfold Fits at h ⊢
  cases signed with
  | false =>
    simp only [Bool.false_eq_true, if_false] at h ⊢
    exact ⟨h.1, by omega⟩
  | true =>
    simp only [if_true] at h ⊢
    exact ⟨by omega, by omega⟩

theorem fits_of_conversionValid (hsource : 0 < source) (htarget : 0 < target)
    (hword : word < 2 ^ source)
    (h : conversionValid source target sourceSigned destinationSigned word = true) :
    Fits destinationSigned target (interpret sourceSigned source word) := by
  rw [conversionValid, Bool.and_eq_true, decide_eq_true_iff] at h
  obtain ⟨hroundtrip, hsign⟩ := h
  have hvalue := @fits_interpret sourceSigned source word hsource hword
  have hback := @fits_interpret destinationSigned target _ htarget
    (encode_lt target (interpret sourceSigned source word))
  generalize interpret destinationSigned target
    (encode target (interpret sourceSigned source word)) = back at *
  have hsame (hfits : Fits sourceSigned source back) :
      back = interpret sourceSigned source word := by
    rw [← hroundtrip, interpret_encode hsource hfits]
  rcases le_or_gt target source with hle | hgt
  · cases sourceSigned <;> cases destinationSigned
    · exact hsame (fits_widen hback hle) ▸ hback
    · simp [hle] at hsign
      have hcast : (word : ℤ) < 2 ^ (target - 1) := by exact_mod_cast hsign
      have hpos : (0 : ℤ) < 2 ^ (target - 1) := by positivity
      simp only [Fits, interpret, Bool.false_eq_true, false_and, if_false, if_true]
      omega
    · simp at hsign
      rcases hle.eq_or_lt with rfl | hlt
      · have hhalf := two_pow_split hsource
        have hcast : ((2 ^ target : ℕ) : ℤ) = 2 * (2 ^ (target - 1) : ℕ) := by exact_mod_cast hhalf
        simp only [Fits, Bool.false_eq_true, if_false, if_true] at hvalue ⊢
        push_cast at hcast
        omega
      · refine hsame ?_ ▸ hback
        have hpow : (2 : ℤ) ^ target ≤ 2 ^ (source - 1) :=
          pow_le_pow_right₀ (by norm_num) (by omega)
        simp only [Fits, Bool.false_eq_true, if_false, if_true] at hback ⊢
        omega
    · exact hsame (fits_widen hback hle) ▸ hback
  · cases sourceSigned <;> cases destinationSigned
    · exact fits_widen hvalue hgt.le
    · have hpow : (2 : ℤ) ^ source ≤ 2 ^ (target - 1) :=
        pow_le_pow_right₀ (by norm_num) (by omega)
      simp only [Fits, Bool.false_eq_true, if_false, if_true] at hvalue ⊢
      omega
    · simp at hsign
      have hpow : (2 : ℤ) ^ (source - 1) ≤ 2 ^ target := pow_le_pow_right₀ (by norm_num) (by omega)
      simp only [Fits, Bool.false_eq_true, if_false, if_true] at hvalue ⊢
      omega
    · exact fits_widen hvalue hgt.le

theorem conversionValid_iff (hsource : 0 < source) (htarget : 0 < target)
    (hword : word < 2 ^ source) :
    conversionValid source target sourceSigned destinationSigned word =
      decide (Fits destinationSigned target (interpret sourceSigned source word)) := by
  rw [Bool.eq_iff_iff, decide_eq_true_iff]
  constructor
  · exact fits_of_conversionValid hsource htarget hword
  · intro hfits
    rw [conversionValid, interpret_encode htarget hfits, encode_interpret hword, decide_eq_true rfl,
      Bool.true_and]
    cases sourceSigned <;> cases destinationSigned <;> simp [interpret, Fits] at hfits ⊢
    · exact .inr (by exact_mod_cast hfits.2)
    · exact hfits.1

end Integers

end Wrela.Codegen
