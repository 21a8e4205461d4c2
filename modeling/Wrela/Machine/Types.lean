import Wrela.Machine.Model

/-!
# Types of machine values

A check of the validator is the list of errors it reports, in the order they are found.  The layout
of every type is exact.  An enum whose variants carry one scalar type stores it in a shared payload;
one whose variants carry different types stores them in a slot of its own, and only in a few shapes.
Immediates, conversions and operations fix the types of the values they touch.
-/

namespace Wrela.Machine

inductive ValidationError where
  | nonDenseId (kind : String) (expected : ℕ) (actual : UInt32)
  | unknownReference (kind : String) (id : UInt32)
  | unknownValue (function : FunctionId) (value : ValueId)
  | valueDefinitionCount (function : FunctionId) (value : ValueId) (definitions : ℕ)
  | invalidRecord (kind : String) (id : UInt32)
  | symbolDefinitionMismatch (symbol : SymbolId)
  | callingConventionMismatch (caller callee : FunctionId)
  | invalidFunctionAbi (function : FunctionId)
  | invalidFunctionOrigin (function : FunctionId)
  | invalidActivationPlan (activation : MachineActivationId)
  | forbiddenDirectCall (caller callee : FunctionId)
  | forbiddenTailCall (caller callee : FunctionId)
  | callArity (caller callee : FunctionId) (expected actual : ℕ)
  | callTypeMismatch (caller callee : FunctionId)
  | callResultMismatch (caller callee : FunctionId)
  | operationTypeMismatch (function : FunctionId) (instruction : InstructionId)
  | unreachableBlock (function : FunctionId) (block : BlockId)
  | nonDominatingValueUse (function : FunctionId) (value : ValueId) (block : BlockId)
      (instruction : Option InstructionId)
  | conflictingParallelEdgeArguments (function : FunctionId) (source target : BlockId)
  | switchCaseOutOfRange (function : FunctionId) (block : BlockId) (value : BitVec 128)
      (bits : UInt16)
  | controlFlowTypeMismatch (function : FunctionId)
  | returnMismatch (function : FunctionId)
  | nonReturningRuntimeFallthrough (function : FunctionId) (instruction : InstructionId)
  | invalidTestRuntimeContext (intrinsic : RuntimeIntrinsic) (function : FunctionId)
      (instruction : InstructionId)
  | invalidImageEnterContext (function : FunctionId) (instruction : InstructionId)
  | invalidImageEnterPrologue (function : FunctionId)
  | unrequiredRuntimeCall (intrinsic : RuntimeIntrinsic)
  | runtimeArity (intrinsic : RuntimeIntrinsic) (expected actual : ℕ)
  | runtimeResultCount (intrinsic : RuntimeIntrinsic) (expected actual : ℕ)
  | runtimeTypeMismatch (intrinsic : RuntimeIntrinsic) (abi : AbiType) (ty : MachineTypeId)
  | invalidBackendFacts (proof : ProofId)
  | invalidImageEntry (function : FunctionId)
  | imageEntrySymbolCount (count : ℕ)
  | nonCanonicalInterruptEntries
  | invalidInterruptEntry (interrupt : InterruptEntryId)
  | interruptHandlerRouteCount (handler : FunctionId) (count : ℕ)
  | invalidInterruptReachableCode (handler function : FunctionId)

abbrev Report := List ValidationError

/-- Report `error` when something is wrong. -/
def reportIf (bad : Bool) (error : ValidationError) : Report := if bad then [error] else []

@[simp]
theorem reportIf_eq_nil : reportIf bad error = [] ↔ bad = false := by
  cases bad <;> simp [reportIf]

def requireId (kind : String) {arena : Arena} (id : Id arena) (length : ℕ) : Report :=
  reportIf (id.index ≥ length) (.unknownReference kind id.val)

def checkDense (kind : String) (ids : List UInt32) : Report :=
  ids.zipIdx.flatMap fun (actual, expected) ↦
    reportIf (actual.toNat != expected) (.nonDenseId kind expected actual)

open Wrela.Source Wrela.BuildModel

variable (module : MachineWir)

def validAlignment (alignment : UInt32) : Bool :=
  alignment != 0 && alignment &&& (alignment - 1) == 0

def checkedAdd (left right : UInt64) : Option UInt64 :=
  if left.toNat + right.toNat < UInt64.size then some (left + right) else none

/-- The next multiple of a power of two. -/
def alignUp (value : UInt64) (alignment : UInt32) : Option UInt64 :=
  let mask := alignment.toUInt64 - 1
  (checkedAdd value mask).map fun value ↦ value &&& ~~~mask

def typeKind (ty : MachineTypeId) : Option MachineTypeKind := (ty.lookup module.types).map (·.kind)

/-- The scalars that an enum may carry. -/
def MachineTypeKind.isEnumScalar : MachineTypeKind → Bool
  | .float32 | .float64 => true
  | .integer bits => bits == 8 || bits == 16 || bits == 32 || bits == 64 || bits == 128
  | _ => false

def exactU64 (ty : MachineTypeId) : Bool :=
  (ty.lookup module.types).any fun record ↦
    record.sourceName == some "u64" && record.kind == .integer 64 && record.size == 8 &&
      record.alignment == 8

def exactCause (ty : MachineTypeId) (name : String) : Bool :=
  (ty.lookup module.types).any fun record ↦
    record.sourceName == some name && record.kind == .void && record.size == 0 &&
      record.alignment == 1

/-- The payloads of a record that is an enum with storage of its own. -/
def storedVariantPayloads (record : MachineType) : Option (List (Option MachineTypeId)) :=
  match record.kind with
  | .taggedEnum _ _ (some _) _ variantPayloads => some variantPayloads
  | _ => none

def exactAsyncExitEnum (record : MachineType) : Bool :=
  record.sourceName == some "AsyncExit" &&
    match storedVariantPayloads record with
    | some [some value, some cancelled, some rejected, some exceeded] =>
      exactU64 module value && exactCause module cancelled "Cancelled" &&
        exactCause module rejected "DeadlineRejected" &&
        exactCause module exceeded "DeadlineExceeded" && cancelled != rejected &&
        cancelled != exceeded && rejected != exceeded
    | _ => false

def exactOperationOnlyAsyncOutcomeEnum (ty : MachineTypeId) : Bool :=
  (ty.lookup module.types).any fun record ↦
    exactAsyncExitEnum module record ||
      (record.sourceName == some "Result" &&
        match storedVariantPayloads record with
        | some [some value, some exit] =>
          exactU64 module value && (exit.lookup module.types).any (exactAsyncExitEnum module)
        | _ => false)

def enumScalar (ty : MachineTypeId) : Bool := (typeKind module ty).any (·.isEnumScalar)

def flatEnumPayload (ty : MachineTypeId) : Bool :=
  (ty.lookup module.types).any fun record ↦
    record.sourceName.isSome &&
      match record.kind with
      | .struct fields false => !fields.isEmpty && fields.all fun field ↦ enumScalar module field.ty
      | _ => false

def exactHeterogeneousProfile : List MachineTypeId → Bool
  | [left, right] =>
    left != right &&
      ((flatEnumPayload module left && enumScalar module right) ||
        (enumScalar module left && flatEnumPayload module right) ||
        (enumScalar module left && enumScalar module right))
  | _ => false

/-- Size and alignment of a scalar that variants share. -/
def sharedPayloadLayout : MachineTypeKind → Option (UInt64 × UInt32)
  | .integer bits =>
    if bits == 8 || bits == 16 || bits == 32 || bits == 64 || bits == 128 then
      some ((bits / 8).toUInt64, min (bits / 8).toUInt32 16)
    else none
  | .float32 => some (4, 4)
  | .float64 => some (8, 8)
  | _ => none

def validSharedPayload (payload : Option MachineTypeId) : Bool :=
  payload.any fun payload ↦ (payload.lookup module.types).any fun record ↦
    sharedPayloadLayout record.kind == some (record.size, record.alignment)

def uniformPayload : List MachineTypeId → Option MachineTypeId
  | [] => none
  | first :: rest => if rest.all (· == first) then some first else none

/-- The largest size and alignment of the payloads. -/
def derivedStorage (payloads : List MachineTypeId) : Option (UInt64 × UInt32) :=
  payloads.foldlM (fun (size, alignment) payload ↦
    (payload.lookup module.types).map fun record ↦
      (max size record.size, max alignment record.alignment)) (0, 1)

def validStorage (payloads : List MachineTypeId) (storage : Option MachineEnumStorage) : Bool :=
  storage.any fun storage ↦ (derivedStorage module payloads).any fun (size, alignment) ↦
    let alignment := max alignment 1
    alignUp size alignment == some storage.size && storage.alignment == alignment &&
      validAlignment storage.alignment &&
      decide (storage.alignment ≤ module.layout.maximumObjectAlignment)

/-- Where the payload is: in the slot the variants share, or in the storage of the enum. -/
def physicalPayload (payload : Option MachineTypeId) (storage : Option MachineEnumStorage) :
    Option (UInt64 × UInt32) :=
  match payload.bind fun payload ↦ payload.lookup module.types with
  | some record => some (record.size, record.alignment)
  | none => storage.map fun storage ↦ (storage.size, storage.alignment)

def validEnumLayout (ty : MachineType) (payload : Option MachineTypeId)
    (storage : Option MachineEnumStorage) : Bool :=
  (physicalPayload module payload storage).any fun (size, alignment) ↦
    let alignment := max alignment 1
    let mask := alignment.toUInt64 - 1
    let offset := (1 + mask) &&& ~~~mask
    (checkedAdd offset size).map (fun size ↦ (size + mask) &&& ~~~mask) == some ty.size &&
      ty.alignment == alignment

def validEnumRepresentation (ty : MachineType) (payload : Option MachineTypeId)
    (storage : Option MachineEnumStorage) (variantPayloads : List (Option MachineTypeId)) : Bool :=
  let payloads := variantPayloads.filterMap id
  if payloads.isEmpty then payload.isNone && storage.isNone && ty.size == 1 && ty.alignment == 1
  else
    validEnumLayout module ty payload storage &&
      match uniformPayload payloads, payload, storage with
      | some logical, some physical, none =>
        logical == physical && validSharedPayload module payload
      | none, none, some _ =>
        (exactHeterogeneousProfile module payloads ||
          exactOperationOnlyAsyncOutcomeEnum module ty.id) && validStorage module payloads storage
      | _, _, _ => false

/-- The end of the fields so far and the alignment they need, with what is wrong about them. -/
def validateFields (ty : MachineType) (packed : Bool) :
    UInt64 → UInt32 → List MachineField → Report × UInt64 × UInt32
  | previousEnd, alignment, [] => ([], previousEnd, alignment)
  | previousEnd, alignment, field :: fields =>
    let reference := requireId "struct field type" field.ty module.types.length
    match field.ty.lookup module.types with
    | none =>
      let (report, rest) := validateFields ty packed previousEnd alignment fields
      (reference ++ report, rest)
    | some record =>
      let fieldAlignment := if packed then 1 else record.alignment
      let fieldEnd := checkedAdd field.offset record.size
      let (report, rest) := validateFields ty packed (fieldEnd.getD (.ofNat (UInt64.size - 1)))
        (max alignment fieldAlignment) fields
      (reference ++
        reportIf (alignUp previousEnd fieldAlignment != some field.offset ||
          fieldEnd.all fun fieldEnd ↦ fieldEnd > ty.size)
          (.invalidRecord "struct field" ty.id.val) ++
        report, rest)

def validateTypeKind (ty : MachineType) : Report :=
  match ty.kind with
  | .void => reportIf (ty.size != 0) (.invalidRecord "void type" ty.id.val)
  | .integer bits =>
    reportIf (bits == 0 || bits > 128 || decide ((bits.toNat + 7) / 8 > ty.size.toNat))
      (.invalidRecord "integer type" ty.id.val)
  | .float32 => reportIf (ty.size < 4) (.invalidRecord "floating type" ty.id.val)
  | .float64 => reportIf (ty.size < 8) (.invalidRecord "floating type" ty.id.val)
  | .pointer _ pointee =>
    reportIf (ty.size != (module.layout.pointerBits / 8).toUInt64)
      (.invalidRecord "pointer type" ty.id.val) ++
    pointee.toList.flatMap fun pointee ↦ requireId "pointer pointee" pointee module.types.length
  | .vector element lanes =>
    requireId "vector element" element module.types.length ++
      reportIf (lanes == 0) (.invalidRecord "vector type" ty.id.val)
  | .array element _ => requireId "array element" element module.types.length
  | .staticString bytes =>
    reportIf (bytes == 0 || ty.size != bytes || ty.alignment != 1)
      (.invalidRecord "static string type" ty.id.val)
  | .staticBytes bytes =>
    reportIf (bytes == 0 || ty.size != bytes || ty.alignment != 1)
      (.invalidRecord "static bytes type" ty.id.val)
  | .struct fields packed =>
    let (report, fieldsEnd, alignment) := validateFields module ty packed 0 1 fields
    report ++ reportIf (ty.alignment != alignment || alignUp fieldsEnd alignment != some ty.size)
      (.invalidRecord "struct layout" ty.id.val)
  | .taggedEnum tag payload storage variants variantPayloads =>
    let validTag := (tag.lookup module.types).any fun record ↦
      record.kind == .integer 8 && record.size == 1 && record.alignment == 1
    requireId "tagged enum tag type" tag module.types.length ++
    (payload.toList.flatMap fun payload ↦
      requireId "tagged enum payload type" payload module.types.length) ++
    reportIf (variants == 0 || variants > 256 || variants.toNat != variantPayloads.length ||
      !validTag || !validEnumRepresentation module ty payload storage variantPayloads)
      (.invalidRecord "tagged enum type" ty.id.val)
  | .function parameters result =>
    (parameters.flatMap fun parameter ↦
      requireId "function parameter type" parameter module.types.length) ++
    requireId "function result type" result module.types.length

def validateType (ty : MachineType) : Report :=
  reportIf (!validAlignment ty.alignment || ty.alignment > module.layout.maximumObjectAlignment ||
    (ty.size != 0 && ty.size % ty.alignment.toUInt64 != 0))
    (.invalidRecord "machine type layout" ty.id.val) ++ validateTypeKind module ty

def MachineTypeKind.isInteger : MachineTypeKind → Bool
  | .integer _ => true
  | _ => false

def MachineTypeKind.isFloat : MachineTypeKind → Bool
  | .float32 | .float64 => true
  | _ => false

def MachineTypeKind.isPointer : MachineTypeKind → Bool
  | .pointer _ _ => true
  | _ => false

def isInteger (ty : MachineTypeId) : Bool := (typeKind module ty).any (·.isInteger)

def isBool (ty : MachineTypeId) : Bool := typeKind module ty == some (.integer 8)

def isFloat (ty : MachineTypeId) : Bool := (typeKind module ty).any (·.isFloat)

def isPointer (ty : MachineTypeId) : Bool := (typeKind module ty).any (·.isPointer)

def pointerAccepts (pointer value : MachineTypeId) : Bool :=
  (typeKind module pointer).any fun kind ↦
    match kind with
    | .pointer _ pointee => pointee.all (· == value)
    | _ => false

def checkedNumericKindMatches (kind : CheckedNumericKind) (ty : MachineTypeId) : Bool :=
  (typeKind module ty).any fun found ↦
    match kind with
    | .unsignedInteger | .signedInteger => found.isInteger
    | .float32 => found == .float32
    | .float64 => found == .float64

def integerBits : MachineTypeKind → Option UInt16
  | .integer bits => some bits
  | _ => none

def scalarOrVector : MachineTypeKind → Bool
  | .integer _ | .float32 | .float64 | .pointer _ _ | .vector _ _ => true
  | _ => false

/-- Two widths in the order a conversion asks for. -/
def integerWidths (source destination : MachineTypeKind) (valid : UInt16 → UInt16 → Bool) : Bool :=
  match integerBits source, integerBits destination with
  | some source, some destination => valid source destination
  | _, _ => false

def validConversion (op : ConversionOp) (source destination : MachineTypeId) : Bool :=
  match source.lookup module.types, destination.lookup module.types with
  | some source, some destination =>
    match op with
    | .integerTruncate =>
      integerWidths source.kind destination.kind fun source destination ↦ destination < source
    | .zeroExtend | .signExtend =>
      integerWidths source.kind destination.kind fun source destination ↦ destination > source
    | .floatTruncate => source.kind == .float64 && destination.kind == .float32
    | .floatExtend => source.kind == .float32 && destination.kind == .float64
    | .unsignedIntegerToFloat | .signedIntegerToFloat =>
      source.kind.isInteger && destination.kind.isFloat
    | .floatToUnsignedInteger | .floatToSignedInteger =>
      source.kind.isFloat && destination.kind.isInteger
    | .pointerToInteger =>
      source.kind.isPointer && integerBits destination.kind == some module.layout.pointerBits
    | .integerToPointer =>
      integerBits source.kind == some module.layout.pointerBits && destination.kind.isPointer
    | .bitcast =>
      source.size == destination.size && scalarOrVector source.kind &&
        scalarOrVector destination.kind
  | _, _ => false

open Wrela.Source Wrela.BuildModel

variable (module : MachineWir) (function : MachineFunction)

def valueType (value : ValueId) : Option MachineTypeId := (value.lookup function.values).map (·.ty)

/-- Just the bytes of the width, and no bit above it. -/
def integerBytesAreCanonical (kind : MachineTypeKind) (bytes : List UInt8) : Bool :=
  match kind with
  | .integer bits =>
    bytes.length == (bits.toNat + 7) / 8 &&
      (bits.toNat % 8 == 0 || bytes.getLast?.any fun last ↦ last.toNat < 2 ^ (bits.toNat % 8))
  | _ => false

def immediateMatchesType (immediate : MachineImmediate) (expected : MachineTypeId) : Bool :=
  (expected.lookup module.types).any fun ty ↦
    match immediate with
    | .integer immediateType bytesLe =>
      immediateType == expected && ty.kind.isInteger && integerBytesAreCanonical ty.kind bytesLe
    | .float32 _ => ty.kind == .float32
    | .float64 _ => ty.kind == .float64
    | .null immediateType => immediateType == expected && ty.kind.isPointer
    | .zero immediateType => immediateType == expected && ty.kind != .void
    | .symbolAddress _ => ty.kind.isPointer
    | .bytes bytes => ty.kind != .void && bytes.length == ty.size.toNat

/-- A literal of a test stands in its source and has a name. -/
def literalOfTest (instruction : MachineInstruction) : Bool :=
  (match function.origin with
    | .sourceSemantic _ => true
    | _ => false) &&
  function.role == .test && function.parameters.isEmpty &&
  typeKind module function.result == some .void &&
  (instruction.source.any fun literal ↦
    decide (literal.range.start < literal.range.stop) &&
      function.source.any fun owner ↦
        owner.file == literal.file && decide (owner.range.start ≤ literal.range.start) &&
          decide (owner.range.stop ≥ literal.range.stop)) &&
  instruction.results.head?.any fun result ↦ (result.lookup function.values).any fun value ↦
    value.sourceName.any fun name ↦ !name.isEmpty

def literalMatches (expected : MachineTypeId) (bytes : List UInt8) (extent : UInt64)
    (name : String) : Bool :=
  (expected.lookup module.types).any fun ty ↦
    extent > 0 && extent.toNat == bytes.length && ty.sourceName == some name &&
      ty.size.toNat == bytes.length && ty.alignment == 1

/-- Bytes of static text or static data come from a literal of a test. -/
def staticImmediateMatches (instruction : MachineInstruction) (expected : MachineTypeId)
    (bytes : List UInt8) : Bool :=
  match typeKind module expected with
  | some (.staticString extent) =>
    literalMatches module expected bytes extent "Static[Str]" && (Wire.fromUtf8 bytes).isSome &&
      literalOfTest module function instruction
  | some (.staticBytes extent) =>
    literalMatches module expected bytes extent
      ("Static[Bytes[" ++ toString bytes.length ++ "]]") &&
          literalOfTest module function instruction
  | _ => true

def structFields : MachineTypeKind → Option (List MachineField)
  | .struct fields false => some fields
  | _ => none

def fieldType (ty : MachineTypeId) (field : UInt32) : Option MachineTypeId := do
  let kind ← typeKind module ty
  let fields ← structFields kind
  let field ← fields[field.toNat]?
  pure field.ty

def enumPayloadScalarType (ty : MachineTypeId) : Bool :=
  (typeKind module ty).any fun kind ↦ kind.isEnumScalar || kind == .integer 1

def flatNominalEnumPayloadType (ty : MachineTypeId) : Bool :=
  (ty.lookup module.types).any fun record ↦
    record.sourceName.isSome && (structFields record.kind).any fun fields ↦
      !fields.isEmpty && fields.all fun field ↦ enumPayloadScalarType module field.ty

def variantSpecificEnumPayloadProfile (payloads : List (Option MachineTypeId))
    (storage : Option MachineEnumStorage) : Bool :=
  match payloads with
  | [some left, some right] =>
    let scalars := [left, right].countP (enumPayloadScalarType module)
    let nominal := [left, right].countP (flatNominalEnumPayloadType module)
    left != right && storage.isSome && (scalars == 2 || (scalars == 1 && nominal == 1))
  | _ => false

/-- The type of the payload of a variant, or of every variant. -/
def enumPayloadType (variantPayloads : List (Option MachineTypeId))
    (storage : Option MachineEnumStorage) : Option UInt8 → Option MachineTypeId
  | some variant =>
    if variantSpecificEnumPayloadProfile module variantPayloads storage then
      variantPayloads[variant.toNat]?.join
    else none
  | none => if storage.isNone then uniformPayload (variantPayloads.filterMap id) else none

/-- The kinds of proof that bound an index: what they state, and from how many places. -/
def indexProofSubjects : List (String × ℕ) :=
  [("FlowWir proof: inline fixed-array iteration", 1),
    ("FlowWir proof: inline fixed-array pattern match", 1),
    ("FlowWir proof: stored fixed-array iteration", 2)]

def validIndexProof (proof : ProofId) (length : UInt64) : Bool :=
  function.proofs.contains proof && (proof.lookup module.proofs).any fun record ↦
    record.id == proof && record.kind == .capacityBound && record.bound == some length &&
      record.dependsOn.isEmpty && indexProofSubjects.any fun (subject, sources) ↦
        record.statement == subject && record.sources.length == sources

def validIndexSlot (slot : StackSlotId) (array : MachineType) : Bool :=
  (slot.lookup function.stackSlots).any fun record ↦
    function.stackSlots.findIdx? (fun candidate ↦ candidate.id == record.id) ==
        some record.id.index &&
      record.size == array.size && record.alignment == array.alignment &&
      record.sourceName == some "fixed-array.index.storage" && record.liveStates.isEmpty &&
      record.overlayGroup.isNone

def operationTypesValid (instruction : MachineInstruction) : Bool :=
  let valueType := valueType function
  let resultType := instruction.results.head?.bind valueType
  let noResult := instruction.results.isEmpty
  let oneResult := instruction.results.length == 1
  let same (left right : ValueId) := (valueType left).isSome && valueType left == valueType right
  let kindOf (value : ValueId) := (valueType value).bind (typeKind module)
  match instruction.operation with
  | .immediate immediate =>
    oneResult && resultType.any fun ty ↦
      immediateMatchesType module immediate ty &&
        match immediate with
        | .bytes bytes => staticImmediateMatches module function instruction ty bytes
        | _ => true
  | .unary op value =>
    oneResult && valueType value == resultType && (valueType value).any fun ty ↦
      match op with
      | .boolNot => isBool module ty
      | .bitNot => isInteger module ty
      | .floatNegate => isFloat module ty
  | .arithmetic op left right =>
    oneResult && same left right && valueType left == resultType && (valueType left).any fun ty ↦
      match op with
      | .floatAdd | .floatSubtract | .floatMultiply | .floatDivide => isFloat module ty
      | _ => isInteger module ty
  | .checkedInteger _ _ left right _ =>
    oneResult && same left right && valueType left == resultType &&
      (valueType left).any (isInteger module)
  | .integerCompare _ left right =>
    oneResult && same left right && (valueType left).any (isInteger module) &&
      resultType.any (isBool module)
  | .floatCompare _ left right =>
    oneResult && same left right && (valueType left).any (isFloat module) &&
      resultType.any (isBool module)
  | .convert op value destination =>
    oneResult && resultType == some destination &&
      (valueType value).any fun source ↦ validConversion module op source destination
  | .checkedConvert source destinationKind value destination _ =>
    oneResult && resultType == some destination &&
      ((valueType value).any fun ty ↦ checkedNumericKindMatches module source ty) &&
      checkedNumericKindMatches module destinationKind destination
  | .select condition thenValue elseValue =>
    oneResult && (valueType condition).any (isBool module) && same thenValue elseValue &&
      valueType thenValue == resultType
  | .makeStruct ty fields =>
    oneResult && resultType == some ty &&
      ((typeKind module ty).bind structFields).any fun expected ↦
        !expected.isEmpty && expected.map (fun field ↦ some field.ty) == fields.map valueType
  | .makeArray ty elements =>
    oneResult && resultType == some ty && (typeKind module ty).any fun kind ↦
      match kind with
      | .array element length =>
        length > 0 && elements.length == length.toNat &&
          elements.all fun value ↦ valueType value == some element
      | _ => false
  | .insertField aggregate field value =>
    oneResult && valueType aggregate == resultType &&
      ((valueType aggregate).bind fun ty ↦ fieldType module ty field).any fun expected ↦
        valueType value == some expected
  | .extractField aggregate field =>
    oneResult && ((valueType aggregate).bind fun ty ↦ fieldType module ty field).any fun expected ↦
      resultType == some expected
  | .extractIndex aggregate index proof slot =>
    oneResult && kindOf index == some (.integer 64) &&
      (((valueType aggregate).bind fun ty ↦ ty.lookup module.types).any fun record ↦
        match record.kind with
        | .array element length =>
          length > 0 && resultType == some element &&
            validIndexProof module function proof length &&
            validIndexSlot function slot record
        | _ => false)
  | .copy value => oneResult && valueType value == resultType
  | .makeEnum ty variant payload =>
    oneResult && resultType == some ty && (typeKind module ty).any fun kind ↦
      match kind with
      | .taggedEnum _ _ _ variants variantPayloads =>
        decide (variant.toNat < variants.toNat) &&
          variantPayloads[variant.toNat]?.any fun expected ↦
            match expected, payload with
            | none, none => true
            | some expected, some payload => valueType payload == some expected
            | _, _ => false
      | _ => false
  | .enumTag value =>
    oneResult && (kindOf value).any fun kind ↦
      match kind with
      | .taggedEnum tag _ _ _ _ => resultType == some tag
      | _ => false
  | .enumPayload value variant =>
    oneResult && (kindOf value).any fun kind ↦
      match kind with
      | .taggedEnum _ _ storage _ variantPayloads =>
        (enumPayloadType module variantPayloads storage variant).any fun expected ↦
          resultType == some expected
      | _ => false
  | .addressOffset base byteOffset _ =>
    oneResult && (valueType base).any (isPointer module) &&
      (valueType byteOffset).any (isInteger module) && valueType base == resultType
  | .load address ty _ _ =>
    oneResult && resultType == some ty &&
      (valueType address).any fun address ↦ pointerAccepts module address ty
  | .store address value _ _ =>
    noResult && (valueType address).any fun address ↦ (valueType value).any fun value ↦
      pointerAccepts module address value
  | .actorReserve .. | .stackAddress _ => oneResult && resultType.any (isPointer module)
  | .actorCommit reservation .. => noResult && (valueType reservation).any (isPointer module)
  | .actorReplyRequest slot _ _ method _ _ _ _ =>
    oneResult && resultType.bind (typeKind module) == some (.integer 64) &&
      ((method.lookup module.functions).bind fun target ↦ typeKind module target.result) ==
        some (.integer 64) &&
      (slot.lookup function.stackSlots).any fun slot ↦ slot.size == 16 && slot.alignment == 8
  | .actorReplyResolve outcome _ => noResult && kindOf outcome == some (.integer 64)
  | .mailboxReceive .. | .mailboxDispatch .. | .fence _ => noResult
  | .memoryCopy destination source bytes .. =>
    noResult && (valueType destination).any (isPointer module) &&
      (valueType source).any (isPointer module) && (valueType bytes).any (isInteger module)
  | .memorySet destination byte bytes _ =>
    noResult && (valueType destination).any (isPointer module) &&
      (valueType byte).any (isBool module) && (valueType bytes).any (isInteger module)
  | .testAssert condition _ => noResult && (valueType condition).any (isBool module)
  | .globalAddress global =>
    oneResult && resultType.any fun pointer ↦ (global.lookup module.globals).any fun global ↦
      pointerAccepts module pointer global.ty
  | .call .. | .runtimeCall .. => true

def validateOperationTypes (instruction : MachineInstruction) : Report :=
  reportIf (!operationTypesValid module function instruction)
    (.operationTypeMismatch function.id instruction.id)

end Wrela.Machine
