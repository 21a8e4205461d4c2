import Wrela.Graph.Drain
import Wrela.Machine.Types

/-!
# Interrupt routes

Every interrupt of the image has one route to one handler, as the target binds it.  From a handler
the validator follows calls and tail calls; a function it finds may not hold floating-point or
vector values, compute with them, or call the runtime.
-/

namespace Wrela.Machine

open List Wrela.Source Wrela.BuildModel Wrela.Graph

/-- An interrupt of the controller; its only domain are shared peripheral interrupts. -/
structure InterruptBinding where
  line : UInt32
  globalId : UInt32

structure MmioBinding where
  name : String
  interrupt : Option InterruptBinding

/-- What the validator reads of a target package. -/
structure TargetPackage where
  mmioBindings : List MmioBinding
  entrySymbol : String

variable (module : MachineWir)

def MachineTypeKind.isSimd : MachineTypeKind → Bool
  | .float32 | .float64 | .vector _ _ => true
  | _ => false

/-- The types that the validator looks into from a type. -/
def MachineTypeKind.searched : MachineTypeKind → List MachineTypeId
  | .array element _ => [element]
  | .struct fields _ => fields.map (·.ty)
  | .taggedEnum tag payload _ _ _ => tag :: payload.toList
  | .function parameters result => result :: parameters
  | _ => []

def searchedTypes (index : ℕ) : List ℕ :=
  (module.types[index]?.map fun record ↦ record.kind.searched.map (·.index)).getD []

/-- The type of the result, and above it those of the values. -/
def signatureTypes (function : MachineFunction) : List MachineTypeId :=
  (function.result :: function.values.map (·.ty)).reverse

/-- The search stops at the first such type; that it goes on here makes no difference. -/
def functionRequiresSimd (function : MachineFunction) : Bool :=
  (reached (searchedTypes module) module.types.length
    ((signatureTypes function).map (·.index))).any fun index ↦
      module.types[index]?.any fun record ↦ record.kind.isSimd

def forbiddenInInterrupt : MachineOperation → Bool
  | .arithmetic op _ _ =>
    match op with
    | .floatAdd | .floatSubtract | .floatMultiply | .floatDivide => true
    | _ => false
  | .floatCompare _ _ _ => true
  | .immediate (.float32 _) | .immediate (.float64 _) => true
  | .convert op _ _ =>
    match op with
    | .floatTruncate | .floatExtend | .unsignedIntegerToFloat | .signedIntegerToFloat
    | .floatToUnsignedInteger | .floatToSignedInteger => true
    | _ => false
  | .runtimeCall intrinsic _ => intrinsic != .fatal
  | _ => false

def MachineFunction.operations (function : MachineFunction) : List MachineOperation :=
  function.blocks.flatMap fun block ↦ block.instructions.map (·.operation)

def calledBy : MachineOperation → List FunctionId
  | .call function _ _ => [function]
  | _ => []

def tailCalledBy : MachineTerminator → List FunctionId
  | .tailCall function _ => [function]
  | _ => []

def calls (function : MachineFunction) : List FunctionId :=
  function.blocks.flatMap fun block ↦
    (block.instructions.flatMap fun instruction ↦ calledBy instruction.operation) ++
      tailCalledBy block.terminator

def callees (index : ℕ) : List ℕ :=
  (module.functions[index]?.map fun function ↦ (calls function).map (·.index)).getD []

def forbiddenFunction (function : MachineFunction) : Bool :=
  functionRequiresSimd module function || function.operations.any forbiddenInInterrupt

/-- The functions reached from a handler, in the order they are entered. -/
def interruptReachable (handler : FunctionId) : List ℕ :=
  (reached (callees module) module.functions.length [handler.index]).reverse

def validateInterruptCallGraph (handler : FunctionId) : Report :=
  (interruptReachable module handler).flatMap fun index ↦
    reportIf (module.functions[index]?.any (forbiddenFunction module))
      (.invalidInterruptReachableCode handler ⟨UInt32.ofNat index⟩)

def handlerCount (handler : FunctionId) : ℕ :=
  module.interrupts.countP fun interrupt ↦ interrupt.handler == handler

def globalIdCount (globalId : UInt32) : ℕ :=
  module.interrupts.countP fun interrupt ↦ interrupt.globalId == globalId

def matchesTarget (target : TargetPackage) (interrupt : InterruptEntry) : Bool :=
  ((target.mmioBindings.find? fun binding ↦ binding.name == interrupt.targetBinding).bind
    (·.interrupt)).any fun binding ↦
      binding.line == interrupt.line && binding.globalId == interrupt.globalId

def uniqueRoute (target : TargetPackage) (interrupt : InterruptEntry) : Bool :=
  !isBlank interrupt.targetBinding && interrupt.line.toNat + 32 == interrupt.globalId.toNat &&
    matchesTarget target interrupt && globalIdCount module interrupt.globalId == 1 &&
    decide (interrupt.handler.index < module.functions.length) &&
    handlerCount module interrupt.handler == 1

def validHandler (interrupt : InterruptEntry) : Bool :=
  (interrupt.handler.lookup module.functions).any fun handler ↦
    handler.linkage == .local_ && handler.convention == .interruptHandler &&
      handler.role == .isr interrupt.device && handler.parameters.isEmpty &&
      typeKind module handler.result == some .void &&
      ((handler.symbol.lookup module.symbols).any fun symbol ↦ symbol.visibility == .local_) &&
      (handler.proofs.countP fun proof ↦
        (proof.lookup module.proofs).any fun record ↦ record.kind == .isrSafe) == 1

def validateHandlerRoutes (handler : MachineFunction) : Report :=
  if handler.convention = .interruptHandler then
    reportIf (handlerCount module handler.id != 1)
      (.interruptHandlerRouteCount handler.id (handlerCount module handler.id)) ++
    validateInterruptCallGraph module handler.id
  else []

def validateInterruptEntries (target : TargetPackage) : Report :=
  reportIf (!decide ((module.interrupts.map fun interrupt ↦
      Wire.utf8Bytes interrupt.targetBinding).IsChain (· < ·))) .nonCanonicalInterruptEntries ++
  (module.interrupts.flatMap fun interrupt ↦
    reportIf (!uniqueRoute module target interrupt || !validHandler module interrupt)
      (.invalidInterruptEntry interrupt.id)) ++
  module.functions.flatMap (validateHandlerRoutes module)

end Wrela.Machine

/-!
## Interrupt isolation

A handler transfers control by calls, by tail calls and by dispatching a message to the method that
receives it.  Isolated code holds no floating-point or vector component, computes with none and
enters the runtime only to abandon.  The validator follows calls, and types as far as they are laid
out in fields; the code it accepts is isolated just in case what it does not follow is.
-/

namespace Wrela.Machine

open List Wrela.Source Wrela.BuildModel Wrela.Graph

variable (module : MachineWir)

/-- The types of which a value of the type is made: elements, fields, parameters and results, and
what any variant carries. -/
def MachineTypeKind.components : MachineTypeKind → List MachineTypeId
  | .array element _ => [element]
  | .struct fields _ => fields.map (·.ty)
  | .taggedEnum tag payload _ _ variantPayloads =>
    tag :: (payload.toList ++ variantPayloads.filterMap id)
  | .function parameters result => result :: parameters
  | _ => []

/-- One type is a component of the other. -/
inductive Contains : MachineTypeId → MachineTypeId → Prop
  | refl (ty : MachineTypeId) : Contains ty ty
  | step {ty component inner : MachineTypeId} {kind : MachineTypeKind}
      (known : typeKind module ty = some kind) (made : component ∈ kind.components)
      (inside : Contains component inner) : Contains ty inner

def HoldsSimd (ty : MachineTypeId) : Prop :=
  ∃ inner, Contains module ty inner ∧ (typeKind module inner).any (·.isSimd) = true

def CheckedNumericKind.isFloat : CheckedNumericKind → Bool
  | .float32 | .float64 => true
  | _ => false

/-- The operations and conversions on floating-point numbers. -/
def MachineOperation.isFloatingPoint : MachineOperation → Bool
  | .immediate (.float32 _) | .immediate (.float64 _) => true
  | .unary .floatNegate _ => true
  | .arithmetic op _ _ => [.floatAdd, .floatSubtract, .floatMultiply, .floatDivide].contains op
  | .floatCompare _ _ _ => true
  | .convert op _ _ =>
    [.floatTruncate, .floatExtend, .unsignedIntegerToFloat, .signedIntegerToFloat,
      .floatToUnsignedInteger, .floatToSignedInteger].contains op
  | .checkedConvert source destinationKind _ _ _ => source.isFloat || destinationKind.isFloat
  | _ => false

/-- The runtime intrinsics that an operation may enter. -/
def MachineOperation.intrinsics : MachineOperation → List RuntimeIntrinsic
  | .runtimeCall intrinsic _ => [intrinsic]
  | .testAssert _ _ => [.testAssertionFail]
  | .checkedInteger .. | .checkedConvert .. | .actorReserve .. | .mailboxReceive ..
  | .actorReplyRequest .. => [.fatal]
  | _ => []

structure IsolatedFunction (function : MachineFunction) : Prop where
  types : ∀ ty ∈ signatureTypes function, ¬ HoldsSimd module ty
  operations : ∀ operation ∈ function.operations, operation.isFloatingPoint = false
  intrinsics : ∀ operation ∈ function.operations,
    ∀ intrinsic ∈ operation.intrinsics, intrinsic = .fatal

/-- The functions an operation may hand control to: the one it calls, or the method that receives
the message it dispatches. -/
def transferredBy : MachineOperation → List FunctionId
  | .call function _ _ => [function]
  | .mailboxDispatch _ _ method => [method]
  | .actorReplyRequest _ _ _ method _ _ _ _ => [method]
  | _ => []

def transfers (function : MachineFunction) : List FunctionId :=
  function.blocks.flatMap fun block ↦
    (block.instructions.flatMap fun instruction ↦ transferredBy instruction.operation) ++
      tailCalledBy block.terminator

/-- A chain of control transfers of some kind from one function to another. -/
inductive Chain (targets : MachineFunction → List FunctionId) : FunctionId → FunctionId → Prop
  | refl (id : FunctionId) : Chain targets id id
  | step {source middle target : FunctionId} {function : MachineFunction}
      (chain : Chain targets source middle) (found : middle.lookup module.functions = some function)
      (transfer : target ∈ targets function) : Chain targets source target

/-- Every handler has one route, no two routes share an interrupt, and whatever a handler reaches is
isolated. -/
structure InterruptIsolation : Prop where
  routed : ∀ handler ∈ module.functions, handler.convention = .interruptHandler →
    handlerCount module handler.id = 1
  unshared : (module.interrupts.map (·.globalId)).Nodup
  isolated : ∀ handler ∈ module.functions, handler.convention = .interruptHandler →
    ∀ callee function, Chain module transfers handler.id callee →
      callee.lookup module.functions = some function → IsolatedFunction module function

/-- The checks that bear on interrupts; a module that is sealed has passed them. -/
structure InterruptChecked (target : TargetPackage) : Prop where
  functionsDense : checkDense "function" (module.functions.map fun function ↦ function.id.val) = []
  types : ∀ ty ∈ module.types, validateType module ty = []
  operations : ∀ function ∈ module.functions, ∀ block ∈ function.blocks,
    ∀ instruction ∈ block.instructions, validateOperationTypes module function instruction = []
  interrupts : validateInterruptEntries module target = []

/-- The parts that the validator does not follow are isolated as well: the functions that a handler
only reaches over a dispatched message pass the test that the called ones pass, no function that a
handler reaches has a test assertion, and none of its types contains an enum that stores variants
apart and holds a floating-point or vector component in one of them. -/
structure UnfollowedIsolated : Prop where
  dispatched : ∀ handler ∈ module.functions, handler.convention = .interruptHandler →
    ∀ callee function, Chain module transfers handler.id callee →
      ¬ Chain module calls handler.id callee → callee.lookup module.functions = some function →
      forbiddenFunction module function = false
  assertions : ∀ handler ∈ module.functions, handler.convention = .interruptHandler →
    ∀ callee function, Chain module transfers handler.id callee →
      callee.lookup module.functions = some function →
        ∀ condition failure, .testAssert condition failure ∉ function.operations
  variants : ∀ handler ∈ module.functions, handler.convention = .interruptHandler →
    ∀ callee function, Chain module transfers handler.id callee →
      callee.lookup module.functions = some function → ∀ ty ∈ signatureTypes function,
        ∀ enum tag payload storage variants variantPayloads, Contains module ty enum →
          typeKind module enum = some (.taggedEnum tag payload (some storage) variants
            variantPayloads) →
          ∀ variant ∈ variantPayloads.filterMap id, ¬ HoldsSimd module variant

variable {module : MachineWir}

variable {ty : MachineTypeId} {operation : MachineOperation}

theorem Contains.trans {middle inner : MachineTypeId} (h : Contains module ty middle)
    (h' : Contains module middle inner) : Contains module ty inner := by
  induction h with
  | refl ty => exact h'
  | step known made inside ih => exact .step known made (ih h')

theorem searched_subset_components (kind : MachineTypeKind) : kind.searched ⊆ kind.components := by
  intro ty hty
  cases kind with
  | taggedEnum tag payload storage variants variantPayloads =>
    rcases mem_cons.1 hty with rfl | hty
    · exact mem_cons_self
    · exact mem_cons_of_mem _ (mem_append_left _ hty)
  | _ => exact hty

theorem typeKind_eq_some :
    typeKind module ty = some kind ↔
      ∃ record, module.types[ty.index]? = some record ∧ record.kind = kind := by
  rw [typeKind, Id.lookup, Option.map_eq_some_iff]

theorem lt_of_typeKind (h : typeKind module ty = some kind) : ty.index < module.types.length := by
  obtain ⟨record, hrecord, -⟩ := typeKind_eq_some.1 h
  exact (List.getElem?_eq_some_iff.1 hrecord).1

/-- What the search of types finds is a component. -/
theorem contains_of_reached (h : Reached (searchedTypes module) module.types.length
      ((signatureTypes function).map (·.index)) index) :
    ∃ ty ∈ signatureTypes function, ∃ inner : MachineTypeId,
      inner.index = index ∧ Contains module ty inner := by
  obtain ⟨start, hstart, hpath⟩ := h
  obtain ⟨ty, hty, rfl⟩ := mem_map.1 hstart
  refine ⟨ty, hty, ?_⟩
  induction hpath with
  | refl => exact ⟨ty, rfl, .refl ty⟩
  | @tail node other hpath hedge ih =>
    obtain ⟨inner, rfl, hinner⟩ := ih
    obtain ⟨-, hnext⟩ := hedge
    cases hrecord : module.types[inner.index]? with
    | none =>
      rw [searchedTypes, hrecord] at hnext
      cases hnext
    | some record =>
      rw [searchedTypes, hrecord] at hnext
      obtain ⟨component, hcomponent, rfl⟩ := mem_map.1 hnext
      exact ⟨component, rfl, hinner.trans (.step (typeKind_eq_some.2 ⟨record, hrecord, rfl⟩)
        (searched_subset_components _ hcomponent) (.refl _))⟩

theorem holdsSimd_of_functionRequiresSimd (h : functionRequiresSimd module function = true) :
    ∃ ty ∈ signatureTypes function, HoldsSimd module ty := by
  obtain ⟨index, hindex, hsimd⟩ := any_eq_true.1 h
  obtain ⟨-, hreached⟩ := mem_reached.1 hindex
  obtain ⟨ty, hty, inner, rfl, hinner⟩ := contains_of_reached hreached
  refine ⟨ty, hty, inner, hinner, ?_⟩
  rw [typeKind, Id.lookup, Option.any_map]
  exact hsimd

/-- In a checked enum whose variants share their slot the slot has the type of every variant. -/
theorem mem_payload_of_validateType (h : validateType module record = [])
    (hkind : record.kind = .taggedEnum tag payload none variants variantPayloads)
    (hvariant : variant ∈ variantPayloads.filterMap id) : variant ∈ payload.toList := by
  have hvalid : validEnumRepresentation module record payload none variantPayloads = true := by
    have hkindReport := (append_eq_nil_iff.1 h).2
    simp only [validateTypeKind, hkind, append_eq_nil_iff, reportIf_eq_nil,
      Bool.or_eq_false_iff, Bool.not_eq_false'] at hkindReport
    exact hkindReport.2.2
  have hnonempty : (variantPayloads.filterMap id).isEmpty = false := by
    rw [isEmpty_eq_false_iff]
    exact ne_nil_of_mem hvariant
  simp only [validEnumRepresentation, hnonempty, Bool.false_eq_true, if_false] at hvalid
  have hshared := (Bool.and_eq_true_iff.1 hvalid).2
  cases huniform : uniformPayload (variantPayloads.filterMap id) with
  | none =>
    rw [huniform] at hshared
    cases payload <;> cases hshared
  | some logical =>
    rw [huniform] at hshared
    cases payload with
    | none => cases hshared
    | some physical =>
      have hsame : logical = physical := by
        rw [Bool.and_eq_true, beq_iff_eq] at hshared
        exact hshared.1
      have hall : ∀ candidate ∈ variantPayloads.filterMap id, candidate = logical := by
        cases hpayloads : variantPayloads.filterMap id with
        | nil => simp
        | cons first rest =>
          rw [hpayloads, uniformPayload] at huniform
          split at huniform
          · rename_i hrest
            cases huniform
            intro candidate hcandidate
            rcases mem_cons.1 hcandidate with rfl | hcandidate
            · rfl
            · simpa using all_eq_true.1 hrest candidate hcandidate
          · cases huniform
      rw [hall variant hvariant, hsame]
      exact mem_singleton_self _

section Search

variable {function : MachineFunction} {start : MachineTypeId}

/-- A type that the search finds and that contains a floating-point or vector component contains an
enum that stores such a variant apart, or the search says so. -/
theorem not_simd_of_searched (htypes : ∀ ty ∈ module.types, validateType module ty = [])
    (hsearch : functionRequiresSimd module function = false)
    (hvariants : ∀ enum tag payload storage variants variantPayloads, Contains module start enum →
      typeKind module enum =
        some (.taggedEnum tag payload (some storage) variants variantPayloads) →
      ∀ variant ∈ variantPayloads.filterMap id, ¬ HoldsSimd module variant)
    {ty inner : MachineTypeId} (hinner : Contains module ty inner)
    (hstart : Contains module start ty)
    (hreached : Reached (searchedTypes module) module.types.length
      ((signatureTypes function).map (·.index)) ty.index) :
    (typeKind module inner).any (·.isSimd) = false := by
  induction hinner with
  | refl ty =>
    cases hkind : typeKind module ty with
    | none => rfl
    | some kind =>
      obtain ⟨record, hrecord, rfl⟩ := typeKind_eq_some.1 hkind
      have hmem := mem_reached.2 ⟨lt_of_typeKind hkind, hreached⟩
      have hany := any_eq_false.1 hsearch ty.index hmem
      rw [hrecord] at hany
      simpa using hany
  | @step ty component inner kind known made inside ih =>
    obtain ⟨record, hrecord, hkind⟩ := typeKind_eq_some.1 known
    have hcomponent : Contains module start component := hstart.trans (.step known made (.refl _))
    by_cases hsearched : component ∈ kind.searched
    · refine ih hcomponent ?_
      obtain ⟨first, hfirst, hpath⟩ := hreached
      refine ⟨first, hfirst, hpath.tail ⟨lt_of_typeKind known, ?_⟩⟩
      rw [searchedTypes, hrecord]
      exact mem_map.2 ⟨component, by rwa [hkind], rfl⟩
    · cases kind with
      | taggedEnum tag payload storage variants variantPayloads =>
        have hvariant : component ∈ variantPayloads.filterMap id := by
          simp only [MachineTypeKind.components, MachineTypeKind.searched, mem_cons,
            mem_append, not_or] at made hsearched
          tauto
        cases storage with
        | none =>
          have hpayload := mem_payload_of_validateType
            (htypes record (mem_of_getElem? hrecord)) hkind hvariant
          exact absurd (mem_cons_of_mem _ hpayload) hsearched
        | some storage =>
          have hnot := hvariants ty tag payload storage variants variantPayloads hstart known
            component hvariant
          exact Bool.eq_false_iff.2 fun hsimd ↦ hnot ⟨inner, inside, hsimd⟩
      | _ => exact absurd made hsearched

end Search

theorem mem_signatureTypes_of_valueType (h : valueType function value = some ty) :
    ty ∈ signatureTypes function := by
  obtain ⟨record, hrecord, rfl⟩ := Option.map_eq_some_iff.1 h
  refine mem_reverse.2 (mem_cons_of_mem _ (mem_map.2 ⟨record, ?_, rfl⟩))
  exact mem_of_getElem? hrecord

theorem holdsSimd_of_isFloat (h : isFloat module ty = true) : HoldsSimd module ty := by
  refine ⟨ty, .refl ty, ?_⟩
  unfold isFloat at h
  cases hkind : typeKind module ty with
  | none =>
    rw [hkind] at h
    cases h
  | some kind =>
    rw [hkind] at h
    cases kind <;> first | rfl | cases h

theorem isFloat_of_checkedNumericKindMatches (hkind : kind.isFloat = true)
    (h : checkedNumericKindMatches module kind ty = true) :
    isFloat module ty = true := by
  unfold checkedNumericKindMatches at h
  unfold isFloat
  cases hfound : typeKind module ty with
  | none =>
    rw [hfound] at h
    cases h
  | some found =>
    rw [hfound] at h
    cases kind with
    | unsignedInteger => cases hkind
    | signedInteger => cases hkind
    | float32 =>
      have hfloat : found = .float32 := by simpa using h
      rw [hfloat]
      rfl
    | float64 =>
      have hfloat : found = .float64 := by simpa using h
      rw [hfloat]
      rfl

/-- The floating-point operations that the validator does not refuse by their names. -/
theorem isFloatingPoint_cases (hfloat : operation.isFloatingPoint = true)
    (hallowed : forbiddenInInterrupt operation = false) :
    (∃ value, operation = .unary .floatNegate value) ∨
      ∃ source destinationKind value destination failure,
        operation = .checkedConvert source destinationKind value destination failure ∧
          (source.isFloat = true ∨ destinationKind.isFloat = true) := by
  cases operation with
  | immediate immediate => cases immediate <;> first | (cases hallowed; done) | cases hfloat
  | unary op value =>
    cases op with
    | floatNegate => exact .inl ⟨value, rfl⟩
    | boolNot => cases hfloat
    | bitNot => cases hfloat
  | floatCompare predicate left right => cases hallowed
  | arithmetic op _ _ | convert op _ _ => cases op <;> first | (cases hallowed; done) | cases hfloat
  | checkedConvert source destinationKind value destination failure =>
    exact .inr ⟨source, destinationKind, value, destination, failure, rfl, by
      simpa [MachineOperation.isFloatingPoint] using hfloat⟩
  | _ => cases hfloat

/-- A typed floating-point operation that is not refused by its name has a floating-point operand or
result. -/
theorem holdsSimd_of_isFloatingPoint
    (hvalid : operationTypesValid module function instruction = true)
    (hfloat : instruction.operation.isFloatingPoint = true)
    (hallowed : forbiddenInInterrupt instruction.operation = false) :
    ∃ ty ∈ signatureTypes function, HoldsSimd module ty := by
  rcases isFloatingPoint_cases hfloat hallowed with
    ⟨value, hoperation⟩ | ⟨source, destinationKind, value, destination, failure, hoperation, hkind⟩
  · simp only [operationTypesValid, hoperation, Bool.and_eq_true, Option.any_eq_true] at hvalid
    obtain ⟨-, ty, hty, hisFloat⟩ := hvalid
    exact ⟨ty, mem_signatureTypes_of_valueType hty, holdsSimd_of_isFloat hisFloat⟩
  · simp only [operationTypesValid, hoperation, Bool.and_eq_true, Option.any_eq_true,
      beq_iff_eq] at hvalid
    obtain ⟨⟨⟨-, hresult⟩, ty, hty, hsource⟩, hdestination⟩ := hvalid
    rcases hkind with hkind | hkind
    · exact ⟨ty, mem_signatureTypes_of_valueType hty,
        holdsSimd_of_isFloat (isFloat_of_checkedNumericKindMatches hkind hsource)⟩
    · obtain ⟨result, -, hresult⟩ := Option.bind_eq_some_iff.1 hresult
      exact ⟨destination, mem_signatureTypes_of_valueType hresult,
        holdsSimd_of_isFloat (isFloat_of_checkedNumericKindMatches hkind hdestination)⟩

theorem isFloatingPoint_or_runtime_of_forbidden (h : forbiddenInInterrupt operation = true) :
    operation.isFloatingPoint = true ∨ ∃ intrinsic ∈ operation.intrinsics, intrinsic ≠ .fatal := by
  cases operation with
  | immediate immediate => cases immediate <;> first | exact .inl rfl | cases h
  | floatCompare predicate left right => exact .inl rfl
  | arithmetic op _ _ | convert op _ _ => cases op <;> first | exact .inl rfl | cases h
  | runtimeCall intrinsic arguments =>
    exact .inr ⟨intrinsic, mem_singleton_self _, by simpa [forbiddenInInterrupt] using h⟩
  | _ => cases h

theorem intrinsics_of_allowed (hallowed : forbiddenInInterrupt operation = false)
    (hassert : ∀ condition failure, operation ≠ .testAssert condition failure)
    (hintrinsic : intrinsic ∈ operation.intrinsics) : intrinsic = .fatal := by
  cases operation with
  | runtimeCall called arguments =>
    rw [mem_singleton.1 hintrinsic]
    simpa [forbiddenInInterrupt] using hallowed
  | testAssert condition failure => exact absurd rfl (hassert condition failure)
  | _ => first | exact mem_singleton.1 hintrinsic | cases hintrinsic

theorem mem_operations {function : MachineFunction} :
    operation ∈ function.operations ↔
      ∃ block ∈ function.blocks, ∃ instruction ∈ block.instructions,
        instruction.operation = operation := by
  simp only [MachineFunction.operations, mem_flatMap, mem_map]

/-- What the validator does not refuse is isolated, but for the assertions and variants it does not
look at. -/
theorem isolatedFunction_of_not_forbidden {target : TargetPackage} {function : MachineFunction}
    (hchecked : InterruptChecked module target) (hmem : function ∈ module.functions)
    (hallowed : forbiddenFunction module function = false)
    (hassert : ∀ condition failure, .testAssert condition failure ∉ function.operations)
    (hvariants : ∀ ty ∈ signatureTypes function,
      ∀ enum tag payload storage variants variantPayloads, Contains module ty enum →
        typeKind module enum =
          some (.taggedEnum tag payload (some storage) variants variantPayloads) →
        ∀ variant ∈ variantPayloads.filterMap id, ¬ HoldsSimd module variant) :
    IsolatedFunction module function := by
  obtain ⟨hsearch, hoperations⟩ := Bool.or_eq_false_iff.1 hallowed
  have hforbidden : ∀ operation ∈ function.operations, forbiddenInInterrupt operation = false :=
    fun operation hoperation ↦ Bool.eq_false_iff.2 (any_eq_false.1 hoperations operation hoperation)
  have htypes : ∀ ty ∈ signatureTypes function, ¬ HoldsSimd module ty := by
    rintro ty hty ⟨inner, hinner, hsimd⟩
    have hnot := not_simd_of_searched hchecked.types hsearch (hvariants ty hty) hinner (.refl ty)
      ⟨ty.index, mem_map.2 ⟨ty, hty, rfl⟩, .refl⟩
    rw [hnot] at hsimd
    cases hsimd
  refine ⟨htypes, fun operation hoperation ↦ ?_, fun operation hoperation intrinsic hintrinsic ↦ ?_⟩
  · obtain ⟨block, hblock, instruction, hinstruction, rfl⟩ := mem_operations.1 hoperation
    refine Bool.eq_false_iff.2 fun hfloat ↦ ?_
    have hvalid : operationTypesValid module function instruction = true := by
      simpa [validateOperationTypes] using
        hchecked.operations function hmem block hblock instruction hinstruction
    obtain ⟨ty, hty, hholds⟩ := holdsSimd_of_isFloatingPoint hvalid hfloat (hforbidden _ hoperation)
    exact htypes ty hty hholds
  · exact intrinsics_of_allowed (hforbidden _ hoperation)
      (fun condition failure heq ↦ hassert condition failure (heq ▸ hoperation)) hintrinsic

theorem IsolatedFunction.not_forbidden (h : IsolatedFunction module function) :
    forbiddenFunction module function = false := by
  rw [forbiddenFunction, Bool.or_eq_false_iff]
  constructor
  · refine Bool.eq_false_iff.2 fun hsimd ↦ ?_
    obtain ⟨ty, hty, hholds⟩ := holdsSimd_of_functionRequiresSimd hsimd
    exact h.types ty hty hholds
  · refine any_eq_false.2 fun operation hoperation hforbidden ↦ ?_
    rcases isFloatingPoint_or_runtime_of_forbidden hforbidden with hfloat | ⟨intrinsic, hmem, hne⟩
    · rw [h.operations operation hoperation] at hfloat
      cases hfloat
    · exact hne (h.intrinsics operation hoperation intrinsic hmem)

theorem mem_interruptReachable (h : Chain module calls handler callee)
    (hfunction : callee.lookup module.functions = some function) :
    callee.index ∈ interruptReachable module handler := by
  have hlt : ∀ {id : FunctionId} {found : MachineFunction},
      id.lookup module.functions = some found → id.index < module.functions.length :=
    fun hfound ↦ (List.getElem?_eq_some_iff.1 hfound).1
  have hpath : Reached (callees module) module.functions.length [handler.index] callee.index := by
    induction h generalizing function with
    | refl => exact ⟨_, mem_singleton_self _, .refl⟩
    | step chain found transfer ih =>
      obtain ⟨start, hstart, hpath⟩ := ih found
      refine ⟨start, hstart, hpath.tail ⟨hlt found, ?_⟩⟩
      rw [callees, ← Id.lookup, found]
      exact mem_map.2 ⟨_, transfer, rfl⟩
  exact mem_reverse.2 (mem_reached.2 ⟨hlt hfunction, hpath⟩)

section Checked

variable {target : TargetPackage}

section

variable (h : InterruptChecked module target)
  (hmem : handler ∈ module.functions)
  (hconvention : handler.convention = .interruptHandler)
include h hmem hconvention

theorem InterruptChecked.handlerRoutes :
    handlerCount module handler.id = 1 ∧ validateInterruptCallGraph module handler.id = [] := by
  have hentries := h.interrupts
  simp only [validateInterruptEntries, append_eq_nil_iff, flatMap_eq_nil_iff] at hentries
  have hhandler := hentries.2 handler hmem
  rw [validateHandlerRoutes, if_pos hconvention, append_eq_nil_iff, reportIf_eq_nil] at hhandler
  exact ⟨by simpa using hhandler.1, hhandler.2⟩

theorem InterruptChecked.called_not_forbidden (hchain : Chain module calls handler.id callee)
    (hfunction : callee.lookup module.functions = some function) :
    forbiddenFunction module function = false := by
  have hgraph := (h.handlerRoutes hmem hconvention).2
  have hreport := flatMap_eq_nil_iff.1 hgraph callee.index
    (mem_interruptReachable hchain hfunction)
  rw [reportIf_eq_nil, ← Id.lookup, hfunction] at hreport
  exact hreport

end

theorem InterruptChecked.unshared (h : InterruptChecked module target) :
    (module.interrupts.map (·.globalId)).Nodup := by
  have hentries := h.interrupts
  simp only [validateInterruptEntries, append_eq_nil_iff, flatMap_eq_nil_iff,
    reportIf_eq_nil, Bool.or_eq_false_iff, Bool.not_eq_false'] at hentries
  refine nodup_iff_count_eq_one.2 fun globalId hglobal ↦ ?_
  obtain ⟨interrupt, hinterrupt, rfl⟩ := mem_map.1 hglobal
  have hunique := (hentries.1.2 interrupt hinterrupt).1
  simp only [uniqueRoute, Bool.and_eq_true, beq_iff_eq] at hunique
  rw [List.count, countP_map]
  exact hunique.1.1.2

end Checked

/-- The checked code is isolated from interrupts just in case the parts that the validator does not
follow are. -/
theorem interruptIsolation_iff {target : TargetPackage} (h : InterruptChecked module target) :
    InterruptIsolation module ↔ UnfollowedIsolated module := by
  constructor
  · intro hisolation
    refine ⟨fun handler hmem hconvention callee function hchain _ hfunction ↦ ?_,
      fun handler hmem hconvention callee function hchain hfunction condition failure hassert ↦ ?_,
      fun handler hmem hconvention callee function hchain hfunction ty hty enum tag payload storage
        variants variantPayloads henum hkind variant hvariant ↦ ?_⟩
    · exact (hisolation.isolated handler hmem hconvention callee function hchain
        hfunction).not_forbidden
    · have hfatal := (hisolation.isolated handler hmem hconvention callee function hchain
        hfunction).intrinsics _ hassert .testAssertionFail (mem_singleton_self _)
      cases hfatal
    · rintro ⟨inner, hinner, hsimd⟩
      refine (hisolation.isolated handler hmem hconvention callee function hchain
        hfunction).types ty hty ⟨inner, henum.trans (.step hkind ?_ hinner), hsimd⟩
      exact mem_cons_of_mem _ (mem_append_right _ hvariant)
  · intro hunfollowed
    refine ⟨fun handler hmem hconvention ↦ (h.handlerRoutes hmem hconvention).1, h.unshared,
      fun handler hmem hconvention callee function hchain hfunction ↦ ?_⟩
    have hallowed : forbiddenFunction module function = false := by
      by_cases hcalled : Chain module calls handler.id callee
      · exact h.called_not_forbidden hmem hconvention hcalled hfunction
      · exact hunfollowed.dispatched handler hmem hconvention callee function hchain hcalled
          hfunction
    exact isolatedFunction_of_not_forbidden h (mem_of_getElem? hfunction) hallowed
      (hunfollowed.assertions handler hmem hconvention callee function hchain hfunction)
      (hunfollowed.variants handler hmem hconvention callee function hchain hfunction)

def exampleDigest : Sha256Digest := .repeated 1

def exampleBuild : BuildIdentity where
  compiler := exampleDigest
  language := .design01
  target := ⟨"aarch64-qemu-virt-uefi", validateAtom_aarch64QemuVirtUefi⟩
  targetPackage := exampleDigest
  standardLibrary := exampleDigest
  sourceGraph := exampleDigest
  request := exampleDigest
  profile := exampleDigest

def exampleTarget : TargetPackage := ⟨[⟨"virtio-mmio-0", some ⟨16, 48⟩⟩], "wrela_image_entry"⟩

def exampleEntry : MachineFunction where
  id := ⟨0⟩
  flowFunction := 0
  origin := .generatedImageEntry 0 0
  role := .imageEntry
  symbol := ⟨0⟩
  section_ := ⟨0⟩
  linkage := .exportedEntry
  convention := .uefiAarch64
  parameters := [⟨0⟩, ⟨1⟩]
  result := ⟨2⟩
  proofs := []
  values := [⟨⟨0⟩, ⟨1⟩, none⟩, ⟨⟨1⟩, ⟨1⟩, none⟩, ⟨⟨2⟩, ⟨2⟩, none⟩, ⟨⟨3⟩, ⟨2⟩, none⟩]
  stackSlots := []
  blocks :=
    [⟨⟨0⟩, [], [⟨⟨0⟩, [⟨2⟩], .immediate (.integer ⟨2⟩ (List.replicate 8 0)), none⟩],
      .return [⟨2⟩]⟩,
     ⟨⟨1⟩, [], [⟨⟨1⟩, [⟨3⟩], .runtimeCall .imageEnter [⟨0⟩, ⟨1⟩], none⟩],
      .switch ⟨3⟩ [⟨0, ⟨0⟩, []⟩] ⟨2⟩ []⟩,
     ⟨⟨2⟩, [], [], .return [⟨3⟩]⟩]
  entry := ⟨1⟩
  stackBytes := 0
  source := none

def exampleHandler (values : List MachineValue) (instructions : List MachineInstruction) :
    MachineFunction where
  id := ⟨1⟩
  flowFunction := 1
  origin := .generatedAsyncState 0 0
  role := .isr 0
  symbol := ⟨3⟩
  section_ := ⟨0⟩
  linkage := .local_
  convention := .interruptHandler
  parameters := []
  result := ⟨0⟩
  proofs := [⟨0⟩]
  values := values
  stackSlots := []
  blocks := [⟨⟨0⟩, [], instructions, .return []⟩]
  entry := ⟨0⟩
  stackBytes := 0
  source := none

/-- An image whose only handler holds the values and runs the instructions. -/
def interruptImage (values : List MachineValue) (instructions : List MachineInstruction) :
    MachineWir where
  version := machineWirVersion
  name := "interrupts"
  build := exampleBuild
  target := ⟨"aarch64-qemu-virt-uefi", "aarch64-unknown-uefi",
    "e-m:w-p270:32:32-p271:32:32-p272:64:64-p:64:64-i32:32-i64:64-i128:128-n32:64-S128-Fn32",
    "cortex-a57", ["+reserve-x18"], "arm64"⟩
  layout := ⟨64, 8, 16, 8, 16⟩
  runtime := ⟨2, [.imageEnter]⟩
  types :=
    [⟨⟨0⟩, .void, 0, 1, none⟩, ⟨⟨1⟩, .pointer 0 none, 8, 8, none⟩, ⟨⟨2⟩, .integer 64, 8, 8, none⟩,
      ⟨⟨3⟩, .integer 8, 1, 1, some "u8"⟩, ⟨⟨4⟩, .float32, 4, 4, some "f32"⟩,
      ⟨⟨5⟩, .taggedEnum ⟨3⟩ none (some ⟨4, 4⟩) 2 [some ⟨3⟩, some ⟨4⟩], 8, 4, some "Reading"⟩]
  sections :=
    [⟨⟨0⟩, ".text", .code, 16, 4096, "image"⟩,
      ⟨⟨1⟩, ".rdata$wrela_irq", .runtimeMetadata, 8, 24, "runtime"⟩]
  symbols :=
    [⟨⟨0⟩, "wrela_image_entry", .imageEntry, .function ⟨0⟩⟩,
      ⟨⟨1⟩, "wrela_rt_v2_image_enter", .runtime, .externalRuntime .imageEnter⟩,
      ⟨⟨2⟩, "wrela_rt_v2_interrupt_route_table", .runtimeMetadata, .sectionOffset ⟨1⟩ 0 24⟩,
      ⟨⟨3⟩, "virtio_mmio_irq", .local_, .function ⟨1⟩⟩]
  globals := []
  functions := [exampleEntry, exampleHandler values instructions]
  activations := []
  schedulers := []
  regionStorage := []
  interrupts := [⟨⟨0⟩, 0, "virtio-mmio-0", 16, 48, ⟨1⟩⟩]
  tests := []
  proofs := [⟨⟨0⟩, [0], .isrSafe, [], some 0, [], "the interrupt closure is safe", none⟩]
  imageEntry := ⟨0⟩

/-- The handler does nothing. -/
def quietImage : MachineWir := interruptImage [] []

/-- The handler makes an enum one of whose variants carries a floating-point number. -/
def readingImage : MachineWir :=
  interruptImage [⟨⟨0⟩, ⟨5⟩, none⟩] [⟨⟨0⟩, [⟨0⟩], .immediate (.zero ⟨5⟩), none⟩]

theorem interruptChecked_quietImage : InterruptChecked quietImage exampleTarget := by
  refine ⟨?_, ?_, ?_, ?_⟩ <;> decide

theorem interruptChecked_readingImage : InterruptChecked readingImage exampleTarget := by
  refine ⟨?_, ?_, ?_, ?_⟩ <;> decide

/-- The validator accepts the second image, whose handler holds a value with a floating-point
component. -/
theorem not_interruptIsolation_of_checked :
    ¬ ∀ module target, InterruptChecked module target → InterruptIsolation module := by
  intro h
  have hisolated := (h _ _ interruptChecked_readingImage).isolated
    (exampleHandler [⟨⟨0⟩, ⟨5⟩, none⟩] [⟨⟨0⟩, [⟨0⟩], .immediate (.zero ⟨5⟩), none⟩])
    (by simp [readingImage, interruptImage]) rfl ⟨1⟩ _ (.refl _) rfl
  have hcontains : Contains readingImage ⟨5⟩ ⟨4⟩ := .step rfl (by decide) (.refl _)
  exact hisolated.types ⟨5⟩ (by decide) ⟨⟨4⟩, hcontains, by decide⟩

/-- A chain from a function that hands control to no other ends where it starts. -/
theorem Chain.eq_of_leaf (hfound : source.lookup module.functions = some function)
    (hleaf : targets function = []) (h : Chain module targets source target) : target = source := by
  induction h with
  | refl => rfl
  | step chain found transfer ih =>
    rw [ih, hfound] at found
    cases found
    rw [hleaf] at transfer
    cases transfer

theorem quietImage_handler (hmem : handler ∈ quietImage.functions)
    (hconvention : handler.convention = .interruptHandler) : handler = exampleHandler [] [] := by
  simp only [quietImage, interruptImage, mem_cons, not_mem_nil, or_false] at hmem
  rcases hmem with rfl | rfl
  · cases hconvention
  · rfl

theorem unfollowedIsolated_quietImage : UnfollowedIsolated quietImage := by
  have hreached : ∀ handler ∈ quietImage.functions, handler.convention = .interruptHandler →
      ∀ callee function, Chain quietImage transfers handler.id callee →
        callee.lookup quietImage.functions = some function →
          callee = ⟨1⟩ ∧ function = exampleHandler [] [] := by
    intro handler hmem hconvention callee function hchain hfunction
    obtain rfl := quietImage_handler hmem hconvention
    obtain rfl := hchain.eq_of_leaf rfl rfl
    exact ⟨rfl, (Option.some.inj hfunction).symm⟩
  refine ⟨?_, ?_, ?_⟩
  · intro handler hmem hconvention callee function hchain hnot hfunction
    obtain ⟨rfl, rfl⟩ := hreached handler hmem hconvention callee function hchain hfunction
    obtain rfl := quietImage_handler hmem hconvention
    exact absurd (.refl _) hnot
  · intro handler hmem hconvention callee function hchain hfunction condition failure hassert
    obtain ⟨rfl, rfl⟩ := hreached handler hmem hconvention callee function hchain hfunction
    cases hassert
  · intro handler hmem hconvention callee function hchain hfunction ty hty enum tag payload storage
      variants variantPayloads hcontains hkind
    obtain ⟨rfl, rfl⟩ := hreached handler hmem hconvention callee function hchain hfunction
    -- the only type is the result, which is void
    obtain rfl : ty = ⟨0⟩ := by simpa [signatureTypes, exampleHandler] using hty
    cases hcontains with
    | refl => cases hkind
    | step known made inside =>
      cases known
      cases made

theorem interruptIsolation_iff_quietImage : InterruptIsolation quietImage :=
  (interruptIsolation_iff interruptChecked_quietImage).2 unfollowedIsolated_quietImage

end Wrela.Machine
