import Wrela.Validation.Report
import Mathlib.Data.Nat.Log

/-!
# Operations and terminators

What the validator requires of one instruction or one terminator: every reference is in range, and
the operations with a closed meaning have exactly the shape they are lowered to.
-/

namespace Wrela.Validation

open Wrela.Source Wrela.Flow

variable (module : FlowWir) (function : FlowFunction)

/-- The declared type of a value. -/
def valueType (value : ValueId) : Option TypeId := (value.lookup function.values).map Value.ty

/-- The type record of a value. -/
def valueRecord (value : ValueId) : Option FlowType :=
  (value.lookup function.values).bind fun record ↦ record.ty.lookup module.types

def valueHasKind (kind : FlowTypeKind) (value : ValueId) : Bool :=
  (valueRecord module function value).any (·.kind == kind)

def isActivationValue (value : ValueId) : Bool :=
  (valueRecord module function value).any (isActivationKind ·.kind)

def isReservationValue (value : ValueId) : Bool := valueHasKind module function .reservation value

def isActorCapabilityValue (value : ValueId) : Bool :=
  (valueRecord module function value).any fun record ↦
    match record.kind with
    | .actorHandle _ => true
    | _ => false

/-- The declared type of a value whose record carries its own identifier. -/
def flowValueType (value : ValueId) : Option TypeId :=
  ((value.lookup function.values).filter (·.id == value)).map Value.ty

/-- The single result of an instruction, checked. -/
def singleResult (instruction : Instruction) (check : ValueId → Bool) : Bool :=
  match instruction.results with
  | [result] => check result
  | _ => false

/-- Two values of possibly different functions have different declared types. -/
def typesDiffer (left : Option TypeId) (right : Option TypeId) : Bool :=
  match left, right with
  | some left, some right => left != right
  | _, _ => false

def validateCallArguments (callee : FunctionId) (arguments : List ValueId) : Report :=
  match callee.lookup module.functions with
  | none => []
  | some target =>
    if arguments.length != target.parameters.length then
      [.callArity function.id target.id target.parameters.length arguments.length]
    else
      (arguments.zip target.parameters).flatMap fun (argument, parameter) ↦
        reportIf (typesDiffer (valueType function argument) (valueType target parameter))
          (.callTypeMismatch function.id target.id)

def validateEdge (target : BlockId) (arguments : List ValueId) : Report :=
  match target.lookup function.blocks with
  | none => []
  | some block =>
    if arguments.length != block.parameters.length then
      [.edgeArity function.id target block.parameters.length arguments.length]
    else
      (arguments.zip block.parameters).flatMap fun (argument, parameter) ↦
        reportIf (typesDiffer (valueType function argument) (valueType function parameter))
          (.edgeTypeMismatch function.id target)

def activationResultMatchesFunction (activationResult : TypeId) (callee : FlowFunction) : Bool :=
  match callee.resultTypes with
  | [] => (activationResult.lookup module.types).any (·.kind == .unit)
  | [result] => result == activationResult
  | _ => false

def decimalDigits (value : ℕ) : ℕ := Nat.log 10 value + 1

def integerMaximumBytes (signed : Bool) (bits : UInt16) : Option ℕ :=
  if bits == 8 || bits == 16 || bits == 32 || bits == 64 || bits == 128 then
    if signed then some (decimalDigits (2 ^ (bits.toNat - 1)) + 1)
    else some (decimalDigits (2 ^ bits.toNat - 1))
  else none

/-- The bytes one part may take, or `none` when the part is ill formed. -/
def boundedStringPartBytes : BoundedStringPart → Option ℕ
  | .text value source =>
    if source.range.start ≤ source.range.stop then some (byteLength value) else none
  | .bool value source =>
    if source.range.start ≤ source.range.stop && valueHasKind module function (.scalar .bool) value
    then some 5 else none
  | .character value source =>
    if source.range.start ≤ source.range.stop &&
      valueHasKind module function (.scalar .character) value then some 4 else none
  | .integer value maximumBytes source =>
    let expected := (valueRecord module function value).bind fun record ↦
      match record.kind with
      | .scalar (.integer signed bits) => integerMaximumBytes signed bits
      | _ => none
    if source.range.start ≤ source.range.stop && expected == some maximumBytes.toNat then
      some maximumBytes.toNat else none
  | .staticString value bytes source =>
    if source.range.start ≤ source.range.stop && (valueRecord module function value).any fun record ↦
      record.kind == .staticString bytes && record.copyable && !record.strictLinear
    then some bytes.toNat else none

def validateBoundedStringOperation (instruction : Instruction) (ty : TypeId)
    (parts : List BoundedStringPart) : Bool :=
  (ty.lookup module.types).any fun record ↦
    match record.kind with
    | .boundedString capacity =>
      !record.copyable && !record.strictLinear &&
        singleResult instruction (fun result ↦ valueType function result == some ty) &&
        !parts.isEmpty &&
        (parts.mapM (boundedStringPartBytes module function)).any (·.sum == capacity.toNat)
    | _ => false

/-! ## Operations -/

def requireValue (value : ValueId) : Report :=
  requireId "instruction value" value.val function.values.length

def requireProof (proof : ProofId) : Report :=
  requireId "instruction proof" proof.val module.proofs.length

/-- Static text and data have the extent of their type; a character has the character type. -/
def exactTextOrCharacter (instruction : Instruction) : Immediate → Bool
  | .bytes bytes =>
    match instruction.results with
    | [result] =>
      (result.lookup function.values).all fun value ↦
        (value.ty.lookup module.types).all fun record ↦
          match record.kind with
          | .staticString extent => extent.toNat == bytes.length
          | .staticBytes extent =>
            extent.toNat == bytes.length && instruction.source.isSome &&
              value.source == instruction.source
          | _ => true
    | _ => true
  | .character _ => singleResult instruction (valueHasKind module function (.scalar .character))
  | _ => true

/-- The eight-byte state region of an actor. -/
def isActorStateRegion (actor : ActorId) (plan : ActorPlan) (region : RegionPlan) : Bool :=
  region.owner == .actor actor && region.class_ == .image && region.capacityBytes == 8 &&
    region.alignment == 8 && joinedNameMatches region.name plan.name ".state"

def actorStateAddressValid (instruction : Instruction) (actor : ActorId) (region : RegionId)
    (capacity : ProofId) : Bool :=
  function.role == .actorTurn actor &&
    ((actor.lookup module.actors).any fun plan ↦ (region.lookup module.regions).any fun record ↦
      isActorStateRegion actor plan record && record.capacityProof == capacity &&
        (capacity.lookup module.proofs).any fun proof ↦
          proof.kind == .capacityBound && proof.bound == some 1 &&
            proof.sources == [record.source] && proof.dependsOn.isEmpty) &&
    singleResult instruction (valueHasKind module function (.scalar .address))

def makeEnumValid (instruction : Instruction) (ty : TypeId) (variant : UInt8)
    (payload : Option ValueId) : Bool :=
  (ty.lookup module.types).any fun record ↦
    (match record.kind with
      | .enum variants =>
        (variants[variant.toNat]?).any fun fields ↦
          match fields, payload with
          | [], none => true
          | [expected], some payload => valueType function payload == some expected
          | _, _ => false
      | _ => false) &&
    singleResult instruction (fun result ↦ valueType function result == some ty)

def enumTagValid (instruction : Instruction) (value : ValueId) : Bool :=
  ((valueRecord module function value).any fun record ↦
    match record.kind with
    | .enum variants => canonicalEnumShape module variants
    | _ => false) &&
  singleResult instruction (valueHasKind module function (.scalar (.integer false 8)))

def enumPayloadType (value : ValueId) (variant : Option UInt8) : Option TypeId :=
  (valueRecord module function value).bind fun record ↦
    match record.kind with
    | .enum variants =>
      match variant with
      | none => canonicalEnumPayload module variants
      | some variant =>
        if exactHeterogeneousScalarEnumProfile module variants ||
            exactFixedFlatEnumProfile module variants ||
            exactAsyncExitEnumProfile module variants ||
            exactAsyncOutcomeEnumProfile module variants then
          (variants[variant.toNat]?).bind List.head?
        else none
    | _ => none

def enumPayloadValid (instruction : Instruction) (value : ValueId) (variant : Option UInt8) :
    Bool :=
  (enumPayloadType module function value variant).any fun expected ↦
    singleResult instruction fun result ↦ valueType function result == some expected

/-- The proof that an array is walked within its length. -/
def isArrayIterationProof (capacity : ProofId) (length : UInt64) (proof : Proof) : Bool :=
  proof.id == capacity && proof.kind == .capacityBound &&
    (((proof.subject == "inline fixed-array iteration" ||
        proof.subject == "inline fixed-array pattern match") && proof.sources.length == 1) ||
      (proof.subject == "stored fixed-array iteration" && proof.sources.length == 2)) &&
    proof.bound == some length && proof.dependsOn.isEmpty

def extractIndexValid (instruction : Instruction) (aggregate index : ValueId)
    (capacity : ProofId) : Bool :=
  (valueRecord module function aggregate).any fun record ↦
    match record.kind with
    | .array element length =>
      length > 0 && valueHasKind module function u64Kind index &&
        (capacity.lookup module.proofs).any (isArrayIterationProof capacity length) &&
        function.proofs.contains capacity &&
        singleResult instruction (fun result ↦ valueType function result == some element)
    | _ => false

def insertFieldValid (instruction : Instruction) (aggregate : ValueId) (field : UInt32)
    (inserted : ValueId) : Bool :=
  (valueType function aggregate).any fun aggregateTy ↦
    (aggregateTy.lookup module.types).any fun record ↦
      match record.kind with
      | .struct fields =>
        (fields[field.toNat]?).any fun fieldTy ↦
          valueType function inserted == some fieldTy &&
            singleResult instruction fun result ↦ valueType function result == some aggregateTy
      | _ => false

/-- The results of a call have the callee's result types, or are one explicit unit. -/
def callResultsMatch (instruction : Instruction) (callee : FlowFunction) : Bool :=
  instruction.results.filterMap (valueType function) == callee.resultTypes ||
    (callee.resultTypes.isEmpty && singleResult instruction (valueHasKind module function .unit))

def validateCallResults (instruction : Instruction) (callee : FunctionId) : Report :=
  match callee.lookup module.functions with
  | none => []
  | some target =>
    reportIf (target.color == .async)
      (.invalidRecord "ordinary call to async function" instruction.id.val) ++
    reportIf (!callResultsMatch module function instruction target)
      (.callResultMismatch function.id target.id)

/-- The result an activation value will deliver. -/
def activationResult (value : ValueId) : Option TypeId :=
  (valueRecord module function value).bind fun record ↦
    match record.kind with
    | .activation result => some result
    | _ => none

def validateAsyncCallResults (instruction : Instruction) (callee : FunctionId) : Report :=
  match callee.lookup module.functions with
  | none => []
  | some target =>
    reportIf (function.color != .async || target.color != .async)
      (.invalidRecord "async call color" instruction.id.val) ++
    reportIf
      (instruction.results.length != 1 ||
        (instruction.results.head?.bind (activationResult module function)).all
          fun result ↦ !activationResultMatchesFunction module result target)
      (.callResultMismatch function.id target.id)

def promoteValid (instruction : Instruction) (promoted : ValueId) (destination : RegionId)
    (promotion : ProofId) : Bool :=
  (match function.role with
    | .actorTurn actor => (actor.lookup module.actors).any fun plan ↦
      (destination.lookup module.regions).any (isActorStateRegion actor plan)
    | _ => false) &&
  valueHasKind module function u64Kind promoted &&
  ((promotion.lookup module.proofs).any fun proof ↦
    proof.kind == .regionBound && "alloc:".toList.isPrefixOf proof.subject.toList &&
      proof.bound == some 8 &&
      instruction.source.any (fun source ↦ proof.sources == [source]) &&
      proof.dependsOn.isEmpty &&
      proof.explanation == ["actor state store outlives its non-reentrant turn frame"]) &&
  function.proofs.contains promotion && instruction.results.isEmpty

/-- The proof that wires a capability to its actor. -/
def isWiringProof (proof : Proof) : Bool :=
  proof.kind == .actorAsIf && proof.bound == some 1 && proof.sources.length == 1 &&
    proof.dependsOn.isEmpty

def isCapabilityValue (actor : ActorId) (value : ValueId) : Bool :=
  (valueRecord module function value).any fun record ↦
    record.kind == .actorHandle actor && record.copyable && !record.strictLinear

def actorCapabilityValid (instruction : Instruction) (actor : ActorId) (proof : ProofId) : Bool :=
  singleResult instruction fun result ↦
    isCapabilityValue module function actor result && (proof.lookup module.proofs).any isWiringProof

/-- The type proof of a method, paired with a permit in increasing order. -/
def replyDependencies (method : FunctionId) (permit : ProofId) : Option (List ProofId) :=
  (method.lookup module.functions).bind fun target ↦
    (target.proofs.find? fun candidate ↦
      (candidate.lookup module.proofs).any (·.kind == .typeChecked)).map fun typeProof ↦
        if typeProof.val ≤ permit.val then [typeProof, permit] else [permit, typeProof]

def isReplyProof (proof : Proof) : Bool :=
  proof.kind == .actorReplyExactlyOnce && proof.bound == some 1

def actorReplyRequestValid (instruction : Instruction) (actor : ActorId) (method : FunctionId)
    (permit reply : ProofId) : Bool :=
  singleResult instruction (fun result ↦ (valueRecord module function result).any fun record ↦
    record.kind == u64Kind && record.copyable && !record.strictLinear) &&
  ((method.lookup module.functions).any fun target ↦
    target.role == .actorTurn actor && target.color == .async &&
      target.resultTypes.length == 1) &&
  ((permit.lookup module.proofs).any fun proof ↦
    proof.kind == .capacityBound && proof.bound == some 1) &&
  ((reply.lookup module.proofs).any fun proof ↦
    isReplyProof proof &&
      (replyDependencies module method permit).any (proof.dependsOn == ·))

def assertionDescriptorValid (failure : AssertionFailureDescriptor) : Bool :=
  !isBlank failure.expression && byteLength failure.expression ≤ assertionExpressionBytesMax &&
    failure.message.all (fun message ↦
      !isBlank message && byteLength message ≤ assertionExpressionBytesMax) &&
    failure.source.range.start ≤ failure.source.range.stop

def validateOperation (instruction : Instruction) : Report :=
  let value := requireValue function
  let proof := requireProof module
  match instruction.operation with
  | .immediate immediate =>
    validateImmediate module immediate ++
      reportIf (!exactTextOrCharacter module function instruction immediate)
        (.invalidRecord "static data immediate" instruction.id.val)
  | .actorStateAddress actor region capacity =>
    requireId "actor state actor" actor.val module.actors.length ++
      requireId "actor state region" region.val module.regions.length ++ proof capacity ++
      reportIf (!actorStateAddressValid module function instruction actor region capacity)
        (.invalidRecord "actor state address" instruction.id.val)
  | .unary _ operand => value operand
  | .binary _ left right => value left ++ value right
  | .cast operand toType _ =>
    value operand ++ requireId "cast type" toType.val module.types.length
  | .makeAggregate ty fields =>
    requireId "aggregate type" ty.val module.types.length ++ fields.flatMap value
  | .formatBoundedString ty parts =>
    requireId "bounded string type" ty.val module.types.length ++
      (parts.flatMap BoundedStringPart.values).flatMap value ++
      reportIf (!validateBoundedStringOperation module function instruction ty parts)
        (.invalidRecord "bounded string construction" instruction.id.val)
  | .makeEnum ty variant payload =>
    requireId "enum type" ty.val module.types.length ++ payload.toList.flatMap value ++
      reportIf (!makeEnumValid module function instruction ty variant payload)
        (.invalidRecord "enum construction" instruction.id.val)
  | .enumTag operand =>
    value operand ++
      reportIf (!enumTagValid module function instruction operand)
        (.invalidRecord "enum projection" instruction.id.val)
  | .enumPayload operand variant =>
    value operand ++
      reportIf (!enumPayloadValid module function instruction operand variant)
        (.invalidRecord "enum payload projection" instruction.id.val)
  | .extractField aggregate _ => value aggregate
  | .extractIndex aggregate index capacity =>
    value aggregate ++ value index ++ proof capacity ++
      reportIf (!extractIndexValid module function instruction aggregate index capacity)
        (.invalidRecord "fixed-array index" instruction.id.val)
  | .insertField aggregate field inserted =>
    value aggregate ++ value inserted ++
      reportIf (!insertFieldValid module function instruction aggregate field inserted)
        (.invalidRecord "field insertion" instruction.id.val)
  | .select condition thenValue elseValue => value condition ++ value thenValue ++ value elseValue
  | .beginAccess place _ p => value place ++ proof p
  | .endAccess access => value access
  | .load address p => value address ++ proof p
  | .store address stored p => value address ++ value stored ++ proof p
  | .move operand | .copy operand | .drop operand => value operand
  | .call callee arguments =>
    requireId "callee" callee.val module.functions.length ++ arguments.flatMap value ++
      validateCallArguments module function callee arguments ++
      validateCallResults module function instruction callee
  | .asyncCall callee arguments plan =>
    requireId "async callee" callee.val module.functions.length ++
      requireId "async activation plan" plan.val module.activations.length ++
      arguments.flatMap value ++ validateCallArguments module function callee arguments ++
      validateAsyncCallResults module function instruction callee
  | .allocate region ty count p =>
    requireId "allocation region" region.val module.regions.length ++
      requireId "allocation type" ty.val module.types.length ++ value count ++ proof p
  | .regionReset region => requireId "reset region" region.val module.regions.length
  | .promote promoted destination promotion =>
    value promoted ++ requireId "promotion region" destination.val module.regions.length ++
      proof promotion ++
      reportIf (!promoteValid module function instruction promoted destination promotion)
        (.invalidRecord "promotion" promotion.val)
  | .actorCapability actor p =>
    requireId "actor capability" actor.val module.actors.length ++ proof p ++
      reportIf (!actorCapabilityValid module function instruction actor p)
        (.invalidRecord "actor capability" instruction.id.val)
  | .actorReserve actor _ p =>
    requireId "actor reserve" actor.val module.actors.length ++ proof p
  | .actorCommit reservation arguments => value reservation ++ arguments.flatMap value
  | .actorReplyRequest actor method permit reply =>
    requireId "actor reply target" actor.val module.actors.length ++
      requireId "actor reply method" method.val module.functions.length ++ proof permit ++
      proof reply ++
      reportIf (!actorReplyRequestValid module function instruction actor method permit reply)
        (.invalidRecord "actor reply request" instruction.id.val)
  | .actorReplyResolve outcome reply =>
    value outcome ++ proof reply ++
      reportIf (!(instruction.results.isEmpty && (reply.lookup module.proofs).any isReplyProof))
        (.invalidRecord "actor reply resolve" instruction.id.val)
  | .actorReject reservation => value reservation
  | .mailboxReceive actor _ => requireId "mailbox actor" actor.val module.actors.length
  | .replyResolve endpoint outcome => value endpoint ++ value outcome
  | .receiptCommit receipt payload => value receipt ++ value payload
  | .receiptResolve receipt outcome => value receipt ++ value outcome
  | .taskAcquireSlot task p => requireId "task slot" task.val module.tasks.length ++ proof p
  | .taskStart slot entry arguments =>
    value slot ++ requireId "task start" entry.val module.functions.length ++
      arguments.flatMap value ++ validateCallArguments module function entry arguments ++
      [.invalidRecord "task start slot provenance is not sealed" instruction.id.val]
  | .taskCancel task => value task
  | .park waitSet => value waitSet
  | .wake target => value target
  | .checkpoint id p => requireId "checkpoint" id.val module.checkpoints.length ++ proof p
  | .interruptRestore token => value token
  | .interruptPublish cell published => value cell ++ value published
  | .mmioRead device _ => requireId "MMIO device" device.val module.devices.length
  | .mmioWrite device _ written =>
    requireId "MMIO device" device.val module.devices.length ++ value written
  | .dmaTransition token device _ _ p =>
    value token ++ requireId "DMA device" device.val module.devices.length ++ proof p
  | .queueReserve device descriptors p =>
    requireId "queue device" device.val module.devices.length ++ value descriptors ++ proof p
  | .queuePublish reservation payload => value reservation ++ value payload
  | .validateDeviceValue checked p => value checked ++ proof p
  | .check condition _ p => value condition ++ p.toList.flatMap proof
  | .assert condition failure =>
    value condition ++
      reportIf (!assertionDescriptorValid failure)
        (.invalidRecord "runtime assertion descriptor" instruction.id.val)
  | .recordEvent _ payload => value payload
  | .replayEvent _ destination => value destination
  | .testEmit payload => value payload
  | .testFinish outcome => value outcome
  | .deadlineRead | .interruptMask | .fence _ => []

def validateTerminator (terminator : Terminator) : Report :=
  let value := fun (id : ValueId) ↦ requireId "terminator value" id.val function.values.length
  let block := fun (id : BlockId) ↦ requireId "terminator block" id.val function.blocks.length
  match terminator with
  | .jump target arguments =>
    block target ++ arguments.flatMap value ++ validateEdge function target arguments
  | .branch condition thenBlock thenArguments elseBlock elseArguments =>
    value condition ++ block thenBlock ++ block elseBlock ++
      (thenArguments ++ elseArguments).flatMap value ++
      validateEdge function thenBlock thenArguments ++ validateEdge function elseBlock elseArguments
  | .switch switched cases default defaultArguments =>
    value switched ++ block default ++ defaultArguments.flatMap value ++
      validateEdge function default defaultArguments ++
      cases.flatMap fun case ↦
        block case.target ++ case.arguments.flatMap value ++
          validateEdge function case.target case.arguments
  | .return values =>
    values.flatMap value ++
      reportIf (values.length != function.resultTypes.length)
        (.returnArity function.id function.resultTypes.length values.length)
  | .suspend _ activation resume =>
    block resume ++ value activation ++
      reportIf (function.color != .async)
        (.invalidRecord "suspend in non-async function" function.id.val)
  | .tailCall callee arguments =>
    requireId "tail callee" callee.val module.functions.length ++ arguments.flatMap value ++
      validateCallArguments module function callee arguments ++
      reportIf ((callee.lookup module.functions).any (·.color == .async))
        (.invalidRecord "tail call to async function" function.id.val)
  | .trap _ detail => detail.toList.flatMap value
  | .unreachable => []

end Wrela.Validation
