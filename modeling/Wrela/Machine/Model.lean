import Wrela.Source.Database
import Wrela.TestModel.Plan

/-!
# MachineWir

The machine IR that code generation translates: types with their layout, sections and symbols,
operations, blocks, functions, the routes of interrupts and the plans of the image.  Every dense
arena has its own identifier type, made from one.
-/

namespace Wrela.Machine

open Wrela.Source Wrela.BuildModel

def machineWirVersion : UInt32 := 21

/-! ## Identifiers -/

inductive Arena where
  | type | function | block | value | instruction | global | stackSlot | section_ | symbol | proof
  | interruptEntry | test | activation | regionStorage

/-- The identifier of a record in one arena. -/
structure Id (arena : Arena) where
  val : UInt32
deriving DecidableEq

/-- The position an identifier names in its arena. -/
def Id.index {arena : Arena} (id : Id arena) : ℕ := id.val.toNat

/-- The record an identifier names. -/
def Id.lookup {arena : Arena} {α : Type} (id : Id arena) (records : List α) : Option α :=
  records[id.index]?

abbrev MachineTypeId := Id .type
abbrev FunctionId := Id .function
abbrev BlockId := Id .block
abbrev ValueId := Id .value
abbrev InstructionId := Id .instruction
abbrev GlobalId := Id .global
abbrev StackSlotId := Id .stackSlot
abbrev SectionId := Id .section_
abbrev SymbolId := Id .symbol
abbrev ProofId := Id .proof
abbrev InterruptEntryId := Id .interruptEntry
abbrev MachineTestId := Id .test
abbrev MachineActivationId := Id .activation
abbrev MachineRegionStorageId := Id .regionStorage

inductive RuntimeIntrinsic where
  | imageEnter | imageExit | fatal | cpuIdle | interruptMask | interruptRestore | cacheMaintain
  | recordEvent | replayEvent | testEmit | testFinish | testAssertionFail
deriving DecidableEq

inductive AbiType where
  | unit | bool | u8 | u32 | u64 | usize | address | status

namespace RuntimeIntrinsic

end RuntimeIntrinsic

structure RuntimeRequirements where
  version : UInt32
  intrinsics : List RuntimeIntrinsic

structure DataLayout where
  pointerBits : UInt16
  pointerAlignment : UInt32
  stackAlignment : UInt32
  aggregateAlignment : UInt32
  maximumObjectAlignment : UInt32

structure MachineEnumStorage where
  size : UInt64
  alignment : UInt32
deriving DecidableEq

structure MachineField where
  ty : MachineTypeId
  offset : UInt64
deriving DecidableEq

inductive MachineTypeKind where
  | void
  | integer (bits : UInt16)
  | float32
  | float64
  | pointer (addressSpace : UInt32) (pointee : Option MachineTypeId)
  | vector (element : MachineTypeId) (lanes : UInt32)
  | array (element : MachineTypeId) (length : UInt64)
  | staticString (bytes : UInt64)
  | staticBytes (bytes : UInt64)
  | struct (fields : List MachineField) (packed : Bool)
  | taggedEnum (tag : MachineTypeId) (payload : Option MachineTypeId)
      (storage : Option MachineEnumStorage) (variants : UInt16)
      (variantPayloads : List (Option MachineTypeId))
  | function (parameters : List MachineTypeId) (result : MachineTypeId)
deriving DecidableEq

structure MachineType where
  id : MachineTypeId
  kind : MachineTypeKind
  size : UInt64
  alignment : UInt32
  sourceName : Option String

inductive SectionKind where
  | code | readOnlyData | writableData | zeroFill | relocations | runtimeMetadata | debug

structure Section where
  id : SectionId
  name : String
  kind : SectionKind
  alignment : UInt32
  reservedBytes : UInt64
  owner : String

inductive SymbolVisibility where
  | local_ | imageEntry | runtime | runtimeMetadata
deriving DecidableEq

inductive SymbolDefinition where
  | function (function : FunctionId)
  | global (global : GlobalId)
  | sectionOffset (section_ : SectionId) (offset bytes : UInt64)
  | externalRuntime (intrinsic : RuntimeIntrinsic)
deriving DecidableEq

structure Symbol where
  id : SymbolId
  name : String
  visibility : SymbolVisibility
  definition : SymbolDefinition

inductive CallingConvention where
  | internal | aapcs64 | uefiAarch64 | interruptHandler
deriving DecidableEq

inductive Linkage where
  | local_ | internalRuntime | exportedEntry
deriving DecidableEq

/-- One statically sealed interrupt route. -/
structure InterruptEntry where
  id : InterruptEntryId
  device : UInt32
  targetBinding : String
  line : UInt32
  globalId : UInt32
  handler : FunctionId

/-! ## Operations -/

inductive AtomicOrdering where
  | relaxed | acquire | release | acquireRelease | sequential

inductive MemorySemantics where
  | ordinary | volatile | device | atomic (ordering : AtomicOrdering)

inductive IntegerPredicate where
  | equal | notEqual | unsignedLess | unsignedLessEqual | unsignedGreater | unsignedGreaterEqual
  | signedLess | signedLessEqual | signedGreater | signedGreaterEqual

inductive FloatPredicate where
  | orderedEqual | unorderedNotEqual | orderedLess | orderedLessEqual | orderedGreater
  | orderedGreaterEqual | unordered

inductive MachineUnaryOp where
  | boolNot | bitNot | floatNegate

inductive ArithmeticOp where
  | integerAdd | integerSubtract | integerMultiply | unsignedDivide | signedDivide
  | unsignedRemainder | signedRemainder | bitAnd | bitOr | bitXor | shiftLeft | logicalShiftRight
  | arithmeticShiftRight | floatAdd | floatSubtract | floatMultiply | floatDivide
deriving DecidableEq

inductive ConversionOp where
  | integerTruncate | zeroExtend | signExtend | floatTruncate | floatExtend
  | unsignedIntegerToFloat | signedIntegerToFloat | floatToUnsignedInteger | floatToSignedInteger
  | pointerToInteger | integerToPointer | bitcast
deriving DecidableEq

inductive CheckedIntegerOp where
  | add | subtract | multiply | divide | remainder | shiftLeft | shiftLeftWrapping | shiftRight
deriving DecidableEq

inductive IntegerSignedness where
  | unsigned | signed
deriving DecidableEq

inductive CheckedNumericKind where
  | unsignedInteger | signedInteger | float32 | float64
deriving DecidableEq

inductive ScalarFailureKind where
  | arithmetic | conversion | actorMailboxFull | actorMailboxMismatch | actorReplyStateMismatch
  | actorReplyDuplicateResolve

structure ScalarFailureProvenance where
  kind : ScalarFailureKind
  flowFunction : UInt32
  flowInstruction : UInt32

inductive MachineFence where
  | acquire | release | acquireRelease | sequential | deviceRead | deviceWrite | deviceFull

inductive MachineImmediate where
  | integer (ty : MachineTypeId) (bytesLe : List UInt8)
  | float32 (bits : UInt32)
  | float64 (bits : UInt64)
  | null (ty : MachineTypeId)
  | zero (ty : MachineTypeId)
  | symbolAddress (symbol : SymbolId)
  | bytes (value : List UInt8)

/-- Facts that code generation may rely on. -/
structure BackendFacts where
  proof : ProofId
  alignment : Option UInt32
  nonNull : Bool
  noAlias : Bool
  inBounds : Bool
  noUnsignedWrap : Bool
  noSignedWrap : Bool

structure MachineAssertionFailure where
  expression : String
  expressionGlobal : GlobalId
  message : Option String
  messageGlobal : Option GlobalId
  source : Span

inductive MachineOperation where
  | immediate (value : MachineImmediate)
  | unary (op : MachineUnaryOp) (value : ValueId)
  | arithmetic (op : ArithmeticOp) (left right : ValueId)
  | checkedInteger (op : CheckedIntegerOp) (signedness : IntegerSignedness) (left right : ValueId)
      (failure : ScalarFailureProvenance)
  | integerCompare (predicate : IntegerPredicate) (left right : ValueId)
  | floatCompare (predicate : FloatPredicate) (left right : ValueId)
  | convert (op : ConversionOp) (value : ValueId) (destination : MachineTypeId)
  | checkedConvert (source destinationKind : CheckedNumericKind) (value : ValueId)
      (destination : MachineTypeId) (failure : ScalarFailureProvenance)
  | select (condition thenValue elseValue : ValueId)
  | makeStruct (ty : MachineTypeId) (fields : List ValueId)
  | makeArray (ty : MachineTypeId) (elements : List ValueId)
  | insertField (aggregate : ValueId) (field : UInt32) (value : ValueId)
  | extractField (aggregate : ValueId) (field : UInt32)
  | extractIndex (aggregate index : ValueId) (proof : ProofId) (slot : StackSlotId)
  | copy (value : ValueId)
  | makeEnum (ty : MachineTypeId) (variant : UInt8) (payload : Option ValueId)
  | enumTag (value : ValueId)
  | enumPayload (value : ValueId) (variant : Option UInt8)
  | addressOffset (base byteOffset : ValueId) (facts : BackendFacts)
  | load (address : ValueId) (ty : MachineTypeId) (semantics : MemorySemantics)
      (facts : BackendFacts)
  | store (address value : ValueId) (semantics : MemorySemantics) (facts : BackendFacts)
  | actorReserve (mailbox : GlobalId) (actor : UInt32) (method : FunctionId) (proof : ProofId)
      (failure : ScalarFailureProvenance)
  | actorCommit (reservation : ValueId) (mailbox : GlobalId) (actor : UInt32) (method : FunctionId)
  | actorReplyRequest (slot : StackSlotId) (mailbox : GlobalId) (actor : UInt32)
      (method : FunctionId) (permit reply : ProofId) (failure : ScalarFailureProvenance)
      (duplicateFailure : ScalarFailureProvenance)
  | actorReplyResolve (outcome : ValueId) (reply : ProofId)
  | mailboxReceive (mailbox : GlobalId) (actor : UInt32) (method : FunctionId)
      (failure : ScalarFailureProvenance)
  | mailboxDispatch (mailbox : GlobalId) (actor : UInt32) (method : FunctionId)
  | memoryCopy (destination source bytes : ValueId) (destinationAlignment : UInt32)
      (sourceAlignment : UInt32) (nonOverlapping : Bool) (proof : ProofId)
  | memorySet (destination byte bytes : ValueId) (alignment : UInt32)
  | stackAddress (slot : StackSlotId)
  | globalAddress (global : GlobalId)
  | call (function : FunctionId) (arguments : List ValueId) (convention : CallingConvention)
  | runtimeCall (intrinsic : RuntimeIntrinsic) (arguments : List ValueId)
  | testAssert (condition : ValueId) (failure : MachineAssertionFailure)
  | fence (fence : MachineFence)

structure MachineInstruction where
  id : InstructionId
  results : List ValueId
  operation : MachineOperation
  source : Option Span

structure MachineSwitchCase where
  value : BitVec 128
  block : BlockId
  arguments : List ValueId

inductive MachineTerminator where
  | jump (block : BlockId) (arguments : List ValueId)
  | branch (condition : ValueId) (thenBlock : BlockId) (thenArguments : List ValueId)
      (elseBlock : BlockId) (elseArguments : List ValueId)
  | switch (value : ValueId) (cases : List MachineSwitchCase) (default : BlockId)
      (defaultArguments : List ValueId)
  | return (values : List ValueId)
  | tailCall (function : FunctionId) (arguments : List ValueId)
  | unreachable

structure MachineBlock where
  id : BlockId
  parameters : List ValueId
  instructions : List MachineInstruction
  terminator : MachineTerminator

structure MachineValue where
  id : ValueId
  ty : MachineTypeId
  sourceName : Option String

structure StackSlot where
  id : StackSlotId
  size : UInt64
  alignment : UInt32
  sourceName : Option String
  liveStates : List UInt32
  overlayGroup : Option UInt32

inductive MachineFunctionRole where
  | ordinary
  | actorTurn (actor : UInt32)
  | taskEntry (task : UInt32)
  | isr (device : UInt32)
  | cleanup
  | imageEntry
  | test
deriving DecidableEq

inductive MachineFunctionOrigin where
  | sourceSemantic (semanticFunction : UInt32)
  | generatedImageEntry (semanticFunction constructor : UInt32)
  | generatedTestHarness (semanticFunction group : UInt32)
  | generatedAsyncState (semanticFunction state : UInt32)
  | generatedCleanup (semanticFunction scope : UInt32)

structure MachineFunction where
  id : FunctionId
  flowFunction : UInt32
  origin : MachineFunctionOrigin
  role : MachineFunctionRole
  symbol : SymbolId
  section_ : SectionId
  linkage : Linkage
  convention : CallingConvention
  parameters : List ValueId
  result : MachineTypeId
  proofs : List ProofId
  values : List MachineValue
  stackSlots : List StackSlot
  blocks : List MachineBlock
  entry : BlockId
  stackBytes : UInt64
  source : Option Span

inductive MachineActivationOwner where
  | actor (actor mailboxCapacity : UInt32)
  | task (task slots : UInt32) (supervisor : Option UInt32)

inductive MachineActivationSchedule where
  | dormantMailbox | mailboxOnce | schedulerFifo | startupOnce

inductive MachineActivationCancellation where
  | dropCalleeThenPropagate

structure MachineActivationPlan where
  id : MachineActivationId
  owner : MachineActivationOwner
  schedule : MachineActivationSchedule
  caller : FunctionId
  callee : FunctionId
  callInstruction : InstructionId
  state : UInt32
  resumeBlock : BlockId
  region : UInt32
  regionCapacityBytes : UInt64
  regionAlignment : UInt32
  frameBytes : UInt64
  maximumLive : UInt32
  cancellation : MachineActivationCancellation
  capacityProof : ProofId
  capacityBound : UInt64
  cleanupProof : ProofId
  source : Span

structure MachineSchedulerPlan where
  core : UInt32
  actors : List UInt32
  tasks : List UInt32

inductive MachineRegionStorageKind where
  | actorMailbox (actor mailboxCapacity : UInt32)
  | actorState (actor : UInt32)
  | actorTurnFrame (actor : UInt32) (function : FunctionId)
  | taskEntryFrame (task : UInt32) (function : FunctionId) (slots : UInt32)
  | activationFrame (activation : MachineActivationId)

structure MachineRegionStorage where
  id : MachineRegionStorageId
  flowRegion : UInt32
  name : String
  kind : MachineRegionStorageKind
  global : GlobalId
  symbol : SymbolId
  section_ : SectionId
  ty : MachineTypeId
  capacityProof : ProofId
  capacityUnits : UInt64
  bytesPerUnit : UInt64
  capacityBytes : UInt64
  alignment : UInt32
  source : Span
  capacitySource : Span

inductive MachineTestKind where
  | comptime | integration | image

structure MachineTestEntry where
  id : MachineTestId
  planId : UInt32
  name : String
  function : FunctionId
  kind : MachineTestKind
  source : Span
  timeoutNs : UInt64

structure MachineGlobal where
  id : GlobalId
  symbol : SymbolId
  ty : MachineTypeId
  section_ : SectionId
  offset : UInt64
  alignment : UInt32
  initializer : MachineImmediate

inductive BackendProofKind where
  | typeChecked | effectsAllowed | definiteInitialization | ownership | accessExclusive
  | viewDoesNotEscape | regionBound | capacityBound | actorReplyExactlyOnce | waitGraphAcyclic
  | cleanupAcyclic | workBound | stackBound | isrSafe | dmaTransition | mmioPartition
  | deviceValueValidated | wireLayout | receiptLineage | actorAsIf | supervisionComplete
  | imageClosed | flowControl | valueRange | alignment | noAlias
deriving DecidableEq

structure BackendProof where
  id : ProofId
  sourceProofs : List UInt32
  kind : BackendProofKind
  dependsOn : List ProofId
  bound : Option UInt64
  sources : List Span
  statement : String
  source : Option Span

structure MachineTarget where
  identity : String
  llvmTriple : String
  dataLayout : String
  cpu : String
  features : List String
  coffMachine : String

structure MachineWir where
  version : UInt32
  name : String
  build : BuildIdentity
  target : MachineTarget
  layout : DataLayout
  runtime : RuntimeRequirements
  types : List MachineType
  sections : List Section
  symbols : List Symbol
  globals : List MachineGlobal
  functions : List MachineFunction
  activations : List MachineActivationPlan
  schedulers : List MachineSchedulerPlan
  regionStorage : List MachineRegionStorage
  interrupts : List InterruptEntry
  tests : List MachineTestEntry
  proofs : List BackendProof
  imageEntry : FunctionId

end Wrela.Machine
