import Wrela.TestModel.Plan

/-!
# FlowWir

The canonical typed SSA representation exchanged between the frontend and the backend: types,
operations, blocks, functions, the plans of the image, and the module that holds them.  Every dense
arena has its own identifier type, made from one.
-/

namespace Wrela.Flow

open Wrela.Source Wrela.BuildModel Wrela.TestModel

def flowWirVersion : UInt32 := 19

def assertionExpressionBytesMax : ℕ := 4096

def supportedSemanticWirVersion : UInt32 := 15

/-! ## Identifiers -/

inductive Arena where
  | type | function | block | value | instruction | global | actor | task | device | pool | region
  | activation | proof | checkpoint | test

/-- The identifier of a record in one arena. -/
structure Id (arena : Arena) where
  val : UInt32
deriving DecidableEq

/-- The position an identifier names in its arena. -/
def Id.index {arena : Arena} (id : Id arena) : ℕ := id.val.toNat

abbrev TypeId := Id .type
abbrev FunctionId := Id .function
abbrev BlockId := Id .block
abbrev ValueId := Id .value
abbrev InstructionId := Id .instruction
abbrev GlobalId := Id .global
abbrev ActorId := Id .actor
abbrev TaskId := Id .task
abbrev DeviceId := Id .device
abbrev PoolId := Id .pool
abbrev RegionId := Id .region
abbrev ActivationId := Id .activation
abbrev ProofId := Id .proof
abbrev CheckpointId := Id .checkpoint
abbrev TestId := Id .test

inductive ScalarType where
  | bool
  | character
  | integer (signed : Bool) (bits : UInt16)
  | float32
  | float64
  | address
deriving DecidableEq

inductive FlowTypeKind where
  | unit
  | scalar (scalar : ScalarType)
  | staticString (bytes : UInt64)
  | staticBytes (bytes : UInt64)
  | boundedString (capacity : UInt64)
  | tuple (elements : List TypeId)
  | array (element : TypeId) (length : UInt64)
  | struct (fields : List TypeId)
  | enum (variants : List (List TypeId))
  | function (parameters : List TypeId) (result : TypeId)
  | activation (result : TypeId)
  | regionHandle (region : RegionId)
  | poolHandle (pool : PoolId)
  | actorHandle (actor : ActorId)
  | taskHandle (task : TaskId)
  | reservation
  | receipt (payload error : TypeId)
  | dmaToken (pool : PoolId) (payload : TypeId)
  | opaqueTarget (name : String)
deriving DecidableEq

structure FlowType where
  id : TypeId
  kind : FlowTypeKind
  name : Option String
  copyable : Bool
  strictLinear : Bool
deriving DecidableEq

inductive UnaryOp where
  | negate | boolNot | bitNot
deriving DecidableEq

inductive BinaryOp where
  | addChecked | addWrapping | subChecked | subWrapping | mulChecked | mulWrapping | divChecked
  | remChecked | bitAnd | bitOr | bitXor | shiftLeftChecked | shiftRightChecked | equal | notEqual
  | less | lessEqual | greater | greaterEqual | shiftLeftWrapping
deriving DecidableEq

inductive CastMode where
  | checked | exact | bitcast
deriving DecidableEq

inductive AccessKind where
  | read | mutate | take
deriving DecidableEq

inductive DmaOwnership where
  | cpu | prepared | device | completed | quarantined
deriving DecidableEq

inductive FenceKind where
  | acquire | release | acquireRelease | deviceRead | deviceWrite | deviceFull
deriving DecidableEq

inductive FailureKind where
  | bounds | arithmetic | conversion | capacity | generation | dmaState | deviceValue
  | cancellation | deadline | peerFailure | taskFailure | fatalTarget
deriving DecidableEq

inductive Immediate where
  | unit
  | bool (value : Bool)
  | character (value : Char)
  | integer (bits : UInt16) (bytesLe : List UInt8)
  | float32 (bits : UInt32)
  | float64 (bits : UInt64)
  | bytes (value : List UInt8)
  | zero (type : TypeId)
  | globalAddress (global : GlobalId)
  | functionAddress (function : FunctionId)
deriving DecidableEq

inductive BoundedStringPart where
  | text (value : String) (source : Span)
  | bool (value : ValueId) (source : Span)
  | character (value : ValueId) (source : Span)
  | integer (value : ValueId) (maximumBytes : UInt64) (source : Span)
  | staticString (value : ValueId) (bytes : UInt64) (source : Span)
deriving DecidableEq

structure AssertionFailureDescriptor where
  expression : String
  message : Option String
  source : Span
deriving DecidableEq

inductive FlowOperation where
  | immediate (value : Immediate)
  | actorStateAddress (actor : ActorId) (region : RegionId) (proof : ProofId)
  | unary (op : UnaryOp) (value : ValueId)
  | binary (op : BinaryOp) (left right : ValueId)
  | cast (value : ValueId) (toType : TypeId) (mode : CastMode)
  | makeAggregate (ty : TypeId) (fields : List ValueId)
  | formatBoundedString (ty : TypeId) (parts : List BoundedStringPart)
  | makeEnum (ty : TypeId) (variant : UInt8) (payload : Option ValueId)
  | enumTag (value : ValueId)
  | enumPayload (value : ValueId) (variant : Option UInt8)
  | extractField (aggregate : ValueId) (field : UInt32)
  | extractIndex (aggregate index : ValueId) (proof : ProofId)
  | insertField (aggregate : ValueId) (field : UInt32) (value : ValueId)
  | select (condition thenValue elseValue : ValueId)
  | beginAccess (place : ValueId) (kind : AccessKind) (proof : ProofId)
  | endAccess (access : ValueId)
  | load (address : ValueId) (proof : ProofId)
  | store (address value : ValueId) (proof : ProofId)
  | move (value : ValueId)
  | copy (value : ValueId)
  | drop (value : ValueId)
  | call (function : FunctionId) (arguments : List ValueId)
  | asyncCall (function : FunctionId) (arguments : List ValueId) (plan : ActivationId)
  | allocate (region : RegionId) (ty : TypeId) (count : ValueId) (proof : ProofId)
  | regionReset (region : RegionId)
  | promote (value : ValueId) (destination : RegionId) (proof : ProofId)
  | actorCapability (actor : ActorId) (proof : ProofId)
  | actorReserve (actor : ActorId) (method : FunctionId) (proof : ProofId)
  | actorCommit (reservation : ValueId) (arguments : List ValueId)
  | actorReplyRequest (actor : ActorId) (method : FunctionId) (permit reply : ProofId)
  | actorReplyResolve (outcome : ValueId) (reply : ProofId)
  | actorReject (reservation : ValueId)
  | mailboxReceive (actor : ActorId) (method : FunctionId)
  | replyResolve (endpoint outcome : ValueId)
  | receiptCommit (receipt payload : ValueId)
  | receiptResolve (receipt outcome : ValueId)
  | taskAcquireSlot (task : TaskId) (proof : ProofId)
  | taskStart (slot : ValueId) (entry : FunctionId) (arguments : List ValueId)
  | taskCancel (task : ValueId)
  | park (waitSet : ValueId)
  | wake (target : ValueId)
  | checkpoint (id : CheckpointId) (proof : ProofId)
  | deadlineRead
  | interruptMask
  | interruptRestore (token : ValueId)
  | interruptPublish (cell value : ValueId)
  | mmioRead (device : DeviceId) (register : UInt32)
  | mmioWrite (device : DeviceId) (register : UInt32) (value : ValueId)
  | fence (kind : FenceKind)
  | dmaTransition (token : ValueId) (device : DeviceId) (fromOwnership toOwnership : DmaOwnership) (proof : ProofId)
  | queueReserve (device : DeviceId) (descriptors : ValueId) (proof : ProofId)
  | queuePublish (reservation payload : ValueId)
  | validateDeviceValue (value : ValueId) (proof : ProofId)
  | check (condition : ValueId) (failure : FailureKind) (proof : Option ProofId)
  | assert (condition : ValueId) (failure : AssertionFailureDescriptor)
  | recordEvent (kind : UInt32) (payload : ValueId)
  | replayEvent (kind : UInt32) (destination : ValueId)
  | testEmit (payload : ValueId)
  | testFinish (outcome : ValueId)
deriving DecidableEq

structure Instruction where
  id : InstructionId
  results : List ValueId
  operation : FlowOperation
  source : Option Span
deriving DecidableEq

structure SwitchCase where
  value : BitVec 128
  target : BlockId
  arguments : List ValueId
deriving DecidableEq

inductive Terminator where
  | jump (target : BlockId) (arguments : List ValueId)
  | branch (condition : ValueId) (thenBlock : BlockId) (thenArguments : List ValueId)
      (elseBlock : BlockId) (elseArguments : List ValueId)
  | switch (value : ValueId) (cases : List SwitchCase) (default : BlockId)
      (defaultArguments : List ValueId)
  | return (values : List ValueId)
  | suspend (state : UInt32) (activation : ValueId) (resume : BlockId)
  | tailCall (function : FunctionId) (arguments : List ValueId)
  | trap (failure : FailureKind) (detail : Option ValueId)
  | unreachable
deriving DecidableEq

structure Block where
  id : BlockId
  parameters : List ValueId
  instructions : List Instruction
  terminator : Terminator
  source : Option Span
deriving DecidableEq

structure Value where
  id : ValueId
  ty : TypeId
  sourceName : Option String
  source : Option Span
deriving DecidableEq

inductive FunctionRole where
  | ordinary
  | actorTurn (actor : ActorId)
  | taskEntry (task : TaskId)
  | isr (device : DeviceId)
  | cleanup
  | imageEntry
  | test
deriving DecidableEq

inductive FunctionColor where
  | sync | async | isr
deriving DecidableEq

inductive FunctionOrigin where
  | sourceSemantic (semanticFunction : UInt32)
  | generatedImageEntry (semanticFunction constructor : UInt32)
  | generatedTestHarness (semanticFunction group : UInt32)
  | generatedAsyncState (semanticFunction state : UInt32)
  | generatedCleanup (semanticFunction scope : UInt32)
deriving DecidableEq

structure FlowFunction where
  id : FunctionId
  name : String
  origin : FunctionOrigin
  role : FunctionRole
  color : FunctionColor
  parameters : List ValueId
  resultTypes : List TypeId
  values : List Value
  blocks : List Block
  entry : BlockId
  stackBound : UInt64
  frameBound : UInt64
  proofs : List ProofId
  source : Option Span
deriving DecidableEq

inductive PlanOwner where
  | runtime
  | actor (actor : ActorId)
  | task (task : TaskId)
  | device (device : DeviceId)
  | pool (pool : PoolId)
  | bakedArtifact (artifact : UInt32)
deriving DecidableEq

structure FlowGlobal where
  id : GlobalId
  name : String
  ty : TypeId
  initializer : Immediate
  isMutable : Bool
  owner : PlanOwner
deriving DecidableEq

structure ActorPlan where
  id : ActorId
  name : String
  stateType : TypeId
  mailboxCapacity : UInt32
  messageTypes : List TypeId
  turnFunctions : List FunctionId
  priority : UInt8
  supervisor : Option ActorId
deriving DecidableEq

structure TaskPlan where
  id : TaskId
  name : String
  entry : FunctionId
  slots : UInt32
  priority : UInt8
  frameBytesBound : UInt64
  supervisor : Option ActorId
deriving DecidableEq

structure DevicePlan where
  id : DeviceId
  name : String
  targetBinding : String
  owner : ActorId
  queueCapacity : Option UInt32
  maximumInFlight : Option UInt32
  requiredFeatures : List String
  optionalFeatures : List String
  interruptFunctions : List FunctionId
  resetTimeoutNs : UInt64
deriving DecidableEq

structure PoolPlan where
  id : PoolId
  name : String
  elementType : TypeId
  capacity : UInt64
  alignment : UInt64
  devices : List DeviceId
deriving DecidableEq

inductive RegionClass where
  | image
  | taskFrame
  | call
  | request
  | pool (pool : PoolId)
  | static
deriving DecidableEq

structure RegionPlan where
  id : RegionId
  name : String
  class_ : RegionClass
  capacityBytes : UInt64
  alignment : UInt64
  resetFunction : Option FunctionId
  owner : PlanOwner
  capacityProof : ProofId
  source : Span
deriving DecidableEq

inductive ActivationCancellation where
  | dropCalleeThenPropagate
deriving DecidableEq

structure ActivationPlan where
  id : ActivationId
  caller : FunctionId
  callee : FunctionId
  region : RegionId
  frameBytes : UInt64
  maximumLive : UInt32
  cancellation : ActivationCancellation
  capacityProof : ProofId
  source : Span
deriving DecidableEq

structure SchedulerPlan where
  core : UInt32
  actors : List ActorId
  tasks : List TaskId
deriving DecidableEq

structure SourceSummary where
  semanticWirVersion : UInt32
  semanticFunctions : UInt32
  hirFiles : UInt32
  hirDeclarations : UInt32
  reachableDeclarations : UInt64
  monomorphizedInstantiations : UInt64
  resolvedInterfaceCalls : UInt64
deriving DecidableEq

inductive ProofKind where
  | typeChecked | effectsAllowed | definiteInitialization | ownership | accessExclusive
  | viewDoesNotEscape | regionBound | capacityBound | actorReplyExactlyOnce | waitGraphAcyclic
  | cleanupAcyclic | workBound | stackBound | isrSafe | dmaTransition | mmioPartition
  | deviceValueValidated | wireLayout | receiptLineage | actorAsIf | supervisionComplete
  | imageClosed | flowControl | valueRange | alignment | noAlias
deriving DecidableEq

structure Proof where
  id : ProofId
  kind : ProofKind
  subject : String
  sources : List Span
  dependsOn : List ProofId
  bound : Option UInt64
  explanation : List String
deriving DecidableEq

structure Checkpoint where
  id : CheckpointId
  function : FunctionId
  source : Span
  uninterruptedBound : UInt64
  mayObserveCancellation : Bool
  mayYield : Bool
deriving DecidableEq

inductive TestKind where
  | comptime | integration | image
deriving DecidableEq

structure TestEntry where
  id : TestId
  planId : UInt32
  functionKey : Sha256Digest
  name : String
  function : FunctionId
  kind : TestKind
  source : Span
  timeoutNs : UInt64
deriving DecidableEq

structure FlowWir where
  version : UInt32
  name : String
  build : BuildIdentity
  sourceSummary : SourceSummary
  types : List FlowType
  globals : List FlowGlobal
  functions : List FlowFunction
  actors : List ActorPlan
  tasks : List TaskPlan
  devices : List DevicePlan
  pools : List PoolPlan
  regions : List RegionPlan
  activations : List ActivationPlan
  schedulers : List SchedulerPlan
  proofs : List Proof
  checkpoints : List Checkpoint
  tests : List TestEntry
  compiledTestGroup : Option FullImageTestGroup
  startupOrder : List PlanOwner
  shutdownOrder : List PlanOwner
  imageEntry : FunctionId
  staticBytes : UInt64
  peakBytes : UInt64
deriving DecidableEq

open List

/-- The record an identifier names. -/
def Id.lookup {arena : Arena} {α : Type} (id : Id arena) (records : List α) : Option α :=
  records[id.index]?

def BoundedStringPart.values : BoundedStringPart → List ValueId
  | .text _ _ => []
  | .bool value _ | .character value _ | .integer value _ _ | .staticString value _ _ => [value]

/-- The values of `for_each_flow_operation_value`. -/
def FlowOperation.values : FlowOperation → List ValueId
  | .immediate _ | .actorStateAddress .. | .regionReset _ | .actorCapability .. | .actorReserve ..
  | .actorReplyRequest .. | .mailboxReceive .. | .taskAcquireSlot .. | .checkpoint ..
  | .deadlineRead | .interruptMask | .mmioRead .. | .fence _ => []
  | .unary _ value | .cast value _ _ | .promote value _ _ | .enumTag value | .enumPayload value _
  | .extractField value _ | .endAccess value | .load value _ | .move value | .copy value
  | .drop value | .actorReject value | .taskCancel value | .park value | .wake value
  | .interruptRestore value | .validateDeviceValue value _ | .check value _ _ | .assert value _
  | .recordEvent _ value | .replayEvent _ value | .testEmit value | .testFinish value
  | .actorReplyResolve value _ | .beginAccess value _ _ | .allocate _ _ value _
  | .mmioWrite _ _ value | .dmaTransition value _ _ _ _ | .queueReserve _ value _ => [value]
  | .binary _ left right => [left, right]
  | .extractIndex aggregate index _ => [aggregate, index]
  | .makeAggregate _ fields => fields
  | .formatBoundedString _ parts => parts.flatMap BoundedStringPart.values
  | .makeEnum _ _ payload => payload.toList
  | .insertField first _ second | .store first second _ | .replyResolve first second
  | .receiptCommit first second | .receiptResolve first second | .interruptPublish first second
  | .queuePublish first second => [first, second]
  | .actorCommit reservation arguments => reservation :: arguments
  | .select condition thenValue elseValue => [condition, thenValue, elseValue]
  | .call _ arguments | .asyncCall _ arguments _ => arguments
  | .taskStart slot _ arguments => slot :: arguments

/-- The values of `for_each_flow_terminator_value`. -/
def Terminator.values : Terminator → List ValueId
  | .jump _ arguments | .return arguments | .tailCall _ arguments => arguments
  | .branch condition _ thenArguments _ elseArguments =>
    condition :: (thenArguments ++ elseArguments)
  | .switch value cases _ defaultArguments =>
    value :: (cases.flatMap SwitchCase.arguments ++ defaultArguments)
  | .suspend _ activation _ => [activation]
  | .trap _ detail => detail.toList
  | .unreachable => []

/-- The targets of `for_each_flow_edge` with the arguments passed to each.  The value delivered to
a resume block is not an argument of the edge. -/
def Terminator.edges : Terminator → List (BlockId × List ValueId)
  | .jump target arguments => [(target, arguments)]
  | .branch _ thenBlock thenArguments elseBlock elseArguments =>
    [(thenBlock, thenArguments), (elseBlock, elseArguments)]
  | .switch _ cases default defaultArguments =>
    cases.map (fun case ↦ (case.target, case.arguments)) ++ [(default, defaultArguments)]
  | .suspend _ _ resume => [(resume, [])]
  | .return _ | .tailCall _ _ | .trap _ _ | .unreachable => []

def BoundedStringPart.mapValues (rename : ValueId → ValueId) :
    BoundedStringPart → BoundedStringPart
  | .text value source => .text value source
  | .bool value source => .bool (rename value) source
  | .character value source => .character (rename value) source
  | .integer value maximumBytes source => .integer (rename value) maximumBytes source
  | .staticString value bytes source => .staticString (rename value) bytes source

/-- An operation with every value it reads renamed. -/
def FlowOperation.mapValues (rename : ValueId → ValueId) : FlowOperation → FlowOperation
  | .immediate value => .immediate value
  | .actorStateAddress actor region proof => .actorStateAddress actor region proof
  | .unary op value => .unary op (rename value)
  | .binary op left right => .binary op (rename left) (rename right)
  | .cast value toType mode => .cast (rename value) toType mode
  | .makeAggregate ty fields => .makeAggregate ty (fields.map rename)
  | .formatBoundedString ty parts =>
    .formatBoundedString ty (parts.map (BoundedStringPart.mapValues rename))
  | .makeEnum ty variant payload => .makeEnum ty variant (payload.map rename)
  | .enumTag value => .enumTag (rename value)
  | .enumPayload value variant => .enumPayload (rename value) variant
  | .extractField aggregate field => .extractField (rename aggregate) field
  | .extractIndex aggregate index proof => .extractIndex (rename aggregate) (rename index) proof
  | .insertField aggregate field value => .insertField (rename aggregate) field (rename value)
  | .select condition thenValue elseValue =>
    .select (rename condition) (rename thenValue) (rename elseValue)
  | .beginAccess place kind proof => .beginAccess (rename place) kind proof
  | .endAccess access => .endAccess (rename access)
  | .load address proof => .load (rename address) proof
  | .store address value proof => .store (rename address) (rename value) proof
  | .move value => .move (rename value)
  | .copy value => .copy (rename value)
  | .drop value => .drop (rename value)
  | .call function arguments => .call function (arguments.map rename)
  | .asyncCall function arguments plan => .asyncCall function (arguments.map rename) plan
  | .allocate region ty count proof => .allocate region ty (rename count) proof
  | .regionReset region => .regionReset region
  | .promote value destination proof => .promote (rename value) destination proof
  | .actorCapability actor proof => .actorCapability actor proof
  | .actorReserve actor method proof => .actorReserve actor method proof
  | .actorCommit reservation arguments =>
    .actorCommit (rename reservation) (arguments.map rename)
  | .actorReplyRequest actor method permit reply => .actorReplyRequest actor method permit reply
  | .actorReplyResolve outcome reply => .actorReplyResolve (rename outcome) reply
  | .actorReject reservation => .actorReject (rename reservation)
  | .mailboxReceive actor method => .mailboxReceive actor method
  | .replyResolve endpoint outcome => .replyResolve (rename endpoint) (rename outcome)
  | .receiptCommit receipt payload => .receiptCommit (rename receipt) (rename payload)
  | .receiptResolve receipt outcome => .receiptResolve (rename receipt) (rename outcome)
  | .taskAcquireSlot task proof => .taskAcquireSlot task proof
  | .taskStart slot entry arguments => .taskStart (rename slot) entry (arguments.map rename)
  | .taskCancel task => .taskCancel (rename task)
  | .park waitSet => .park (rename waitSet)
  | .wake target => .wake (rename target)
  | .checkpoint id proof => .checkpoint id proof
  | .deadlineRead => .deadlineRead
  | .interruptMask => .interruptMask
  | .interruptRestore token => .interruptRestore (rename token)
  | .interruptPublish cell value => .interruptPublish (rename cell) (rename value)
  | .mmioRead device register => .mmioRead device register
  | .mmioWrite device register value => .mmioWrite device register (rename value)
  | .fence kind => .fence kind
  | .dmaTransition token device fromOwnership toOwnership proof =>
    .dmaTransition (rename token) device fromOwnership toOwnership proof
  | .queueReserve device descriptors proof => .queueReserve device (rename descriptors) proof
  | .queuePublish reservation payload => .queuePublish (rename reservation) (rename payload)
  | .validateDeviceValue value proof => .validateDeviceValue (rename value) proof
  | .check condition failure proof => .check (rename condition) failure proof
  | .assert condition failure => .assert (rename condition) failure
  | .recordEvent kind payload => .recordEvent kind (rename payload)
  | .replayEvent kind destination => .replayEvent kind (rename destination)
  | .testEmit payload => .testEmit (rename payload)
  | .testFinish outcome => .testFinish (rename outcome)

/-- A terminator with every value it reads and every block it names renamed. -/
def Terminator.rename (renameValue : ValueId → ValueId) (renameBlock : BlockId → BlockId) :
    Terminator → Terminator
  | .jump target arguments => .jump (renameBlock target) (arguments.map renameValue)
  | .branch condition thenBlock thenArguments elseBlock elseArguments =>
    .branch (renameValue condition) (renameBlock thenBlock) (thenArguments.map renameValue)
      (renameBlock elseBlock) (elseArguments.map renameValue)
  | .switch value cases default defaultArguments =>
    .switch (renameValue value)
      (cases.map fun case ↦ ⟨case.value, renameBlock case.target, case.arguments.map renameValue⟩)
      (renameBlock default) (defaultArguments.map renameValue)
  | .return values => .return (values.map renameValue)
  | .suspend state activation resume =>
    .suspend state (renameValue activation) (renameBlock resume)
  | .tailCall function arguments => .tailCall function (arguments.map renameValue)
  | .trap failure detail => .trap failure (detail.map renameValue)
  | .unreachable => .unreachable

variable {rename : ValueId → ValueId} {renameBlock : BlockId → BlockId}

theorem BoundedStringPart.values_mapValues (part : BoundedStringPart) :
    (part.mapValues rename).values = part.values.map rename := by
  cases part <;> rfl

@[simp]
theorem FlowOperation.values_mapValues (operation : FlowOperation) :
    (operation.mapValues rename).values = operation.values.map rename := by
  cases operation
  case formatBoundedString ty parts =>
    simp only [FlowOperation.mapValues, FlowOperation.values, flatMap_map, map_flatMap,
      BoundedStringPart.values_mapValues]
  case makeEnum ty variant payload => cases payload <;> rfl
  all_goals rfl

@[simp]
theorem Terminator.values_rename (terminator : Terminator) :
    (terminator.rename rename renameBlock).values = terminator.values.map rename := by
  cases terminator
  case branch => simp [Terminator.rename, Terminator.values]
  case switch =>
    simp only [Terminator.rename, Terminator.values, flatMap_map, map_cons, map_append, map_flatMap]
  case trap failure detail => cases detail <;> rfl
  all_goals rfl

@[simp]
theorem Terminator.edges_rename (terminator : Terminator) :
    (terminator.rename rename renameBlock).edges =
      terminator.edges.map fun edge ↦ (renameBlock edge.1, edge.2.map rename) := by
  cases terminator <;> simp [Terminator.rename, Terminator.edges, Function.comp_def]

def kindOf (types : List FlowType) (ty : TypeId) : Option FlowTypeKind :=
  (ty.lookup types).map FlowType.kind

/-- The answer of a comparison between two things with the given order. -/
def compareBy (op : BinaryOp) (less equal : Bool) : Option Bool :=
  match op with
  | .equal => some equal
  | .notEqual => some !equal
  | .less => some less
  | .lessEqual => some (less || equal)
  | .greater => some (!less && !equal)
  | .greaterEqual => some !less
  | _ => none

/-- A floating-point number as a signed magnitude, `none` when it is not a number. -/
def floatKey (magnitudeBits infinity word : ℕ) : Option ℤ :=
  let magnitude := word % 2 ^ magnitudeBits
  if magnitude > infinity then none
  else some (if word / 2 ^ magnitudeBits = 0 then magnitude else -magnitude)

def float32Key (bits : UInt32) : Option ℤ := floatKey 31 0x7f800000 bits.toNat

def float64Key (bits : UInt64) : Option ℤ := floatKey 63 0x7ff0000000000000 bits.toNat

/-- The comparisons of floating-point numbers: a number that is not one is not equal to, less than
or greater than anything. -/
def compareFloat (op : BinaryOp) (left right : Option ℤ) : Option Bool :=
  match left, right with
  | some left, some right => compareBy op (left < right) (left = right)
  | _, _ =>
    match op with
    | .notEqual => some true
    | .equal | .less | .lessEqual | .greater | .greaterEqual => some false
    | _ => none

end Wrela.Flow
