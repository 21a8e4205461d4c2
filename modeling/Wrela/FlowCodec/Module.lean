import Wrela.FlowCodec.Operation

/-!
# Records and modules on the wire

Functions, plans, proofs, tests and the module itself, each record as its fields in order.
-/

namespace Wrela.FlowCodec

open Wrela.Source Wrela.BuildModel Wrela.TestModel Wrela.Flow Wrela.Wire

variable (limits : CodecLimits)

def functionColorTag : FunctionColor → UInt8
  | .sync => 0
  | .async => 1
  | .isr => 2

def functionColorOfTag : UInt8 → Option FunctionColor
  | 0 => some .sync
  | 1 => some .async
  | 2 => some .isr
  | _ => none

def proofKindTag : ProofKind → UInt8
  | .typeChecked => 0
  | .effectsAllowed => 1
  | .definiteInitialization => 2
  | .ownership => 3
  | .accessExclusive => 4
  | .viewDoesNotEscape => 5
  | .regionBound => 6
  | .capacityBound => 7
  | .waitGraphAcyclic => 8
  | .cleanupAcyclic => 9
  | .workBound => 10
  | .stackBound => 11
  | .isrSafe => 12
  | .dmaTransition => 13
  | .mmioPartition => 14
  | .deviceValueValidated => 15
  | .wireLayout => 16
  | .receiptLineage => 17
  | .actorAsIf => 18
  | .supervisionComplete => 19
  | .imageClosed => 20
  | .flowControl => 21
  | .valueRange => 22
  | .alignment => 23
  | .noAlias => 24
  | .actorReplyExactlyOnce => 25

def proofKindOfTag : UInt8 → Option ProofKind
  | 0 => some .typeChecked
  | 1 => some .effectsAllowed
  | 2 => some .definiteInitialization
  | 3 => some .ownership
  | 4 => some .accessExclusive
  | 5 => some .viewDoesNotEscape
  | 6 => some .regionBound
  | 7 => some .capacityBound
  | 8 => some .waitGraphAcyclic
  | 9 => some .cleanupAcyclic
  | 10 => some .workBound
  | 11 => some .stackBound
  | 12 => some .isrSafe
  | 13 => some .dmaTransition
  | 14 => some .mmioPartition
  | 15 => some .deviceValueValidated
  | 16 => some .wireLayout
  | 17 => some .receiptLineage
  | 18 => some .actorAsIf
  | 19 => some .supervisionComplete
  | 20 => some .imageClosed
  | 21 => some .flowControl
  | 22 => some .valueRange
  | 23 => some .alignment
  | 24 => some .noAlias
  | 25 => some .actorReplyExactlyOnce
  | _ => none

def testKindTag : Flow.TestKind → UInt8
  | .comptime => 0
  | .integration => 1
  | .image => 2

def testKindOfTag : UInt8 → Option Flow.TestKind
  | 0 => some .comptime
  | 1 => some .integration
  | 2 => some .image
  | _ => none

def plannedTestKindTag : TestModel.TestKind → UInt8
  | .comptimeUnit => 0
  | .integrationImage => 1
  | .declaredImage => 2

def plannedTestKindOfTag : UInt8 → Option TestModel.TestKind
  | 0 => some .comptimeUnit
  | 1 => some .integrationImage
  | 2 => some .declaredImage
  | _ => none

def activationCancellationTag : ActivationCancellation → UInt8
  | .dropCalleeThenPropagate => 0

def activationCancellationOfTag : UInt8 → Option ActivationCancellation
  | 0 => some .dropCalleeThenPropagate
  | _ => none

namespace Writer

def functionColor (value : FunctionColor) : Writer Unit := u8 limits (functionColorTag value)
def proofKind (value : ProofKind) : Writer Unit := u8 limits (proofKindTag value)
def testKind (value : Flow.TestKind) : Writer Unit := u8 limits (testKindTag value)
def plannedTestKind (value : TestModel.TestKind) : Writer Unit := u8 limits (plannedTestKindTag value)
def activationCancellation (value : ActivationCancellation) : Writer Unit :=
  u8 limits (activationCancellationTag value)

end Writer

namespace Reader

def functionColor : Reader FunctionColor := tagged "FunctionColor" functionColorOfTag
def proofKind : Reader ProofKind := tagged "ProofKind" proofKindOfTag
def testKind : Reader Flow.TestKind := tagged "TestKind" testKindOfTag
def plannedTestKind : Reader TestModel.TestKind := tagged "planned TestKind" plannedTestKindOfTag
def activationCancellation : Reader ActivationCancellation :=
  tagged "ActivationCancellation" activationCancellationOfTag

end Reader

instance mirrors_functionColor :
    Mirrors limits (Writer.functionColor limits) Reader.functionColor :=
  mirrors_tagged limits (by intro value; cases value <;> rfl)
    (by intro byte value h; unfold functionColorOfTag at h; split at h <;> cases h <;> rfl)

instance mirrors_proofKind : Mirrors limits (Writer.proofKind limits) Reader.proofKind :=
  mirrors_tagged limits (by intro value; cases value <;> rfl)
    (by intro byte value h; unfold proofKindOfTag at h; split at h <;> cases h <;> rfl)

instance mirrors_testKind : Mirrors limits (Writer.testKind limits) Reader.testKind :=
  mirrors_tagged limits (by intro value; cases value <;> rfl)
    (by intro byte value h; unfold testKindOfTag at h; split at h <;> cases h <;> rfl)

instance mirrors_plannedTestKind :
    Mirrors limits (Writer.plannedTestKind limits) Reader.plannedTestKind :=
  mirrors_tagged limits (by intro value; cases value <;> rfl)
    (by intro byte value h; unfold plannedTestKindOfTag at h; split at h <;> cases h <;> rfl)

instance mirrors_activationCancellation :
    Mirrors limits (Writer.activationCancellation limits) Reader.activationCancellation :=
  mirrors_tagged limits (by intro value; cases value; rfl)
    (by intro byte value h; unfold activationCancellationOfTag at h; split at h <;> cases h; rfl)

namespace Writer

def functionOrigin : FunctionOrigin → Writer Unit
  | .sourceSemantic semanticFunction => do
    u8 limits 0
    u32 limits semanticFunction
  | .generatedImageEntry semanticFunction constructor => do
    u8 limits 1
    u32 limits semanticFunction
    u32 limits constructor
  | .generatedTestHarness semanticFunction group => do
    u8 limits 2
    u32 limits semanticFunction
    u32 limits group
  | .generatedAsyncState semanticFunction state => do
    u8 limits 3
    u32 limits semanticFunction
    u32 limits state
  | .generatedCleanup semanticFunction scope => do
    u8 limits 4
    u32 limits semanticFunction
    u32 limits scope

def functionRole : FunctionRole → Writer Unit
  | .ordinary => u8 limits 0
  | .actorTurn actor => do
    u8 limits 1
    id limits actor
  | .taskEntry task => do
    u8 limits 2
    id limits task
  | .isr device => do
    u8 limits 3
    id limits device
  | .cleanup => u8 limits 4
  | .imageEntry => u8 limits 5
  | .test => u8 limits 6

def value (record : Value) : Writer Unit := do
  id limits record.id
  id limits record.ty
  option limits (string limits) record.sourceName
  option limits (span limits) record.source

def instruction (record : Instruction) : Writer Unit := do
  id limits record.id
  idVector limits record.results
  operation limits record.operation
  option limits (span limits) record.source

def block (record : Block) : Writer Unit := do
  id limits record.id
  idVector limits record.parameters
  vector limits .instructions (instruction limits) record.instructions
  terminator limits record.terminator
  option limits (span limits) record.source

def function (record : FlowFunction) : Writer Unit := do
  id limits record.id
  string limits record.name
  functionOrigin limits record.origin
  functionRole limits record.role
  functionColor limits record.color
  idVector limits record.parameters
  idVector limits record.resultTypes
  vector limits .general (value limits) record.values
  vector limits .blocks (block limits) record.blocks
  id limits record.entry
  u64 limits record.stackBound
  u64 limits record.frameBound
  idVector limits record.proofs
  option limits (span limits) record.source

end Writer

namespace Reader

def functionOrigin : Reader FunctionOrigin := do
  match ← u8 with
  | 0 => do
    let semanticFunction ← u32
    pure (.sourceSemantic semanticFunction)
  | 1 => do
    let semanticFunction ← u32
    let constructor ← u32
    pure (.generatedImageEntry semanticFunction constructor)
  | 2 => do
    let semanticFunction ← u32
    let group ← u32
    pure (.generatedTestHarness semanticFunction group)
  | 3 => do
    let semanticFunction ← u32
    let state ← u32
    pure (.generatedAsyncState semanticFunction state)
  | 4 => do
    let semanticFunction ← u32
    let scope ← u32
    pure (.generatedCleanup semanticFunction scope)
  | tag => fail (invalidTag "FunctionOrigin" tag)

def functionRole : Reader FunctionRole := do
  match ← u8 with
  | 0 => pure .ordinary
  | 1 => do
    let actor ← id
    pure (.actorTurn actor)
  | 2 => do
    let task ← id
    pure (.taskEntry task)
  | 3 => do
    let device ← id
    pure (.isr device)
  | 4 => pure .cleanup
  | 5 => pure .imageEntry
  | 6 => pure .test
  | tag => fail (invalidTag "FunctionRole" tag)

def value : Reader Value := do
  let ident ← id
  let ty ← id
  let sourceName ← option (string limits)
  let source ← option span
  pure ⟨ident, ty, sourceName, source⟩

def instruction : Reader Instruction := do
  let ident ← id
  let results ← idVector limits
  let operation ← operation limits
  let source ← option span
  pure ⟨ident, results, operation, source⟩

def block : Reader Block := do
  let ident ← id
  let parameters ← idVector limits
  let instructions ← vector limits .instructions (instruction limits)
  let terminator ← terminator limits
  let source ← option span
  pure ⟨ident, parameters, instructions, terminator, source⟩

def function : Reader FlowFunction := do
  let ident ← id
  let name ← string limits
  let origin ← functionOrigin
  let role ← functionRole
  let color ← functionColor
  let parameters ← idVector limits
  let resultTypes ← idVector limits
  let values ← vector limits .general (value limits)
  let blocks ← vector limits .blocks (block limits)
  let entry ← id
  let stackBound ← u64
  let frameBound ← u64
  let proofs ← idVector limits
  let source ← option span
  pure ⟨ident, name, origin, role, color, parameters, resultTypes, values, blocks, entry,
    stackBound, frameBound, proofs, source⟩

end Reader

instance mirrors_functionOrigin :
    Mirrors limits (Writer.functionOrigin limits) Reader.functionOrigin where
  emits value := by
    cases value
    all_goals first
      | exact emitsTag limits rfl
      | repeat first | exact emitsLast limits rfl | refine emitsField limits ?_
  absorbs := by
    refine AbsorbsAfter.start (absorbsField fun tag ↦ ?_)
    split
    all_goals repeat first
      | exact AbsorbsAfter.rejected
      | exact AbsorbsAfter.done (by simp [Writer.functionOrigin])
      | refine absorbsField fun _ ↦ ?_

instance mirrors_functionRole :
    Mirrors limits (Writer.functionRole limits) Reader.functionRole where
  emits value := by
    cases value
    all_goals first
      | exact emitsTag limits rfl
      | exact emitsField limits (emitsLast limits rfl)
  absorbs := by
    refine AbsorbsAfter.start (absorbsField fun tag ↦ ?_)
    split
    all_goals repeat first
      | exact AbsorbsAfter.rejected
      | exact AbsorbsAfter.done (by simp [Writer.functionRole])
      | refine absorbsField fun _ ↦ ?_

instance mirrors_value : Mirrors limits (Writer.value limits) (Reader.value limits) where
  emits _ := by
    iterate 3 refine emitsField limits ?_
    exact emitsLast limits rfl
  absorbs := by
    apply AbsorbsAfter.start
    iterate 4 refine absorbsField fun _ ↦ ?_
    exact AbsorbsAfter.done (by simp [Writer.value])

instance mirrors_instruction :
    Mirrors limits (Writer.instruction limits) (Reader.instruction limits) where
  emits _ := by
    iterate 3 refine emitsField limits ?_
    exact emitsLast limits rfl
  absorbs := by
    apply AbsorbsAfter.start
    iterate 4 refine absorbsField fun _ ↦ ?_
    exact AbsorbsAfter.done (by simp [Writer.instruction])

instance mirrors_block : Mirrors limits (Writer.block limits) (Reader.block limits) where
  emits _ := by
    iterate 4 refine emitsField limits ?_
    exact emitsLast limits rfl
  absorbs := by
    apply AbsorbsAfter.start
    iterate 5 refine absorbsField fun _ ↦ ?_
    exact AbsorbsAfter.done (by simp [Writer.block])

instance mirrors_function : Mirrors limits (Writer.function limits) (Reader.function limits) where
  emits _ := by
    iterate 13 refine emitsField limits ?_
    exact emitsLast limits rfl
  absorbs := by
    apply AbsorbsAfter.start
    iterate 14 refine absorbsField fun _ ↦ ?_
    exact AbsorbsAfter.done (by simp [Writer.function])

/-! ## Plans -/

namespace Writer

def owner : PlanOwner → Writer Unit
  | .runtime => u8 limits 0
  | .actor actor => do
    u8 limits 1
    id limits actor
  | .task task => do
    u8 limits 2
    id limits task
  | .device device => do
    u8 limits 3
    id limits device
  | .pool pool => do
    u8 limits 4
    id limits pool
  | .bakedArtifact artifact => do
    u8 limits 5
    u32 limits artifact

def regionClass : RegionClass → Writer Unit
  | .image => u8 limits 0
  | .taskFrame => u8 limits 1
  | .call => u8 limits 2
  | .request => u8 limits 3
  | .pool pool => do
    u8 limits 4
    id limits pool
  | .static => u8 limits 5

def global (record : FlowGlobal) : Writer Unit := do
  id limits record.id
  string limits record.name
  id limits record.ty
  immediate limits record.initializer
  bool limits record.isMutable
  owner limits record.owner

def actor (record : ActorPlan) : Writer Unit := do
  id limits record.id
  string limits record.name
  id limits record.stateType
  u32 limits record.mailboxCapacity
  idVector limits record.messageTypes
  idVector limits record.turnFunctions
  u8 limits record.priority
  option limits (id limits) record.supervisor

def task (record : TaskPlan) : Writer Unit := do
  id limits record.id
  string limits record.name
  id limits record.entry
  u32 limits record.slots
  u8 limits record.priority
  u64 limits record.frameBytesBound
  option limits (id limits) record.supervisor

def device (record : DevicePlan) : Writer Unit := do
  id limits record.id
  string limits record.name
  string limits record.targetBinding
  id limits record.owner
  option limits (u32 limits) record.queueCapacity
  option limits (u32 limits) record.maximumInFlight
  vector limits .general (string limits) record.requiredFeatures
  vector limits .general (string limits) record.optionalFeatures
  idVector limits record.interruptFunctions
  u64 limits record.resetTimeoutNs

def pool (record : PoolPlan) : Writer Unit := do
  id limits record.id
  string limits record.name
  id limits record.elementType
  u64 limits record.capacity
  u64 limits record.alignment
  idVector limits record.devices

def region (record : RegionPlan) : Writer Unit := do
  id limits record.id
  string limits record.name
  regionClass limits record.class_
  u64 limits record.capacityBytes
  u64 limits record.alignment
  option limits (id limits) record.resetFunction
  owner limits record.owner
  id limits record.capacityProof
  span limits record.source

def activation (record : ActivationPlan) : Writer Unit := do
  id limits record.id
  id limits record.caller
  id limits record.callee
  id limits record.region
  u64 limits record.frameBytes
  u32 limits record.maximumLive
  activationCancellation limits record.cancellation
  id limits record.capacityProof
  span limits record.source

def scheduler (record : SchedulerPlan) : Writer Unit := do
  u32 limits record.core
  idVector limits record.actors
  idVector limits record.tasks

end Writer

namespace Reader

def owner : Reader PlanOwner := do
  match ← u8 with
  | 0 => pure .runtime
  | 1 => do
    let actor ← id
    pure (.actor actor)
  | 2 => do
    let task ← id
    pure (.task task)
  | 3 => do
    let device ← id
    pure (.device device)
  | 4 => do
    let pool ← id
    pure (.pool pool)
  | 5 => do
    let artifact ← u32
    pure (.bakedArtifact artifact)
  | tag => fail (invalidTag "PlanOwner" tag)

def regionClass : Reader RegionClass := do
  match ← u8 with
  | 0 => pure .image
  | 1 => pure .taskFrame
  | 2 => pure .call
  | 3 => pure .request
  | 4 => do
    let pool ← id
    pure (.pool pool)
  | 5 => pure .static
  | tag => fail (invalidTag "RegionClass" tag)

def global : Reader FlowGlobal := do
  let ident ← id
  let name ← string limits
  let ty ← id
  let initializer ← immediate limits
  let isMutable ← bool
  let owner ← owner
  pure ⟨ident, name, ty, initializer, isMutable, owner⟩

def actor : Reader ActorPlan := do
  let ident ← id
  let name ← string limits
  let stateType ← id
  let mailboxCapacity ← u32
  let messageTypes ← idVector limits
  let turnFunctions ← idVector limits
  let priority ← u8
  let supervisor ← option id
  pure ⟨ident, name, stateType, mailboxCapacity, messageTypes, turnFunctions, priority, supervisor⟩

def task : Reader TaskPlan := do
  let ident ← id
  let name ← string limits
  let entry ← id
  let slots ← u32
  let priority ← u8
  let frameBytesBound ← u64
  let supervisor ← option id
  pure ⟨ident, name, entry, slots, priority, frameBytesBound, supervisor⟩

def device : Reader DevicePlan := do
  let ident ← id
  let name ← string limits
  let targetBinding ← string limits
  let owner ← id
  let queueCapacity ← option u32
  let maximumInFlight ← option u32
  let requiredFeatures ← vector limits .general (string limits)
  let optionalFeatures ← vector limits .general (string limits)
  let interruptFunctions ← idVector limits
  let resetTimeoutNs ← u64
  pure ⟨ident, name, targetBinding, owner, queueCapacity, maximumInFlight, requiredFeatures,
    optionalFeatures, interruptFunctions, resetTimeoutNs⟩

def pool : Reader PoolPlan := do
  let ident ← id
  let name ← string limits
  let elementType ← id
  let capacity ← u64
  let alignment ← u64
  let devices ← idVector limits
  pure ⟨ident, name, elementType, capacity, alignment, devices⟩

def region : Reader RegionPlan := do
  let ident ← id
  let name ← string limits
  let class_ ← regionClass
  let capacityBytes ← u64
  let alignment ← u64
  let resetFunction ← option id
  let owner ← owner
  let capacityProof ← id
  let source ← span
  pure ⟨ident, name, class_, capacityBytes, alignment, resetFunction, owner, capacityProof, source⟩

def activation : Reader ActivationPlan := do
  let ident ← id
  let caller ← id
  let callee ← id
  let region ← id
  let frameBytes ← u64
  let maximumLive ← u32
  let cancellation ← activationCancellation
  let capacityProof ← id
  let source ← span
  pure ⟨ident, caller, callee, region, frameBytes, maximumLive, cancellation, capacityProof, source⟩

def scheduler : Reader SchedulerPlan := do
  let core ← u32
  let actors ← idVector limits
  let tasks ← idVector limits
  pure ⟨core, actors, tasks⟩

end Reader

instance mirrors_owner : Mirrors limits (Writer.owner limits) Reader.owner where
  emits value := by
    cases value
    all_goals first
      | exact emitsTag limits rfl
      | exact emitsField limits (emitsLast limits rfl)
  absorbs := by
    refine AbsorbsAfter.start (absorbsField fun tag ↦ ?_)
    split
    all_goals repeat first
      | exact AbsorbsAfter.rejected
      | exact AbsorbsAfter.done (by simp [Writer.owner])
      | refine absorbsField fun _ ↦ ?_

instance mirrors_regionClass : Mirrors limits (Writer.regionClass limits) Reader.regionClass where
  emits value := by
    cases value
    all_goals first
      | exact emitsTag limits rfl
      | exact emitsField limits (emitsLast limits rfl)
  absorbs := by
    refine AbsorbsAfter.start (absorbsField fun tag ↦ ?_)
    split
    all_goals repeat first
      | exact AbsorbsAfter.rejected
      | exact AbsorbsAfter.done (by simp [Writer.regionClass])
      | refine absorbsField fun _ ↦ ?_

instance mirrors_global : Mirrors limits (Writer.global limits) (Reader.global limits) where
  emits _ := by
    iterate 5 refine emitsField limits ?_
    exact emitsLast limits rfl
  absorbs := by
    apply AbsorbsAfter.start
    iterate 6 refine absorbsField fun _ ↦ ?_
    exact AbsorbsAfter.done (by simp [Writer.global])

instance mirrors_actor : Mirrors limits (Writer.actor limits) (Reader.actor limits) where
  emits _ := by
    iterate 7 refine emitsField limits ?_
    exact emitsLast limits rfl
  absorbs := by
    apply AbsorbsAfter.start
    iterate 8 refine absorbsField fun _ ↦ ?_
    exact AbsorbsAfter.done (by simp [Writer.actor])

instance mirrors_task : Mirrors limits (Writer.task limits) (Reader.task limits) where
  emits _ := by
    iterate 6 refine emitsField limits ?_
    exact emitsLast limits rfl
  absorbs := by
    apply AbsorbsAfter.start
    iterate 7 refine absorbsField fun _ ↦ ?_
    exact AbsorbsAfter.done (by simp [Writer.task])

instance mirrors_device : Mirrors limits (Writer.device limits) (Reader.device limits) where
  emits _ := by
    iterate 9 refine emitsField limits ?_
    exact emitsLast limits rfl
  absorbs := by
    apply AbsorbsAfter.start
    iterate 10 refine absorbsField fun _ ↦ ?_
    exact AbsorbsAfter.done (by simp [Writer.device])

instance mirrors_pool : Mirrors limits (Writer.pool limits) (Reader.pool limits) where
  emits _ := by
    iterate 5 refine emitsField limits ?_
    exact emitsLast limits rfl
  absorbs := by
    apply AbsorbsAfter.start
    iterate 6 refine absorbsField fun _ ↦ ?_
    exact AbsorbsAfter.done (by simp [Writer.pool])

instance mirrors_region : Mirrors limits (Writer.region limits) (Reader.region limits) where
  emits _ := by
    iterate 8 refine emitsField limits ?_
    exact emitsLast limits rfl
  absorbs := by
    apply AbsorbsAfter.start
    iterate 9 refine absorbsField fun _ ↦ ?_
    exact AbsorbsAfter.done (by simp [Writer.region])

instance mirrors_activation : Mirrors limits (Writer.activation limits) Reader.activation where
  emits _ := by
    iterate 8 refine emitsField limits ?_
    exact emitsLast limits rfl
  absorbs := by
    apply AbsorbsAfter.start
    iterate 9 refine absorbsField fun _ ↦ ?_
    exact AbsorbsAfter.done (by simp [Writer.activation])

instance mirrors_scheduler :
    Mirrors limits (Writer.scheduler limits) (Reader.scheduler limits) where
  emits _ := by
    iterate 2 refine emitsField limits ?_
    exact emitsLast limits rfl
  absorbs := by
    apply AbsorbsAfter.start
    iterate 3 refine absorbsField fun _ ↦ ?_
    exact AbsorbsAfter.done (by simp [Writer.scheduler])

/-! ## Proofs and tests -/

namespace Writer

def proof (record : Proof) : Writer Unit := do
  id limits record.id
  proofKind limits record.kind
  string limits record.subject
  vector limits .general (span limits) record.sources
  idVector limits record.dependsOn
  option limits (u64 limits) record.bound
  vector limits .general (string limits) record.explanation

def checkpoint (record : Checkpoint) : Writer Unit := do
  id limits record.id
  id limits record.function
  span limits record.source
  u64 limits record.uninterruptedBound
  bool limits record.mayObserveCancellation
  bool limits record.mayYield

def testEntry (record : TestEntry) : Writer Unit := do
  id limits record.id
  u32 limits record.planId
  digest limits record.functionKey
  string limits record.name
  id limits record.function
  testKind limits record.kind
  span limits record.source
  u64 limits record.timeoutNs

def imageRoot : ImageRoot → Writer Unit
  | .generatedHarness harnessName => do
    u8 limits 0
    string limits harnessName
  | .declared imageName scenario => do
    u8 limits 1
    string limits imageName
    u32 limits scenario.val

def imageTestInvocation : ImageTestInvocation → Writer Unit
  | .generatedFunction functionKey => do
    u8 limits 0
    digest limits functionKey.digest
  | .declaredScenario => u8 limits 1

def plannedAssertion (record : PlannedAssertionDescriptor) : Writer Unit := do
  span limits record.source
  string limits record.expression
  option limits (string limits) record.message

def plannedTest (record : ImageTest) : Writer Unit := do
  u32 limits record.descriptor.id.val
  string limits record.descriptor.name
  plannedTestKind limits record.descriptor.kind
  option limits (span limits) record.descriptor.source
  u64 limits record.descriptor.timeoutNs
  imageTestInvocation limits record.invocation
  vector limits .general (plannedAssertion limits) record.assertions

def compiledTestGroup (record : FullImageTestGroup) : Writer Unit := do
  u32 limits record.id.val
  string limits record.name
  imageRoot limits record.root
  vector limits .general (plannedTest limits) record.tests
  option limits (u64 limits) record.deterministicSeed
  u64 limits record.bootTimeoutNs
  u64 limits record.shutdownTimeoutNs
  u32 limits record.maximumEvents
  u64 limits record.maximumOutputBytes

end Writer

namespace Reader

def proof : Reader Proof := do
  let ident ← id
  let kind ← proofKind
  let subject ← string limits
  let sources ← vector limits .general span
  let dependsOn ← idVector limits
  let bound ← option u64
  let explanation ← vector limits .general (string limits)
  pure ⟨ident, kind, subject, sources, dependsOn, bound, explanation⟩

def checkpoint : Reader Checkpoint := do
  let ident ← id
  let function ← id
  let source ← span
  let uninterruptedBound ← u64
  let mayObserveCancellation ← bool
  let mayYield ← bool
  pure ⟨ident, function, source, uninterruptedBound, mayObserveCancellation, mayYield⟩

def testEntry : Reader TestEntry := do
  let ident ← id
  let planId ← u32
  let functionKey ← digest
  let name ← string limits
  let function ← id
  let kind ← testKind
  let source ← span
  let timeoutNs ← u64
  pure ⟨ident, planId, functionKey, name, function, kind, source, timeoutNs⟩

def imageRoot : Reader ImageRoot := do
  match ← u8 with
  | 0 => do
    let harnessName ← string limits
    pure (.generatedHarness harnessName)
  | 1 => do
    let imageName ← string limits
    let scenario ← u32
    pure (.declared imageName ⟨scenario⟩)
  | tag => fail (invalidTag "ImageRoot" tag)

def imageTestInvocation : Reader ImageTestInvocation := do
  match ← u8 with
  | 0 => do
    let functionKey ← digest
    pure (.generatedFunction ⟨functionKey⟩)
  | 1 => pure .declaredScenario
  | tag => fail (invalidTag "ImageTestInvocation" tag)

def plannedAssertion : Reader PlannedAssertionDescriptor := do
  let source ← span
  let expression ← string limits
  let message ← option (string limits)
  pure ⟨source, expression, message⟩

def plannedTest : Reader ImageTest := do
  let ident ← u32
  let name ← string limits
  let kind ← plannedTestKind
  let source ← option span
  let timeoutNs ← u64
  let invocation ← imageTestInvocation
  let assertions ← vector limits .general (plannedAssertion limits)
  pure ⟨⟨⟨ident⟩, name, kind, source, timeoutNs⟩, invocation, assertions⟩

def compiledTestGroup : Reader FullImageTestGroup := do
  let ident ← u32
  let name ← string limits
  let root ← imageRoot limits
  let tests ← vector limits .general (plannedTest limits)
  let deterministicSeed ← option u64
  let bootTimeoutNs ← u64
  let shutdownTimeoutNs ← u64
  let maximumEvents ← u32
  let maximumOutputBytes ← u64
  pure ⟨⟨ident⟩, name, root, tests, deterministicSeed, bootTimeoutNs, shutdownTimeoutNs,
    maximumEvents, maximumOutputBytes⟩

end Reader

instance mirrors_proof : Mirrors limits (Writer.proof limits) (Reader.proof limits) where
  emits _ := by
    iterate 6 refine emitsField limits ?_
    exact emitsLast limits rfl
  absorbs := by
    apply AbsorbsAfter.start
    iterate 7 refine absorbsField fun _ ↦ ?_
    exact AbsorbsAfter.done (by simp [Writer.proof])

instance mirrors_checkpoint : Mirrors limits (Writer.checkpoint limits) Reader.checkpoint where
  emits _ := by
    iterate 5 refine emitsField limits ?_
    exact emitsLast limits rfl
  absorbs := by
    apply AbsorbsAfter.start
    iterate 6 refine absorbsField fun _ ↦ ?_
    exact AbsorbsAfter.done (by simp [Writer.checkpoint])

instance mirrors_testEntry :
    Mirrors limits (Writer.testEntry limits) (Reader.testEntry limits) where
  emits _ := by
    iterate 7 refine emitsField limits ?_
    exact emitsLast limits rfl
  absorbs := by
    apply AbsorbsAfter.start
    iterate 8 refine absorbsField fun _ ↦ ?_
    exact AbsorbsAfter.done (by simp [Writer.testEntry])

instance mirrors_imageRoot :
    Mirrors limits (Writer.imageRoot limits) (Reader.imageRoot limits) where
  emits value := by
    cases value
    all_goals first
      | exact emitsTag limits rfl
      | repeat first | exact emitsLast limits rfl | refine emitsField limits ?_
  absorbs := by
    refine AbsorbsAfter.start (absorbsField fun tag ↦ ?_)
    split
    all_goals repeat first
      | exact AbsorbsAfter.rejected
      | exact AbsorbsAfter.done (by simp [Writer.imageRoot])
      | refine absorbsField fun _ ↦ ?_

instance mirrors_imageTestInvocation :
    Mirrors limits (Writer.imageTestInvocation limits) Reader.imageTestInvocation where
  emits value := by
    cases value
    all_goals first
      | exact emitsTag limits rfl
      | exact emitsField limits (emitsLast limits rfl)
  absorbs := by
    refine AbsorbsAfter.start (absorbsField fun tag ↦ ?_)
    split
    all_goals repeat first
      | exact AbsorbsAfter.rejected
      | exact AbsorbsAfter.done (by simp [Writer.imageTestInvocation])
      | refine absorbsField fun _ ↦ ?_

instance mirrors_plannedAssertion :
    Mirrors limits (Writer.plannedAssertion limits) (Reader.plannedAssertion limits) where
  emits _ := by
    iterate 2 refine emitsField limits ?_
    exact emitsLast limits rfl
  absorbs := by
    apply AbsorbsAfter.start
    iterate 3 refine absorbsField fun _ ↦ ?_
    exact AbsorbsAfter.done (by simp [Writer.plannedAssertion])

instance mirrors_plannedTest :
    Mirrors limits (Writer.plannedTest limits) (Reader.plannedTest limits) where
  emits _ := by
    iterate 6 refine emitsField limits ?_
    exact emitsLast limits rfl
  absorbs := by
    apply AbsorbsAfter.start
    iterate 7 refine absorbsField fun _ ↦ ?_
    exact AbsorbsAfter.done (by simp [Writer.plannedTest])

instance mirrors_compiledTestGroup :
    Mirrors limits (Writer.compiledTestGroup limits) (Reader.compiledTestGroup limits) where
  emits _ := by
    iterate 8 refine emitsField limits ?_
    exact emitsLast limits rfl
  absorbs := by
    apply AbsorbsAfter.start
    iterate 9 refine absorbsField fun _ ↦ ?_
    exact AbsorbsAfter.done (by simp [Writer.compiledTestGroup])

namespace Writer

def sourceSummary (record : SourceSummary) : Writer Unit := do
  u32 limits record.semanticWirVersion
  u32 limits record.semanticFunctions
  u32 limits record.hirFiles
  u32 limits record.hirDeclarations
  u64 limits record.reachableDeclarations
  u64 limits record.monomorphizedInstantiations
  u64 limits record.resolvedInterfaceCalls

end Writer

namespace Reader

def sourceSummary : Reader SourceSummary := do
  let semanticWirVersion ← u32
  let semanticFunctions ← u32
  let hirFiles ← u32
  let hirDeclarations ← u32
  let reachableDeclarations ← u64
  let monomorphizedInstantiations ← u64
  let resolvedInterfaceCalls ← u64
  pure ⟨semanticWirVersion, semanticFunctions, hirFiles, hirDeclarations,
    reachableDeclarations, monomorphizedInstantiations, resolvedInterfaceCalls⟩

end Reader

instance mirrors_sourceSummary :
    Mirrors limits (Writer.sourceSummary limits) Reader.sourceSummary where
  emits _ := by
    iterate 6 refine emitsField limits ?_
    exact emitsLast limits rfl
  absorbs := by
    apply AbsorbsAfter.start
    iterate 7 refine absorbsField fun _ ↦ ?_
    exact AbsorbsAfter.done (by simp [Writer.sourceSummary])

namespace Writer

/-- The payload of a frame.  The build identity of the module is in the header. -/
def flowWir (model : FlowWir) : Writer Unit := do
  u32 limits model.version
  string limits model.name
  sourceSummary limits model.sourceSummary
  vector limits .general (flowType limits) model.types
  vector limits .general (global limits) model.globals
  vector limits .functions (function limits) model.functions
  vector limits .general (actor limits) model.actors
  vector limits .general (task limits) model.tasks
  vector limits .general (device limits) model.devices
  vector limits .general (pool limits) model.pools
  vector limits .general (region limits) model.regions
  vector limits .general (activation limits) model.activations
  vector limits .general (scheduler limits) model.schedulers
  vector limits .general (proof limits) model.proofs
  vector limits .general (checkpoint limits) model.checkpoints
  vector limits .tests (testEntry limits) model.tests
  option limits (compiledTestGroup limits) model.compiledTestGroup
  vector limits .general (owner limits) model.startupOrder
  vector limits .general (owner limits) model.shutdownOrder
  id limits model.imageEntry
  u64 limits model.staticBytes
  u64 limits model.peakBytes

end Writer

namespace Reader

def flowWir (build : BuildIdentity) : Reader FlowWir := do
  let version ← u32
  if version ≠ flowWirVersion then fail (.unsupportedFlowWirVersion version)
  else do
    let name ← string limits
    let sourceSummary ← sourceSummary
    let types ← vector limits .general (flowType limits)
    let globals ← vector limits .general (global limits)
    let functions ← vector limits .functions (function limits)
    let actors ← vector limits .general (actor limits)
    let tasks ← vector limits .general (task limits)
    let devices ← vector limits .general (device limits)
    let pools ← vector limits .general (pool limits)
    let regions ← vector limits .general (region limits)
    let activations ← vector limits .general activation
    let schedulers ← vector limits .general (scheduler limits)
    let proofs ← vector limits .general (proof limits)
    let checkpoints ← vector limits .general checkpoint
    let tests ← vector limits .tests (testEntry limits)
    let compiledTestGroup ← option (compiledTestGroup limits)
    let startupOrder ← vector limits .general owner
    let shutdownOrder ← vector limits .general owner
    let imageEntry ← id
    let staticBytes ← u64
    let peakBytes ← u64
    pure { version, build, name, sourceSummary, types, globals, functions, actors, tasks, devices,
           pools, regions, activations, schedulers, proofs, checkpoints, tests, compiledTestGroup,
           startupOrder, shutdownOrder, imageEntry, staticBytes, peakBytes }

end Reader

theorem emits_flowWir (hversion : model.version = flowWirVersion) :
    Emits (Writer.flowWir limits model) (Reader.flowWir limits model.build) model := by
  refine emitsField limits ?_
  rw [if_neg (by simp [hversion])]
  iterate 20 refine emitsField limits ?_
  exact emitsLast limits rfl

theorem absorbs_flowWir (build : BuildIdentity) :
    Absorbs (Writer.frameLimit limits) (Reader.flowWir limits build) (Writer.flowWir limits) := by
  refine AbsorbsAfter.start (absorbsField fun version ↦ ?_)
  split
  · exact AbsorbsAfter.rejected
  · iterate 21 refine absorbsField fun _ ↦ ?_
    exact AbsorbsAfter.done (by simp [Writer.flowWir])

/-- The reader takes the build identity from the header and accepts one version. -/
theorem flowWir_returns (h : Returns (Reader.flowWir limits build) model) :
    model.build = build ∧ model.version = flowWirVersion := by
  revert h
  refine Returns.elim_bind fun version ↦ ?_
  split
  · rintro ⟨source, source', h⟩
    cases h
  · rename_i hversion
    iterate 21 refine Returns.elim_bind fun _ ↦ ?_
    rintro ⟨source, source', h⟩
    cases h
    exact ⟨rfl, not_not.1 hversion⟩

end Wrela.FlowCodec
