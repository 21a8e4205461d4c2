import Wrela.Validation.Message

/-!
# Plans of the image

The closed-world part of a module: actors, tasks, devices, pools and regions with the functions
that play their roles, the memory they account for, and the tests compiled into the image.
-/

namespace Wrela.Validation

open Wrela.Source Wrela.TestModel Wrela.Flow

variable (module : FlowWir)

/-- The functions with a role, in order. -/
def functionsWithRole (role : FunctionRole) : List FunctionId :=
  (module.functions.filter (·.role == role)).map FlowFunction.id

def validateImageEntryRole : Report :=
  reportIf
    ((module.imageEntry.lookup module.functions).any (·.role != .imageEntry) ||
      (functionsWithRole module .imageEntry).length != 1)
    (.invalidRecord "image entry role" module.imageEntry.val)

def validateActor (actor : ActorPlan) : Report :=
  reportIf (isBlank actor.name || actor.mailboxCapacity == 0)
    (.invalidRecord "actor" actor.id.val) ++
  requireId "actor state type" actor.stateType.val module.types.length ++
  (actor.messageTypes.flatMap fun ty ↦ requireId "actor message type" ty.val module.types.length) ++
  requireCanonicalIds "actor message types" actor.id.val (actor.messageTypes.map Id.val) ++
  (actor.turnFunctions.flatMap fun function ↦
    requireId "actor turn function" function.val module.functions.length) ++
  requireCanonicalIds "actor turn functions" actor.id.val (actor.turnFunctions.map Id.val) ++
  reportIf
    (!(actor.id.index < module.actors.length &&
      actor.turnFunctions == functionsWithRole module (.actorTurn actor.id)))
    (.invalidRecord "actor turn set" actor.id.val) ++
  actor.supervisor.toList.flatMap fun supervisor ↦
    requireId "actor supervisor" supervisor.val module.actors.length

def validateTask (task : TaskPlan) : Report :=
  reportIf (isBlank task.name || task.slots == 0) (.invalidRecord "task" task.id.val) ++
  requireId "task entry" task.entry.val module.functions.length ++
  reportIf
    ((task.entry.lookup module.functions).any (·.role != .taskEntry task.id) ||
      !(task.id.index < module.tasks.length &&
        functionsWithRole module (.taskEntry task.id) == [task.entry]))
    (.invalidRecord "task entry role" task.id.val) ++
  task.supervisor.toList.flatMap fun supervisor ↦
    requireId "task supervisor" supervisor.val module.actors.length

def validateDevice (device : DevicePlan) : Report :=
  reportIf
    (isBlank device.name || isBlank device.targetBinding || device.resetTimeoutNs == 0 ||
      device.interruptFunctions.length > 1 || !sortedUniqueStrings device.requiredFeatures ||
      !sortedUniqueStrings device.optionalFeatures ||
      device.requiredFeatures.any device.optionalFeatures.contains)
    (.invalidRecord "device" device.id.val) ++
  requireId "device owner" device.owner.val module.actors.length ++
  (device.interruptFunctions.flatMap fun function ↦
    requireId "device interrupt function" function.val module.functions.length) ++
  requireCanonicalIds "device interrupt functions" device.id.val
    (device.interruptFunctions.map Id.val) ++
  reportIf
    (!(device.id.index < module.devices.length &&
      device.interruptFunctions == functionsWithRole module (.isr device.id)))
    (.invalidRecord "device interrupt set" device.id.val)

def isPowerOfTwo (value : UInt64) : Bool := value != 0 && (value &&& (value - 1)) == 0

def validatePool (pool : PoolPlan) : Report :=
  reportIf (isBlank pool.name || pool.capacity == 0 || !isPowerOfTwo pool.alignment)
    (.invalidRecord "pool" pool.id.val) ++
  requireId "pool element type" pool.elementType.val module.types.length ++
  pool.devices.flatMap fun device ↦ requireId "pool device" device.val module.devices.length

def validateRegion (region : RegionPlan) : Report :=
  reportIf
    (isBlank region.name || region.capacityBytes == 0 || !isPowerOfTwo region.alignment ||
      !validSourceSpan module region.source ||
      !(region.capacityProof.lookup module.proofs).any (·.kind == .capacityBound))
    (.invalidRecord "region" region.id.val) ++
  requireId "region capacity proof" region.capacityProof.val module.proofs.length ++
  (match region.class_ with
    | .pool pool =>
      requireId "region class pool" pool.val module.pools.length ++
        reportIf (region.owner != .pool pool) (.invalidRecord "pool region owner" region.id.val)
    | _ => []) ++
  (region.resetFunction.toList.flatMap fun function ↦
    requireId "region reset function" function.val module.functions.length) ++
  validateOwner module region.owner

/-! ## Capacity closure -/

/-- A region at its own index with a capacity proof of the given bound. -/
def regionAt (index : ℕ) (region : RegionPlan) (class_ : RegionClass) (bytes : ℕ)
    (owner : PlanOwner) (bound : UInt64) (sources : Proof → Bool) : Bool :=
  region.id.index == index && region.class_ == class_ && region.capacityBytes.toNat == bytes &&
    region.alignment == 8 && region.owner == owner &&
    (region.capacityProof.lookup module.proofs).any fun proof ↦
      proof.id == region.capacityProof && proof.kind == .capacityBound &&
        proof.bound == some bound && sources proof

/-- The one source of a mailbox proof lies within the region's. -/
def mailboxSources (region : RegionPlan) (proof : Proof) : Bool :=
  match proof.sources with
  | [source] =>
    source.file == region.source.file && source.range.start ≥ region.source.range.start &&
      source.range.stop ≤ region.source.range.stop
  | _ => false

def mailboxRegionValid (index : ℕ) (actor : ActorPlan) : Bool :=
  (module.regions[index]?).any fun region ↦
    joinedNameMatches region.name actor.name ".mailbox" &&
      regionAt module index region .image (actor.mailboxCapacity.toNat * 16) (.actor actor.id)
        actor.mailboxCapacity.toUInt64 (mailboxSources region)

def stateRegionValid (index : ℕ) (actor : ActorPlan) : Bool :=
  (module.regions[index]?).any fun region ↦
    regionAt module index region .image 8 (.actor actor.id) 1 fun proof ↦
      proof.sources == [region.source] && proof.dependsOn.isEmpty

/-- The frame of the largest turn of an actor. -/
def turnBytes (actor : ActorPlan) : ℕ :=
  (actor.turnFunctions.filterMap fun function ↦
    (function.lookup module.functions).map fun function ↦ max function.frameBound.toNat 1).foldl max
    (if actor.turnFunctions.isEmpty then 0 else 1)

def turnRegionValid (index : ℕ) (actor : ActorPlan) : Bool :=
  (module.regions[index]?).any fun region ↦
    joinedNameMatches region.name actor.name ".turn-frame" &&
      regionAt module index region .taskFrame (turnBytes module actor) (.actor actor.id) 1 fun proof ↦
        proof.sources == [region.source]

/-- What the regions before a position amount to. -/
structure RegionLayout where
  valid : Bool
  cursor : ℕ
  bytes : ℕ

/-- The mailbox, state and turn-frame regions of one actor. -/
def layActor (layout : RegionLayout) (actor : ActorPlan) : RegionLayout :=
  let mailbox := layout.cursor
  let hasState := (module.regions[mailbox + 1]?).any fun region ↦
    joinedNameMatches region.name actor.name ".state"
  let turn := if hasState then mailbox + 2 else mailbox + 1
  let hasTurn := !actor.turnFunctions.isEmpty
  { valid := layout.valid &&
      actor.turnFunctions.all (fun function ↦ (function.lookup module.functions).isSome) &&
      mailboxRegionValid module mailbox actor && (!hasTurn || turnRegionValid module turn actor) &&
      (!hasState || stateRegionValid module (mailbox + 1) actor)
    cursor := if hasTurn then turn + 1 else turn
    bytes := layout.bytes + actor.mailboxCapacity.toNat * 16 + (if hasState then 8 else 0) +
      turnBytes module actor }

/-- The frame bytes of all slots of a task. -/
def taskBytes (task : TaskPlan) : Option ℕ :=
  (task.entry.lookup module.functions).map fun function ↦
    max function.frameBound.toNat 1 * task.slots.toNat

def layTask (layout : RegionLayout) (task : TaskPlan) : RegionLayout :=
  { valid := layout.valid && (taskBytes module task).any fun bytes ↦
      (module.regions[layout.cursor]?).any fun region ↦
        joinedNameMatches region.name task.name ".frame" &&
          regionAt module layout.cursor region .taskFrame bytes (.task task.id)
            task.slots.toUInt64 fun proof ↦ proof.sources == [region.source]
    cursor := layout.cursor + 1
    bytes := layout.bytes + (taskBytes module task).getD 0 }

def stateRegionCount : ℕ :=
  (module.actors.filter fun actor ↦ module.regions.any fun region ↦
    region.owner == .actor actor.id && joinedNameMatches region.name actor.name ".state").length

def baseRegionCount : ℕ :=
  module.actors.length + stateRegionCount module +
    (module.actors.filter fun actor ↦ !actor.turnFunctions.isEmpty).length + module.tasks.length

def baseLayout : RegionLayout :=
  module.tasks.foldl (layTask module) (module.actors.foldl (layActor module) ⟨true, 0, 0⟩)

def activationBytes : ℕ :=
  (module.activations.map fun plan ↦ plan.frameBytes.toNat * plan.maximumLive.toNat).sum

def activationRegionsValid : Bool :=
  module.activations.zipIdx.all fun (plan, index) ↦
    plan.region.index == baseRegionCount module + index

def proofsOfKind (kind : ProofKind) : List Proof := module.proofs.filter (·.kind == kind)

/-- The proof that closes the base regions. -/
def baseClosure (final : Proof) : Option Proof :=
  if module.activations.isEmpty then some final
  else
    (final.dependsOn.head?.bind fun id ↦ id.lookup module.proofs).filter fun proof ↦
      proof.kind == .capacityBound && proof.bound.map UInt64.toNat == some (baseLayout module).bytes

def closureDependencies (wait supervision : Proof) : List UInt32 :=
  ([0, 1, wait.id.val, supervision.id.val] ++
    (module.regions.take (baseRegionCount module)).map (·.capacityProof.val)).insertionSort (· ≤ ·)

def entryHoldsClosure (wait supervision final base : Proof) : Bool :=
  (module.imageEntry.lookup module.functions).any fun entry ↦
    entry.proofs.contains final.id && entry.proofs.contains base.id &&
      entry.proofs.contains wait.id && entry.proofs.contains supervision.id &&
      (module.regions.take (baseRegionCount module)).all fun region ↦
        entry.proofs.contains region.capacityProof

def mailboxSource (actor : ActorPlan) : Option Span :=
  module.regions.findSome? fun region ↦
    if region.owner == .actor actor.id && joinedNameMatches region.name actor.name ".mailbox" then
      some region.source else none

def closureSourcesValid (base : Proof) : Bool :=
  base.sources.length == module.actors.length + 1 &&
    (module.proofs.head?.bind fun proof ↦ proof.sources.head?).any
      (fun root ↦ base.sources.head? == some root) &&
    module.actors.zipIdx.all fun (actor, index) ↦
      base.sources[index + 1]? == mailboxSource module actor

def activationClosureValid (final : Proof) : Bool :=
  module.activations.isEmpty ||
    (final.dependsOn.length == module.activations.length + 1 &&
      final.sources.length == module.activations.length &&
      module.activations.zipIdx.all fun (plan, index) ↦
        final.dependsOn[index + 1]? == some plan.capacityProof &&
          final.sources[index]? == some plan.source)

def closureProofsValid (wait supervision final : Proof) : Bool :=
  let total := (baseLayout module).bytes + activationBytes module
  (module.proofs[0]?).any (fun proof ↦ proof.id == ⟨0⟩ && proof.kind == .typeChecked) &&
    (module.proofs[1]?).any (fun proof ↦ proof.id == ⟨1⟩ && proof.kind == .effectsAllowed) &&
    final.bound.map UInt64.toNat == some total &&
    (baseClosure module final).any (fun base ↦
      closureDependencies module wait supervision == base.dependsOn.map Id.val &&
        entryHoldsClosure module wait supervision final base && closureSourcesValid module base) &&
    activationClosureValid module final

def actorCapacityClosed : Bool :=
  let layout := baseLayout module
  let total := layout.bytes + activationBytes module
  module.regions.length == baseRegionCount module + module.activations.length && layout.valid &&
    activationRegionsValid module && total == module.staticBytes.toNat &&
    total == module.peakBytes.toNat &&
    match proofsOfKind module .waitGraphAcyclic, proofsOfKind module .supervisionComplete,
        proofsOfKind module .imageClosed with
    | [wait], [supervision], [final] => closureProofsValid module wait supervision final
    | _, _, _ => false

/-- The list of dependencies the closure check builds, once it finds the proofs it compares. -/
def closureScratch : ℕ :=
  if module.actors.isEmpty || (proofsOfKind module .waitGraphAcyclic).isEmpty ||
      (proofsOfKind module .supervisionComplete).isEmpty then 0
  else if ((proofsOfKind module .imageClosed).getLast?.bind (baseClosure module)).isSome then
    baseRegionCount module + 4
  else 0

def validateActorCapacityContract : Report :=
  if module.actors.isEmpty then
    reportIf (!module.tasks.isEmpty || !module.activations.isEmpty)
      (.invalidRecord "actor capacity closure" 0)
  else reportIf (!actorCapacityClosed module) (.invalidRecord "actor capacity closure" 0)

/-- The supervisors of an actor end without coming back to it. -/
def ancestryValid (actor : ActorId) : ℕ → Option ActorId → Bool
  | _, none => true
  | 0, some _ => false
  | steps + 1, some parent =>
    parent != actor &&
      match parent.lookup module.actors with
      | none => false
      | some record => ancestryValid actor steps record.supervisor

def ownedSource (owner : PlanOwner) : Option Span :=
  (module.regions.find? (·.owner == owner)).map RegionPlan.source

def supervisionSources : List Span :=
  module.actors.filterMap (fun actor ↦ ownedSource module (.actor actor.id)) ++
    module.tasks.filterMap fun task ↦ ownedSource module (.task task.id)

def validateActorSupervision (actor : ActorPlan) : Report :=
  reportIf
    (!ancestryValid module actor.id module.actors.length actor.supervisor ||
      (ownedSource module (.actor actor.id)).isNone)
    (.invalidRecord "actor supervision topology" actor.id.val)

def validateTaskSupervision (task : TaskPlan) : Report :=
  reportIf
    (!(task.supervisor.any (fun actor ↦ (actor.lookup module.actors).any (·.id == actor)) &&
      (task.entry.lookup module.functions).any (·.role == .taskEntry task.id) &&
      (ownedSource module (.task task.id)).isSome))
    (.invalidRecord "actor supervision topology" task.id.val)

/-- The closure proof depends on the supervision proof, directly or through one proof. -/
def closureReaches (proof : Proof) : Bool :=
  (proofsOfKind module .imageClosed).getLast?.any fun closed ↦
    closed.dependsOn.contains proof.id || closed.dependsOn.any fun dependency ↦
      (dependency.lookup module.proofs).any (·.dependsOn.contains proof.id)

def supervisionExplanation : String :=
  "the static actor parent graph is acyclic and every static @task is owned by exactly its " ++
    "declaring actor; restart policy and failure delivery are not claimed"

def supervisionProofValid (proof : Proof) : Bool :=
  proof.subject == "complete static actor/task parent topology" &&
    proof.bound.map UInt64.toNat == some (module.actors.length + module.tasks.length) &&
    proof.dependsOn == [⟨0⟩] && proof.sources == supervisionSources module &&
    proof.explanation == [supervisionExplanation] &&
    (module.imageEntry.lookup module.functions).any (·.proofs.contains proof.id) &&
    closureReaches module proof

def validateStaticSupervisionContract : Report :=
  if module.actors.isEmpty then []
  else
    match proofsOfKind module .supervisionComplete with
    | [] => [.invalidRecord "actor supervision proof" 0]
    | proof :: repeated =>
      (repeated.flatMap fun proof ↦ [.invalidRecord "actor supervision proof" proof.id.val]) ++
        module.actors.flatMap (validateActorSupervision module) ++
        module.tasks.flatMap (validateTaskSupervision module) ++
        reportIf (!supervisionProofValid module proof)
          (.invalidRecord "actor supervision proof" proof.id.val)

def validateProof (proof : Proof) : Report :=
  reportIf
    (isBlank proof.subject || proof.explanation.isEmpty || proof.explanation.any isBlank ||
      proof.sources.any (!validSourceSpan module ·) ||
      proof.dependsOn.any (·.val ≥ proof.id.val))
    (.invalidRecord "proof" proof.id.val) ++
  (proof.dependsOn.flatMap fun dependency ↦
    requireId "proof dependency" dependency.val module.proofs.length) ++
  requireCanonicalIds "proof dependencies" proof.id.val (proof.dependsOn.map Id.val)

def validateCheckpoint (checkpoint : Checkpoint) : Report :=
  requireId "checkpoint function" checkpoint.function.val module.functions.length ++
  reportIf (!validSourceSpan module checkpoint.source)
    (.invalidRecord "checkpoint source" checkpoint.id.val)

def validateTest (test : TestEntry) : Report :=
  requireId "test function" test.function.val module.functions.length ++
  reportIf (isBlank test.name || test.timeoutNs == 0 || !validSourceSpan module test.source)
    (.invalidRecord "test" test.id.val) ++
  reportIf ((test.function.lookup module.functions).any (·.role != .test))
    (.invalidRecord "test function role" test.id.val)

def validateTestFunctionSet : Report :=
  reportIf
    (!(decide (module.tests.map TestEntry.function).Nodup &&
      (functionsWithRole module .test).all (module.tests.map TestEntry.function).contains))
    (.invalidRecord "test function set" 0)

def isGeneratedTestHarness : FunctionOrigin → Bool
  | .generatedTestHarness _ _ => true
  | _ => false

def isGeneratedImageEntry : FunctionOrigin → Bool
  | .generatedImageEntry _ _ => true
  | _ => false

def entryOrigin : Option FunctionOrigin :=
  (module.imageEntry.lookup module.functions).map FlowFunction.origin

/-- A test of the module is the planned test it was compiled from. -/
def testMatchesPlan (localTest : TestEntry) (planned : ImageTest) : Bool :=
  match planned.invocation with
  | .generatedFunction functionKey =>
    localTest.planId == planned.descriptor.id.val &&
      localTest.functionKey == functionKey.digest && localTest.name == planned.descriptor.name &&
      localTest.kind == .integration && planned.descriptor.kind == .integrationImage &&
      some localTest.source == planned.descriptor.source &&
      localTest.timeoutNs == planned.descriptor.timeoutNs
  | .declaredScenario => false

def groupMatchesModule (group : FullImageTestGroup) : Bool :=
  match group.root with
  | .generatedHarness harnessName =>
    module.name == harnessName &&
      (entryOrigin module).any (fun origin ↦
        match origin with
        | .generatedTestHarness _ actual => actual == group.id.val
        | _ => false) &&
      module.tests.length == group.tests.length &&
      (module.tests.zip group.tests).all fun (localTest, planned) ↦
        testMatchesPlan localTest planned
  | .declared imageName _ =>
    module.name == imageName && module.tests.isEmpty &&
      (entryOrigin module).any isGeneratedImageEntry

def compiledTestGroupMatches (limits : TestPlanLimits) : Except ValidationFailure Bool :=
  match module.compiledTestGroup with
  | none =>
    .ok (module.tests.isEmpty && !(entryOrigin module).any isGeneratedTestHarness)
  | some group =>
    match group.validateCompiledBindingWithLimits limits with
    | .error (.resourceLimit resource limit) => .error (.resourceLimit resource limit)
    | .error _ => .ok false
    | .ok () => .ok (groupMatchesModule module group)

def schedulerExact : Bool :=
  if module.actors.isEmpty && module.tasks.isEmpty then module.schedulers.isEmpty
  else
    match module.schedulers with
    | [scheduler] =>
      scheduler.core == 0 && scheduler.actors == module.actors.map ActorPlan.id &&
        scheduler.tasks == module.tasks.map TaskPlan.id
    | _ => false

def validateSchedulerOwnership : Report :=
  reportIf (!schedulerExact module)
    (.invalidRecord "scheduler ownership partition" ((module.schedulers.head?).elim 0 (·.core)))

/-- The owners of an image in startup order. -/
def imageOwners : List PlanOwner :=
  .runtime :: (module.actors.map (.actor ·.id) ++ module.tasks.map (.task ·.id) ++
    module.devices.map (.device ·.id) ++ module.pools.map (.pool ·.id))

def validateImageOrder (order expected : List PlanOwner) (kind : String) : Report :=
  ((order.take expected.length).flatMap (validateOwner module)) ++
    reportIf (order != expected) (.invalidRecord kind 0)

end Wrela.Validation
