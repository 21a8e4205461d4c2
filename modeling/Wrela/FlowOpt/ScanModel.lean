import Mathlib.Algebra.BigOperators.Group.List.Basic
import Wrela.FlowOpt.Compaction
import Wrela.Wire.Folds

/-!
# The resource scan

Before and after the pipeline the optimizer walks the whole model and charges what it finds against
the limits.  The walk is the list of its charges, in order; a meter runs them and stops at the first
that goes over a limit.
-/

namespace Wrela.FlowOpt

open List Wrela.Source Wrela.TestModel Wrela.Flow Wrela.Validation

/-! ## Charges -/

/-- What the walk asks of the meter. -/
inductive Charge where
  | visit
  | collection (length : ℕ)
  | payload (length : ℕ)
  | functions (length : ℕ)
  | proofs (length : ℕ)
  | tests (length : ℕ)
  | addBlocks (length : ℕ)
  | addInstructions (length : ℕ)
  | addValues (length : ℕ)
  | groupTests (length : ℕ)
  | groupText (length : ℕ)

def chargeText (text : String) : Charge := .payload (byteLength text)

/-- A collection and then its elements. -/
def scanAll {α : Type} (items : List α) (scan : α → List Charge) : List Charge :=
  .collection items.length :: items.flatMap scan

def scanImmediate (immediate : Immediate) : List Charge :=
  .visit ::
    match immediate with
    | .integer _ bytes | .bytes bytes => [.payload bytes.length]
    | _ => []

def scanPart (part : BoundedStringPart) : List Charge :=
  .visit ::
    match part with
    | .text value _ => [chargeText value]
    | _ => []

def scanOperation (operation : FlowOperation) : List Charge :=
  .visit ::
    match operation with
    | .immediate value => scanImmediate value
    | .makeAggregate _ fields | .call _ fields | .asyncCall _ fields _ | .taskStart _ _ fields =>
      [.collection fields.length]
    | .formatBoundedString _ parts => scanAll parts scanPart
    | _ => []

def scanTerminator (terminator : Terminator) : List Charge :=
  .visit ::
    match terminator with
    | .jump _ arguments | .return arguments | .tailCall _ arguments =>
      [.collection arguments.length]
    | .branch _ _ thenArguments _ elseArguments =>
      [.collection thenArguments.length, .collection elseArguments.length]
    | .switch _ cases _ defaultArguments =>
      scanAll cases (fun case ↦ [.visit, .collection case.arguments.length]) ++
        [.collection defaultArguments.length]
    | .suspend _ _ _ | .trap _ _ | .unreachable => []

def scanTypeKind : FlowTypeKind → List Charge
  | .tuple fields | .struct fields => [.collection fields.length]
  | .enum variants => scanAll variants fun variant ↦ [.visit, .collection variant.length]
  | .function parameters _ => [.collection parameters.length]
  | .opaqueTarget name => [chargeText name]
  | _ => []

def scanType (ty : FlowType) : List Charge :=
  .visit :: ty.name.toList.map chargeText ++ scanTypeKind ty.kind

def scanGlobal (global : FlowGlobal) : List Charge :=
  [.visit, chargeText global.name] ++ scanImmediate global.initializer

def scanInstruction (instruction : Instruction) : List Charge :=
  [.visit, .collection instruction.results.length] ++ scanOperation instruction.operation

def scanBlock (block : Block) : List Charge :=
  [.visit, .collection block.parameters.length, .addInstructions block.instructions.length] ++
    scanAll block.instructions scanInstruction ++ scanTerminator block.terminator

def scanValue (value : Value) : List Charge := .visit :: value.sourceName.toList.map chargeText

def scanFunction (function : FlowFunction) : List Charge :=
  [.visit, chargeText function.name, .collection function.parameters.length,
    .collection function.resultTypes.length, .collection function.proofs.length,
    .addValues function.values.length] ++
    scanAll function.values scanValue ++ [.addBlocks function.blocks.length] ++
    scanAll function.blocks scanBlock

def scanActor (actor : ActorPlan) : List Charge :=
  [.visit, chargeText actor.name, .collection actor.messageTypes.length,
    .collection actor.turnFunctions.length]

def scanTask (task : TaskPlan) : List Charge := [.visit, chargeText task.name]

def scanLine (line : String) : List Charge := [.visit, chargeText line]

def scanDevice (device : DevicePlan) : List Charge :=
  [.visit, chargeText device.name, chargeText device.targetBinding] ++
    scanAll device.requiredFeatures scanLine ++ scanAll device.optionalFeatures scanLine ++
    [.collection device.interruptFunctions.length]

def scanPool (pool : PoolPlan) : List Charge :=
  [.visit, chargeText pool.name, .collection pool.devices.length]

def scanRegion (region : RegionPlan) : List Charge := [.visit, chargeText region.name]

def scanProof (proof : Proof) : List Charge :=
  [.visit, chargeText proof.subject, .collection proof.sources.length,
    .collection proof.dependsOn.length] ++ scanAll proof.explanation scanLine

def scanTest (test : TestEntry) : List Charge := [.visit, chargeText test.name]

def chargeGroupText (text : String) : Charge := .groupText (byteLength text)

def rootName : ImageRoot → String
  | .generatedHarness harnessName => harnessName
  | .declared imageName _ => imageName

def scanCompiledTestGroup (group : FullImageTestGroup) : List Charge :=
  [.groupTests group.tests.length, .visit, chargeGroupText group.name,
    chargeGroupText (rootName group.root)] ++
    scanAll group.tests fun test ↦ [.visit, chargeGroupText test.descriptor.name]

/-- The charges of the whole walk. -/
def modelCharges (wir : FlowWir) : List Charge :=
  List.flatten
    [[.visit, chargeText wir.name, chargeText wir.build.target.name], scanAll wir.types scanType,
      scanAll wir.globals scanGlobal, [.functions wir.functions.length],
      scanAll wir.functions scanFunction, scanAll wir.actors scanActor, scanAll wir.tasks scanTask,
      scanAll wir.devices scanDevice, scanAll wir.pools scanPool, scanAll wir.regions scanRegion,
      scanAll wir.activations fun _ ↦ [.visit], [.proofs wir.proofs.length],
      scanAll wir.proofs scanProof, scanAll wir.checkpoints fun _ ↦ [.visit],
      [.tests wir.tests.length], scanAll wir.tests scanTest,
      wir.compiledTestGroup.toList.flatMap scanCompiledTestGroup,
      [.collection wir.startupOrder.length, .collection wir.shutdownOrder.length, .visit]]

structure ModelResources where
  functions : ℕ
  tests : ℕ
  blocks : ℕ
  instructions : ℕ
  values : ℕ
  proofs : ℕ
  modelEdges : ℕ
  payloadBytes : ℕ
  scanWork : ℕ

/-- The counters of a scan, with the work of the whole run and the text of the test group. -/
structure ModelMeter where
  resources : ModelResources
  groupPayloadBytes : ℕ
  work : ℕ

def addBounded (total amount : ℕ) (resource : String) (limit : UInt64) : Except OptimizeError ℕ :=
  if total + amount > limit.toNat then .error (.resourceLimit resource limit)
  else .ok (total + amount)

section Meter

variable (limits : OptimizationLimits)

/-- Charge work to the scan and to the run. -/
def ModelMeter.spend (meter : ModelMeter) (scanned amount : ℕ) : Except OptimizeError ModelMeter := do
  let work ← addBounded meter.work amount "optimizer work" limits.work
  .ok { meter with
    resources := { meter.resources with scanWork := meter.resources.scanWork + scanned }
    work }

def ModelMeter.payload (meter : ModelMeter) (length : ℕ) : Except OptimizeError ModelMeter := do
  let payloadBytes ←
    addBounded meter.resources.payloadBytes length "FlowWir payload bytes" limits.payloadBytes
  { meter with resources := { meter.resources with payloadBytes } }.spend limits length (length + 1)

def ModelMeter.charge (meter : ModelMeter) : Charge → Except OptimizeError ModelMeter
  | .visit => meter.spend limits 1 1
  | .collection length => do
    let modelEdges ←
      addBounded meter.resources.modelEdges length "FlowWir model edges" limits.modelEdges
    { meter with resources := { meter.resources with modelEdges } }.spend limits length (length + 1)
  | .payload length => meter.payload limits length
  | .functions length => do
    let functions ← addBounded 0 length "FlowWir functions" limits.functions.toUInt64
    .ok { meter with resources := { meter.resources with functions } }
  | .proofs length => do
    let proofs ← addBounded 0 length "FlowWir proofs" limits.proofs.toUInt64
    .ok { meter with resources := { meter.resources with proofs } }
  | .tests length => do
    let tests ← addBounded 0 length "FlowWir tests" limits.tests.toUInt64
    .ok { meter with resources := { meter.resources with tests } }
  | .addBlocks length => do
    let blocks ← addBounded meter.resources.blocks length "FlowWir blocks" limits.blocks
    .ok { meter with resources := { meter.resources with blocks } }
  | .addInstructions length => do
    let instructions ←
      addBounded meter.resources.instructions length "FlowWir instructions" limits.instructions
    .ok { meter with resources := { meter.resources with instructions } }
  | .addValues length => do
    let values ← addBounded meter.resources.values length "FlowWir values" limits.values
    .ok { meter with resources := { meter.resources with values } }
  | .groupTests length => do
    let _ ← addBounded 0 length "compiled test-group tests" limits.testPlan.tests.toUInt64
    .ok meter
  | .groupText length => do
    let groupPayloadBytes ← addBounded meter.groupPayloadBytes length
      "compiled test-group payload bytes" limits.testPlan.payloadBytes
    { meter with groupPayloadBytes }.payload limits length

/-- The scan of a model by a run that has done some work already. -/
def scanModel (wir : FlowWir) (work : ℕ) : Except OptimizeError ModelMeter :=
  (modelCharges wir).foldlM (ModelMeter.charge limits) ⟨⟨0, 0, 0, 0, 0, 0, 0, 0, 0⟩, 0, work⟩

end Meter

end Wrela.FlowOpt

/-!
## What the resource scan counts

The size of a model is the number of elements of all its collections and of the bytes of all its
texts and data.  The scan counts it but for the schedulers, the arguments of a commit, the texts of
an assertion, and the assertions of the planned tests.
-/

namespace Wrela.FlowOpt

open List Wrela.Source Wrela.TestModel Wrela.Flow Wrela.Validation

/-! ## Sizes -/

/-- Elements of collections, and bytes of texts and data. -/
abbrev Size := ℕ × ℕ

def elements {α : Type} (items : List α) : Size := (items.length, 0)

def bytes (length : ℕ) : Size := (0, length)

def text (value : String) : Size := bytes (byteLength value)

def texts (values : List String) : Size := (values.map text).sum

def totalSize {α : Type} (size : α → Size) (items : List α) : Size :=
  elements items + (items.map size).sum

def immediateSize : Immediate → Size
  | .integer _ value | .bytes value => bytes value.length
  | _ => 0

def partSize : BoundedStringPart → Size
  | .text value _ => text value
  | _ => 0

def failureSize (failure : AssertionFailureDescriptor) : Size :=
  text failure.expression + texts failure.message.toList

def operationSize : FlowOperation → Size
  | .immediate value => immediateSize value
  | .makeAggregate _ values | .call _ values | .asyncCall _ values _ | .taskStart _ _ values
  | .actorCommit _ values => elements values
  | .formatBoundedString _ parts => totalSize partSize parts
  | .assert _ failure => failureSize failure
  | _ => 0

def terminatorSize : Terminator → Size
  | .jump _ arguments | .return arguments | .tailCall _ arguments => elements arguments
  | .branch _ _ thenArguments _ elseArguments => elements thenArguments + elements elseArguments
  | .switch _ cases _ defaultArguments =>
    totalSize (fun case ↦ elements case.arguments) cases + elements defaultArguments
  | .suspend _ _ _ | .trap _ _ | .unreachable => 0

def typeKindSize : FlowTypeKind → Size
  | .tuple fields | .struct fields => elements fields
  | .enum variants => totalSize elements variants
  | .function parameters _ => elements parameters
  | .opaqueTarget name => text name
  | _ => 0

def blockSize (block : Block) : Size :=
  elements block.parameters +
    totalSize (fun instruction ↦ elements instruction.results + operationSize instruction.operation)
      block.instructions + terminatorSize block.terminator

def functionSize (function : FlowFunction) : Size :=
  text function.name + elements function.parameters + elements function.resultTypes +
    elements function.proofs + totalSize (fun value ↦ texts value.sourceName.toList) function.values +
    totalSize blockSize function.blocks

def deviceSize (device : DevicePlan) : Size :=
  text device.name + text device.targetBinding + totalSize text device.requiredFeatures +
    totalSize text device.optionalFeatures + elements device.interruptFunctions

def proofSize (proof : Proof) : Size :=
  text proof.subject + elements proof.sources + elements proof.dependsOn +
    totalSize text proof.explanation

def plannedAssertionSize (assertion : PlannedAssertionDescriptor) : Size :=
  text assertion.expression + texts assertion.message.toList

def plannedTestSize (test : ImageTest) : Size :=
  text test.descriptor.name + totalSize plannedAssertionSize test.assertions

def groupSize (group : FullImageTestGroup) : Size :=
  text group.name + text (rootName group.root) + totalSize plannedTestSize group.tests

/-- Every collection, text and payload of a model. -/
def modelSize (wir : FlowWir) : Size :=
  text wir.name + text wir.build.target.name +
    totalSize (fun ty ↦ texts ty.name.toList + typeKindSize ty.kind) wir.types +
    totalSize (fun global ↦ text global.name + immediateSize global.initializer) wir.globals +
    totalSize functionSize wir.functions +
    totalSize (fun actor ↦ text actor.name + elements actor.messageTypes +
      elements actor.turnFunctions) wir.actors +
    totalSize (fun task ↦ text task.name) wir.tasks + totalSize deviceSize wir.devices +
    totalSize (fun pool ↦ text pool.name + elements pool.devices) wir.pools +
    totalSize (fun region ↦ text region.name) wir.regions + elements wir.activations +
    totalSize (fun scheduler ↦ elements scheduler.actors + elements scheduler.tasks) wir.schedulers +
    totalSize proofSize wir.proofs + elements wir.checkpoints +
    totalSize (fun test ↦ text test.name) wir.tests +
    (wir.compiledTestGroup.toList.map groupSize).sum + elements wir.startupOrder +
    elements wir.shutdownOrder

def omittedByOperation : FlowOperation → Size
  | .actorCommit _ arguments => elements arguments
  | .assert _ failure => failureSize failure
  | _ => 0

def omittedByFunction (function : FlowFunction) : Size :=
  (function.blocks.map fun block ↦
    (block.instructions.map fun instruction ↦ omittedByOperation instruction.operation).sum).sum

def omittedByGroup (group : FullImageTestGroup) : Size :=
  (group.tests.map fun test ↦ totalSize plannedAssertionSize test.assertions).sum

def omittedSize (wir : FlowWir) : Size :=
  totalSize (fun scheduler ↦ elements scheduler.actors + elements scheduler.tasks) wir.schedulers +
    (wir.functions.map omittedByFunction).sum +
    (wir.compiledTestGroup.toList.map omittedByGroup).sum

def Charge.size : Charge → Size
  | .collection length => (length, 0)
  | .payload length | .groupText length => (0, length)
  | _ => 0

def chargedSize (charges : List Charge) : Size := (charges.map Charge.size).sum

@[simp]
theorem chargedSize_nil : chargedSize [] = 0 := rfl

@[simp]
theorem chargedSize_cons (charge : Charge) (charges : List Charge) :
    chargedSize (charge :: charges) = charge.size + chargedSize charges := rfl

@[simp]
theorem chargedSize_append (charges others : List Charge) :
    chargedSize (charges ++ others) = chargedSize charges + chargedSize others := by
  simp [chargedSize]

@[simp]
theorem size_chargeText (value : String) : (chargeText value).size = text value := rfl

@[simp]
theorem size_chargeGroupText (value : String) : (chargeGroupText value).size = text value := rfl

@[simp]
theorem size_collection {α : Type} (items : List α) :
    (Charge.collection items.length).size = elements items := rfl

@[simp]
theorem size_payload (length : ℕ) : (Charge.payload length).size = bytes length := rfl

@[simp]
theorem size_visit : Charge.visit.size = 0 := rfl

/-- The counters of single arenas are not part of the size. -/
theorem size_counters (length : ℕ) :
    (Charge.functions length).size = 0 ∧ (Charge.proofs length).size = 0 ∧
      (Charge.tests length).size = 0 ∧ (Charge.addBlocks length).size = 0 ∧
      (Charge.addInstructions length).size = 0 ∧ (Charge.addValues length).size = 0 ∧
      (Charge.groupTests length).size = 0 :=
  ⟨rfl, rfl, rfl, rfl, rfl, rfl, rfl⟩

@[simp]
theorem chargedSize_texts (values : List String) :
    chargedSize (values.map chargeText) = texts values := by
  simp [chargedSize, texts, Function.comp_def]

/-- Items whose charges count what they are, but for an omission, do so together. -/
theorem chargedSize_flatMap {α : Type} {scan : α → List Charge} {size omitted : α → Size}
    (h : ∀ item, chargedSize (scan item) + omitted item = size item) (items : List α) :
    chargedSize (items.flatMap scan) + (items.map omitted).sum = (items.map size).sum := by
  induction items with
  | nil => rfl
  | cons item items ih =>
    rw [flatMap_cons, chargedSize_append, map_cons, map_cons, sum_cons, sum_cons, ← h item, ← ih]
    abel

theorem chargedSize_scanAll {α : Type} {scan : α → List Charge} {size omitted : α → Size}
    (h : ∀ item, chargedSize (scan item) + omitted item = size item) (items : List α) :
    chargedSize (scanAll items scan) + (items.map omitted).sum = totalSize size items := by
  rw [scanAll, chargedSize_cons, add_assoc, chargedSize_flatMap h, size_collection, totalSize]

/-- Items whose charges count all they are. -/
theorem chargedSize_scanAll_eq {α : Type} {scan : α → List Charge} {size : α → Size}
    (h : ∀ item, chargedSize (scan item) = size item) (items : List α) :
    chargedSize (scanAll items scan) = totalSize size items := by
  rw [scanAll, chargedSize_cons, size_collection, totalSize]
  congr 1
  induction items with
  | nil => rfl
  | cons item items ih =>
    rw [flatMap_cons, chargedSize_append, map_cons, sum_cons, h item, ih]

@[simp]
theorem chargedSize_scanAll_visit {α : Type} (items : List α) :
    chargedSize (scanAll items fun _ ↦ [.visit]) = elements items := by
  rw [chargedSize_scanAll_eq (fun _ ↦ rfl)]
  simp [totalSize, elements]

/-! ## The walk, part by part -/

theorem chargedSize_scanImmediate (immediate : Immediate) :
    chargedSize (scanImmediate immediate) = immediateSize immediate := by
  cases immediate <;> simp [scanImmediate, immediateSize]

theorem chargedSize_scanPart (part : BoundedStringPart) :
    chargedSize (scanPart part) = partSize part := by
  cases part <;> simp [scanPart, partSize]

theorem chargedSize_scanOperation (operation : FlowOperation) :
    chargedSize (scanOperation operation) + omittedByOperation operation =
      operationSize operation := by
  cases operation with
  | formatBoundedString ty parts =>
    simp [scanOperation, omittedByOperation, operationSize,
      chargedSize_scanAll_eq chargedSize_scanPart]
  | _ => simp [scanOperation, omittedByOperation, operationSize, chargedSize_scanImmediate]

theorem chargedSize_scanTerminator (terminator : Terminator) :
    chargedSize (scanTerminator terminator) = terminatorSize terminator := by
  cases terminator with
  | switch value cases default defaultArguments =>
    have hcases : chargedSize (scanAll cases fun case ↦
        [.visit, .collection case.arguments.length]) =
          totalSize (fun case ↦ elements case.arguments) cases :=
      chargedSize_scanAll_eq (fun case ↦ by simp) cases
    simp [scanTerminator, terminatorSize, hcases]
  | _ => simp [scanTerminator, terminatorSize]

theorem chargedSize_scanTypeKind (kind : FlowTypeKind) :
    chargedSize (scanTypeKind kind) = typeKindSize kind := by
  cases kind with
  | enum variants => exact chargedSize_scanAll_eq (fun variant ↦ by simp) variants
  | _ => simp [scanTypeKind, typeKindSize]

theorem chargedSize_scanLine (line : String) : chargedSize (scanLine line) = text line := by
  simp [scanLine]

theorem chargedSize_scanInstruction (instruction : Instruction) :
    chargedSize (scanInstruction instruction) + omittedByOperation instruction.operation =
      elements instruction.results + operationSize instruction.operation := by
  rw [← chargedSize_scanOperation]
  simp [scanInstruction, add_assoc]

theorem chargedSize_scanBlock (block : Block) :
    chargedSize (scanBlock block) +
      (block.instructions.map fun instruction ↦ omittedByOperation instruction.operation).sum =
        blockSize block := by
  simp only [scanBlock, blockSize,
    ← chargedSize_scanAll chargedSize_scanInstruction block.instructions, chargedSize_append,
    chargedSize_cons, chargedSize_nil, size_visit, size_collection, chargedSize_scanTerminator,
    size_counters]
  abel

theorem chargedSize_scanValue (value : Value) :
    chargedSize (scanValue value) = texts value.sourceName.toList := by
  simp [scanValue]

theorem chargedSize_scanFunction (function : FlowFunction) :
    chargedSize (scanFunction function) + omittedByFunction function = functionSize function := by
  simp only [scanFunction, functionSize, omittedByFunction,
    ← chargedSize_scanAll chargedSize_scanBlock function.blocks,
    chargedSize_scanAll_eq chargedSize_scanValue function.values, chargedSize_append,
    chargedSize_cons, chargedSize_nil, size_visit, size_collection, size_chargeText, size_counters]
  abel

theorem chargedSize_scanCompiledTestGroup (group : FullImageTestGroup) :
    chargedSize (scanCompiledTestGroup group) + omittedByGroup group = groupSize group := by
  have htests : chargedSize (scanAll group.tests fun test ↦
      [.visit, chargeGroupText test.descriptor.name]) +
        (group.tests.map fun test ↦ totalSize plannedAssertionSize test.assertions).sum =
          totalSize plannedTestSize group.tests :=
    chargedSize_scanAll (fun test ↦ by simp [plannedTestSize]) group.tests
  simp only [scanCompiledTestGroup, groupSize, omittedByGroup, ← htests, chargedSize_append,
    chargedSize_cons, chargedSize_nil, size_visit, size_chargeGroupText, size_counters]
  abel

/-- The scan counts the whole model but for what it leaves out. -/
theorem chargedSize_modelCharges (wir : FlowWir) :
    chargedSize (modelCharges wir) + omittedSize wir = modelSize wir := by
  have htypes : chargedSize (scanAll wir.types scanType) =
      totalSize (fun ty ↦ texts ty.name.toList + typeKindSize ty.kind) wir.types :=
    chargedSize_scanAll_eq (fun ty ↦ by simp [scanType, chargedSize_scanTypeKind]) _
  have hglobals : chargedSize (scanAll wir.globals scanGlobal) = totalSize
      (fun global ↦ text global.name + immediateSize global.initializer) wir.globals :=
    chargedSize_scanAll_eq (fun global ↦ by simp [scanGlobal, chargedSize_scanImmediate]) _
  have hactors : chargedSize (scanAll wir.actors scanActor) = totalSize (fun actor ↦
      text actor.name + elements actor.messageTypes + elements actor.turnFunctions) wir.actors :=
    chargedSize_scanAll_eq (fun actor ↦ by simp [scanActor, add_assoc]) _
  have htasks : chargedSize (scanAll wir.tasks scanTask) =
      totalSize (fun task ↦ text task.name) wir.tasks :=
    chargedSize_scanAll_eq (fun task ↦ by simp [scanTask]) _
  have hdevices : chargedSize (scanAll wir.devices scanDevice) = totalSize deviceSize wir.devices :=
    chargedSize_scanAll_eq (fun device ↦ by
      simp [scanDevice, deviceSize, chargedSize_scanAll_eq chargedSize_scanLine, add_assoc]) _
  have hpools : chargedSize (scanAll wir.pools scanPool) =
      totalSize (fun pool ↦ text pool.name + elements pool.devices) wir.pools :=
    chargedSize_scanAll_eq (fun pool ↦ by simp [scanPool]) _
  have hregions : chargedSize (scanAll wir.regions scanRegion) =
      totalSize (fun region ↦ text region.name) wir.regions :=
    chargedSize_scanAll_eq (fun region ↦ by simp [scanRegion]) _
  have hproofs : chargedSize (scanAll wir.proofs scanProof) = totalSize proofSize wir.proofs :=
    chargedSize_scanAll_eq (fun proof ↦ by
      simp [scanProof, proofSize, chargedSize_scanAll_eq chargedSize_scanLine, add_assoc]) _
  have htests : chargedSize (scanAll wir.tests scanTest) =
      totalSize (fun test ↦ text test.name) wir.tests :=
    chargedSize_scanAll_eq (fun test ↦ by simp [scanTest]) _
  simp only [modelCharges, modelSize, omittedSize, flatten_cons, flatten_nil,
    chargedSize_append, chargedSize_cons, chargedSize_nil, size_visit, size_collection,
    size_chargeText, chargedSize_scanAll_visit, htypes, hglobals,
    ← chargedSize_scanAll chargedSize_scanFunction, hactors, htasks, hdevices, hpools, hregions,
    hproofs, htests, ← chargedSize_flatMap chargedSize_scanCompiledTestGroup, size_counters]
  abel

theorem size_add_eq_zero {size other : Size} : size + other = 0 ↔ size = 0 ∧ other = 0 := by
  simp only [Prod.ext_iff, Prod.fst_add, Prod.snd_add, Prod.fst_zero, Prod.snd_zero]
  omega

theorem sum_size_eq_zero {α : Type} {size : α → Size} {items : List α} :
    (items.map size).sum = 0 ↔ ∀ item ∈ items, size item = 0 := by
  induction items with
  | nil => simp
  | cons item items ih =>
    rw [map_cons, sum_cons, size_add_eq_zero, ih, forall_mem_cons]

theorem elements_eq_zero {α : Type} {items : List α} : elements items = 0 ↔ items = [] := by
  simp [elements]

theorem totalSize_eq_zero {α : Type} {size : α → Size} {items : List α} :
    totalSize size items = 0 ↔ items = [] := by
  rw [totalSize, size_add_eq_zero, elements_eq_zero]
  refine ⟨And.left, ?_⟩
  rintro rfl
  exact ⟨rfl, rfl⟩

theorem text_eq_zero {value : String} : text value = 0 ↔ value = "" := by
  have hbytes : byteLength value = 0 ↔ value = "" := by
    rw [byteLength, length_eq_zero_iff]
    exact ⟨fun h ↦ Wire.utf8Bytes_injective (h.trans rfl), fun h ↦ h ▸ rfl⟩
  rw [← hbytes, text, bytes, Prod.ext_iff]
  exact ⟨And.right, fun h ↦ ⟨rfl, h⟩⟩

/-- A commit without arguments, an assertion without texts, or any other operation. -/
def AccountedOperation : FlowOperation → Prop
  | .actorCommit _ arguments => arguments = []
  | .assert _ failure => failure.expression = "" ∧ ∀ message ∈ failure.message, message = ""
  | _ => True

/-- A model with nothing in it that the scan leaves out. -/
structure Accounted (wir : FlowWir) : Prop where
  schedulers : wir.schedulers = []
  operations : ∀ function ∈ wir.functions, ∀ block ∈ function.blocks,
    ∀ instruction ∈ block.instructions, AccountedOperation instruction.operation
  assertions : ∀ group ∈ wir.compiledTestGroup, ∀ test ∈ group.tests, test.assertions = []

theorem omittedByOperation_eq_zero {operation : FlowOperation} :
    omittedByOperation operation = 0 ↔ AccountedOperation operation := by
  cases operation with
  | actorCommit reservation arguments => exact elements_eq_zero
  | assert condition failure =>
    rw [omittedByOperation, failureSize, size_add_eq_zero, text_eq_zero, texts, sum_size_eq_zero]
    simp [AccountedOperation, text_eq_zero]
  | _ => exact iff_of_true rfl trivial

theorem omittedSize_eq_zero {wir : FlowWir} : omittedSize wir = 0 ↔ Accounted wir := by
  rw [omittedSize, size_add_eq_zero, size_add_eq_zero, totalSize_eq_zero]
  simp only [omittedByFunction, omittedByGroup, sum_size_eq_zero, omittedByOperation_eq_zero,
    totalSize_eq_zero, Option.mem_toList]
  exact ⟨fun ⟨⟨h1, h2⟩, h3⟩ ↦ ⟨h1, h2, h3⟩, fun ⟨h1, h2, h3⟩ ↦ ⟨⟨h1, h2⟩, h3⟩⟩

section Meter

variable {limits : OptimizationLimits}

theorem addBounded_eq_ok {total amount sum : ℕ} {resource : String} {limit : UInt64} :
    addBounded total amount resource limit = .ok sum ↔
      sum = total + amount ∧ total + amount ≤ limit.toNat := by
  unfold addBounded
  split
  · rename_i hover
    exact iff_of_false (fun h ↦ by cases h) fun h ↦ absurd h.2 (not_le.2 hover)
  · rename_i hunder
    rw [Except.ok.injEq, eq_comm, and_iff_left (not_lt.1 hunder)]

/-- What a meter has counted so far. -/
def ModelMeter.size (meter : ModelMeter) : Size :=
  (meter.resources.modelEdges, meter.resources.payloadBytes)

/-- What is counted stays within the limits. -/
def Within (limits : OptimizationLimits) (size : Size) : Prop :=
  size.1 ≤ limits.modelEdges.toNat ∧ size.2 ≤ limits.payloadBytes.toNat

theorem spend_size {meter meter' : ModelMeter} {scanned amount : ℕ}
    (h : meter.spend limits scanned amount = .ok meter') : meter'.size = meter.size := by
  obtain ⟨work, -, h⟩ := Checked.bind_eq_ok.1 h
  cases h
  rfl

theorem payload_size {meter meter' : ModelMeter} {length : ℕ}
    (h : meter.payload limits length = .ok meter') (hwithin : Within limits meter.size) :
    meter'.size = meter.size + bytes length ∧ Within limits meter'.size := by
  obtain ⟨payloadBytes, hpayload, h⟩ := Checked.bind_eq_ok.1 h
  obtain ⟨rfl, hle⟩ := addBounded_eq_ok.1 hpayload
  rw [spend_size h]
  exact ⟨rfl, hwithin.1, hle⟩

/-- A charge adds its size to what is counted, within the limits. -/
theorem charge_size {meter meter' : ModelMeter} {charge : Charge}
    (h : meter.charge limits charge = .ok meter') (hwithin : Within limits meter.size) :
    meter'.size = meter.size + charge.size ∧ Within limits meter'.size := by
  cases charge with
  | visit =>
    rw [spend_size h]
    exact ⟨(add_zero _).symm, hwithin⟩
  | collection length =>
    obtain ⟨modelEdges, hedges, h⟩ := Checked.bind_eq_ok.1 h
    obtain ⟨rfl, hle⟩ := addBounded_eq_ok.1 hedges
    rw [spend_size h]
    exact ⟨rfl, hle, hwithin.2⟩
  | payload length => exact payload_size h hwithin
  | groupText length =>
    obtain ⟨groupPayloadBytes, -, h⟩ := Checked.bind_eq_ok.1 h
    have hpayload := payload_size h hwithin
    exact hpayload
  | _ =>
    obtain ⟨count, -, h⟩ := Checked.bind_eq_ok.1 h
    cases h
    exact ⟨(add_zero _).symm, hwithin⟩

/-- A scan that ends has counted its charges, within the limits. -/
theorem scanModel_size {wir : FlowWir} {work : ℕ} {meter : ModelMeter}
    (h : scanModel limits wir work = .ok meter) :
    meter.size = chargedSize (modelCharges wir) ∧ Within limits meter.size := by
  refine Checked.foldlM_induction
    (fun done meter ↦ meter.size = chargedSize done ∧ Within limits meter.size)
    ⟨rfl, Nat.zero_le _, Nat.zero_le _⟩ ?_ h
  rintro done charge rest meter meter' - ⟨hsize, hwithin⟩ hcharge
  obtain ⟨hnext, hnextWithin⟩ := charge_size hcharge hwithin
  refine ⟨?_, hnextWithin⟩
  rw [hnext, hsize, chargedSize_append, chargedSize_cons, chargedSize_nil, add_zero]

/-- The scan counts the whole model just when the model has no scheduler, no argument of a commit,
no text of an assertion and no assertion of a planned test; such a model is refused when it is over
the limits. -/
theorem scanModel_exact_iff (limits : OptimizationLimits) (wir : FlowWir) (work : ℕ) :
    (∀ meter, scanModel limits wir work = .ok meter →
      ((meter.resources.modelEdges, meter.resources.payloadBytes) = modelSize wir ↔
        Accounted wir)) ∧
    (Accounted wir → ¬ Within limits (modelSize wir) →
      ∃ error, scanModel limits wir work = .error error) := by
  have hcounted := chargedSize_modelCharges wir
  constructor
  · intro meter hscan
    change meter.size = _ ↔ _
    rw [(scanModel_size hscan).1, ← omittedSize_eq_zero, ← hcounted, left_eq_add]
  · intro haccounted hover
    cases hscan : scanModel limits wir work with
    | error error => exact ⟨error, rfl⟩
    | ok meter =>
      obtain ⟨hsize, hwithin⟩ := scanModel_size hscan
      rw [omittedSize_eq_zero.2 haccounted, add_zero] at hcounted
      exact absurd (hcounted ▸ hsize ▸ hwithin) hover

end Meter

theorem scanModel_exact_iff_idle :
    ∃ meter, scanModel .standard idleImage 0 = .ok meter ∧
      (meter.resources.modelEdges, meter.resources.payloadBytes) = modelSize idleImage := by
  obtain ⟨meter, hscan⟩ : ∃ meter, scanModel .standard idleImage 0 = .ok meter := ⟨_, rfl⟩
  refine ⟨meter, hscan, ((scanModel_exact_iff .standard idleImage 0).1 meter hscan).2 ⟨rfl, ?_, ?_⟩⟩
  · intro function hfunction block hblock instruction hinstruction
    obtain rfl := mem_singleton.1 hfunction
    obtain rfl := mem_singleton.1 hblock
    cases hinstruction
  · intro group hgroup
    cases hgroup

set_option maxRecDepth 4096 in
/-- The scheduler of an accepted image with one actor is not counted. -/
theorem scanModel_unscheduled :
    checkWithLimits guardedImage .standard = .ok () ∧
      ∃ meter, scanModel .standard guardedImage 0 = .ok meter ∧
        meter.resources.modelEdges < (modelSize guardedImage).1 := by
  refine ⟨checkWithLimits_guardedImage, ?_⟩
  obtain ⟨meter, hscan⟩ : ∃ meter, scanModel .standard guardedImage 0 = .ok meter := ⟨_, rfl⟩
  refine ⟨meter, hscan, ?_⟩
  have hsize := congrArg Prod.fst (scanModel_size hscan).1
  have hcounted := congrArg Prod.fst (chargedSize_modelCharges guardedImage)
  have homitted : 0 < (omittedSize guardedImage).1 := by decide
  rw [Prod.fst_add] at hcounted
  change meter.resources.modelEdges = _ at hsize
  omega

end Wrela.FlowOpt
