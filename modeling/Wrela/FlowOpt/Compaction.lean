import Wrela.Validation.Module

/-!
# Requests and reports

What is asked of the optimizer, what it may refuse with, and the report it gives of what it did.
-/

namespace Wrela.FlowOpt

open Wrela.Source Wrela.BuildModel Wrela.TestModel Wrela.Flow Wrela.Validation

/-! ## Profiles -/

structure PipelineIdentity where
  name : String
  revision : UInt32
  implementation : Sha256Digest

structure OptimizationProfile where
  level : OptimizationLevel
  pipeline : PipelineIdentity
  verifyAfterEachPass : Bool
  maximumIterations : UInt32
  maximumIrGrowthPercent : UInt32

inductive OptimizeError where
  | unsupportedOptimizationLevel (level : OptimizationLevel)
  | invalidProfile (reason : String)
  | invalidLimits
  | resourceLimit (resource : String) (limit : UInt64)
  | invalidReport (reason : String)
  | invalidOutput (errors : Report)
  | proofViolation (pass detail : String)
deriving DecidableEq

def proofViolation {α : Type} (pass detail : String) : Except OptimizeError α :=
  .error (.proofViolation pass detail)

/-- Go on when the condition holds. -/
def ensure (condition : Bool) (error : OptimizeError) : Except OptimizeError Unit :=
  if condition then .ok () else .error error

@[simp]
theorem ensure_eq_ok : ensure condition error = .ok () ↔ condition = true := by
  cases condition <;> simp [ensure]

def canonicalPipelineName : String := "canonical-flow-opt-0.1"

def canonicalPipelineRevision : UInt32 := 3

def OptimizationProfile.validate (profile : OptimizationProfile) : Except OptimizeError Unit := do
  ensure (byteLength profile.pipeline.name ≤ 4096)
    (.invalidProfile "pipeline name exceeds the hard ceiling")
  ensure (!isBlank profile.pipeline.name) (.invalidProfile "pipeline name is empty")
  ensure (profile.pipeline.revision != 0) (.invalidProfile "pipeline revision must be nonzero")
  ensure (!profile.pipeline.implementation.bytes.all (· == 0))
    (.invalidProfile "pipeline implementation digest is zero")
  ensure (profile.maximumIterations != 0 && profile.maximumIterations ≤ 1000000)
    (.invalidProfile "maximum iterations must be nonzero")
  ensure (profile.maximumIrGrowthPercent ≤ 10000)
    (.invalidProfile "maximum IR growth percent exceeds the hard ceiling")

/-- The iterations and the growth a level allows. -/
def canonicalParameters : OptimizationLevel → UInt32 × UInt32
  | .none => (1, 0)
  | .development => (8, 25)
  | .performance => (32, 100)
  | .size => (32, 0)

def validateCanonicalProfile (profile : OptimizationProfile) : Except OptimizeError Unit := do
  profile.validate
  ensure
    (profile.pipeline.name == canonicalPipelineName &&
      profile.pipeline.revision == canonicalPipelineRevision)
    (.invalidProfile "optimization requires the canonical pipeline identity")
  ensure
    (profile.verifyAfterEachPass &&
      (profile.maximumIterations, profile.maximumIrGrowthPercent) ==
        canonicalParameters profile.level)
    (.invalidProfile "optimization policy parameters are noncanonical")

def validateTransformProfile (profile : OptimizationProfile) : Except OptimizeError Unit := do
  validateCanonicalProfile profile
  ensure (profile.level != .none) (.unsupportedOptimizationLevel profile.level)

structure OptimizationLimits where
  functions : UInt32
  tests : UInt32
  blocks : UInt64
  instructions : UInt64
  values : UInt64
  proofs : UInt32
  modelEdges : UInt64
  payloadBytes : UInt64
  passes : UInt32
  decisions : UInt64
  reportBytes : UInt64
  work : UInt64
  validationWork : UInt64
  validationErrors : UInt32
  testPlan : TestPlanLimits

def OptimizationLimits.standard : OptimizationLimits where
  functions := 1000000
  tests := 1000000
  blocks := 16000000
  instructions := 256000000
  values := 256000000
  proofs := 64000000
  modelEdges := 1000000000
  payloadBytes := 4 * 1024 * 1024 * 1024
  passes := 1024
  decisions := 64000000
  reportBytes := 1024 * 1024 * 1024
  work := 1100000000000
  validationWork := 1100000000000
  validationErrors := 100000
  testPlan := .standard

def testPlanLimitsWithin (limits hard : TestPlanLimits) : Bool :=
  limits.tests ≤ hard.tests && limits.groups ≤ hard.groups && limits.scenarios ≤ hard.scenarios &&
    limits.scenarioSteps ≤ hard.scenarioSteps && limits.payloadBytes ≤ hard.payloadBytes &&
    limits.reportBytes ≤ hard.reportBytes && limits.eventsPerGroup ≤ hard.eventsPerGroup &&
    limits.outputBytesPerGroup ≤ hard.outputBytesPerGroup &&
    limits.executionTimeoutNsPerGroup ≤ hard.executionTimeoutNsPerGroup

/-- Nonzero, and at most the ceiling. -/
def OptimizationLimits.isValid (limits : OptimizationLimits) : Bool :=
  let hard := standard
  (limits.functions != 0 && limits.functions ≤ hard.functions) &&
    (limits.tests != 0 && limits.tests ≤ hard.tests) &&
    (limits.blocks != 0 && limits.blocks ≤ hard.blocks) &&
    (limits.instructions != 0 && limits.instructions ≤ hard.instructions) &&
    (limits.values != 0 && limits.values ≤ hard.values) &&
    (limits.proofs != 0 && limits.proofs ≤ hard.proofs) &&
    (limits.modelEdges != 0 && limits.modelEdges ≤ hard.modelEdges) &&
    (limits.payloadBytes != 0 && limits.payloadBytes ≤ hard.payloadBytes) &&
    (limits.passes != 0 && limits.passes ≤ hard.passes) &&
    (limits.decisions != 0 && limits.decisions ≤ hard.decisions) &&
    (limits.reportBytes != 0 && limits.reportBytes ≤ hard.reportBytes) &&
    (limits.work != 0 && limits.work ≤ hard.work) &&
    (limits.validationWork != 0 && limits.validationWork ≤ hard.validationWork) &&
    (limits.validationErrors != 0 && limits.validationErrors ≤ hard.validationErrors) &&
    limits.testPlan.isValid && testPlanLimitsWithin limits.testPlan hard.testPlan

def flowValidationLimits (limits : OptimizationLimits) : ValidationLimits where
  arenaRecords := min limits.modelEdges 0xffffffff
  modelEdges := limits.modelEdges
  payloadBytes := limits.payloadBytes
  validationWork := limits.validationWork
  errors := limits.validationErrors
  testPlan := limits.testPlan

def mapValidationFailure : ValidationFailure → OptimizeError
  | .invalidLimits => .invalidLimits
  | .resourceLimit resource limit => .resourceLimit resource limit
  | .invalid errors => .invalidOutput errors

inductive DecisionKind where
  | removed | folded | inlined | coalesced | reordered | retained
deriving DecidableEq

structure OptimizationDecision where
  pass : String
  subject : String
  kind : DecisionKind
  justification : String
  reliedOn : List ProofId
deriving DecidableEq

structure PassStatistics where
  pass : String
  iterations : UInt32
  changed : Bool
  instructionsBefore : ℕ
  instructionsAfter : ℕ
  testEntriesBefore : ℕ
  testEntriesAfter : ℕ
  testTablePreserved : Bool

structure OptimizationReport where
  profile : OptimizationProfile
  passes : List PassStatistics
  decisions : List OptimizationDecision

structure OptimizationRequest where
  input : ValidatedFlowWir
  profile : OptimizationProfile
  limits : OptimizationLimits

/-- What the optimizer hands on: a validated module with the report of how it came about. -/
structure OptimizedFlowWir where
  wir : ValidatedFlowWir
  report : OptimizationReport

def subject (function : FunctionId) (kind : Char) (id : UInt32) : String :=
  "f" ++ toString function.val.toNat ++ ":" ++ kind.toString ++ toString id.toNat

def instructionSubject (function : FunctionId) (instruction : InstructionId) : String :=
  subject function 'i' instruction.val

def blockSubject (function : FunctionId) (block : BlockId) : String := subject function 'b' block.val

end Wrela.FlowOpt

/-!
## Recording decisions

Each pass records what it removes, folds or retains.  The sink that takes the decisions checks their
number and the bytes of the report they will be part of.
-/

namespace Wrela.FlowOpt

open Wrela.Source Wrela.BuildModel Wrela.Flow

def constantFoldPass : String := "scalar-constant-fold-v1"
def controlSimplifyPass : String := "constant-control-flow-v1"
def unreachablePass : String := "unreachable-block-elimination-v1"
def provenTrueCheckPass : String := "proven-true-check-elimination-v1"
def deadPurePass : String := "dead-pure-instruction-elimination-v1"

def pipelinePasses : OptimizationLevel → Except OptimizeError (List String)
  | .development =>
    .ok [constantFoldPass, controlSimplifyPass, unreachablePass, deadPurePass]
  | .performance | .size =>
    .ok [constantFoldPass, controlSimplifyPass, unreachablePass, provenTrueCheckPass, deadPurePass]
  | .none => .error (.unsupportedOptimizationLevel .none)

structure DecisionSink where
  decisions : List OptimizationDecision
  reportBytes : ℕ

def ensureReportBytes (bytes : ℕ) (limits : OptimizationLimits) : Except OptimizeError Unit :=
  ensure (bytes ≤ limits.reportBytes.toNat)
    (.resourceLimit "optimization report bytes" limits.reportBytes)

def DecisionSink.new (profile : OptimizationProfile) (limits : OptimizationLimits) :
    Except OptimizeError DecisionSink := do
  let passes ← pipelinePasses profile.level
  let reportBytes := byteLength profile.pipeline.name + (passes.map byteLength).sum
  ensureReportBytes reportBytes limits
  return ⟨[], reportBytes⟩

def sortedUniqueProofs (proofs : List ProofId) : Bool :=
  (proofs.zip proofs.tail).all fun (left, right) ↦ left.val < right.val

def DecisionSink.push (sink : DecisionSink) (limits : OptimizationLimits) (pass subject : String)
    (kind : DecisionKind) (justification : String) (reliedOn : List ProofId) :
    Except OptimizeError DecisionSink := do
  ensure (sink.decisions.length + 1 ≤ limits.decisions.toNat)
    (.resourceLimit "optimization decisions" limits.decisions)
  ensure (sortedUniqueProofs reliedOn)
    (.invalidReport "optimization proof reliance must be sorted and unique")
  let reportBytes := sink.reportBytes + (byteLength pass + byteLength subject +
    byteLength justification + reliedOn.length * 4)
  ensureReportBytes reportBytes limits
  return ⟨sink.decisions ++ [⟨pass, subject, kind, justification, reliedOn⟩], reportBytes⟩

/-! ## Compaction -/

open Wrela.Checked

/-- A limit is checked before that many items are stored. -/
def reserveItems (count : ℕ) (resource : String) (limit : UInt64) : Except OptimizeError Unit :=
  ensure (count ≤ limit.toNat) (.resourceLimit resource limit)

def filledVec {α : Type} (length : ℕ) (value : α) (resource : String) (limit : UInt64) :
    Except OptimizeError (List α) := do
  reserveItems length resource limit
  return List.replicate length value

def countRetained (keep : List Bool) (resource : String) (limit : UInt64) :
    Except OptimizeError ℕ := do
  reserveItems (keep.count true) resource limit
  return keep.count true

/-- The new identifiers of an arena, by the old ones; `none` for what is dropped. -/
abbrev IdMap (arena : Arena) := List (Option (Id arena))

/-- Number what is kept from `next` on, as long as the numbers fit. -/
def numberRetained {arena : Arena} (fits : ℕ → Bool) (error : OptimizeError) :
    List Bool → ℕ → Except OptimizeError (IdMap arena)
  | [], _ => .ok []
  | false :: keep, next => do return none :: (← numberRetained fits error keep next)
  | true :: keep, next => do
    ensure (fits next) error
    return some ⟨.ofNat next⟩ :: (← numberRetained fits error keep (next + 1))

/-- The counter of the blocks is moved on after each of them. -/
def blockMap (keepBlocks : List Bool) (limits : OptimizationLimits) :
    Except OptimizeError (IdMap .block) :=
  numberRetained (fun next ↦ next + 1 < 2 ^ 32) (.resourceLimit "FlowWir blocks" limits.blocks)
    keepBlocks 0

/-- The number of a value is how many were kept before it. -/
def valueMap (keepValues : List Bool) (limits : OptimizationLimits) :
    Except OptimizeError (IdMap .value) :=
  numberRetained (fun next ↦ next < 2 ^ 32) (.resourceLimit "FlowWir values" limits.values)
    keepValues 0

def isRemoved (removed : Option (List Bool)) (instruction : Instruction) : Bool :=
  removed.any fun removed ↦ removed.getD instruction.id.index false

def markValue (context : String) (keep : List Bool) (value : ValueId) :
    Except OptimizeError (List Bool) := do
  ensure (value.index < keep.length)
    (.proofViolation "compaction" (context ++ " refers to an unknown value"))
  return keep.set value.index true

/-- Keep the results of the instructions that are not removed. -/
def markInstruction (removed : Option (List Bool)) (keep : List Bool) (instruction : Instruction) :
    Except OptimizeError (List Bool) :=
  if isRemoved removed instruction then .ok keep
  else instruction.results.foldlM (markValue "instruction result") keep

def markBlock (removed : Option (List Bool)) (keep : List Bool) (block : Block × Bool) :
    Except OptimizeError (List Bool) :=
  if block.2 then do
    let keep ← block.1.parameters.foldlM (markValue "block parameter") keep
    block.1.instructions.foldlM (markInstruction removed) keep
  else .ok keep

def keepValues (function : FlowFunction) (keepBlocks : List Bool) (removed : Option (List Bool))
    (limits : OptimizationLimits) : Except OptimizeError (List Bool) := do
  let keep ← filledVec function.values.length false "optimizer temporary values" limits.values
  let keep ← function.parameters.foldlM (markValue "function parameter") keep
  (function.blocks.zip keepBlocks).foldlM (markBlock removed) keep

def mapValue (map : IdMap .value) (value : ValueId) : Except OptimizeError ValueId :=
  orFail (map.getD value.index none)
    (.proofViolation "compaction" "retained operation refers to a removed value")

def mapValueSlice (map : IdMap .value) (values : List ValueId) :
    Except OptimizeError (List ValueId) :=
  values.mapM (mapValue map)

def mapBlock (map : IdMap .block) (block : BlockId) : Except OptimizeError BlockId :=
  orFail (map.getD block.index none)
    (.proofViolation "compaction" "retained control-flow edge refers to a removed block")

def mapPart (map : IdMap .value) (part : BoundedStringPart) :
    Except OptimizeError BoundedStringPart := do
  match part with
  | .text value source => return .text value source
  | .bool value source => return .bool (← mapValue map value) source
  | .character value source => return .character (← mapValue map value) source
  | .integer value maximumBytes source =>
    return .integer (← mapValue map value) maximumBytes source
  | .staticString value bytes source => return .staticString (← mapValue map value) bytes source

/-- One argument mapped. -/
def mapOne {α : Type} (map : IdMap .value) (build : ValueId → α) (value : ValueId) :
    Except OptimizeError α := do
  return build (← mapValue map value)

/-- Two arguments mapped, the first one first. -/
def mapTwo {α : Type} (map : IdMap .value) (build : ValueId → ValueId → α) (first second : ValueId) :
    Except OptimizeError α := do
  return build (← mapValue map first) (← mapValue map second)

/-- A list of arguments mapped. -/
def mapMany {α : Type} (map : IdMap .value) (build : List ValueId → α) (values : List ValueId) :
    Except OptimizeError α := do
  return build (← mapValueSlice map values)

def mapOperationValues (map : IdMap .value) (operation : FlowOperation) :
    Except OptimizeError FlowOperation := do
  match operation with
  | .immediate _ | .actorStateAddress .. | .regionReset _ | .actorCapability .. | .actorReserve ..
  | .actorReplyRequest .. | .mailboxReceive .. | .taskAcquireSlot .. | .checkpoint ..
  | .deadlineRead | .interruptMask | .mmioRead .. | .fence _ => return operation
  | .unary op value => mapOne map (.unary op) value
  | .cast value toType mode => mapOne map (.cast · toType mode) value
  | .promote value destination proof => mapOne map (.promote · destination proof) value
  | .enumTag value => mapOne map .enumTag value
  | .enumPayload value variant => mapOne map (.enumPayload · variant) value
  | .extractField aggregate field => mapOne map (.extractField · field) aggregate
  | .endAccess access => mapOne map .endAccess access
  | .load address proof => mapOne map (.load · proof) address
  | .move value => mapOne map .move value
  | .copy value => mapOne map .copy value
  | .drop value => mapOne map .drop value
  | .actorReject reservation => mapOne map .actorReject reservation
  | .taskCancel task => mapOne map .taskCancel task
  | .park waitSet => mapOne map .park waitSet
  | .wake target => mapOne map .wake target
  | .interruptRestore token => mapOne map .interruptRestore token
  | .validateDeviceValue value proof => mapOne map (.validateDeviceValue · proof) value
  | .check condition failure proof => mapOne map (.check · failure proof) condition
  | .assert condition failure => mapOne map (.assert · failure) condition
  | .recordEvent kind payload => mapOne map (.recordEvent kind) payload
  | .replayEvent kind destination => mapOne map (.replayEvent kind) destination
  | .testEmit payload => mapOne map .testEmit payload
  | .testFinish outcome => mapOne map .testFinish outcome
  | .actorReplyResolve outcome reply => mapOne map (.actorReplyResolve · reply) outcome
  | .mmioWrite device register value => mapOne map (.mmioWrite device register) value
  | .binary op left right => mapTwo map (.binary op) left right
  | .extractIndex aggregate index proof => mapTwo map (.extractIndex · · proof) aggregate index
  | .makeAggregate ty fields => mapMany map (.makeAggregate ty) fields
  | .formatBoundedString ty parts => return .formatBoundedString ty (← parts.mapM (mapPart map))
  | .makeEnum ty variant payload =>
    match payload with
    | none => return operation
    | some payload => mapOne map (fun payload ↦ .makeEnum ty variant (some payload)) payload
  | .insertField aggregate field value => mapTwo map (.insertField · field ·) aggregate value
  | .store address value proof => mapTwo map (.store · · proof) address value
  | .replyResolve endpoint outcome => mapTwo map .replyResolve endpoint outcome
  | .receiptCommit receipt payload => mapTwo map .receiptCommit receipt payload
  | .receiptResolve receipt outcome => mapTwo map .receiptResolve receipt outcome
  | .interruptPublish cell value => mapTwo map .interruptPublish cell value
  | .queuePublish reservation payload => mapTwo map .queuePublish reservation payload
  | .actorCommit reservation arguments =>
    let reservation ← mapValue map reservation
    mapMany map (.actorCommit reservation) arguments
  | .select condition thenValue elseValue =>
    let condition ← mapValue map condition
    mapTwo map (.select condition) thenValue elseValue
  | .beginAccess place kind proof => mapOne map (.beginAccess · kind proof) place
  | .call function arguments => mapMany map (.call function) arguments
  | .asyncCall function arguments plan => mapMany map (.asyncCall function · plan) arguments
  | .allocate region ty count proof => mapOne map (.allocate region ty · proof) count
  | .taskStart slot entry arguments =>
    let slot ← mapValue map slot
    mapMany map (.taskStart slot entry) arguments
  | .dmaTransition token device fromOwnership toOwnership proof =>
    mapOne map (.dmaTransition · device fromOwnership toOwnership proof) token
  | .queueReserve device descriptors proof => mapOne map (.queueReserve device · proof) descriptors

def mapCase (values : IdMap .value) (blocks : IdMap .block) (case : SwitchCase) :
    Except OptimizeError SwitchCase := do
  let target ← mapBlock blocks case.target
  return ⟨case.value, target, ← mapValueSlice values case.arguments⟩

def mapTerminator (values : IdMap .value) (blocks : IdMap .block) (terminator : Terminator) :
    Except OptimizeError Terminator := do
  match terminator with
  | .jump target arguments =>
    let target ← mapBlock blocks target
    return .jump target (← mapValueSlice values arguments)
  | .branch condition thenBlock thenArguments elseBlock elseArguments =>
    let condition ← mapValue values condition
    let thenBlock ← mapBlock blocks thenBlock
    let elseBlock ← mapBlock blocks elseBlock
    let thenArguments ← mapValueSlice values thenArguments
    return .branch condition thenBlock thenArguments elseBlock (← mapValueSlice values elseArguments)
  | .switch value cases default defaultArguments =>
    let value ← mapValue values value
    let cases ← cases.mapM (mapCase values blocks)
    let default ← mapBlock blocks default
    return .switch value cases default (← mapValueSlice values defaultArguments)
  | .return arguments => return .return (← mapValueSlice values arguments)
  | .suspend state activation resume =>
    let resume ← mapBlock blocks resume
    return .suspend state (← mapValue values activation) resume
  | .tailCall function arguments => return .tailCall function (← mapValueSlice values arguments)
  | .trap failure detail =>
    match detail with
    | none => return .trap failure none
    | some detail => return .trap failure (some (← mapValue values detail))
  | .unreachable => return .unreachable

/-- The instructions that stay, numbered from `next` on, and the number after them. -/
def compactInstructions (values : IdMap .value) (removed : Option (List Bool))
    (limits : OptimizationLimits) :
    List Instruction → ℕ → Except OptimizeError (List Instruction × ℕ)
  | [], next => .ok ([], next)
  | instruction :: rest, next =>
    if isRemoved removed instruction then compactInstructions values removed limits rest next
    else do
      ensure (next + 1 < 2 ^ 32) (.resourceLimit "FlowWir instructions" limits.instructions)
      let results ← mapValueSlice values instruction.results
      let operation ← mapOperationValues values instruction.operation
      let (rest, last) ← compactInstructions values removed limits rest (next + 1)
      return ({ instruction with id := ⟨.ofNat next⟩, results, operation } :: rest, last)

def compactBlock (values : IdMap .value) (blocks : IdMap .block) (removed : Option (List Bool))
    (limits : OptimizationLimits) (block : Block) (id : Option BlockId) (next : ℕ) :
    Except OptimizeError (Block × ℕ) := do
  let id ← orFail id (.proofViolation "compaction" "retained block has no dense remapping")
  let parameters ← mapValueSlice values block.parameters
  reserveItems (block.instructions.filter (!isRemoved removed ·)).length "FlowWir instructions"
    limits.instructions
  let (instructions, next) ← compactInstructions values removed limits block.instructions next
  let terminator ← mapTerminator values blocks block.terminator
  return ({ block with id, parameters, instructions, terminator }, next)

/-- The blocks that stay, each with its entry of the table. -/
def compactBlocks (values : IdMap .value) (blocks : IdMap .block) (removed : Option (List Bool))
    (limits : OptimizationLimits) :
    List (Block × Bool × Option BlockId) → ℕ → Except OptimizeError (List Block)
  | [], _ => .ok []
  | (block, keep, id) :: rest, next =>
    if keep then do
      let (block, next) ← compactBlock values blocks removed limits block id next
      return block :: (← compactBlocks values blocks removed limits rest next)
    else compactBlocks values blocks removed limits rest next

/-- The value records that stay, each with its new number. -/
def compactValues (map : IdMap .value) (values : List Value) : List Value :=
  (values.zip map).filterMap fun (value, id) ↦ id.map fun id ↦ { value with id }

def compactFunction (function : FlowFunction) (keepBlocks : List Bool)
    (removed : Option (List Bool)) (limits : OptimizationLimits) :
    Except OptimizeError FlowFunction := do
  ensure (keepBlocks.length == function.blocks.length)
    (.proofViolation "compaction" "block keep-set length does not match the function")
  reserveItems function.blocks.length "optimizer temporary blocks" limits.blocks
  let blockIds ← blockMap keepBlocks limits
  let keep ← keepValues function keepBlocks removed limits
  reserveItems function.values.length "optimizer temporary values" limits.values
  let retainedValues ← countRetained keep "FlowWir values" limits.values
  reserveItems retainedValues "FlowWir values" limits.values
  let valueIds ← valueMap keep limits
  let parameters ← mapValueSlice valueIds function.parameters
  let entry ← mapBlock blockIds function.entry
  let retainedBlocks ← countRetained keepBlocks "FlowWir blocks" limits.blocks
  reserveItems retainedBlocks "FlowWir blocks" limits.blocks
  let blocks ← compactBlocks valueIds blockIds removed limits
    (function.blocks.zip (keepBlocks.zip blockIds)) 0
  return { function with
    values := compactValues valueIds function.values, parameters, entry, blocks }

end Wrela.FlowOpt
