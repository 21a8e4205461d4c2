import Wrela.FlowOpt.Folding
import Wrela.FlowOpt.ScanModel
import Std.Data.String.ToNat

/-!
# The pipeline

The passes in their order, each followed by a check of what it left, and what is checked of the
output and of the report before they are handed on.
-/

namespace Wrela.FlowOpt

open Wrela.Source Wrela.BuildModel Wrela.TestModel Wrela.Flow Wrela.Validation Wrela.Checked

section Verify

variable (pass : String) (function : FlowFunction) (proofs : List Proof)

def defineVerifiedValue (definitions : List ℕ) (value : ValueId) :
    Except OptimizeError (List ℕ) := do
  ensure (value.index < definitions.length)
    (.proofViolation pass "a definition names an unknown value")
  ensure (definitions.getD value.index 0 < 255)
    (.proofViolation pass "value definition count overflowed")
  return definitions.modify value.index (· + 1)

def verifyOperationReferences (limits : OptimizationLimits) (operation : FlowOperation) :
    Except OptimizeError Unit := do
  ensure (operation.values.all (·.index < function.values.length))
    (.proofViolation pass "an operation names an unknown value")
  let listed ← operationProofs operation limits
  ensure (listed.all (·.index < proofs.length))
    (.proofViolation pass "an operation names an unknown proof")

def verifyTerminatorReferences (terminator : Terminator) : Except OptimizeError Unit :=
  ensure
    (terminator.values.all (·.index < function.values.length) &&
      (edgeTargets terminator).all (·.index < function.blocks.length))
    (.proofViolation pass "a terminator names an unknown value or block")

/-- The definitions counted so far, and the identifier the next instruction must have. -/
structure Verified where
  definitions : List ℕ
  expected : ℕ

def verifyInstruction (limits : OptimizationLimits) (verified : Verified)
    (instruction : Instruction) : Except OptimizeError Verified := do
  ensure (instruction.id.index == verified.expected)
    (.proofViolation pass "instruction IDs are not dense")
  ensure (verified.expected + 1 < 2 ^ 32)
    (.resourceLimit "FlowWir instructions" limits.instructions)
  let definitions ← instruction.results.foldlM (defineVerifiedValue pass) verified.definitions
  verifyOperationReferences pass function proofs limits instruction.operation
  return ⟨definitions, verified.expected + 1⟩

def verifyBlock (limits : OptimizationLimits) (verified : Verified) (block : Block × ℕ) :
    Except OptimizeError Verified := do
  ensure (block.1.id.index == block.2) (.proofViolation pass "block IDs are not dense")
  let definitions ← block.1.parameters.foldlM (defineVerifiedValue pass) verified.definitions
  let verified ← block.1.instructions.foldlM (verifyInstruction pass function proofs limits)
    { verified with definitions }
  verifyTerminatorReferences pass function block.1.terminator
  return verified

def verifyFunction (limits : OptimizationLimits) (requireReachable : Bool) :
    Except OptimizeError Unit := do
  ensure (function.entry.index < function.blocks.length)
    (.proofViolation pass "function entry is not a known block")
  let definitions ←
    filledVec function.values.length 0 "optimizer verification values" limits.values
  ensure (function.values.zipIdx.all fun (value, index) ↦ value.id.index == index)
    (.proofViolation pass "value IDs are not dense")
  let definitions ← function.parameters.foldlM (defineVerifiedValue pass) definitions
  let verified ← function.blocks.zipIdx.foldlM (verifyBlock pass function proofs limits)
    ⟨definitions, 0⟩
  ensure (verified.definitions.all (· == 1))
    (.proofViolation pass "a value does not have exactly one definition")
  if requireReachable then
    let reachable ← reachableBlocks function limits
    ensure (reachable.all (·)) (.proofViolation pass "the pass left an unreachable block")
  else return ()

end Verify

def verifyAfterPass (wir : FlowWir) (profile : OptimizationProfile) (limits : OptimizationLimits)
    (pass : String) (requireReachable : Bool) : Except OptimizeError Unit :=
  if profile.verifyAfterEachPass then
    forAll (fun function ↦ verifyFunction pass function wir.proofs limits requireReachable)
      wir.functions
  else .ok ()

def verifyTestLink (functions : List FlowFunction) (pass : String) (listed : List Bool)
    (test : TestEntry × ℕ) : Except OptimizeError (List Bool) := do
  let function ← orFail (test.1.function.lookup functions)
    (.proofViolation pass "test metadata names an unknown function")
  ensure
    (test.1.id.index == test.2 && !listed.getD test.1.function.index false &&
      function.role == .test)
    (.proofViolation pass "test metadata is non-dense, duplicated, or names a non-test function")
  return listed.set test.1.function.index true

def verifyTestTableLinks (functions : List FlowFunction) (tests : List TestEntry)
    (limits : OptimizationLimits) (pass : String) : Except OptimizeError Unit := do
  reserveItems tests.length "FlowWir tests" limits.tests.toUInt64
  let listed ←
    filledVec functions.length false "optimizer test function set" limits.functions.toUInt64
  let listed ← tests.zipIdx.foldlM (verifyTestLink functions pass) listed
  ensure ((functions.zip listed).all fun (function, mark) ↦ (function.role == .test) == mark)
    (.proofViolation pass "test function set drifted from test metadata")

/-- What is checked of a module after a pass, and the statistics that are kept of it. -/
def concludePass (profile : OptimizationProfile) (limits : OptimizationLimits)
    (tests : List TestEntry) (wir : FlowWir) (requireReachable : Bool)
    (statistics : PassStatistics) : Except OptimizeError PassStatistics := do
  verifyAfterPass wir profile limits statistics.pass requireReachable
  verifyTestTableLinks wir.functions tests limits statistics.pass
  ensureReportBytes (byteLength statistics.pass) limits
  return statistics

/-- The statistics of a pass over a table of so many tests. -/
def passStatistics (tests : List TestEntry) (pass : String) (iterations : ℕ) (changed : Bool)
    (before after : ℕ) : PassStatistics :=
  ⟨pass, .ofNat iterations, changed, before, after, tests.length, tests.length, true⟩

def isAggressive : OptimizationLevel → Bool
  | .performance | .size => true
  | _ => false

/-- A module between two passes, the decisions and the statistics of the passes before. -/
structure Passed where
  wir : FlowWir
  sink : DecisionSink
  passes : List PassStatistics

section Passes

variable (profile : OptimizationProfile) (limits : OptimizationLimits) (tests : List TestEntry)

/-- The two passes that leave every instruction where it is. -/
def foldPasses (wir : FlowWir) (sink : DecisionSink) (instructions : ℕ) :
    Except OptimizeError Passed := do
  let (wir, totals) ← foldScalarConstants limits profile wir sink
  let folded ← concludePass profile limits tests wir false
    (passStatistics tests constantFoldPass totals.iterations totals.changed instructions instructions)
  let (wir, sink, changed) ← simplifyConstantControlFlow limits wir totals.sink
  let simplified ← concludePass profile limits tests wir false
    (passStatistics tests controlSimplifyPass 1 changed instructions instructions)
  return ⟨wir, sink, [folded, simplified]⟩

/-- A pass that may remove instructions. -/
def removalPass (pass : String)
    (eliminate : FlowWir → DecisionSink → Except OptimizeError (FlowWir × Progress))
    (passed : Passed) (before : ℕ) : Except OptimizeError Passed := do
  let (wir, sink, changed) ← eliminate passed.wir passed.sink
  let statistics ← concludePass profile limits tests wir true
    (passStatistics tests pass 1 changed before (instructionCount wir.functions))
  return ⟨wir, sink, passed.passes ++ [statistics]⟩

/-- The removals before the last one. -/
def pruneUnreachable (passed : Passed) (instructions : ℕ) : Except OptimizeError Passed := do
  let reached ← removalPass profile limits tests unreachablePass
    (eliminateUnreachableBlocks limits) passed instructions
  if isAggressive profile.level then
    removalPass profile limits tests provenTrueCheckPass (eliminateProvenTrueChecks limits) reached
      (instructionCount reached.wir.functions)
  else return reached

end Passes

/-- The test table is kept outside of the passes and put back at the end. -/
def executePipeline (wir : FlowWir) (profile : OptimizationProfile) (limits : OptimizationLimits)
    (inputResources : ModelResources) : Except OptimizeError (FlowWir × OptimizationReport) := do
  let pipeline ← pipelinePasses profile.level
  reserveItems pipeline.length "optimization passes" limits.passes.toUInt64
  let sink ← DecisionSink.new profile limits
  ensure (wir.tests.length < 2 ^ 32) (.resourceLimit "FlowWir tests" limits.tests.toUInt64)
  verifyTestTableLinks wir.functions wir.tests limits "pipeline-input"
  let folded ← foldPasses profile limits wir.tests { wir with tests := [] } sink
    inputResources.instructions
  let pruned ← pruneUnreachable profile limits wir.tests folded inputResources.instructions
  let final ← removalPass profile limits wir.tests deadPurePass
    (eliminateDeadPureInstructions limits) pruned (instructionCount pruned.wir.functions)
  return ({ final.wir with tests := wir.tests }, ⟨profile, final.passes, final.sink.decisions⟩)

def enforceGrowth (profile : OptimizationProfile) (input output : ModelResources) :
    Except OptimizeError Unit := do
  let product := input.instructions * profile.maximumIrGrowthPercent.toNat
  let allowed := input.instructions + product / 100
  ensure (product < 2 ^ 64 && allowed < 2 ^ 64)
    (.invalidReport "optimization growth calculation overflow")
  ensure (output.instructions ≤ allowed)
    (.resourceLimit "optimized IR instructions" (.ofNat allowed))

/-- The bytes of a report, charged piece by piece. -/
def scanReport (report : OptimizationReport) (limits : OptimizationLimits) :
    Except OptimizeError Unit := do
  reserveItems report.passes.length "optimization passes" limits.passes.toUInt64
  reserveItems report.decisions.length "optimization decisions" limits.decisions
  let decisionBytes (decision : OptimizationDecision) : ℕ :=
    byteLength decision.pass + byteLength decision.subject + byteLength decision.justification +
      decision.reliedOn.length * 4
  ensureReportBytes
    (byteLength report.profile.pipeline.name +
      (report.passes.map fun statistics ↦ byteLength statistics.pass).sum +
      (report.decisions.map decisionBytes).sum)
    limits

def statisticsCanonical (profile : OptimizationProfile) (testEntries previous : ℕ)
    (statistics : PassStatistics) (expectedName : String) : Bool :=
  statistics.pass == expectedName && statistics.iterations != 0 &&
    statistics.iterations ≤ profile.maximumIterations &&
    statistics.instructionsBefore == previous &&
    (statistics.changed || statistics.instructionsBefore == statistics.instructionsAfter) &&
    statistics.testEntriesBefore == testEntries && statistics.testEntriesAfter == testEntries &&
    statistics.testTablePreserved

def decisionCanonical (expectedPasses : List String) (decision : OptimizationDecision) : Bool :=
  expectedPasses.contains decision.pass && !decision.subject.isEmpty &&
    !decision.justification.isEmpty && sortedUniqueProofs decision.reliedOn

def validateReportShape (report : OptimizationReport) (input output : ModelResources) :
    Except OptimizeError Unit := do
  let expectedPasses ← pipelinePasses report.profile.level
  ensure (report.passes.length == expectedPasses.length)
    (.invalidReport "optimizer report does not contain the canonical pass sequence")
  ensure (input.tests == output.tests)
    (.invalidReport "optimization changed the test table length")
  ensure (input.tests < 2 ^ 32)
    (.invalidReport "optimizer test table length cannot be reported")
  let previous ← (report.passes.zip expectedPasses).foldlM
    (fun previous (statistics, expectedName) ↦ do
      ensure (statisticsCanonical report.profile input.tests previous statistics expectedName)
        (.invalidReport "optimizer pass statistics are noncanonical")
      return statistics.instructionsAfter) input.instructions
  ensure (previous == output.instructions)
    (.invalidReport "development pass statistics do not end at the output")
  ensure (report.decisions.all (decisionCanonical expectedPasses))
    (.invalidReport "optimization decision is noncanonical")

def optimize (request : OptimizationRequest) : Except OptimizeError OptimizedFlowWir := do
  validateTransformProfile request.profile
  ensure request.limits.isValid .invalidLimits
  let input ← scanModel request.limits request.input.wir 0
  let (output, report) ←
    executePipeline request.input.wir request.profile request.limits input.resources
  let scanned ← scanModel request.limits output input.work
  enforceGrowth report.profile input.resources scanned.resources
  scanReport report request.limits
  validateReportShape report input.resources scanned.resources
  let wir ← (validateWithLimits output (flowValidationLimits request.limits)).mapError
    mapValidationFailure
  return ⟨wir, report⟩

/-! ## Obligations in the passes -/

open Wrela.Graph Wrela.Ranking

variable {limits : OptimizationLimits} {types : List FlowType} {function image : FlowFunction}

/-- Every proof an operation carries, in any of its constructors. -/
def carriedProofs : FlowOperation → List ProofId
  | .actorStateAddress _ _ proof | .extractIndex _ _ proof | .beginAccess _ _ proof
  | .load _ proof | .store _ _ proof | .allocate _ _ _ proof | .promote _ _ proof
  | .actorCapability _ proof | .actorReserve _ _ proof | .actorReplyResolve _ proof
  | .taskAcquireSlot _ proof | .checkpoint _ proof | .dmaTransition _ _ _ _ proof
  | .queueReserve _ _ proof | .validateDeviceValue _ proof => [proof]
  | .actorReplyRequest _ _ permit reply => [permit, reply]
  | .check _ _ proof => proof.toList
  | .immediate _ | .unary _ _ | .binary _ _ _ | .cast _ _ _ | .makeAggregate _ _
  | .formatBoundedString _ _ | .makeEnum _ _ _ | .enumTag _ | .enumPayload _ _
  | .extractField _ _ | .insertField _ _ _ | .select _ _ _ | .endAccess _ | .move _ | .copy _
  | .drop _ | .call _ _ | .asyncCall _ _ _ | .regionReset _ | .actorCommit _ _ | .actorReject _
  | .mailboxReceive _ _ | .replyResolve _ _ | .receiptCommit _ _ | .receiptResolve _ _
  | .taskStart _ _ _ | .taskCancel _ | .park _ | .wake _ | .deadlineRead | .interruptMask
  | .interruptRestore _ | .interruptPublish _ _ | .mmioRead _ _ | .mmioWrite _ _ _ | .fence _
  | .queuePublish _ _ | .assert _ _ | .recordEvent _ _ | .replayEvent _ _ | .testEmit _
  | .testFinish _ => []

/-- The kinds of operations whose proofs the record leaves out. -/
def isUnlisted : FlowOperation → Bool
  | .actorStateAddress _ _ _ | .extractIndex _ _ _ | .actorCapability _ _
  | .actorReplyRequest _ _ _ _ | .actorReplyResolve _ _ => true
  | _ => false

variable {operation : FlowOperation} {block : Block}

theorem carriedProofs_of_listed (h : isUnlisted operation = false) :
    carriedProofs operation = (listedProof operation).toList := by
  cases operation <;> first | rfl | cases h

theorem unlisted_omits (h : isUnlisted operation = true) :
    listedProof operation = none ∧ carriedProofs operation ≠ [] := by
  cases operation <;> first | exact ⟨rfl, List.cons_ne_nil _ _⟩ | cases h

@[simp]
theorem carriedProofs_mapValues (rename : ValueId → ValueId) (operation : FlowOperation) :
    carriedProofs (operation.mapValues rename) = carriedProofs operation := by
  cases operation <;> rfl

@[simp]
theorem isUnlisted_mapValues (rename : ValueId → ValueId) (operation : FlowOperation) :
    isUnlisted (operation.mapValues rename) = isUnlisted operation := by
  cases operation <;> rfl

/-- Some instruction of the list carries proofs that are not listed. -/
def HasUnlisted (instructions : List Instruction) : Prop :=
  ∃ instruction ∈ instructions, isUnlisted instruction.operation = true

variable {sink : DecisionSink} {folding folding' : Folding}

theorem push_eq_ok {sink' : DecisionSink} {pass subject justification : String}
    {kind : DecisionKind} {reliedOn : List ProofId}
    (h : sink.push limits pass subject kind justification reliedOn = .ok sink') :
    sink'.decisions = sink.decisions ++ [⟨pass, subject, kind, justification, reliedOn⟩] := by
  iterate 3 obtain ⟨_, -, h⟩ := bind_eq_ok.1 h
  cases h
  rfl

/-- Nothing has been recorded as retained. -/
def NoneRetained (sink : DecisionSink) : Prop :=
  ∀ decision ∈ sink.decisions, decision.kind ≠ .retained

theorem NoneRetained.push {sink' : DecisionSink} {pass subject justification : String}
    {kind : DecisionKind} {reliedOn : List ProofId} (hnone : NoneRetained sink)
    (hkind : kind ≠ .retained)
    (h : sink.push limits pass subject kind justification reliedOn = .ok sink') :
    NoneRetained sink' := by
  rw [NoneRetained, push_eq_ok h, List.forall_mem_append, List.forall_mem_singleton]
  exact ⟨hnone, hkind⟩

/-- The instruction that stands in the place of another, with the same obligation if that is not
listed. -/
def InstructionMirrors (instruction image : Instruction) : Prop :=
  image.id = instruction.id ∧ isUnlisted image.operation = isUnlisted instruction.operation

theorem InstructionMirrors.trans {first second third : Instruction}
    (h : InstructionMirrors first second) (hnext : InstructionMirrors second third) :
    InstructionMirrors first third :=
  ⟨hnext.1.trans h.1, hnext.2.trans h.2⟩

def BlockMirrors (block image : Block) : Prop :=
  List.Forall₂ InstructionMirrors block.instructions image.instructions

theorem BlockMirrors.trans {first second third : Block} (h : BlockMirrors first second)
    (hnext : BlockMirrors second third) : BlockMirrors first third :=
  forall₂_trans h hnext InstructionMirrors.trans

theorem blockMirrors_of_eq {image : Block} (h : image.instructions = block.instructions) :
    BlockMirrors block image := by
  rw [BlockMirrors, h, List.forall₂_same]
  exact fun _ _ ↦ ⟨rfl, rfl⟩

/-- The instructions stay in their places, and so do the obligations that are not listed. -/
structure Mirrors (function image : FlowFunction) : Prop where
  id : image.id = function.id
  blocks : List.Forall₂ BlockMirrors function.blocks image.blocks

theorem Mirrors.trans {middle : FlowFunction} (hfirst : Mirrors function middle)
    (hsecond : Mirrors middle image) : Mirrors function image where
  id := hsecond.id.trans hfirst.id
  blocks := forall₂_trans hfirst.blocks hsecond.blocks BlockMirrors.trans

/-- The identifiers of the instructions are the same, in the same order. -/
theorem Mirrors.instructionIds (h : Mirrors function image) :
    (functionInstructions image).map Instruction.id =
      (functionInstructions function).map Instruction.id :=
  map_eq_map_of_forall₂ (List.rel_flatMap h.blocks fun {_ _} hblock ↦ hblock.imp fun {_ _} h ↦ h.1)

theorem hasUnlisted_of_forall₂ (h : List.Forall₂ (fun instruction image ↦
      isUnlisted image.operation = isUnlisted instruction.operation) instructions images) :
    HasUnlisted images ↔ HasUnlisted instructions :=
  exists_mem_iff_of_forall₂ h fun hhead ↦ by rw [hhead]

theorem foldOperation_unlisted {ty : TypeId} {constants : Constants}
    (h : isUnlisted operation = true) : foldOperation operation ty constants types = none := by
  cases operation <;> first | rfl | cases h

theorem foldInstruction_mirrors {instruction folded : Instruction}
    (hnone : NoneRetained folding.sink)
    (h : foldInstruction limits types function instruction folding = .ok (folded, folding')) :
    InstructionMirrors instruction folded ∧ NoneRetained folding'.sink := by
  unfold foldInstruction at h
  split at h
  · cases h
    exact ⟨⟨rfl, rfl⟩, hnone⟩
  · rename_i result immediate constant hfolded
    obtain ⟨sink, hsink, h⟩ := bind_eq_ok.1 h
    cases h
    refine ⟨⟨rfl, ?_⟩, hnone.push (by decide) hsink⟩
    cases hunlisted : isUnlisted instruction.operation with
    | false => rfl
    | true =>
      have hnothing : foldInstruction? function types folding.constants instruction = none := by
        unfold foldInstruction?
        split
        · rfl
        · rw [Option.bind_eq_none_iff]
          rintro ⟨result, ty⟩ -
          exact Option.map_eq_none_iff.2 (foldOperation_unlisted hunlisted)
      rw [hnothing] at hfolded
      cases hfolded

theorem foldBlock_mirrors (hnone : NoneRetained folding.sink)
    (h : foldBlock limits types function block folding = .ok (folded, folding')) :
    BlockMirrors block folded ∧ NoneRetained folding'.sink := by
  obtain ⟨⟨instructions, last⟩, hinstructions, h⟩ := bind_eq_ok.1 h
  cases h
  exact threadM_forall₂ (fun folding : Folding ↦ NoneRetained folding.sink) hinstructions hnone
    fun instruction _ state image state' hstate hinstruction ↦
      foldInstruction_mirrors hstate hinstruction

theorem foldTurn_mirrors (hnone : NoneRetained folding.sink)
    (h : foldTurn limits types function folding = .ok (image, folding')) :
    Mirrors function image ∧ NoneRetained folding'.sink := by
  obtain ⟨⟨blocks, last⟩, hblocks, h⟩ := bind_eq_ok.1 h
  cases h
  obtain ⟨hmirrors, hlast⟩ := threadM_forall₂ (fun folding : Folding ↦ NoneRetained folding.sink)
    hblocks hnone fun block _ state image state' hstate hblock ↦ foldBlock_mirrors hstate hblock
  exact ⟨⟨rfl, hmirrors⟩, hlast⟩

theorem foldTurns_mirrors (hnone : NoneRetained folding.sink)
    (h : foldTurns limits types maximumIterations remaining iterations function folding =
      .ok (image, folding', final)) : Mirrors function image ∧ NoneRetained folding'.sink := by
  induction remaining generalizing iterations function folding with
  | zero =>
    obtain ⟨⟨middle, next⟩, hturn, h⟩ := bind_eq_ok.1 h
    obtain ⟨_, -, h⟩ := bind_eq_ok.1 h
    cases h
    exact foldTurn_mirrors hnone hturn
  | succ remaining ih =>
    obtain ⟨⟨middle, next⟩, hturn, h⟩ := bind_eq_ok.1 h
    obtain ⟨hmirrors, hnext⟩ := foldTurn_mirrors hnone hturn
    dsimp only at h
    split at h
    · obtain ⟨hrest, hfinal⟩ := ih hnext h
      exact ⟨hmirrors.trans hrest, hfinal⟩
    · cases h
      exact ⟨hmirrors, hnext⟩

theorem foldScalarConstants_mirrors (hnone : NoneRetained sink)
    (h : foldScalarConstants limits profile wir sink = .ok (folded, totals)) :
    List.Forall₂ Mirrors wir.functions folded.functions ∧ NoneRetained totals.sink := by
  obtain ⟨⟨functions, last⟩, hfunctions, h⟩ := bind_eq_ok.1 h
  cases h
  refine threadM_forall₂ (fun totals : FoldTotals ↦ NoneRetained totals.sink) hfunctions hnone
    fun function _ state image state' hstate hfunction ↦ ?_
  obtain ⟨constants, -, hfunction⟩ := bind_eq_ok.1 hfunction
  obtain ⟨⟨middle, folding, iterations⟩, hturns, hfunction⟩ := bind_eq_ok.1 hfunction
  cases hfunction
  exact foldTurns_mirrors hstate hturns

theorem simplifyBlock_mirrors (hnone : NoneRetained progress.1)
    (h : simplifyBlock limits function constants block progress = .ok (simplified, progress')) :
    BlockMirrors block simplified ∧ NoneRetained progress'.1 := by
  unfold simplifyBlock at h
  split at h
  · cases h
    exact ⟨blockMirrors_of_eq rfl, hnone⟩
  · obtain ⟨sink, hsink, h⟩ := bind_eq_ok.1 h
    cases h
    exact ⟨blockMirrors_of_eq rfl, hnone.push (by decide) hsink⟩

theorem simplifyConstantControlFlow_mirrors (hnone : NoneRetained sink)
    (h : simplifyConstantControlFlow limits wir sink = .ok (simplified, progress)) :
    List.Forall₂ Mirrors wir.functions simplified.functions ∧ NoneRetained progress.1 := by
  obtain ⟨⟨functions, last⟩, hfunctions, h⟩ := bind_eq_ok.1 h
  cases h
  refine threadM_forall₂ (fun progress : Progress ↦ NoneRetained progress.1) hfunctions hnone
    fun function _ state image state' hstate hfunction ↦ ?_
  obtain ⟨constants, -, hfunction⟩ := bind_eq_ok.1 hfunction
  obtain ⟨⟨blocks, middle⟩, hblocks, hfunction⟩ := bind_eq_ok.1 hfunction
  cases hfunction
  obtain ⟨hmirrors, hlast⟩ := threadM_forall₂ (fun progress : Progress ↦ NoneRetained progress.1)
    hblocks hstate fun block _ state image state' hstate hblock ↦
      simplifyBlock_mirrors hstate hblock
  exact ⟨⟨rfl, hmirrors⟩, hlast⟩

end Wrela.FlowOpt
