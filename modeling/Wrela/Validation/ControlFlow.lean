import Wrela.Graph.Dominators
import Wrela.Validation.Operation

/-!
# Control flow and single assignment

Every block is reachable, every value has one definition, and every use is dominated by it.
-/

namespace Wrela.Validation

open Wrela.Source Wrela.Flow Wrela.Graph

variable (module : FlowWir) (function : FlowFunction)

/-- The edges of a block whose target exists. -/
def blockEdges (block : Block) : List (BlockId × List ValueId) :=
  block.terminator.edges.filter fun edge ↦ edge.1.index < function.blocks.length

def sortDedup (nodes : List ℕ) : List ℕ := (nodes.insertionSort (· ≤ ·)).dedup

/-- The successors of a block, in increasing order and without repetition. -/
def successors (index : ℕ) : List ℕ :=
  match function.blocks[index]? with
  | none => []
  | some block => sortDedup ((blockEdges function block).map fun edge ↦ edge.1.index)

/-- The sources of the edges into a block, with repetition. -/
def incomingEdges (index : ℕ) : List ℕ :=
  function.blocks.zipIdx.flatMap fun (block, source) ↦
    ((blockEdges function block).filter fun edge ↦ edge.1.index = index).map fun _ ↦ source

def predecessors (index : ℕ) : List ℕ := sortDedup (incomingEdges function index)

def search : Search := depthFirst (successors function) function.blocks.length function.entry.index

/-- The edges whose arguments differ from those of the edge before them to the same target. -/
def conflictingEdges (edges : List (BlockId × List ValueId)) : List ℕ :=
  let sorted := edges.zipIdx.insertionSort fun left right ↦ left.1.1.val ≤ right.1.1.val
  (sorted.zip sorted.tail).filterMap fun (left, right) ↦
    if left.1.1 = right.1.1 ∧ left.1.2 ≠ right.1.2 then some right.2 else none

def validateParallelEdges (block : Block) : Report :=
  let edges := blockEdges function block
  edges.zipIdx.flatMap fun ((target, _), index) ↦
    reportIf ((conflictingEdges edges).contains index)
      (.conflictingParallelEdgeArguments function.id block.id target)

def validateReachable : Report :=
  (List.range function.blocks.length).flatMap fun index ↦
    reportIf (!(search function).entered.contains index)
      (.unreachableBlock function.id ⟨UInt32.ofNat index⟩)

inductive DefinitionSite where
  | functionParameter
  | blockParameter (block : ℕ)
  | instruction (block index : ℕ)

/-- Every definition of the function with its site, in program order. -/
def definitions : List (ValueId × DefinitionSite) :=
  function.parameters.map (·, .functionParameter) ++
    function.blocks.zipIdx.flatMap fun (block, blockIndex) ↦
      block.parameters.map (·, .blockParameter blockIndex) ++
        block.instructions.zipIdx.flatMap fun (instruction, index) ↦
          instruction.results.map (·, .instruction blockIndex index)

/-- The first recorded definition of a value in range. -/
def definitionSite (value : ValueId) : Option DefinitionSite :=
  if value.index < function.values.length then (definitions function).lookup value else none

def blockDominates (idom : Idom) (dominator block : ℕ) : Bool :=
  (search function).entered.contains dominator && (search function).entered.contains block &&
    chainContains idom dominator ((search function).order.length + 1) block

def useIsDominated (idom : Idom) (value : ValueId) (useBlock : ℕ) (useInstruction : Option ℕ) :
    Bool :=
  match definitionSite function value with
  | none | some .functionParameter => true
  | some (.blockParameter block) => blockDominates function idom block useBlock
  | some (.instruction block index) =>
    if block = useBlock then useInstruction.all (index < ·)
    else blockDominates function idom block useBlock

def validateInstructionUses (idom : Idom) (block : Block) (blockIndex : ℕ) : Report :=
  block.instructions.zipIdx.flatMap fun (instruction, index) ↦
    instruction.operation.values.flatMap fun value ↦
      reportIf (!useIsDominated function idom value blockIndex (some index))
        (.nonDominatingValueUse function.id value ⟨UInt32.ofNat blockIndex⟩ (some instruction.id))

def validateTerminatorUses (idom : Idom) (block : Block) (blockIndex : ℕ) : Report :=
  block.terminator.values.flatMap fun value ↦
    reportIf (!useIsDominated function idom value blockIndex none)
      (.nonDominatingValueUse function.id value ⟨UInt32.ofNat blockIndex⟩ none)

/-- The switch cases that repeat the value of a case before them. -/
def duplicateCases (cases : List SwitchCase) : List ℕ :=
  let sorted := (cases.map SwitchCase.value).zipIdx.insertionSort fun left right ↦
    left.1 < right.1 ∨ (left.1 = right.1 ∧ left.2 ≤ right.2)
  (sorted.zip sorted.tail).filterMap fun (left, right) ↦
    if left.1 = right.1 then some right.2 else none

/-- The width a switch value may have. -/
def switchBits (value : ValueId) : Option UInt16 :=
  (valueRecord module function value).bind fun record ↦
    match record.kind with
    | .scalar .bool => some 1
    | .scalar (.integer _ bits) => some bits
    | _ => none

def caseOutOfRange (bits : Option UInt16) (value : BitVec 128) : Bool :=
  bits.all fun bits ↦ bits == 0 || (bits < 128 && value.toNat ≥ 2 ^ bits.toNat)

/-- The type a resume block takes as its single parameter. -/
def resumeParameterType (resume : BlockId) : Option TypeId :=
  (resume.lookup function.blocks).bind fun block ↦
    match block.parameters with
    | [parameter] => valueType function parameter
    | _ => none

def validateFlowTerminatorTypes (block : Block) : Report :=
  match block.terminator with
  | .branch condition _ _ _ _ =>
    reportIf (!valueHasKind module function (.scalar .bool) condition)
      (.terminatorTypeMismatch function.id block.id)
  | .switch value cases _ _ =>
    cases.zipIdx.flatMap fun (case, index) ↦
      reportIf ((duplicateCases cases).contains index)
        (.duplicateSwitchCase function.id block.id case.value) ++
      reportIf (caseOutOfRange (switchBits module function value) case.value)
        (.switchCaseOutOfRange function.id block.id case.value (switchBits module function value))
  | .return values =>
    reportIf (values.filterMap (valueType function) != function.resultTypes)
      (.terminatorTypeMismatch function.id block.id)
  | .tailCall callee _ =>
    reportIf ((callee.lookup module.functions).any (·.resultTypes != function.resultTypes))
      (.tailCallResultMismatch function.id callee)
  | .suspend _ activation resume =>
    let delivered := activationResult module function activation
    reportIf (delivered.isNone || delivered != resumeParameterType function resume)
      (.terminatorTypeMismatch function.id block.id)
  | .jump _ _ | .trap _ _ | .unreachable => []

/-- The checks of a function whose entry block exists.  The dominators are only missing when the
iteration does not settle, which it always does. -/
def validateControlFlowAndSsa : Report :=
  if function.entry.index < function.blocks.length then
    match immediateDominators (search function).order (predecessors function)
        function.entry.index with
    | none => [.unknownBlock function.id function.entry]
    | some idom =>
      function.blocks.flatMap (validateParallelEdges function) ++ validateReachable function ++
        function.blocks.zipIdx.flatMap fun (block, index) ↦
          validateInstructionUses function idom block index ++
            validateTerminatorUses function idom block index ++
            validateFlowTerminatorTypes module function block
  else []

/-- The longest list the checks of a function build while they look at its edges. -/
def controlFlowScratch : ℕ :=
  if function.entry.index < function.blocks.length then
    ((List.range function.blocks.length).map fun index ↦
      (incomingEdges function index).length).foldl max (search function).peak
  else 0

end Wrela.Validation

/-!
## Activations

An activation is made by one asynchronous call, consumed by the suspend right after it, and backed
by one plan of the module.
-/

namespace Wrela.Validation

open Wrela.Source Wrela.Flow

variable (module : FlowWir)

def isAsyncCall : FlowOperation → Bool
  | .asyncCall _ _ _ => true
  | _ => false

section Contract

variable (function : FlowFunction)

/-- The activation values an instruction properly defines. -/
def activationDefinitions (instruction : Instruction) : List ValueId :=
  match instruction.results with
  | [result] =>
    if isAsyncCall instruction.operation && isActivationValue module function result then [result]
    else []
  | _ => []

def suspendState (block : Block) : Option UInt32 :=
  match block.terminator with
  | .suspend state _ _ => some state
  | _ => none

def suspendedActivation (block : Block) : Option ValueId :=
  match block.terminator with
  | .suspend _ activation _ => some activation
  | _ => none

/-- The suspend that must follow an asynchronous call at once. -/
def isImmediateSuspend (block : Block) (index : ℕ) (instruction : Instruction) : Bool :=
  index + 1 == block.instructions.length &&
    (suspendedActivation block).any fun suspended ↦ instruction.results.head? == some suspended

def validateActivationInstruction (block : Block) (index : ℕ) (instruction : Instruction) :
    Report :=
  (instruction.results.flatMap fun result ↦
    reportIf (isActivationValue module function result &&
        !(isAsyncCall instruction.operation && instruction.results.length == 1))
      (.invalidRecord "activation definition" result.val)) ++
  ((instruction.operation.values.find? (isActivationValue module function)).toList.flatMap
    fun value ↦ [.invalidRecord "activation operation operand" value.val]) ++
  reportIf (isAsyncCall instruction.operation && !isImmediateSuspend block index instruction)
    (.invalidRecord "activation immediate suspend" instruction.id.val)

def validateActivationTerminator (block : Block) : Report :=
  match block.terminator with
  | .suspend _ activation _ =>
    reportIf
      (!block.instructions.getLast?.any fun instruction ↦
        isAsyncCall instruction.operation && instruction.results == [activation])
      (.invalidRecord "suspend activation definition" activation.val)
  | terminator =>
    (terminator.values.find? (isActivationValue module function)).toList.flatMap
      fun value ↦ [.invalidRecord "activation terminator operand" value.val]

def validateActivationBlock (block : Block) : Report :=
  (block.parameters.flatMap fun parameter ↦
    reportIf (isActivationValue module function parameter)
      (.invalidRecord "activation block parameter" parameter.val)) ++
  (block.instructions.zipIdx.flatMap fun (instruction, index) ↦
    validateActivationInstruction module function block index instruction) ++
  validateActivationTerminator module function block

/-- The suspend states of a function are `0, 1, …` in some order. -/
def validateSuspendStates : Report :=
  ((function.blocks.filterMap suspendState).insertionSort (· ≤ ·)).zipIdx.flatMap
    fun (actual, expected) ↦
      reportIf (actual.toNat != expected) (.invalidRecord "async state order" actual)

def validateActivationDelivery : Report :=
  let definitions := function.blocks.flatMap fun block ↦
    block.instructions.flatMap (activationDefinitions module function)
  let suspends := function.blocks.filterMap suspendedActivation
  function.values.flatMap fun value ↦
    reportIf
      (isActivationValue module function value.id &&
        !(value.id.index < function.values.length && definitions.count value.id == 1 &&
          suspends.count value.id == 1))
      (.invalidRecord "activation delivery" value.id.val)

def validateActivationContract : Report :=
  (function.parameters.flatMap fun parameter ↦
    reportIf (isActivationValue module function parameter)
      (.invalidRecord "activation function parameter" parameter.val)) ++
  function.blocks.flatMap (validateActivationBlock module function) ++
  validateSuspendStates function ++ validateActivationDelivery module function

end Contract

/-- The order key of a plan. -/
def activationKey (plan : ActivationPlan) : List UInt32 :=
  [plan.caller.val, plan.source.file.val, plan.source.range.start, plan.source.range.stop,
    plan.callee.val]

/-- The owner whose frames a caller's activations live in. -/
def activationOwner (caller : FlowFunction) : Option PlanOwner :=
  match caller.role with
  | .actorTurn actor => some (.actor actor)
  | .taskEntry task =>
    if (task.lookup module.tasks).any (·.slots == 1) then some (.task task) else none
  | _ => none

/-- The proofs of a callee that its cleanup is acyclic. -/
def cleanupProofs (callee : FlowFunction) : List ProofId :=
  callee.proofs.filter fun proof ↦ (proof.lookup module.proofs).any (·.kind == .cleanupAcyclic)

def activationCallerValid (plan : ActivationPlan) : Bool :=
  (plan.caller.lookup module.functions).any fun caller ↦
    caller.color == .async && caller.proofs.contains plan.capacityProof &&
      (activationOwner module caller).isSome

def activationCalleeValid (plan : ActivationPlan) : Bool :=
  (plan.callee.lookup module.functions).any fun callee ↦
    callee.color == .async && callee.role == .ordinary && max callee.frameBound 1 == plan.frameBytes

def activationRegionValid (plan : ActivationPlan) : Bool :=
  (plan.region.lookup module.regions).any fun region ↦
    region.id == plan.region &&
      ((plan.caller.lookup module.functions).any fun caller ↦
        joinedNameMatches region.name caller.name ".async-activation-frame" &&
          activationOwner module caller == some region.owner) &&
      region.class_ == .taskFrame &&
      region.capacityBytes.toNat == plan.frameBytes.toNat * plan.maximumLive.toNat &&
      region.alignment == 8 && region.resetFunction.isNone &&
      region.capacityProof == plan.capacityProof && region.source == plan.source

def activationProofValid (plan : ActivationPlan) : Bool :=
  (plan.capacityProof.lookup module.proofs).any fun proof ↦
    proof.id == plan.capacityProof && proof.kind == .capacityBound &&
      proof.bound == some plan.maximumLive.toUInt64 && proof.sources == [plan.source] &&
      (plan.callee.lookup module.functions).any fun callee ↦
        (cleanupProofs module callee).length == 1 && proof.dependsOn == cleanupProofs module callee

def validateActivationPlan (prior : Option ActivationPlan) (plan : ActivationPlan) : Report :=
  requireId "activation caller" plan.caller.val module.functions.length ++
    requireId "activation callee" plan.callee.val module.functions.length ++
    requireId "activation region" plan.region.val module.regions.length ++
    requireId "activation capacity proof" plan.capacityProof.val module.proofs.length ++
    reportIf
      (!(prior.all (fun prior ↦ decide (activationKey prior < activationKey plan)) &&
        plan.frameBytes != 0 && plan.maximumLive == 1 && validSourceSpan module plan.source &&
        activationCallerValid module plan && activationCalleeValid module plan &&
        activationRegionValid module plan && activationProofValid module plan))
      (.invalidRecord "activation plan" plan.id.val)

/-- The plan an asynchronous call is bound to, when the binding is exact. -/
def boundActivation (function : FlowFunction) (instruction : Instruction) : Option ActivationId :=
  match instruction.operation with
  | .asyncCall callee _ plan =>
    if instruction.source.any fun source ↦ (plan.lookup module.activations).any fun record ↦
      record.id == plan && record.caller == function.id && record.callee == callee &&
        record.source == source
    then some plan else none
  | _ => none

def validateActivationBinding (function : FlowFunction) (instruction : Instruction) : Report :=
  reportIf
    (isAsyncCall instruction.operation && (boundActivation module function instruction).isNone)
    (.invalidRecord "activation call binding" instruction.id.val)

/-- Every instruction of the module with its function, in program order. -/
def instructionSites : List (FlowFunction × Instruction) :=
  module.functions.flatMap fun function ↦
    function.blocks.flatMap fun block ↦ block.instructions.map (function, ·)

def validateActivationPlans : Report :=
  let uses := (instructionSites module).filterMap fun (function, instruction) ↦
    boundActivation module function instruction
  (module.activations.zip (none :: module.activations.map some)).flatMap (fun (plan, prior) ↦
    validateActivationPlan module prior plan) ++
  (instructionSites module).flatMap (fun (function, instruction) ↦
    validateActivationBinding module function instruction) ++
  (List.range module.activations.length).flatMap fun index ↦
    reportIf ((uses.map Id.index).count index != 1)
      (.invalidRecord "activation plan use" (UInt32.ofNat index))

end Wrela.Validation
