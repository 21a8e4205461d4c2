import Wrela.Flow.Model
import Mathlib.Data.List.Sort

/-!
# Validation reports

A check of the validator is the list of errors it reports, in the order they are found; a module is
accepted when the whole list is empty.  This module has the errors, the limits and the small checks
the others are built from.
-/

namespace Wrela.Validation

open Wrela.Source Wrela.TestModel Wrela.Flow

inductive ValidationError where
  | tooManyErrors (limit : UInt32)
  | unsupportedVersion (version : UInt32)
  | missingImageName
  | nonDenseId (kind : String) (expected : ℕ) (actual : UInt32)
  | unknownFunction (function : FunctionId)
  | unknownBlock (function : FunctionId) (block : BlockId)
  | unknownValue (function : FunctionId) (value : ValueId)
  | unknownReference (kind : String) (id : UInt32)
  | valueDefinitionCount (function : FunctionId) (value : ValueId) (definitions : UInt8)
  | unreachableBlock (function : FunctionId) (block : BlockId)
  | nonDominatingValueUse (function : FunctionId) (value : ValueId) (block : BlockId)
      (instruction : Option InstructionId)
  | conflictingParallelEdgeArguments (function : FunctionId) (source target : BlockId)
  | terminatorTypeMismatch (function : FunctionId) (block : BlockId)
  | duplicateSwitchCase (function : FunctionId) (block : BlockId) (value : BitVec 128)
  | switchCaseOutOfRange (function : FunctionId) (block : BlockId) (value : BitVec 128)
      (bits : Option UInt16)
  | tailCallResultMismatch (caller callee : FunctionId)
  | invalidRecord (kind : String) (id : UInt32)
  | nonCanonicalReferences (kind : String) (owner : UInt32)
  | callArity (caller callee : FunctionId) (expected actual : ℕ)
  | callTypeMismatch (caller callee : FunctionId)
  | callResultMismatch (caller callee : FunctionId)
  | edgeArity (function : FunctionId) (target : BlockId) (expected actual : ℕ)
  | edgeTypeMismatch (function : FunctionId) (target : BlockId)
  | returnArity (function : FunctionId) (expected actual : ℕ)
deriving DecidableEq

abbrev Report := List ValidationError

structure ValidationLimits where
  arenaRecords : UInt64
  modelEdges : UInt64
  payloadBytes : UInt64
  validationWork : UInt64
  errors : UInt32
  testPlan : TestPlanLimits

def ValidationLimits.standard : ValidationLimits where
  arenaRecords := 256000000
  modelEdges := 1000000000
  payloadBytes := 4 * 1024 * 1024 * 1024
  validationWork := 1100000000000
  errors := 100000
  testPlan := .standard

def ValidationLimits.isValid (limits : ValidationLimits) : Bool :=
  limits.arenaRecords > 0 && limits.arenaRecords ≤ 0xffffffff && limits.modelEdges > 0 &&
    limits.payloadBytes > 0 && limits.validationWork > 0 && limits.errors > 0 &&
    limits.testPlan.isValid

inductive ValidationFailure where
  | invalidLimits
  | resourceLimit (resource : String) (limit : UInt64)
  | invalid (errors : Report)
deriving DecidableEq

/-- What is kept of a report: once it would reach the limit, the last entry says so instead. -/
def Report.retain (limit : UInt32) (report : Report) : Report :=
  if report.length < limit.toNat then report
  else report.take (limit.toNat - 1) ++ [.tooManyErrors limit]

theorem Report.retain_eq_nil {limit : UInt32} {report : Report} (hlimit : limit > 0) :
    report.retain limit = [] ↔ report = [] := by
  unfold Report.retain
  split
  · rfl
  · rename_i hlong
    have hpos : 0 < limit.toNat := hlimit
    constructor
    · intro h
      simp at h
    · rintro rfl
      exact absurd hpos hlong

/-- Report `error` when something is wrong. -/
def reportIf (bad : Bool) (error : ValidationError) : Report := if bad then [error] else []

@[simp]
theorem reportIf_eq_nil {bad : Bool} {error : ValidationError} :
    reportIf bad error = [] ↔ bad = false := by
  cases bad <;> simp [reportIf]

def requireId (kind : String) (id : UInt32) (length : ℕ) : Report :=
  reportIf (id.toNat ≥ length) (.unknownReference kind id)

@[simp]
theorem requireId_eq_nil {kind : String} {id : UInt32} {length : ℕ} :
    requireId kind id length = [] ↔ id.toNat < length := by
  simp [requireId]

def checkDense (kind : String) (ids : List UInt32) : Report :=
  ids.zipIdx.flatMap fun (actual, expected) ↦
    reportIf (actual.toNat != expected) (.nonDenseId kind expected actual)

/-- An arena passes when every record sits at the position its identifier names. -/
theorem checkDense_eq_nil :
    checkDense kind ids = [] ↔
      ∀ (index : ℕ) (id : UInt32), ids[index]? = some id → id.toNat = index := by
  simp only [checkDense, List.flatMap_eq_nil_iff, reportIf_eq_nil, bne_eq_false_iff_eq]
  constructor
  · intro h index id hid
    exact h (id, index) (List.mem_zipIdx_iff_getElem?.2 hid)
  · rintro h ⟨id, index⟩ hmem
    exact h index id (List.mem_zipIdx_iff_getElem?.1 hmem)

/-- Identifiers listed in strictly increasing order. -/
def canonicalIds (ids : List UInt32) : Bool := decide (ids.IsChain (· < ·))

def requireCanonicalIds (kind : String) (owner : UInt32) (ids : List UInt32) : Report :=
  reportIf (!canonicalIds ids) (.nonCanonicalReferences kind owner)

def sortedUniqueStrings (values : List String) : Bool :=
  values.all (!isBlank ·) &&
    decide (values.IsChain fun left right ↦ Wire.utf8Bytes left < Wire.utf8Bytes right)

def joinedNameMatches (joined base suffix : String) : Bool := joined == base ++ suffix

def validSourceSpan (module : FlowWir) (span : Span) : Bool :=
  span.file.val < module.sourceSummary.hirFiles && span.range.start ≤ span.range.stop

def validateOwner (module : FlowWir) : PlanOwner → Report
  | .runtime | .bakedArtifact _ => []
  | .actor id => requireId "owner actor" id.val module.actors.length
  | .task id => requireId "owner task" id.val module.tasks.length
  | .device id => requireId "owner device" id.val module.devices.length
  | .pool id => requireId "owner pool" id.val module.pools.length

structure ResourceMeter where
  edges : ℕ
  payloadBytes : ℕ
  work : ℕ

def ResourceMeter.new : ResourceMeter := ⟨0, 0, 0⟩

abbrev Metered := StateT ResourceMeter (Except ValidationFailure)

namespace Metered

variable (limits : ValidationLimits)

/-- Add to one of the counters, refused above its limit. -/
def refuseAbove (resource : String) (limit : UInt64) (actual : ℕ) : Metered Unit := fun meter ↦
  if actual > limit.toNat then .error (.resourceLimit resource limit) else .ok ((), meter)

def edges (amount : ℕ) : Metered Unit := do
  let meter ← get
  refuseAbove "model edges" limits.modelEdges (meter.edges + amount)
  set { meter with edges := meter.edges + amount }

def arena (resource : String) (length : ℕ) : Metered Unit := do
  refuseAbove resource limits.arenaRecords length
  edges limits length

def edgeSlice {α : Type} (values : List α) : Metered Unit := do
  refuseAbove "model edges" limits.modelEdges values.length
  edges limits values.length

def payload (length : ℕ) : Metered Unit := do
  let meter ← get
  refuseAbove "payload bytes" limits.payloadBytes (meter.payloadBytes + length)
  set { meter with payloadBytes := meter.payloadBytes + length }

def text (value : String) : Metered Unit := payload limits (byteLength value)

def work (amount : ℕ) : Metered Unit := do
  let meter ← get
  refuseAbove "validation work" limits.validationWork (meter.work + amount)
  set { meter with work := meter.work + amount }

def workProduct (left right : ℕ) : Metered Unit := work limits (left * right)

def immediate : Immediate → Metered Unit
  | .integer _ bytes | .bytes bytes => payload limits bytes.length
  | _ => pure ()

/-- Charge an operation and count the values it reads. -/
def operation (operation : FlowOperation) : Metered ℕ := do
  match operation with
  | .immediate value => immediate limits value
  | .makeAggregate _ fields => edgeSlice limits fields
  | .formatBoundedString _ parts => do
    edgeSlice limits parts
    parts.forM fun part ↦
      match part with
      | .text value _ => text limits value
      | _ => pure ()
  | .call _ arguments | .asyncCall _ arguments _ | .actorCommit _ arguments
  | .taskStart _ _ arguments => edgeSlice limits arguments
  | .assert _ failure => do
    text limits failure.expression
    failure.message.forM (text limits)
  | _ => pure ()
  pure operation.values.length

/-- Charge a terminator and count its edges and the values it reads. -/
def terminator (terminator : Terminator) : Metered (ℕ × ℕ) := do
  match terminator with
  | .jump _ arguments | .return arguments | .tailCall _ arguments => edgeSlice limits arguments
  | .branch _ _ thenArguments _ elseArguments => do
    edgeSlice limits thenArguments
    edgeSlice limits elseArguments
  | .switch _ cases _ defaultArguments => do
    edgeSlice limits cases
    edgeSlice limits defaultArguments
    cases.forM fun case ↦ edgeSlice limits case.arguments
  | .suspend _ _ _ | .trap _ _ | .unreachable => pure ()
  pure (terminator.edges.length, terminator.values.length)

def block (block : Block) : Metered (ℕ × ℕ × ℕ) := do
  edgeSlice limits block.parameters
  arena limits "block instructions" block.instructions.length
  let uses ← block.instructions.mapM fun instruction ↦ do
    edgeSlice limits instruction.results
    operation limits instruction.operation
  let (blockEdges, blockUses) ← terminator limits block.terminator
  pure (block.instructions.length, blockEdges, uses.sum + blockUses)

def function (function : FlowFunction) : Metered Unit := do
  text limits function.name
  edgeSlice limits function.parameters
  edgeSlice limits function.resultTypes
  edgeSlice limits function.proofs
  arena limits "function values" function.values.length
  arena limits "function blocks" function.blocks.length
  function.values.forM fun value ↦ value.sourceName.forM (text limits)
  let counts ← function.blocks.mapM (block limits)
  let instructionCount := (counts.map fun count ↦ count.1).sum
  let cfgEdges := (counts.map fun count ↦ count.2.1).sum
  let valueUses := (counts.map fun count ↦ count.2.2).sum
  let blocks := function.blocks.length
  work limits instructionCount
  workProduct limits blocks (blocks + cfgEdges)
  workProduct limits valueUses (max blocks 1)

def typeKind : FlowTypeKind → Metered Unit
  | .tuple items | .struct items => edgeSlice limits items
  | .enum variants => do
    edgeSlice limits variants
    variants.forM (edgeSlice limits)
  | .function parameters _ => edgeSlice limits parameters
  | .opaqueTarget name => text limits name
  | _ => pure ()

def compiledTestGroup (group : FullImageTestGroup) : Metered Unit := do
  edgeSlice limits group.tests
  text limits group.name
  match group.root with
  | .generatedHarness harnessName => text limits harnessName
  | .declared imageName _ => text limits imageName
  group.tests.forM fun test ↦ do
    text limits test.descriptor.name
    edgeSlice limits test.assertions
    test.assertions.forM fun assertion ↦ do
      text limits assertion.expression
      assertion.message.forM (text limits)

def model (module : FlowWir) : Metered Unit := do
  text limits module.name
  text limits module.build.target.name
  arena limits "types" module.types.length
  arena limits "globals" module.globals.length
  arena limits "functions" module.functions.length
  arena limits "actors" module.actors.length
  arena limits "tasks" module.tasks.length
  arena limits "devices" module.devices.length
  arena limits "pools" module.pools.length
  arena limits "regions" module.regions.length
  arena limits "activations" module.activations.length
  arena limits "schedulers" module.schedulers.length
  arena limits "proofs" module.proofs.length
  arena limits "checkpoints" module.checkpoints.length
  arena limits "tests" module.tests.length
  edgeSlice limits module.startupOrder
  edgeSlice limits module.shutdownOrder
  module.schedulers.forM fun scheduler ↦ do
    edgeSlice limits scheduler.actors
    edgeSlice limits scheduler.tasks
  module.compiledTestGroup.forM (compiledTestGroup limits)
  module.types.forM fun ty ↦ do
    ty.name.forM (text limits)
    typeKind limits ty.kind
  module.globals.forM fun global ↦ do
    text limits global.name
    immediate limits global.initializer
  module.functions.forM (function limits)
  module.actors.forM fun actor ↦ do
    text limits actor.name
    edgeSlice limits actor.messageTypes
    edgeSlice limits actor.turnFunctions
  module.tasks.forM fun task ↦ text limits task.name
  module.devices.forM fun device ↦ do
    text limits device.name
    text limits device.targetBinding
    edgeSlice limits device.requiredFeatures
    edgeSlice limits device.optionalFeatures
    edgeSlice limits device.interruptFunctions
    (device.requiredFeatures ++ device.optionalFeatures).forM (text limits)
  module.pools.forM fun pool ↦ do
    text limits pool.name
    edgeSlice limits pool.devices
  module.regions.forM fun region ↦ text limits region.name
  module.proofs.forM fun proof ↦ do
    text limits proof.subject
    edgeSlice limits proof.sources
    edgeSlice limits proof.dependsOn
    edgeSlice limits proof.explanation
    proof.explanation.forM (text limits)
  module.tests.forM fun test ↦ text limits test.name

end Metered

def validateModelResources (limits : ValidationLimits) (module : FlowWir) :
    Except ValidationFailure Unit := do
  let _ ← (Metered.model limits module).run .new
  pure ()

variable (module : FlowWir)

/-- The scalar kinds an enum payload may have. -/
def isPayloadScalar : FlowTypeKind → Bool
  | .scalar .bool | .scalar .float32 | .scalar .float64 => true
  | .scalar (.integer _ bits) => bits == 8 || bits == 16 || bits == 32 || bits == 64 || bits == 128
  | _ => false

def u64Kind : FlowTypeKind := .scalar (.integer false 64)

/-- The payload type shared by the variants that carry one. -/
def commonPayload (payload : Option TypeId) : List (List TypeId) → Option (Option TypeId)
  | [] => some payload
  | [] :: variants => commonPayload payload variants
  | [candidate] :: variants =>
    if payload.all (· == candidate) then commonPayload (some candidate) variants else none
  | _ :: _ => none

def canonicalEnumPayload (variants : List (List TypeId)) : Option TypeId :=
  if variants.isEmpty || variants.length > 256 then none
  else do
    let payload ← commonPayload none variants
    payload.filter fun payload ↦ (payload.lookup module.types).any fun record ↦
      record.copyable && !record.strictLinear && isPayloadScalar record.kind

/-- A copyable scalar record stored under its own identifier. -/
def exactScalar (ty : TypeId) : Bool :=
  (ty.lookup module.types).any fun record ↦
    record.id == ty && record.copyable && !record.strictLinear && isPayloadScalar record.kind

def exactU64 (ty : TypeId) : Bool :=
  (ty.lookup module.types).any fun record ↦
    record.id == ty && record.copyable && !record.strictLinear && record.kind == u64Kind

/-- The empty struct of one asynchronous exit cause. -/
def exactCause (ty : TypeId) (name : String) : Bool :=
  (ty.lookup module.types).any fun record ↦
    record.id == ty && record.copyable && !record.strictLinear && record.name == some name &&
      record.kind == .struct []

def exactAsyncExitEnumProfile : List (List TypeId) → Bool
  | [[operation], [cancelled], [deadlineRejected], [deadlineExceeded]] =>
    exactU64 module operation && cancelled != deadlineRejected && cancelled != deadlineExceeded &&
      deadlineRejected != deadlineExceeded && exactCause module cancelled "Cancelled" &&
      exactCause module deadlineRejected "DeadlineRejected" &&
      exactCause module deadlineExceeded "DeadlineExceeded"
  | _ => false

def exactAsyncOutcomeEnumProfile : List (List TypeId) → Bool
  | [[ok], [exit]] =>
    exactU64 module ok && (exit.lookup module.types).any fun record ↦
      record.id == exit && record.name == some "AsyncExit" &&
        match record.kind with
        | .enum variants => exactAsyncExitEnumProfile module variants
        | _ => false
  | _ => false

def exactHeterogeneousScalarEnumProfile : List (List TypeId) → Bool
  | [[left], [right]] => left != right && exactScalar module left && exactScalar module right
  | _ => false

def flatNominalEnumPayload (ty : TypeId) : Bool :=
  (ty.lookup module.types).any fun record ↦
    record.id == ty && record.name.isSome && record.copyable && !record.strictLinear &&
      match record.kind with
      | .struct fields =>
        !fields.isEmpty && fields.all fun field ↦ (field.lookup module.types).any fun field ↦
          field.copyable && !field.strictLinear && isPayloadScalar field.kind
      | _ => false

def exactFixedFlatEnumProfile : List (List TypeId) → Bool
  | [[left], [right]] =>
    left != right &&
      ((flatNominalEnumPayload module left && exactScalar module right) ||
        (exactScalar module left && flatNominalEnumPayload module right))
  | _ => false

def canonicalEnumShape (variants : List (List TypeId)) : Bool :=
  !variants.isEmpty && variants.length ≤ 256 &&
    (variants.all List.isEmpty || (canonicalEnumPayload module variants).isSome ||
      exactFixedFlatEnumProfile module variants ||
      exactHeterogeneousScalarEnumProfile module variants ||
      exactAsyncExitEnumProfile module variants || exactAsyncOutcomeEnumProfile module variants)

/-- The value of a decimal numeral. -/
def decimalValue (digits : List Char) : ℕ :=
  digits.foldl (fun value digit ↦ 10 * value + (digit.toNat - 48)) 0

def canonicalStaticBytesName (name : Option String) (bytes : UInt64) : Bool :=
  name.any fun name ↦
    let front := "Static[Bytes[".toList
    let back := "]]".toList
    let text := name.toList
    let extent := (text.drop front.length).dropLast.dropLast
    text == front ++ extent ++ back && !extent.isEmpty &&
      (extent == ['0'] || extent.head? != some '0') && extent.all Char.isDigit &&
      decimalValue extent == bytes.toNat

def requireType (ty : TypeId) : Report := requireId "type reference" ty.val module.types.length

def validateTypeReferences (ty : FlowType) : Report :=
  match ty.kind with
  | .tuple types | .struct types => types.flatMap (requireType module)
  | .array element _ | .activation element => requireType module element
  | .enum variants =>
    variants.flatten.flatMap (requireType module) ++
      reportIf
        (!(ty.copyable && !ty.strictLinear && canonicalEnumShape module variants &&
          (!exactAsyncExitEnumProfile module variants || ty.name == some "AsyncExit") &&
          (!exactAsyncOutcomeEnumProfile module variants || ty.name == some "Result")))
        (.invalidRecord "closed enum type" ty.id.val)
  | .function parameters result =>
    parameters.flatMap (requireType module) ++ requireType module result
  | .regionHandle id => requireId "region type" id.val module.regions.length
  | .poolHandle id => requireId "pool type" id.val module.pools.length
  | .actorHandle id => requireId "actor type" id.val module.actors.length
  | .taskHandle id => requireId "task type" id.val module.tasks.length
  | .receipt payload error => requireType module payload ++ requireType module error
  | .dmaToken pool payload =>
    requireId "DMA pool type" pool.val module.pools.length ++ requireType module payload
  | .unit | .scalar _ | .staticString _ | .staticBytes _ | .boundedString _ | .reservation
  | .opaqueTarget _ => []

def isActivationKind : FlowTypeKind → Bool
  | .activation _ => true
  | _ => false

def canonicalText (ty : FlowType) : Bool :=
  match ty.kind with
  | .scalar .character | .staticString _ => ty.copyable && !ty.strictLinear
  | .boundedString capacity => capacity > 0 && !ty.copyable && !ty.strictLinear
  | _ => true

def canonicalStaticBytes (ty : FlowType) : Bool :=
  match ty.kind with
  | .staticBytes bytes =>
    ty.copyable && !ty.strictLinear && canonicalStaticBytesName ty.name bytes
  | _ => true

def validateType (ty : FlowType) : Report :=
  validateTypeReferences module ty ++
    reportIf (isActivationKind ty.kind && (ty.copyable || !ty.strictLinear))
      (.invalidRecord "activation type" ty.id.val) ++
    reportIf (ty.kind == .reservation && (ty.copyable || !ty.strictLinear))
      (.invalidRecord "actor reservation type" ty.id.val) ++
    reportIf (!canonicalText ty) (.invalidRecord "bounded text type" ty.id.val) ++
    reportIf (!canonicalStaticBytes ty) (.invalidRecord "static bytes type" ty.id.val)

/-- Activation types follow every other type, ordered by their results. -/
def validateActivationTypeOrder (sawActivation : Bool) (prior : Option TypeId) :
    List FlowType → Report
  | [] => []
  | ty :: types =>
    match ty.kind with
    | .activation result =>
      reportIf
        (!(prior.all (·.val < result.val) &&
          (result.lookup module.types).any fun record ↦ !isActivationKind record.kind))
        (.invalidRecord "activation type order" ty.id.val) ++
        validateActivationTypeOrder true (some result) types
    | _ =>
      reportIf sawActivation (.invalidRecord "activation type order" ty.id.val) ++
        validateActivationTypeOrder sawActivation prior types

def validateImmediate : Immediate → Report
  | .zero ty => requireId "immediate type" ty.val module.types.length
  | .globalAddress id => requireId "immediate global" id.val module.globals.length
  | .functionAddress id => requireId "immediate function" id.val module.functions.length
  | .unit | .bool _ | .character _ | .integer _ _ | .float32 _ | .float64 _ | .bytes _ => []

end Wrela.Validation
