import Mathlib.Tactic.MkIffOfInductiveProp
import Wrela.Validation.Plans

/-!
# Modules

The whole validator: the resource preflight, then every check in turn.  A module that passes is a
`ValidatedFlowWir`, which can only be made that way.
-/

namespace Wrela.Validation

open Wrela.Source Wrela.BuildModel Wrela.TestModel Wrela.Flow

variable (module : FlowWir)

def semanticFunction : FunctionOrigin → UInt32
  | .sourceSemantic semanticFunction => semanticFunction
  | .generatedImageEntry semanticFunction _ => semanticFunction
  | .generatedTestHarness semanticFunction _ => semanticFunction
  | .generatedAsyncState semanticFunction _ => semanticFunction
  | .generatedCleanup semanticFunction _ => semanticFunction

def validOrigin (function : FlowFunction) : Bool :=
  match function.origin with
  | .sourceSemantic _ => function.source.isSome && function.role != .imageEntry
  | .generatedImageEntry _ constructor =>
    function.source.isNone && function.role == .imageEntry &&
      constructor < module.sourceSummary.hirDeclarations
  | .generatedTestHarness _ _ => function.source.isNone && function.role == .imageEntry
  | .generatedAsyncState _ _ | .generatedCleanup _ _ => function.role != .imageEntry

def roleColorMatches (function : FlowFunction) : Bool :=
  match function.role with
  | .actorTurn _ | .taskEntry _ => function.color == .async
  | .isr _ => function.color == .isr
  | .ordinary => function.color != .isr
  | .cleanup | .imageEntry | .test => function.color == .sync

def validateFunctionRecord (function : FlowFunction) : Report :=
  reportIf
    (isBlank function.name ||
      semanticFunction function.origin ≥ module.sourceSummary.semanticFunctions ||
      !validOrigin module function || !roleColorMatches function ||
      function.source.any (!validSourceSpan module ·))
    (.invalidRecord "function" function.id.val)

def validateValue (value : Value) : Report :=
  requireId "value type" value.ty.val module.types.length ++
    reportIf (value.source.any (!validSourceSpan module ·))
      (.invalidRecord "value source" value.id.val)

def validateFunctionRole (function : FlowFunction) : Report :=
  match function.role with
  | .actorTurn id => requireId "function actor role" id.val module.actors.length
  | .taskEntry id => requireId "function task role" id.val module.tasks.length
  | .isr id => requireId "function ISR role" id.val module.devices.length
  | .ordinary | .cleanup | .imageEntry | .test => []

def validateResultType (function : FlowFunction) (result : TypeId) : Report :=
  requireId "function result type" result.val module.types.length ++
    reportIf ((result.lookup module.types).any (isActivationKind ·.kind))
      (.invalidRecord "activation function result" function.id.val)

def defineValue (function : FlowFunction) (value : ValueId) : Report :=
  reportIf (value.index ≥ function.values.length) (.unknownValue function.id value)

def validateInstruction (function : FlowFunction) (instruction : Instruction) : Report :=
  reportIf (instruction.source.any (!validSourceSpan module ·))
    (.invalidRecord "instruction source" instruction.id.val) ++
  instruction.results.flatMap (defineValue function) ++
  validateOperation module function instruction

def validateBlock (function : FlowFunction) (block : Block) : Report :=
  reportIf (block.source.any (!validSourceSpan module ·))
    (.invalidRecord "block source" block.id.val) ++
  block.parameters.flatMap (defineValue function) ++
  block.instructions.flatMap (validateInstruction module function) ++
  validateTerminator module function block.terminator

/-- Every value a function defines, in program order. -/
def definedValues (function : FlowFunction) : List ValueId :=
  function.parameters ++ function.blocks.flatMap fun block ↦
    block.parameters ++ block.instructions.flatMap Instruction.results

def validateDefinitionCounts (function : FlowFunction) : Report :=
  (List.range function.values.length).flatMap fun index ↦
    let definitions := ((definedValues function).map Id.index).count index
    reportIf (definitions != 1)
      (.valueDefinitionCount function.id ⟨UInt32.ofNat index⟩ (UInt8.ofNat (min definitions 255)))

def validateFunction (function : FlowFunction) : Report :=
  validateFunctionRecord module function ++
    checkDense "value" (function.values.map (·.id.val)) ++
    checkDense "block" (function.blocks.map (·.id.val)) ++
    function.values.flatMap (validateValue module) ++
    validateFunctionRole module function ++
    function.resultTypes.flatMap (validateResultType module function) ++
    (function.proofs.flatMap fun proof ↦
      requireId "function proof" proof.val module.proofs.length) ++
    requireCanonicalIds "function proofs" function.id.val (function.proofs.map Id.val) ++
    reportIf (function.entry.index ≥ function.blocks.length)
      (.unknownBlock function.id function.entry) ++
    function.parameters.flatMap (defineValue function) ++
    function.blocks.flatMap (validateBlock module function) ++
    checkDense "instruction"
      (function.blocks.flatMap fun block ↦ block.instructions.map (·.id.val)) ++
    validateDefinitionCounts function ++
    validateActivationContract module function ++
    validateControlFlowAndSsa module function

/-! ## Modules -/

def validateHeader : Report :=
  reportIf (module.version != flowWirVersion) (.unsupportedVersion module.version) ++
  reportIf (isBlank module.name) .missingImageName ++
  reportIf
    (module.sourceSummary.semanticWirVersion != supportedSemanticWirVersion ||
      module.sourceSummary.hirFiles == 0 || module.sourceSummary.hirDeclarations == 0 ||
      module.sourceSummary.reachableDeclarations > module.sourceSummary.hirDeclarations.toUInt64)
    (.invalidRecord "source summary" 0)

def validateArenas : Report :=
  checkDense "type" (module.types.map (·.id.val)) ++
    checkDense "global" (module.globals.map (·.id.val)) ++
    checkDense "function" (module.functions.map (·.id.val)) ++
    checkDense "proof" (module.proofs.map (·.id.val)) ++
    checkDense "actor" (module.actors.map (·.id.val)) ++
    checkDense "task" (module.tasks.map (·.id.val)) ++
    checkDense "device" (module.devices.map (·.id.val)) ++
    checkDense "pool" (module.pools.map (·.id.val)) ++
    checkDense "region" (module.regions.map (·.id.val)) ++
    checkDense "activation" (module.activations.map (·.id.val)) ++
    checkDense "checkpoint" (module.checkpoints.map (·.id.val)) ++
    checkDense "test" (module.tests.map (·.id.val))

def validateGlobal (global : FlowGlobal) : Report :=
  requireId "global type" global.ty.val module.types.length ++
    validateImmediate module global.initializer ++ validateOwner module global.owner

/-- The semantic functions of the module in order, without the states and cleanups generated from
them. -/
def baseSemanticFunctions : List UInt32 :=
  module.functions.filterMap fun function ↦
    match function.origin with
    | .generatedAsyncState _ _ | .generatedCleanup _ _ => none
    | origin => some (semanticFunction origin)

def validateSemanticProvenance : Report :=
  reportIf
    (!((baseSemanticFunctions module).map UInt32.toNat ==
        List.range (baseSemanticFunctions module).length &&
      (baseSemanticFunctions module).length == module.sourceSummary.semanticFunctions.toNat))
    (.invalidRecord "semantic function provenance" 0)

/-- Everything but the compiled test group. -/
def validatePlans : Report :=
  validateImageEntryRole module ++ module.actors.flatMap (validateActor module) ++
    module.tasks.flatMap (validateTask module) ++ module.devices.flatMap (validateDevice module) ++
    module.pools.flatMap (validatePool module) ++ module.regions.flatMap (validateRegion module) ++
    validateActivationPlans module ++ validateActorCapacityContract module ++
    validateStaticSupervisionContract module ++ module.proofs.flatMap (validateProof module) ++
    module.checkpoints.flatMap (validateCheckpoint module) ++
    module.tests.flatMap (validateTest module) ++ validateTestFunctionSet module

def validateTypesAndGlobals : Report :=
  module.types.flatMap (validateType module) ++
    validateActivationTypeOrder module false none module.types ++
    module.globals.flatMap (validateGlobal module)

def validateOrders : Report :=
  validateSchedulerOwnership module ++
    validateImageOrder module module.startupOrder (imageOwners module) "startup ownership order" ++
    validateImageOrder module module.shutdownOrder (imageOwners module).reverse
      "shutdown ownership order" ++
    reportIf (module.peakBytes < module.staticBytes) (.invalidRecord "image memory plan" 0)

/-- The checks of a module, given whether its compiled test group matches. -/
def moduleReport (groupMatches : Bool) : Report :=
  validateHeader module ++ validateArenas module ++ validateTypesAndGlobals module ++
    module.functions.flatMap (validateFunction module) ++ validateActorMessageContract module ++
    validateSemanticProvenance module ++
    reportIf (module.imageEntry.index ≥ module.functions.length)
      (.unknownFunction module.imageEntry) ++
    validatePlans module ++
    reportIf (!groupMatches)
      (.invalidRecord "compiled test-group binding" (module.compiledTestGroup.elim 0 (·.id.val))) ++
    validateOrders module

/-- The longest scratch list the checks of a module build. -/
def scratchEntries : ℕ :=
  (module.functions.map controlFlowScratch).foldl max
    (max (imageOwners module).length (closureScratch module))

def validateModule (limits : ValidationLimits) : Except ValidationFailure Report := do
  let groupMatches ← compiledTestGroupMatches module limits.testPlan
  if scratchEntries module > limits.modelEdges.toNat then
    .error (.resourceLimit "validation scratch entries" limits.modelEdges)
  else .ok ((moduleReport module groupMatches).retain limits.errors)

/-- The decision of the validator under explicit limits. -/
def checkWithLimits (limits : ValidationLimits) : Except ValidationFailure Unit := do
  if !limits.isValid then .error .invalidLimits
  else do
    validateModelResources limits module
    let errors ← validateModule module limits
    if errors.isEmpty then .ok () else .error (.invalid errors)

/-- What acceptance means: nothing was reported and no limit was reached. -/
structure Accepts (limits : ValidationLimits) : Prop where
  limitsValid : limits.isValid = true
  resources : validateModelResources limits module = .ok ()
  group : compiledTestGroupMatches module limits.testPlan = .ok true
  scratch : scratchEntries module ≤ limits.modelEdges.toNat
  report : moduleReport module true = []

theorem moduleReport_false_ne_nil : moduleReport module false ≠ [] := by
  simp [moduleReport]

variable {limits : ValidationLimits}

theorem validateModule_eq_nil (hlimits : limits.isValid = true) :
    validateModule module limits = .ok [] ↔
      compiledTestGroupMatches module limits.testPlan = .ok true ∧
        scratchEntries module ≤ limits.modelEdges.toNat ∧ moduleReport module true = [] := by
  have herrors : limits.errors > 0 := by
    simp only [ValidationLimits.isValid, Bool.and_eq_true, decide_eq_true_eq] at hlimits
    exact hlimits.1.2
  rw [validateModule, Checked.bind_eq_ok]
  constructor
  · rintro ⟨groupMatches, hgroup, hreport⟩
    split at hreport
    · cases hreport
    · rename_i hscratch
      have hnil := (Report.retain_eq_nil herrors).1 (Except.ok.inj hreport)
      cases groupMatches with
      | false => exact absurd hnil (moduleReport_false_ne_nil module)
      | true => exact ⟨hgroup, not_lt.1 hscratch, hnil⟩
  · rintro ⟨hgroup, hscratch, hreport⟩
    refine ⟨true, hgroup, ?_⟩
    rw [if_neg (not_lt.2 hscratch), (Report.retain_eq_nil herrors).2 hreport]

theorem checkWithLimits_eq_ok : checkWithLimits module limits = .ok () ↔ Accepts module limits := by
  rw [checkWithLimits]
  constructor
  · intro h
    split at h
    · cases h
    · rename_i hlimits
      have hvalid : limits.isValid = true := by simpa using hlimits
      obtain ⟨hresources, hmodule⟩ := Checked.unit_bind_eq_ok.1 h
      obtain ⟨errors, herrors, hempty⟩ := Checked.bind_eq_ok.1 hmodule
      split at hempty
      · rename_i hnil
        rw [List.isEmpty_iff.1 hnil] at herrors
        obtain ⟨hgroup, hscratch, hreport⟩ := (validateModule_eq_nil module hvalid).1 herrors
        exact ⟨hvalid, hresources, hgroup, hscratch, hreport⟩
      · cases hempty
  · intro h
    have hmodule := (validateModule_eq_nil module h.limitsValid).2 ⟨h.group, h.scratch, h.report⟩
    simp [h.limitsValid, h.resources, hmodule]

theorem Accepts.version_eq (h : Accepts module limits) : module.version = flowWirVersion := by
  have hreport := h.report
  simp only [moduleReport, validateHeader, List.append_eq_nil_iff, reportIf_eq_nil,
    bne_eq_false_iff_eq] at hreport
  tauto

/-- A module that some limits let through. -/
structure ValidatedFlowWir where
  wir : FlowWir
  validated : ∃ limits, checkWithLimits wir limits = .ok ()

def validateWithLimits (limits : ValidationLimits) : Except ValidationFailure ValidatedFlowWir :=
  match h : checkWithLimits module limits with
  | .ok () => .ok ⟨module, limits, h⟩
  | .error failure => .error failure

theorem validateWithLimits_eq_ok :
    validateWithLimits module limits = .ok validated ↔
      Accepts module limits ∧ validated.wir = module := by
  rw [← checkWithLimits_eq_ok]
  unfold validateWithLimits
  constructor
  · intro h
    split at h
    · rename_i hcheck
      cases h
      exact ⟨hcheck, rfl⟩
    · cases h
  · rintro ⟨hcheck, rfl⟩
    split
    · rfl
    · rename_i failure hfailure
      rw [hcheck] at hfailure
      cases hfailure

theorem ValidatedFlowWir.accepts (validated : ValidatedFlowWir) :
    ∃ limits, Accepts validated.wir limits :=
  validated.validated.imp fun _ h ↦ (checkWithLimits_eq_ok validated.wir).1 h

def zeroDigest : Sha256Digest := .repeated 0

def idleBuild : BuildIdentity where
  compiler := zeroDigest
  language := .design01
  target := ⟨"bare", by decide⟩
  targetPackage := zeroDigest
  standardLibrary := zeroDigest
  sourceGraph := zeroDigest
  request := zeroDigest
  profile := zeroDigest

/-- The smallest image: an entry function that returns at once. -/
def idleImage : FlowWir where
  version := flowWirVersion
  name := "idle"
  build := idleBuild
  sourceSummary := ⟨supportedSemanticWirVersion, 1, 1, 1, 0, 0, 0⟩
  types := []
  globals := []
  functions :=
    [{ id := ⟨0⟩, name := "entry", origin := .generatedImageEntry 0 0, role := .imageEntry,
       color := .sync, parameters := [], resultTypes := [], values := [],
       blocks := [⟨⟨0⟩, [], [], .return [], none⟩], entry := ⟨0⟩, stackBound := 0, frameBound := 0,
       proofs := [], source := none }]
  actors := []
  tasks := []
  devices := []
  pools := []
  regions := []
  activations := []
  schedulers := []
  proofs := []
  checkpoints := []
  tests := []
  compiledTestGroup := none
  startupOrder := [.runtime]
  shutdownOrder := [.runtime]
  imageEntry := ⟨0⟩
  staticBytes := 0
  peakBytes := 0

theorem checkWithLimits_idleImage : checkWithLimits idleImage .standard = .ok () := by
  decide +kernel

def validatedIdleImage : ValidatedFlowWir := ⟨idleImage, .standard, checkWithLimits_idleImage⟩

def guardSpan : Span := ⟨⟨0⟩, ⟨0, 1⟩⟩

def guardProof (id : UInt32) (kind : ProofKind) (subject : String) (dependsOn : List ProofId)
    (bound : Option UInt64) : Proof :=
  ⟨⟨id⟩, kind, subject, [guardSpan], dependsOn, bound, [subject]⟩

/-- One actor whose turn `poke` would send `tick` to itself, but for a guard that is never true. -/
def guardedImage : FlowWir :=
  { idleImage with
    name := "guarded"
    sourceSummary := ⟨supportedSemanticWirVersion, 3, 1, 1, 0, 0, 0⟩
    types :=
      [⟨⟨0⟩, u64Kind, none, true, false⟩, ⟨⟨1⟩, .scalar .bool, none, true, false⟩,
        ⟨⟨2⟩, .reservation, none, false, true⟩]
    functions :=
      [{ id := ⟨0⟩, name := "entry", origin := .generatedImageEntry 0 0, role := .imageEntry,
         color := .sync, parameters := [], resultTypes := [], values := [],
         blocks := [⟨⟨0⟩, [], [], .return [], none⟩], entry := ⟨0⟩, stackBound := 0,
         frameBound := 0, proofs := [⟨2⟩, ⟨3⟩, ⟨4⟩, ⟨5⟩, ⟨7⟩], source := none },
       { id := ⟨1⟩, name := "tick", origin := .sourceSemantic 1, role := .actorTurn ⟨0⟩,
         color := .async, parameters := [⟨0⟩], resultTypes := [],
         values := [⟨⟨0⟩, ⟨0⟩, none, none⟩],
         blocks := [⟨⟨0⟩, [], [⟨⟨0⟩, [], .mailboxReceive ⟨0⟩ ⟨1⟩, none⟩], .return [], none⟩],
         entry := ⟨0⟩, stackBound := 0, frameBound := 0, proofs := [], source := some guardSpan },
       { id := ⟨2⟩, name := "poke", origin := .sourceSemantic 2, role := .actorTurn ⟨0⟩,
         color := .async, parameters := [], resultTypes := [],
         values := [⟨⟨0⟩, ⟨1⟩, none, none⟩, ⟨⟨1⟩, ⟨2⟩, none, none⟩],
         blocks :=
           [⟨⟨0⟩, [], [⟨⟨0⟩, [⟨0⟩], .immediate (.bool false), none⟩],
              .branch ⟨0⟩ ⟨1⟩ [] ⟨2⟩ [], none⟩,
            ⟨⟨1⟩, [],
              [⟨⟨1⟩, [⟨1⟩], .actorReserve ⟨0⟩ ⟨1⟩ ⟨6⟩, some guardSpan⟩,
               ⟨⟨2⟩, [], .actorCommit ⟨1⟩ [], some guardSpan⟩],
              .return [], none⟩,
            ⟨⟨2⟩, [], [], .return [], none⟩],
         entry := ⟨0⟩, stackBound := 0, frameBound := 0, proofs := [⟨6⟩],
         source := some guardSpan }]
    actors := [⟨⟨0⟩, "clock", ⟨0⟩, 1, [], [⟨1⟩, ⟨2⟩], 0, none⟩]
    regions :=
      [⟨⟨0⟩, "clock.mailbox", .image, 16, 8, none, .actor ⟨0⟩, ⟨2⟩, guardSpan⟩,
        ⟨⟨1⟩, "clock.turn-frame", .taskFrame, 1, 8, none, .actor ⟨0⟩, ⟨3⟩, guardSpan⟩]
    schedulers := [⟨0, [⟨0⟩], []⟩]
    proofs :=
      [guardProof 0 .typeChecked "types" [] none, guardProof 1 .effectsAllowed "effects" [] none,
        guardProof 2 .capacityBound "mailbox" [] (some 1),
        guardProof 3 .capacityBound "turn frame" [] (some 1),
        guardProof 4 .waitGraphAcyclic "waits" [] none,
        { guardProof 5 .supervisionComplete "complete static actor/task parent topology" [⟨0⟩]
            (some 1) with explanation := [supervisionExplanation] },
        guardProof 6 .capacityBound "permit" [⟨2⟩] (some 1),
        { guardProof 7 .imageClosed "image" [⟨0⟩, ⟨1⟩, ⟨2⟩, ⟨3⟩, ⟨4⟩, ⟨5⟩] (some 17) with
          sources := [guardSpan, guardSpan] }]
    startupOrder := [.runtime, .actor ⟨0⟩]
    shutdownOrder := [.actor ⟨0⟩, .runtime]
    staticBytes := 17
    peakBytes := 17 }

theorem checkWithLimits_guardedImage : checkWithLimits guardedImage .standard = .ok () := by
  decide +kernel

open List

/-- Every check of a function passes. -/
@[mk_iff]
structure FunctionAccepted (module : FlowWir) (function : FlowFunction) : Prop where
  record : validateFunctionRecord module function = []
  valuesDense : checkDense "value" (function.values.map (·.id.val)) = []
  blocksDense : checkDense "block" (function.blocks.map (·.id.val)) = []
  values : ∀ value ∈ function.values, validateValue module value = []
  role : validateFunctionRole module function = []
  resultTypes : ∀ result ∈ function.resultTypes, validateResultType module function result = []
  proofs : ∀ proof ∈ function.proofs, requireId "function proof" proof.val module.proofs.length = []
  proofsCanonical :
    requireCanonicalIds "function proofs" function.id.val (function.proofs.map Id.val) = []
  entry : function.entry.index < function.blocks.length
  parameters : ∀ parameter ∈ function.parameters, defineValue function parameter = []
  blocks : ∀ block ∈ function.blocks, validateBlock module function block = []
  instructionsDense : checkDense "instruction"
    (function.blocks.flatMap fun block ↦ block.instructions.map (·.id.val)) = []
  definitionCounts : validateDefinitionCounts function = []
  activationContract : validateActivationContract module function = []
  controlFlow : validateControlFlowAndSsa module function = []

variable {module : FlowWir} {α : Type} {arena : Arena} {kind : String} {records : List α}

theorem validateFunction_eq_nil :
    validateFunction module function = [] ↔ FunctionAccepted module function := by
  simp only [validateFunction, append_eq_nil_iff, flatMap_eq_nil_iff, reportIf_eq_nil,
    decide_eq_false_iff_not, not_le, functionAccepted_iff, and_assoc]

/-- Every check of a module passes. -/
@[mk_iff]
structure ModuleAccepted (module : FlowWir) : Prop where
  header : validateHeader module = []
  arenas : validateArenas module = []
  typesAndGlobals : validateTypesAndGlobals module = []
  functions : ∀ function ∈ module.functions, FunctionAccepted module function
  messages : validateActorMessageContract module = []
  provenance : validateSemanticProvenance module = []
  imageEntry : module.imageEntry.index < module.functions.length
  plans : validatePlans module = []
  orders : validateOrders module = []

theorem moduleReport_eq_nil : moduleReport module true = [] ↔ ModuleAccepted module := by
  simp only [moduleReport, append_eq_nil_iff, flatMap_eq_nil_iff, reportIf_eq_nil,
    decide_eq_false_iff_not, not_le, validateFunction_eq_nil, Bool.not_true, and_true,
    moduleAccepted_iff, and_assoc]

theorem Accepts.accepted {limits : ValidationLimits}
    (haccepts : Accepts module limits) : ModuleAccepted module :=
  moduleReport_eq_nil.1 haccepts.report

/-- In a dense arena every record is the one its identifier names. -/
theorem lookup_of_dense
    {id : α → Id arena} (hdense : checkDense kind (records.map fun record ↦ (id record).val) = [])
    {record : α} (hmem : record ∈ records) : (id record).lookup records = some record := by
  obtain ⟨index, hindex⟩ := mem_iff_getElem?.1 hmem
  have hid : (id record).val.toNat = index :=
    checkDense_eq_nil.1 hdense index (id record).val (by rw [List.getElem?_map, hindex]; rfl)
  rw [Id.lookup, Id.index, hid, hindex]

/-- A record found under an identifier carries it. -/
theorem id_of_lookup
    {id : α → Id arena} (hdense : checkDense kind (records.map fun record ↦ (id record).val) = [])
    {named : Id arena} {record : α} (hlookup : named.lookup records = some record) :
    id record = named := by
  have hid : (id record).val.toNat = named.val.toNat :=
    checkDense_eq_nil.1 hdense named.index (id record).val (by
      rw [List.getElem?_map]
      exact congrArg (Option.map _) hlookup)
  have hval : (id record).val = named.val := UInt32.toNat_inj.1 hid
  cases hrecord : id record
  cases named
  rw [hrecord] at hval
  exact congrArg Id.mk hval

/-- The identifiers of a dense arena count its records. -/
theorem map_index_of_dense {id : α → Id arena}
    (hdense : checkDense kind (records.map fun record ↦ (id record).val) = []) :
    records.map (fun record ↦ (id record).index) = List.range records.length := by
  apply ext_getElem
  · rw [length_map, length_range]
  · intro index hleft hright
    rw [getElem_map, getElem_range]
    exact checkDense_eq_nil.1 hdense index _ (by
      rw [List.getElem?_map, List.getElem?_eq_getElem (by simpa using hleft)]
      rfl)

theorem ModuleAccepted.functionsDense (h : ModuleAccepted module) :
    checkDense "function" (module.functions.map (·.id.val)) = [] := by
  have harenas := h.arenas
  simp only [validateArenas, append_eq_nil_iff] at harenas
  exact harenas.1.1.1.1.1.1.1.1.1.2

end Wrela.Validation
