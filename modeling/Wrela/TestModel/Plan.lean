import Wrela.BuildModel.Profile
import Wrela.Wire.Checked

/-!
# Compiled test groups

One independently compiled full-image test group of a test plan, as it is embedded in a module.
-/

namespace Wrela.TestModel

open Wrela.Source Wrela.BuildModel

def maxRuntimeTestEvents : UInt32 := 1000000

structure TestPlanLimits where
  tests : UInt32
  groups : UInt32
  scenarios : UInt32
  scenarioSteps : UInt32
  payloadBytes : UInt64
  reportBytes : UInt64
  eventsPerGroup : UInt32
  outputBytesPerGroup : UInt64
  executionTimeoutNsPerGroup : UInt64

def TestPlanLimits.standard : TestPlanLimits where
  tests := 1000000
  groups := 100000
  scenarios := 100000
  scenarioSteps := 1000000
  payloadBytes := 64 * 1024 * 1024
  reportBytes := 1024 * 1024 * 1024
  eventsPerGroup := maxRuntimeTestEvents
  outputBytesPerGroup := 1024 * 1024 * 1024
  executionTimeoutNsPerGroup := 24 * 60 * 60 * 1000000000

def TestPlanLimits.isValid (limits : TestPlanLimits) : Bool :=
  limits.tests != 0 && limits.groups != 0 && limits.scenarios != 0 && limits.scenarioSteps != 0 &&
    limits.payloadBytes != 0 && limits.reportBytes != 0 && limits.eventsPerGroup != 0 &&
    limits.outputBytesPerGroup != 0 && limits.executionTimeoutNsPerGroup != 0

structure TestId where
  val : UInt32
deriving DecidableEq, Repr

structure ScenarioId where
  val : UInt32
deriving DecidableEq

structure ImageGroupId where
  val : UInt32
deriving DecidableEq

structure FunctionKey where
  digest : Sha256Digest
deriving DecidableEq

inductive TestKind where
  | comptimeUnit | integrationImage | declaredImage
deriving DecidableEq

structure TestDescriptor where
  id : TestId
  name : String
  kind : TestKind
  source : Option Span
  timeoutNs : UInt64
deriving DecidableEq

inductive ImageRoot where
  | generatedHarness (harnessName : String)
  | declared (imageName : String) (scenario : ScenarioId)
deriving DecidableEq

inductive ImageTestInvocation where
  | generatedFunction (functionKey : FunctionKey)
  | declaredScenario
deriving DecidableEq

structure PlannedAssertionDescriptor where
  source : Span
  expression : String
  message : Option String
deriving DecidableEq

structure ImageTest where
  descriptor : TestDescriptor
  invocation : ImageTestInvocation
  assertions : List PlannedAssertionDescriptor
deriving DecidableEq

structure FullImageTestGroup where
  id : ImageGroupId
  name : String
  root : ImageRoot
  tests : List ImageTest
  deterministicSeed : Option UInt64
  bootTimeoutNs : UInt64
  shutdownTimeoutNs : UInt64
  maximumEvents : UInt32
  maximumOutputBytes : UInt64
deriving DecidableEq

end Wrela.TestModel

/-!
## Compiled group bindings

The self-contained part of a compiled test group: its texts and budgets are within the limits of
the plan it was copied from, and every test of it can be run by the image it is bound to.
-/

namespace Wrela.TestModel

open Wrela.Source Wrela.BuildModel Wrela.Checked

def maxPlannedAssertionTextBytes : ℕ := 4096

inductive TestModelError where
  | invalidLimits
  | resourceLimit (resource : String) (limit : UInt64)
  | unsupportedPlanSchema (schema : UInt32)
  | unsupportedReportSchema (schema : UInt32)
  | targetMismatch
  | buildMismatch
  | tooManyTests (count : ℕ)
  | nonDenseTestId (expected : ℕ) (actual : TestId)
  | invalidDescriptor (test : TestId)
  | invalidImageGroup (name : String)
  | wrongGroup (test : TestId)
  | resultSetMismatch (name : String)
  | invalidScenario (scenario : ScenarioId)
  | scenarioIdentityMismatch (scenario : ScenarioId)
  | nonCanonicalScenario (scenario : ScenarioId)
  | nonCanonicalScenarios
  | nonCanonicalImageGroups
  | invalidEventStream (name : String)
  | invalidEvidence (name : String)
  | unsupportedProtocol (version : UInt32)
  | frameTooLarge (bytes : ℕ)
  | corruptFrame (message : String)
deriving DecidableEq

def textHasContent (value : String) : Bool := !isBlank value

def FunctionKey.isValid (key : FunctionKey) : Bool := key.digest.bytes.any (· != 0)

def ImageRoot.name : ImageRoot → String
  | .generatedHarness harnessName => harnessName
  | .declared imageName _ => imageName

def PlannedAssertionDescriptor.payloadBytes (assertion : PlannedAssertionDescriptor) : ℕ :=
  byteLength assertion.expression + (assertion.message.elim 0 byteLength)

namespace FullImageTestGroup

variable (group : FullImageTestGroup)

/-- The bytes of every text of the group. -/
def payloadBytes : ℕ :=
  byteLength group.name + byteLength group.root.name +
    (group.tests.map fun test ↦ byteLength test.descriptor.name +
      (test.assertions.map PlannedAssertionDescriptor.payloadBytes).sum).sum

def budgetsValid (limits : TestPlanLimits) : Bool :=
  textHasContent group.name && !group.tests.isEmpty && group.bootTimeoutNs != 0 &&
    group.shutdownTimeoutNs != 0 && group.maximumEvents != 0 && group.maximumOutputBytes != 0 &&
    group.maximumEvents ≤ limits.eventsPerGroup &&
    group.maximumOutputBytes ≤ limits.outputBytesPerGroup &&
    group.bootTimeoutNs.toNat + group.shutdownTimeoutNs.toNat ≤
      limits.executionTimeoutNsPerGroup.toNat

/-- The plan identifiers of the tests follow each other. -/
def testIdsConsecutive : Bool :=
  decide (group.tests.IsChain fun left right ↦
    left.descriptor.id.val.toNat + 1 = right.descriptor.id.val.toNat)

def assertionValid (assertion : PlannedAssertionDescriptor) : Bool :=
  textHasContent assertion.expression &&
    byteLength assertion.expression ≤ maxPlannedAssertionTextBytes &&
    assertion.message.all (fun message ↦
      textHasContent message && byteLength message ≤ maxPlannedAssertionTextBytes) &&
    assertion.source.range.start ≤ assertion.source.range.stop

def messageLess : Option String → Option String → Bool
  | none, some _ => true
  | some left, some right => decide (Wire.utf8Bytes left < Wire.utf8Bytes right)
  | _, none => false

/-- Assertions are ordered by source, then expression, then message. -/
def assertionLess (left right : PlannedAssertionDescriptor) : Bool :=
  let key := fun (assertion : PlannedAssertionDescriptor) ↦
    [assertion.source.file.val, assertion.source.range.start, assertion.source.range.stop]
  let text := fun (assertion : PlannedAssertionDescriptor) ↦ Wire.utf8Bytes assertion.expression
  decide (key left < key right) ||
    (key left == key right &&
      (decide (text left < text right) ||
        (text left == text right && messageLess left.message right.message)))

/-- The test is of the kind its group's root can run. -/
def testMatchesRoot (test : ImageTest) : Bool :=
  match group.root, test.invocation, test.descriptor.kind with
  | .generatedHarness _, .generatedFunction functionKey, .integrationImage =>
    functionKey.isValid && test.descriptor.source.isSome
  | .declared _ _, .declaredScenario, .declaredImage =>
    test.descriptor.source.isNone && test.assertions.isEmpty
  | _, _, _ => false

def validateTest (test : ImageTest) : Except TestModelError Unit := do
  failIf (!textHasContent test.descriptor.name || test.descriptor.timeoutNs == 0)
    (.invalidDescriptor test.descriptor.id)
  failIf (!test.assertions.all assertionValid) (.invalidImageGroup group.name)
  failIf (!decide (test.assertions.IsChain fun left right ↦ assertionLess left right = true))
    (.invalidImageGroup group.name)
  failIf (!testMatchesRoot group test) (.wrongGroup test.descriptor.id)

def functionKeys : List (List UInt8) :=
  group.tests.filterMap fun test ↦
    match test.invocation with
    | .generatedFunction functionKey => some functionKey.digest.bytes
    | .declaredScenario => none

/-- The time one run of a generated harness may take. -/
def executionTimeoutNs : ℕ :=
  group.bootTimeoutNs.toNat + group.shutdownTimeoutNs.toNat +
    (group.tests.map fun test ↦ test.descriptor.timeoutNs.toNat).sum

def rootValid (limits : TestPlanLimits) : Bool :=
  match group.root with
  | .generatedHarness harnessName =>
    textHasContent harnessName && group.tests.length * 2 + 3 == group.maximumEvents.toNat &&
      (group.tests.all (·.assertions.isEmpty) || group.tests.length == 1) &&
      executionTimeoutNs group ≤ limits.executionTimeoutNsPerGroup.toNat
  | .declared imageName _ => textHasContent imageName && group.tests.length == 1

def validateCompiledBindingWithLimits (limits : TestPlanLimits) : Except TestModelError Unit := do
  failIf (!limits.isValid) .invalidLimits
  failIf (group.tests.length > limits.tests.toNat)
    (.resourceLimit "compiled test-group tests" limits.tests.toUInt64)
  failIf (payloadBytes group > limits.payloadBytes.toNat)
    (.resourceLimit "compiled test-group payload bytes" limits.payloadBytes)
  failIf (!budgetsValid group limits) (.invalidImageGroup group.name)
  failIf (!testIdsConsecutive group) (.invalidImageGroup group.name)
  forAll (validateTest group) group.tests
  failIf (!decide (functionKeys group).Nodup) (.invalidImageGroup group.name)
  failIf (!rootValid group limits) (.invalidImageGroup group.name)

end FullImageTestGroup

/-! ## Image scenarios -/

def imageScenarioSchema : UInt32 := 1

inductive ExpectedScenarioEvent where
  | runStarted | testStarted | log | assertionFailed | testFinished | heartbeat | runFinished
deriving DecidableEq

inductive ImageScenarioStep where
  | sendSerial (bytes : List UInt8)
  | expectSerial (bytes : List UInt8) (timeoutNs : UInt64)
  | expectTestEvent (kind : ExpectedScenarioEvent) (test : Option TestId)
      (messageContains : Option String) (timeoutNs : UInt64)
  | expectExit (code : Option Int32) (timeoutNs : UInt64)
  | requestShutdown (timeoutNs : UInt64)

structure ImageScenario where
  id : ScenarioId
  schema : UInt32
  name : String
  sourcePath : String
  digest : Sha256Digest
  steps : List ImageScenarioStep

namespace ImageScenarioStep

/-- How long the host waits in a step. -/
def timeoutNs : ImageScenarioStep → UInt64
  | sendSerial _ => 0
  | expectSerial _ timeoutNs => timeoutNs
  | expectTestEvent _ _ _ timeoutNs => timeoutNs
  | expectExit _ timeoutNs => timeoutNs
  | requestShutdown timeoutNs => timeoutNs

def payloadBytes : ImageScenarioStep → ℕ
  | sendSerial bytes => bytes.length
  | expectSerial bytes _ => bytes.length
  | expectTestEvent _ _ messageContains _ => messageContains.elim 0 byteLength
  | expectExit _ _ => 0
  | requestShutdown _ => 0

end ImageScenarioStep

def invalidScenarioStep : ImageScenarioStep → Bool
  | .sendSerial bytes => bytes.isEmpty
  | .expectSerial bytes timeoutNs => bytes.isEmpty || timeoutNs == 0
  | .expectTestEvent kind test messageContains timeoutNs =>
    timeoutNs == 0 || messageContains.any String.isEmpty ||
      ([.runStarted, .heartbeat, .runFinished].contains kind &&
        (test.isSome || messageContains.isSome)) ||
      ([.testStarted, .testFinished].contains kind && messageContains.isSome)
  | .expectExit _ timeoutNs => timeoutNs == 0
  | .requestShutdown timeoutNs => timeoutNs == 0

/-- The order of the steps, given what came before them. -/
def validSequenceFrom (shutdownRequested sawExit sawRunFinished : Bool) :
    List ImageScenarioStep → Bool
  | [] => sawExit || sawRunFinished
  | .requestShutdown _ :: steps =>
    !(shutdownRequested || sawExit) && validSequenceFrom true sawExit sawRunFinished steps
  | .expectExit _ _ :: steps =>
    !(sawExit || !steps.isEmpty) && validSequenceFrom shutdownRequested true sawRunFinished steps
  | .expectTestEvent .runFinished _ _ _ :: steps =>
    !(sawRunFinished || sawExit || shutdownRequested) &&
      validSequenceFrom shutdownRequested sawExit true steps
  | _ :: steps =>
    !(sawExit || shutdownRequested) &&
      validSequenceFrom shutdownRequested sawExit sawRunFinished steps

namespace ImageScenario

variable (scenario : ImageScenario)

def validScenarioSequence : Bool := validSequenceFrom false false false scenario.steps

/-- The sum of all waits, if it can be represented. -/
def waitBudgetNs : Option UInt64 :=
  let total := (scenario.steps.map fun step ↦ step.timeoutNs.toNat).sum
  if total < UInt64.size then some total.toUInt64 else none

def validateShape : Except TestModelError Unit := do
  failIf (scenario.steps.any invalidScenarioStep) (.invalidScenario scenario.id)
  failIf (scenario.schema != imageScenarioSchema || !textHasContent scenario.name ||
    !textHasContent scenario.sourcePath || scenario.steps.isEmpty ||
    !validScenarioSequence scenario || (waitBudgetNs scenario).isNone)
    (.invalidScenario scenario.id)

end ImageScenario

end Wrela.TestModel

/-!
## Test plans

The complete result of test discovery: scenarios, compiler-evaluated tests and image groups under
one build identity.  A plan that passed its checks is kept together with the limits it passed them
under.
-/

namespace Wrela.TestModel

open Wrela.Source Wrela.BuildModel Wrela.Checked

def testPlanSchema : UInt32 := 2

/-- A unit test for the compiler's evaluator. -/
structure ComptimeTest where
  descriptor : TestDescriptor
  functionKey : FunctionKey

structure TestPlan where
  schema : UInt32
  build : BuildIdentity
  target : TargetIdentity
  scenarios : List ImageScenario
  unitTests : List ComptimeTest
  imageGroups : List FullImageTestGroup

def textIsLess (left right : String) : Bool := decide (Wire.utf8Bytes left < Wire.utf8Bytes right)

/-- The time a run may take, or nothing for a scenario that does not fit the root or a sum that
overflows. -/
def FullImageTestGroup.executionTimeout (group : FullImageTestGroup)
    (scenario : Option ImageScenario) : Option ℕ :=
  let bounded (total : ℕ) : Option ℕ := if total < UInt64.size then some total else none
  match group.root, scenario with
  | .generatedHarness _, none => bounded group.executionTimeoutNs
  | .declared _ _, some scenario =>
    bounded (group.bootTimeoutNs.toNat + group.shutdownTimeoutNs.toNat +
      (scenario.steps.map fun step ↦ step.timeoutNs.toNat).sum)
  | _, _ => none

namespace TestPlan

variable (plan : TestPlan)

/-- Every test of the plan, unit tests first. -/
def descriptors : List TestDescriptor :=
  plan.unitTests.map ComptimeTest.descriptor ++
    plan.imageGroups.flatMap fun group ↦ group.tests.map ImageTest.descriptor

def scenarioPayloadBytes (scenario : ImageScenario) : ℕ :=
  byteLength scenario.name + byteLength scenario.sourcePath +
    (scenario.steps.map ImageScenarioStep.payloadBytes).sum

def payloadBytes : ℕ :=
  (plan.scenarios.map scenarioPayloadBytes).sum +
    (plan.unitTests.map fun test ↦ byteLength test.descriptor.name).sum +
    (plan.imageGroups.map FullImageTestGroup.payloadBytes).sum

def scenarioSteps : ℕ := (plan.scenarios.map fun scenario ↦ scenario.steps.length).sum

def refersToTest (accepts : TestId → Bool) : ImageScenarioStep → Bool
  | .expectTestEvent _ (some test) _ _ => accepts test
  | _ => true

def validateScenario (expected : ℕ) (scenario : ImageScenario) : Except TestModelError Unit := do
  scenario.validateShape
  failIf (scenario.id.val.toNat != expected ||
    !scenario.steps.all (refersToTest fun test ↦ decide (test.val.toNat < plan.descriptors.length)))
    (.invalidScenario scenario.id)

def validateDescriptor (expected : ℕ) (descriptor : TestDescriptor) :
    Except TestModelError Unit := do
  failIf (descriptor.id.val.toNat != expected) (.nonDenseTestId expected descriptor.id)
  failIf (!textHasContent descriptor.name || descriptor.timeoutNs == 0)
    (.invalidDescriptor descriptor.id)

def validateUnitTest (test : ComptimeTest) : Except TestModelError Unit :=
  failIf (test.descriptor.kind != .comptimeUnit || !test.functionKey.isValid)
    (.invalidDescriptor test.descriptor.id)

def scenarioOf (group : FullImageTestGroup) : Option ImageScenario :=
  match group.root with
  | .generatedHarness _ => none
  | .declared _ scenario => plan.scenarios[scenario.val.toNat]?

/-- A declared root names a scenario of the plan that waits for the group's own test only. -/
def rootValid (group : FullImageTestGroup) : Bool :=
  match group.root with
  | .generatedHarness harnessName => textHasContent harnessName
  | .declared imageName _ =>
    match plan.scenarioOf group, group.tests with
    | some scenario, [test] =>
      textHasContent imageName && scenario.steps.all (refersToTest (· == test.descriptor.id))
    | _, _ => false

def rootRuns (group : FullImageTestGroup) (test : ImageTest) : Bool :=
  match group.root, test.invocation, test.descriptor.kind with
  | .generatedHarness _, .generatedFunction functionKey, .integrationImage => functionKey.isValid
  | .declared _ _, .declaredScenario, .declaredImage => true
  | _, _, _ => false

def validateGroup (limits : TestPlanLimits) (expected : ℕ) (group : FullImageTestGroup) :
    Except TestModelError Unit := do
  failIf (group.id.val.toNat != expected || !textHasContent group.name)
    (.invalidImageGroup group.name)
  group.validateCompiledBindingWithLimits limits
  failIf (!plan.rootValid group || (group.executionTimeout (plan.scenarioOf group)).all fun timeout ↦
    decide (timeout > limits.executionTimeoutNsPerGroup.toNat)) (.invalidImageGroup group.name)
  forAll (fun test ↦ failIf (!rootRuns group test) (.wrongGroup test.descriptor.id)) group.tests

/-- A function key with the test that uses it and whether that is a unit test. -/
structure KeyUse where
  key : FunctionKey
  test : TestId
  unit : Bool

def KeyUse.le (left right : KeyUse) : Bool :=
  let bytes (use : KeyUse) := use.key.digest.bytes
  decide (bytes left < bytes right) || (bytes left == bytes right &&
    (decide (left.test.val < right.test.val) ||
      (left.test == right.test && (!left.unit || right.unit))))

def keyUses : List KeyUse :=
  (plan.unitTests.map fun test ↦ ⟨test.functionKey, test.descriptor.id, true⟩) ++
    plan.imageGroups.flatMap fun group ↦ group.tests.filterMap fun test ↦
      match test.invocation with
      | .generatedFunction functionKey => some ⟨functionKey, test.descriptor.id, false⟩
      | .declaredScenario => none

/-- Neighbours in the order of their keys must differ. -/
def checkKeys : List KeyUse → Except TestModelError Unit
  | left :: right :: uses => do
    failIf (left.key == right.key)
      (if right.unit then .invalidDescriptor right.test else .wrongGroup right.test)
    checkKeys (right :: uses)
  | _ => .ok ()

/-- Number the elements of a list and run a check on each. -/
def forAllIndexed {α : Type} (check : ℕ → α → Except TestModelError Unit) (items : List α) :
    Except TestModelError Unit :=
  forAll (fun item ↦ check item.2 item.1) items.zipIdx

def validateWithLimits (limits : TestPlanLimits) : Except TestModelError Unit := do
  failIf (!limits.isValid) .invalidLimits
  failIf (plan.schema != testPlanSchema) (.unsupportedPlanSchema plan.schema)
  failIf (plan.target != plan.build.target) .targetMismatch
  failIf (!decide (plan.scenarios.IsChain fun left right ↦
    textIsLess left.name right.name = true)) .nonCanonicalScenarios
  failIf (!decide (plan.imageGroups.IsChain fun left right ↦
    textIsLess left.name right.name = true)) .nonCanonicalImageGroups
  failIf (plan.payloadBytes > limits.payloadBytes.toNat ||
    plan.descriptors.length > limits.tests.toNat ||
    plan.imageGroups.length > limits.groups.toNat ||
    plan.scenarios.length > limits.scenarios.toNat ||
    plan.scenarioSteps > limits.scenarioSteps.toNat)
    (.resourceLimit "test plan" limits.payloadBytes)
  failIf (plan.descriptors.length ≥ UInt32.size) (.tooManyTests plan.descriptors.length)
  forAllIndexed plan.validateScenario plan.scenarios
  forAllIndexed validateDescriptor plan.descriptors
  forAll validateUnitTest plan.unitTests
  forAllIndexed (plan.validateGroup limits) plan.imageGroups
  checkKeys (plan.keyUses.insertionSort fun left right ↦ left.le right)

end TestPlan

/-- A plan that passed its checks under its limits. -/
structure ValidatedTestPlan where
  plan : TestPlan
  limits : TestPlanLimits
  valid : plan.validateWithLimits limits = .ok ()

end Wrela.TestModel
