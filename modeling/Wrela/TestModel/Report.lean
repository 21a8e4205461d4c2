import Wrela.TestProtocol.StateTable

/-!
# Test reports

What a test run reports to its caller, and the checks that tie a report to the plan it claims to
have executed: the cases are the planned ones, the evidence fits the phase the run reached, and the
event list of every image group is a run of the harness whose outcomes are those of the cases.
-/

namespace Wrela.TestModel

open Wrela.Source Wrela.BuildModel Wrela.Checked
open Wrela.TestProtocol (TestEvent TestEventKind GuestTestOutcome AssertionFailure
  LanguageFatalCause testProtocolVersion maxTestEventBytes)

def testReportSchema : UInt32 := 2

inductive FailurePhase where
  | discovery | comptime | compile | link | boot | runtime | shutdown | protocol
deriving DecidableEq

inductive TestOutcome where
  | passed
  | failed (phase : FailurePhase) (message : String)
  | timedOut (phase : FailurePhase) (timeoutNs : UInt64)
  | crashed (code : Option Int32) (message : String)
  | languageFatal (cause : LanguageFatalCause)
deriving DecidableEq

structure TestCaseResult where
  descriptor : TestDescriptor
  outcome : TestOutcome
  durationNs : Option UInt64
deriving DecidableEq

structure ImageExecutionEvidence where
  imageDigest : Option Sha256Digest
  targetDigest : Sha256Digest
  emulatorDigest : Option Sha256Digest
  scenarioDigest : Option Sha256Digest
  commandDigest : Option Sha256Digest
  eventStreamDigest : Option Sha256Digest
  exitCode : Option Int32
  stderr : List UInt8
deriving DecidableEq

structure ImageGroupResult where
  group : ImageGroupId
  cases : List TestCaseResult
  events : List TestEvent
  evidence : ImageExecutionEvidence
  infrastructureFailure : Option TestOutcome
deriving DecidableEq

structure TestReport where
  schema : UInt32
  build : BuildIdentity
  startedUnixNs : Option UInt64
  durationNs : Option UInt64
  unit : List TestCaseResult
  images : List ImageGroupResult
deriving DecidableEq

def invalidGuestOutcome : GuestTestOutcome → Bool
  | .passed => false
  | .failed message => !textHasContent message
  | .timedOut timeoutNs => timeoutNs == 0
  | .languageFatal _ => false

def invalidHostOutcome : TestOutcome → Bool
  | .passed => false
  | .failed _ message => !textHasContent message
  | .crashed _ message => !textHasContent message
  | .timedOut _ timeoutNs => timeoutNs == 0
  | .languageFatal _ => false

def guestOutcomeMatchesCase : GuestTestOutcome → TestOutcome → Bool
  | .passed, .passed => true
  | .failed guest, .failed .runtime case => guest == case
  | .timedOut guest, .timedOut .runtime case => guest == case
  | .languageFatal guest, .languageFatal case => guest == case
  | _, _ => false

def textBytes (text : Option String) : ℕ := text.elim 0 byteLength

def eventPayloadBytes (event : TestEvent) : ℕ :=
  match event.kind with
  | .log _ _ message => byteLength message
  | .assertionFailed _ failure =>
    byteLength failure.expression + textBytes failure.message + textBytes failure.expected +
      textBytes failure.actual
  | .testFinished _ (.failed message) => byteLength message
  | .runStarted _ | .testStarted _ | .testFinished .. | .heartbeat _ | .runFinished .. => 0

def TestOutcome.payloadBytes : TestOutcome → ℕ
  | .failed _ message => byteLength message
  | .crashed _ message => byteLength message
  | .passed | .timedOut .. | .languageFatal _ => 0

def TestCaseResult.payloadBytes (case : TestCaseResult) : ℕ :=
  byteLength case.descriptor.name + case.outcome.payloadBytes

namespace ImageGroupResult

variable (result : ImageGroupResult)

def eventBytes : ℕ := (result.events.map eventPayloadBytes).sum

def payloadBytes : ℕ :=
  result.evidence.stderr.length + (result.cases.map TestCaseResult.payloadBytes).sum +
    result.infrastructureFailure.elim 0 TestOutcome.payloadBytes + eventBytes result

/-- The bytes that came over the transport. -/
def transportPayloadBytes : ℕ := result.evidence.stderr.length + eventBytes result

end ImageGroupResult

def TestReport.payloadBytes (report : TestReport) : ℕ :=
  (report.unit.map TestCaseResult.payloadBytes).sum +
    (report.images.map ImageGroupResult.payloadBytes).sum

namespace ImageExecutionEvidence

variable (evidence : ImageExecutionEvidence)

/-- Every digest of an attempted run is there. -/
def isComplete : Bool :=
  evidence.imageDigest.isSome && evidence.emulatorDigest.isSome && evidence.commandDigest.isSome &&
    evidence.eventStreamDigest.isSome

/-- There was no run. -/
def isAbsent : Bool :=
  evidence.imageDigest.isNone && evidence.emulatorDigest.isNone && evidence.commandDigest.isNone &&
    evidence.eventStreamDigest.isNone && evidence.exitCode.isNone

end ImageExecutionEvidence

def evidencePhaseValid (result : ImageGroupResult) : FailurePhase → Bool
  | .discovery | .compile | .link =>
    result.evidence.isAbsent && result.events.isEmpty && result.cases.isEmpty
  | .boot | .runtime | .shutdown | .protocol => result.evidence.isComplete
  | .comptime => false

def validateEvidencePhase (result : ImageGroupResult) (group : FullImageTestGroup) :
    Except TestModelError Unit :=
  let valid :=
    match result.infrastructureFailure with
    | none => result.evidence.isComplete
    | some (.failed phase _) => evidencePhaseValid result phase
    | some (.timedOut phase _) => evidencePhaseValid result phase
    | some (.crashed ..) => result.evidence.isComplete
    | some .passed => false
    | some (.languageFatal _) => false
  failIf (!valid) (.invalidEvidence group.name)

inductive EventTestState where
  | pending
  | active
  | assertionFailed (terminalMessage : String)
  | finished (outcome : GuestTestOutcome)
deriving DecidableEq

/-- What the check of an event list remembers of the events before. -/
structure EventState where
  states : List EventTestState
  activeCount : ℕ
  finishedCount : ℕ
  terminal : Option (UInt32 × UInt32)
  languageFatal : Bool
  lastHeartbeat : Option UInt64

def EventState.new (tests : ℕ) : EventState :=
  ⟨List.replicate tests .pending, 0, 0, none, false, none⟩

/-- The position of a test of the group. -/
def stateIndex (group : FullImageTestGroup) (test : TestId) : Option ℕ := do
  let first ← group.tests.head?
  if test.val.toNat < first.descriptor.id.val.toNat then none
  else
    let index := test.val.toNat - first.descriptor.id.val.toNat
    let planned ← group.tests[index]?
    if planned.descriptor.id = test then some index else none

def stateOf (group : FullImageTestGroup) (state : EventState) (test : TestId) :
    Option EventTestState :=
  (stateIndex group test).bind (state.states[·]?)

def withState (group : FullImageTestGroup) (state : EventState) (test : TestId)
    (next : EventTestState) : List EventTestState :=
  match stateIndex group test with
  | some index => state.states.set index next
  | none => state.states

/-- The first test whose assertion failed, with the message its end must carry. -/
def pendingAssertion (group : FullImageTestGroup) (state : EventState) : Option (TestId × String) :=
  state.states.zipIdx.findSome? fun (testState, index) ↦
    match testState with
    | .assertionFailed terminalMessage =>
      (group.tests[index]?).map fun test ↦ (test.descriptor.id, terminalMessage)
    | _ => none

def FullImageTestGroup.isGenerated (group : FullImageTestGroup) : Bool :=
  match group.root with
  | .generatedHarness _ => true
  | .declared .. => false

/-- A generated harness may only report assertions its plan lists for the test. -/
def plannedAssertionMatches (group : FullImageTestGroup) (test : TestId)
    (failure : AssertionFailure) : Bool :=
  !group.isGenerated ||
    ((stateIndex group test).bind (group.tests[·]?)).any fun planned ↦
      failure.expected.isNone && failure.actual.isNone && failure.source.any fun source ↦
        planned.assertions.any fun assertion ↦
          assertion.source == source && assertion.expression == failure.expression &&
            assertion.message == failure.message

def assertionMessage (failure : AssertionFailure) : String :=
  failure.message.getD "assertion failed"

/-- Whether a test in this state may finish with this outcome. -/
def mayFinish : Option EventTestState → GuestTestOutcome → Bool
  | some .active, _ => true
  | some (.assertionFailed terminalMessage), .failed message => message == terminalMessage
  | _, _ => false

/-- The transition for one kind of event, or nothing if it is out of place. -/
def observeKind (group : FullImageTestGroup) (result : ImageGroupResult) (index : ℕ)
    (state : EventState) : TestEventKind → Option EventState
  | .runStarted testCount =>
    if index ≠ 0 ∨ testCount.toNat ≠ group.tests.length then none else some state
  | .testStarted test =>
    if index = 0 ∨ state.terminal.isSome ∨ stateOf group state test ≠ some .pending then none
    else some { state with
      states := withState group state test .active
      activeCount := state.activeCount + 1 }
  | .log (some test) _ message =>
    if state.terminal.isSome ∨ stateOf group state test ≠ some .active ∨ message.isEmpty then none
    else some state
  | .log none _ message =>
    if index = 0 ∨ state.terminal.isSome ∨ message.isEmpty then none else some state
  | .assertionFailed test failure =>
    if state.terminal.isSome ∨ stateOf group state test ≠ some .active ∨
        !textHasContent failure.expression ∨ !failure.message.all textHasContent ∨
        (group.isGenerated ∧
          !failure.source.any fun source ↦ decide (source.range.start ≤ source.range.stop)) ∨
        !plannedAssertionMatches group test failure then none
    else some { state with
      states := withState group state test (.assertionFailed (assertionMessage failure)) }
  | .testFinished test outcome =>
    if state.terminal.isSome ∨ !mayFinish (stateOf group state test) outcome ∨
        invalidGuestOutcome outcome then none
    else some { state with
      states := withState group state test (.finished outcome)
      languageFatal := match outcome with | .languageFatal _ => true | _ => false
      activeCount := state.activeCount - 1
      finishedCount := state.finishedCount + 1 }
  | .heartbeat monotonicTicks =>
    if index = 0 ∨ state.terminal.isSome ∨
        state.lastHeartbeat.any (fun previous ↦ decide (previous ≥ monotonicTicks)) then none
    else some { state with lastHeartbeat := some monotonicTicks }
  | .runFinished passed failed =>
    if state.terminal.isSome ∨ index + 1 ≠ result.events.length ∨
        result.infrastructureFailure.isSome ∨ state.activeCount ≠ 0 then none
    else some { state with terminal := some (passed, failed) }

/-- The checks an event passes whatever its kind. -/
def eventInOrder (group : FullImageTestGroup) (state : EventState) (index : ℕ)
    (event : TestEvent) : Bool :=
  event.protocol == testProtocolVersion && event.sequence.toNat == index &&
    eventPayloadBytes event ≤ maxTestEventBytes &&
    (!state.languageFatal || event.kind.isRunFinished) &&
    (pendingAssertion group state).all fun (test, message) ↦
      event.kind == .testFinished test (.failed message)

def observeEvent (group : FullImageTestGroup) (result : ImageGroupResult) (index : ℕ)
    (state : EventState) (event : TestEvent) : Option EventState :=
  if eventInOrder group state index event then observeKind group result index state event.kind
  else none

def observeEvents (group : FullImageTestGroup) (result : ImageGroupResult) :
    ℕ → EventState → List TestEvent → Option EventState
  | _, state, [] => some state
  | index, state, event :: events => do
    let state ← observeEvent group result index state event
    observeEvents group result (index + 1) state events

/-- The case reports how its test finished. -/
def caseMatches (group : FullImageTestGroup) (state : EventState) (case : TestCaseResult) : Bool :=
  match stateOf group state case.descriptor.id with
  | some (.finished outcome) => guestOutcomeMatchesCase outcome case.outcome
  | _ => false

def passedCases (result : ImageGroupResult) : ℕ :=
  result.cases.countP fun case ↦ case.outcome == .passed

/-- The end of the list agrees with the cases. -/
def summaryValid (group : FullImageTestGroup) (result : ImageGroupResult) (state : EventState) :
    Bool :=
  match result.infrastructureFailure with
  | some _ => state.terminal.isNone && state.finishedCount == result.cases.length
  | none =>
    state.terminal.map (fun (passed, failed) ↦ (passed.toNat, failed.toNat)) ==
        some (passedCases result, result.cases.length - passedCases result) &&
      state.finishedCount == group.tests.length

def validateImageEvents (result : ImageGroupResult) (group : FullImageTestGroup)
    (maximumTests : UInt32) : Except TestModelError Unit := do
  if result.events.isEmpty then
    failIf (!(result.infrastructureFailure.isSome && result.cases.isEmpty))
      (.invalidEventStream group.name)
  else
    failIf (decide (group.tests.length > maximumTests.toNat))
      (.resourceLimit "test event state entries" maximumTests.toUInt64)
    let state ← orFail (observeEvents group result 0 (.new group.tests.length) result.events)
      (.invalidEventStream group.name)
    failIf (!result.cases.all (caseMatches group state)) (.invalidEventStream group.name)
    failIf (!summaryValid group result state) (.invalidEventStream group.name)

/-- The first look at the sizes of a group's result. -/
def validateSizes (result : ImageGroupResult) (group : FullImageTestGroup) :
    Except TestModelError Unit :=
  failIf (decide (result.cases.length > group.tests.length) ||
    decide (result.events.length > group.maximumEvents.toNat) ||
    decide (result.evidence.stderr.length > group.maximumOutputBytes.toNat))
    (.resultSetMismatch group.name)

def validateUnitResult (result : TestCaseResult) (planned : ComptimeTest) :
    Except TestModelError Unit :=
  let outcomeValid :=
    match result.outcome with
    | .passed => true
    | .failed .comptime _ => true
    | .timedOut .comptime _ => true
    | _ => false
  failIf (result.descriptor != planned.descriptor || !outcomeValid ||
    invalidHostOutcome result.outcome) (.resultSetMismatch "comptime")

def infrastructureFailureValid : Option TestOutcome → Bool
  | none => true
  | some .passed => false
  | some (.languageFatal _) => false
  | some outcome => !invalidHostOutcome outcome

def validateGroupResult (plan : ValidatedTestPlan) (result : ImageGroupResult)
    (group : FullImageTestGroup) : Except TestModelError Unit := do
  failIf (result.group != group.id || decide (result.cases.length > group.tests.length))
    (.resultSetMismatch group.name)
  failIf (result.evidence.targetDigest != plan.plan.build.targetPackage ||
    result.evidence.scenarioDigest != (plan.plan.scenarioOf group).map ImageScenario.digest)
    (.resultSetMismatch group.name)
  failIf (result.infrastructureFailure.isNone && result.cases.length != group.tests.length)
    (.resultSetMismatch group.name)
  failIf (!infrastructureFailureValid result.infrastructureFailure ||
    decide (result.events.length > group.maximumEvents.toNat) ||
    decide (result.evidence.stderr.length > group.maximumOutputBytes.toNat) ||
    decide (result.transportPayloadBytes > group.maximumOutputBytes.toNat))
    (.resultSetMismatch group.name)
  validateEvidencePhase result group
  forAll (fun pair ↦ failIf (pair.1.descriptor != pair.2.descriptor)
    (.resultSetMismatch group.name)) (result.cases.zip group.tests)
  validateImageEvents result group plan.limits.tests

namespace TestReport

variable (report : TestReport)

def passed : Bool :=
  (report.unit ++ report.images.flatMap ImageGroupResult.cases).all (·.outcome == .passed) &&
    report.images.all (·.infrastructureFailure.isNone)

def validateAgainst (plan : ValidatedTestPlan) : Except TestModelError Unit := do
  plan.plan.validateWithLimits plan.limits
  failIf (report.schema != testReportSchema) (.unsupportedReportSchema report.schema)
  failIf (report.build != plan.plan.build) .buildMismatch
  failIf (report.unit.length != plan.plan.unitTests.length) (.resultSetMismatch "comptime")
  failIf (report.images.length != plan.plan.imageGroups.length)
    (.resultSetMismatch "image groups")
  forAll (fun pair ↦ validateSizes pair.1 pair.2) (report.images.zip plan.plan.imageGroups)
  failIf (decide (report.payloadBytes > plan.limits.reportBytes.toNat))
    (.resourceLimit "test report payload" plan.limits.reportBytes)
  forAll (fun pair ↦ validateUnitResult pair.1 pair.2) (report.unit.zip plan.plan.unitTests)
  forAll (fun pair ↦ validateGroupResult plan pair.1 pair.2)
    (report.images.zip plan.plan.imageGroups)

end TestReport

end Wrela.TestModel
