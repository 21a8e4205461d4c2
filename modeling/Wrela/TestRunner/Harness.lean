import Wrela.TestModel.Report
import Wrela.Wire.Slip

/-!
# The serial demultiplexers

Test event frames and free text share one serial line: a segment between two delimiters is a frame
when it starts with the frame magic, and text otherwise.  `decodeSlip` runs once over the complete
output of a guest and returns the bytes of its frames.  `LiveSerialObserver` runs while the guest
does, chunk by chunk, and decodes every frame as soon as it is complete.
-/

namespace Wrela.TestRunner

open Wrela.Checked Wrela.Slip Wrela.TestProtocol

/-- The errors of a test run.  `protocolError` is `Protocol` with the text of a protocol error. -/
inductive RunError where
  | outputLimitExceeded (group : String)
  | protocol (message : String)
  | protocolError (error : ProtocolError)
  | duplicateTerminalEvent
  | unexpectedTestEvent (message : String)
deriving DecidableEq, Repr

/-- The errors of an execution.  `invalidFrame` is `Scenario` with the text
"invalid live test-event frame: " and that of the protocol error. -/
inductive ExecuteError where
  | scenario (message : String)
  | invalidFrame (error : ProtocolError)
deriving Repr

structure SlipState where
  stream : List UInt8
  frame : List UInt8
  started : Bool
  escaped : Bool
  rawSegment : Bool
deriving Repr

def SlipState.new : SlipState := ⟨[], [], false, false, false⟩

def pushFrameByte (frame : List UInt8) (byte : UInt8) (limit : ℕ) :
    Except RunError (List UInt8) := do
  failIf (decide (frame.length ≥ limit))
    (.protocol "unescaped SLIP frame exceeds the protocol limit")
  pure (frame ++ [byte])

def pushSegmentByte (state : SlipState) (byte : UInt8) (limit : ℕ) : Except RunError SlipState :=
  if state.frame.length < testFrameMagic.length ∧
      testFrameMagic[state.frame.length]? ≠ some byte then
    .ok { state with frame := [], rawSegment := true }
  else do
    let frame ← pushFrameByte state.frame byte limit
    pure { state with frame }

/-- One iteration of the loop of `decodeSlip`. -/
def decodeSlipByte (frameLimit streamLimit : ℕ) (state : SlipState) (byte : UInt8) :
    Except RunError SlipState :=
  if !state.started then
    .ok { state with started := decide (byte = slipEnd) }
  else if state.rawSegment then
    if byte = slipEnd then .ok { state with rawSegment := false, escaped := false, frame := [] }
    else .ok state
  else if state.escaped then
    match standIn byte with
    | some decoded => do
      let state ← pushSegmentByte state decoded frameLimit
      pure { state with escaped := false }
    | none => do
      failIf (decide (state.frame.length ≥ testFrameMagic.length))
        (.protocol "PL011 event frame contains a noncanonical SLIP escape")
      pure { state with rawSegment := true, frame := [], escaped := false }
  else if byte = slipEnd then
    if state.frame.length ≥ testFrameMagic.length then do
      failIf (decide (state.stream.length + state.frame.length > streamLimit))
        (.protocol "unescaped event stream exceeds its bounded capacity")
      pure { state with stream := state.stream ++ state.frame, frame := [] }
    else .ok { state with frame := [] }
  else if byte = slipEscape then .ok { state with escaped := true }
  else pushSegmentByte state byte frameLimit

def decodeSlip (bytes : List UInt8) (limits : ProtocolLimits) (preserveCompletePrefix : Bool) :
    Except RunError (List UInt8) := do
  let streamLimit ← limits.maximumStreamBytes.mapError .protocolError
  let state ← bytes.foldlM (decodeSlipByte limits.frameBytes.toNat streamLimit) SlipState.new
  failIf (!preserveCompletePrefix && !state.rawSegment &&
      decide (state.frame.length ≥ testFrameMagic.length))
    (.protocol "PL011 stream ends inside an incomplete SLIP frame")
  pure state.stream

/-! ## The live demultiplexer -/

structure SerialRange where
  start : ℕ
  «end» : ℕ
deriving Repr

structure ObservedEvent where
  start : ℕ
  «end» : ℕ
  event : TestEvent
deriving Repr

structure LiveSerialObserver where
  limits : ProtocolLimits
  started : Bool
  rawSegment : Bool
  escaped : Bool
  segmentStart : ℕ
  frame : List UInt8
  serialRanges : List SerialRange
  events : List ObservedEvent
deriving Repr

namespace LiveSerialObserver

def new (limits : ProtocolLimits) : LiveSerialObserver :=
  ⟨limits, false, false, false, 0, [], [], []⟩

def pushFrameByte (observer : LiveSerialObserver) (byte : UInt8) (limit : ℕ) :
    Except ExecuteError LiveSerialObserver := do
  failIf (decide (observer.frame.length ≥ limit))
    (.scenario "test-event frame exceeds the protocol byte limit")
  pure { observer with frame := observer.frame ++ [byte] }

def resetSegment (observer : LiveSerialObserver) : LiveSerialObserver :=
  { observer with rawSegment := false, escaped := false, frame := [] }

/-- A range that starts where the last one ends extends it. -/
def addSerialRange (observer : LiveSerialObserver) (start stop : ℕ) : LiveSerialObserver :=
  if start ≥ stop then observer
  else
    match observer.serialRanges.getLast? with
    | some last =>
      if last.end = start then
        { observer with serialRanges := observer.serialRanges.dropLast ++ [⟨last.start, stop⟩] }
      else { observer with serialRanges := observer.serialRanges ++ [⟨start, stop⟩] }
    | none => { observer with serialRanges := observer.serialRanges ++ [⟨start, stop⟩] }

def finishSegment (observer : LiveSerialObserver) (delimiterPosition : ℕ) :
    Except ExecuteError LiveSerialObserver :=
  if observer.rawSegment then .ok observer.resetSegment
  else if observer.frame.isEmpty then .ok observer.resetSegment
  else if observer.frame.length < testFrameMagic.length then
    .ok (observer.addSerialRange observer.segmentStart delimiterPosition).resetSegment
  else do
    failIf observer.escaped (.scenario "test-event frame ends inside a SLIP escape")
    let event ← (decodeAndVerifyEvent observer.frame observer.limits).mapError .invalidFrame
    let expected := observer.events.length
    let actual := event.sequence
    failIf (actual.toNat != expected)
      (.scenario s!"live test-event sequence gap: expected {expected}, got {actual}")
    failIf (decide (expected ≥ observer.limits.events.toNat))
      (.scenario "live test-event count exceeds the selected group limit")
    let observed : ObservedEvent := ⟨observer.segmentStart - 1, delimiterPosition + 1, event⟩
    pure { observer with events := observer.events ++ [observed] }.resetSegment

/-- One iteration of the loop of `push`. -/
def pushByte (observer : LiveSerialObserver) (position : ℕ) (byte : UInt8) :
    Except ExecuteError LiveSerialObserver :=
  let frameLimit := observer.limits.frameBytes.toNat
  if byte = slipEnd then do
    let observer ← if observer.started then observer.finishSegment position
      else .ok { observer with started := true }
    pure { observer with segmentStart := position + 1 }
  else if !observer.started then .ok (observer.addSerialRange position (position + 1))
  else if observer.rawSegment then .ok (observer.addSerialRange position (position + 1))
  else if observer.frame.length < testFrameMagic.length then do
    let observer ← observer.pushFrameByte byte frameLimit
    if testFrameMagic.take observer.frame.length ≠ observer.frame then
      let observer := observer.addSerialRange observer.segmentStart (position + 1)
      pure { observer with frame := [], rawSegment := true }
    else pure observer
  else if observer.escaped then do
    let decoded ← orFail (standIn byte)
      (.scenario "test-event frame contains a noncanonical SLIP escape")
    let observer ← observer.pushFrameByte decoded frameLimit
    pure { observer with escaped := false }
  else if byte = slipEscape then .ok { observer with escaped := true }
  else observer.pushFrameByte byte frameLimit

def push (observer : LiveSerialObserver) (bytes : List UInt8) (absoluteStart : ℕ) :
    Except ExecuteError LiveSerialObserver :=
  match bytes with
  | [] => .ok observer
  | byte :: bytes => do
    let observer ← observer.pushByte absoluteStart byte
    observer.push bytes (absoluteStart + 1)

def finish (observer : LiveSerialObserver) (streamEnd : ℕ) (preserveCompletePrefix : Bool) :
    Except ExecuteError LiveSerialObserver :=
  if !observer.started || observer.rawSegment || observer.frame.isEmpty then .ok observer
  else if observer.frame.length < testFrameMagic.length then
    .ok (observer.addSerialRange observer.segmentStart streamEnd).resetSegment
  else if preserveCompletePrefix then .ok observer.resetSegment
  else .error (.scenario "PL011 stream ended inside an incomplete test-event frame")

/-- The chunks of a session, each pushed where the one before it ended. -/
def pushChunks (observer : LiveSerialObserver) (chunks : List (List UInt8)) (start : ℕ) :
    Except ExecuteError LiveSerialObserver :=
  match chunks with
  | [] => .ok observer
  | chunk :: chunks => do
    let observer ← observer.push chunk start
    observer.pushChunks chunks (start + chunk.length)

/-- A whole session: the chunks as they come in, then the end of the stream. -/
def observe (limits : ProtocolLimits) (chunks : List (List UInt8))
    (preserveCompletePrefix : Bool) : Except ExecuteError LiveSerialObserver := do
  let observer ← (new limits).pushChunks chunks 0
  observer.finish chunks.flatten.length preserveCompletePrefix

end LiveSerialObserver

end Wrela.TestRunner

/-!
## The image harness

From the output of a guest to the result of its group: the events are demultiplexed and decoded,
bound to the tests of the group, collected into cases, and summed up with the evidence of the run.
The digests of the command and of the events are parameters.
-/

namespace Wrela.TestRunner

open Wrela.BuildModel Wrela.Checked Wrela.TestModel
open Wrela.TestProtocol (TestEvent TestEventKind GuestTestOutcome ProtocolLimits
  decodeAndVerifyStream)

structure ProcessOutput where
  exitCode : Option Int32
  timedOut : Bool
  stdout : List UInt8
  stderr : List UInt8
  durationNs : UInt64

structure ProtocolExecutionPolicy where
  limits : ProtocolLimits
  maximumOutputBytes : ℕ

def protocolExecutionPolicy (group : FullImageTestGroup) :
    Except RunError ProtocolExecutionPolicy := do
  let limits : ProtocolLimits := { ProtocolLimits.standard with events := group.maximumEvents }
  let protocolStreamBytes ← limits.maximumStreamBytes.mapError .protocolError
  let maximumOutputBytes := min group.maximumOutputBytes.toNat protocolStreamBytes
  failIf (maximumOutputBytes == 0)
    (.protocol "protocol execution output limit must be nonzero")
  pure ⟨limits, maximumOutputBytes⟩

def decodeEvents (group : FullImageTestGroup) (output : ProcessOutput) :
    Except RunError (List TestEvent) := do
  let policy ← protocolExecutionPolicy group
  failIf (decide (output.stdout.length + output.stderr.length > policy.maximumOutputBytes))
    (.outputLimitExceeded group.name)
  let preserveCompletePrefix := output.timedOut || output.exitCode != some 0
  let stream ← decodeSlip output.stdout policy.limits preserveCompletePrefix
  (decodeAndVerifyStream stream policy.limits).mapError .protocolError

/-- The check of one event against the tests of the group. -/
def validateDecodedEvent (group : FullImageTestGroup) (index : ℕ) (event : TestEvent) :
    Except RunError Unit :=
  let planned := group.tests.length
  match event.kind with
  | .runStarted testCount =>
    failIf (index != 0 || testCount.toNat != planned) (.unexpectedTestEvent
      s!"RunStarted count {testCount} differs from selected group count {planned}")
  | .testStarted test | .assertionFailed test _ | .testFinished test _ =>
    let id := test.val
    failIf (stateIndex group test).isNone
      (.unexpectedTestEvent s!"event references test id {id} outside the selected group")
  | .log (some test) _ _ =>
    let id := test.val
    failIf (stateIndex group test).isNone
      (.unexpectedTestEvent s!"log references test id {id} outside the selected group")
  | .log none _ _ | .heartbeat _ | .runFinished .. => .ok ()

def validateDecodedGroupPrefix (group : FullImageTestGroup) (events : List TestEvent) :
    Except RunError Unit := do
  if events.isEmpty then .ok ()
  else
    failIf (decide (group.tests.length ≥ UInt32.size))
      (.unexpectedTestEvent "planned test count does not fit the protocol")
    forAll (fun item ↦ validateDecodedEvent group item.2 item.1) events.zipIdx

/-- How the tests of the group finished so far, and the numbers of the last event. -/
structure Collection where
  finished : List (Option GuestTestOutcome)
  terminal : Option (UInt32 × UInt32)

def collectEvent (group : FullImageTestGroup) (collection : Collection) (event : TestEvent) :
    Except RunError Collection :=
  match event.kind with
  | .testFinished test outcome =>
    let id := test.val
    let unplanned : RunError :=
      .unexpectedTestEvent s!"duplicate or unplanned TestFinished for id {id}"
    match stateIndex group test with
    | none => .error unplanned
    | some index =>
      match collection.finished[index]? with
      | some none =>
        .ok { collection with finished := collection.finished.set index (some outcome) }
      | _ => .error unplanned
  | .runFinished passed failed =>
    if collection.terminal.isSome then .error .duplicateTerminalEvent
    else .ok { collection with terminal := some (passed, failed) }
  | .runStarted _ | .testStarted _ | .log .. | .assertionFailed .. | .heartbeat _ => .ok collection

def guestOutcome : GuestTestOutcome → TestOutcome
  | .passed => .passed
  | .failed message => .failed .runtime message
  | .timedOut timeoutNs => .timedOut .runtime timeoutNs
  | .languageFatal cause => .languageFatal cause

/-- The cases of the tests that finished, which come first. -/
def casesOf : Bool → List (ImageTest × Option GuestTestOutcome) →
    Except RunError (List TestCaseResult)
  | _, [] => .ok []
  | false, (planned, some outcome) :: tests => do
    let cases ← casesOf false tests
    pure (⟨planned.descriptor, guestOutcome outcome, none⟩ :: cases)
  | true, (_, some _) :: _ => .error
    (.unexpectedTestEvent "guest completed a non-prefix test after an unfinished test")
  | _, (_, none) :: tests => casesOf true tests

structure CollectedCases where
  cases : List TestCaseResult
  terminal : Option (UInt32 × UInt32)

def collectCases (group : FullImageTestGroup) (events : List TestEvent) :
    Except RunError CollectedCases := do
  let collection ← events.foldlM (collectEvent group)
    ⟨List.replicate group.tests.length none, none⟩
  let cases ← casesOf false (group.tests.zip collection.finished)
  pure ⟨cases, collection.terminal⟩

/-- What a summary is made of.  Of the artifact, the command and the components only what the summary
copies is kept. -/
structure ImageSummaryRequest where
  group : FullImageTestGroup
  artifactDigest : Sha256Digest
  artifactBuild : BuildIdentity
  commandTimeoutNs : UInt64
  emulatorDigest : Sha256Digest
  output : ProcessOutput
  events : List TestEvent
  scenario : Option ImageScenario

/-- Why the run as a whole counts as failed. -/
def infrastructureFailureOf (request : ImageSummaryRequest) (terminal : Option (UInt32 × UInt32)) :
    Except RunError (Option TestOutcome) :=
  if request.output.timedOut then do
    failIf terminal.isSome (.unexpectedTestEvent
      "a terminal guest event was observed before host timeout")
    pure (some (.timedOut (if request.events.isEmpty then .boot else .runtime)
      request.commandTimeoutNs))
  else if request.output.exitCode != some 0 then do
    failIf terminal.isSome (.unexpectedTestEvent
      "guest emitted RunFinished but QEMU did not exit successfully")
    pure (some (.crashed request.output.exitCode
      "QEMU exited before the guest emitted RunFinished"))
  else if terminal.isNone then
    pure (some (.failed .protocol "guest stream ended without RunFinished"))
  else pure none

def summarize (commandDigest : Except RunError Sha256Digest)
    (eventStreamDigest : List TestEvent → Except RunError Sha256Digest)
    (request : ImageSummaryRequest) : Except RunError ImageGroupResult := do
  let collected ← collectCases request.group request.events
  let infrastructureFailure ← infrastructureFailureOf request collected.terminal
  let commandDigest ← commandDigest
  let eventStreamDigest ← eventStreamDigest request.events
  pure {
    group := request.group.id
    cases := collected.cases
    events := request.events
    evidence := {
      imageDigest := some request.artifactDigest
      targetDigest := request.artifactBuild.targetPackage
      emulatorDigest := some request.emulatorDigest
      scenarioDigest := request.scenario.map ImageScenario.digest
      commandDigest := some commandDigest
      eventStreamDigest := some eventStreamDigest
      exitCode := request.output.exitCode
      stderr := request.output.stderr
    }
    infrastructureFailure
  }

end Wrela.TestRunner
