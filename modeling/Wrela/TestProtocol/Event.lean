import Wrela.TestModel.Plan
import Wrela.Wire.Number

/-!
# Test events

The events a full-image test run reports to its host, the limits a stream of them is read under,
and the checks every single event passes before it is written and after it is read.
-/

namespace Wrela.TestProtocol

open Wrela.Source Wrela.Checked

def testFrameVersion : UInt32 := 1

def testEventVersion : UInt32 := 3

def testProtocolVersion : UInt32 := 3

def testFrameHeaderBytes : ℕ := 32

def maxProtocolFrameBytes : UInt32 := 1024 * 1024

def maxTestEventBytes : ℕ := 1024 * 1024

def maxProtocolStringBytes : UInt32 := 256 * 1024

def maxProtocolEvents : UInt32 := 1000000

def maxProtocolStreamBytes : ℕ := 1024 * 1024 * 1024

abbrev TestId := TestModel.TestId

inductive LogLevel where
  | trace | debug | info | warning | error
deriving DecidableEq, Repr

inductive LanguageFatalCause where
  | checkedShiftResultLoss | invalidShiftCount
deriving DecidableEq, Repr

inductive GuestTestOutcome where
  | passed
  | failed (message : String)
  | timedOut (timeoutNs : UInt64)
  | languageFatal (cause : LanguageFatalCause)
deriving DecidableEq, Repr

structure AssertionFailure where
  expression : String
  message : Option String
  source : Option Span
  expected : Option String
  actual : Option String
deriving DecidableEq, Repr

inductive TestEventKind where
  | runStarted (testCount : UInt32)
  | testStarted (test : TestId)
  | log (test : Option TestId) (level : LogLevel) (message : String)
  | assertionFailed (test : TestId) (failure : AssertionFailure)
  | testFinished (test : TestId) (outcome : GuestTestOutcome)
  | heartbeat (monotonicTicks : UInt64)
  | runFinished (passed failed : UInt32)
deriving DecidableEq, Repr

structure TestEvent where
  protocol : UInt32
  sequence : UInt64
  kind : TestEventKind
deriving DecidableEq, Repr

inductive ProtocolError where
  | invalidLimits
  | protocolContractMismatch (reason : String)
  | limitTooLarge (resource : String) (maximum actual : ℕ)
  | resourceLimit (resource : String) (limit : ℕ)
  | invalidMagic
  | unsupportedFrameVersion (version : UInt32)
  | unsupportedEventVersion (version : UInt32)
  | unexpectedEnd
  | invalidUtf8
  | invalidSourceRange (start stop : UInt32)
  | invalidTag (kind : String) (tag : UInt8)
  | invalidChecksum
  | frameTooLarge (limit : UInt32) (actual : ℕ)
  | streamTooLarge (limit actual : ℕ)
  | stringTooLarge (limit : UInt32) (actual : ℕ)
  | eventLimit (limit : UInt32) (sequence : ℕ)
  | sequenceMismatch (header event : UInt64)
  | streamSequenceMismatch (expected : ℕ) (actual : UInt64)
  | invalidStreamOrder (sequence : UInt64) (reason : String)
  | duplicateTestStart (sequence : UInt64) (test : UInt32)
  | invalidTestReference (sequence : UInt64) (test : UInt32) (event : String)
  | testCountExceeded (sequence : UInt64) (limit actual : UInt32)
  | nonMonotonicHeartbeat (sequence previous actual : UInt64)
  | streamSummaryMismatch (sequence : UInt64)
      (declared started finished observedPassed observedFailed reportedPassed
        reportedFailed : UInt32)
  | trailingBytes
  | nonCanonical (reason : String)
deriving DecidableEq, Repr

structure ProtocolLimits where
  frameBytes : UInt32
  stringBytes : UInt32
  events : UInt32
deriving Repr

def ProtocolLimits.standard : ProtocolLimits :=
  ⟨maxProtocolFrameBytes, maxProtocolStringBytes, maxProtocolEvents⟩

def checkLimit (resource : String) (actual maximum : ℕ) : Except ProtocolError Unit :=
  failIf (decide (actual > maximum)) (.limitTooLarge resource maximum actual)

def ProtocolLimits.validate (limits : ProtocolLimits) : Except ProtocolError Unit := do
  failIf (decide (limits.frameBytes.toNat < testFrameHeaderBytes) || limits.stringBytes == 0 ||
    limits.events == 0 || decide (limits.stringBytes > limits.frameBytes)) .invalidLimits
  checkLimit "frame bytes" limits.frameBytes.toNat maxProtocolFrameBytes.toNat
  checkLimit "string bytes" limits.stringBytes.toNat maxProtocolStringBytes.toNat
  checkLimit "events" limits.events.toNat maxProtocolEvents.toNat
  failIf (maxProtocolFrameBytes.toNat != maxTestEventBytes)
    (.protocolContractMismatch "frame ceiling differs from the test model event ceiling")
  failIf (testEventVersion != testProtocolVersion) (.protocolContractMismatch
    "frame schema event version differs from the test model protocol version")

/-- The longest stream these limits admit, capped by the protocol-wide ceiling. -/
def ProtocolLimits.maximumStreamBytes (limits : ProtocolLimits) : Except ProtocolError ℕ := do
  limits.validate
  pure (min (limits.frameBytes.toNat * limits.events.toNat) maxProtocolStreamBytes)

/-- What `ProtocolLimits.validate` guarantees about the numbers it accepts. -/
structure ProtocolLimits.Valid (limits : ProtocolLimits) : Prop where
  header_le : testFrameHeaderBytes ≤ limits.frameBytes.toNat
  string_pos : 0 < limits.stringBytes.toNat
  events_pos : 0 < limits.events.toNat
  string_le : limits.stringBytes.toNat ≤ limits.frameBytes.toNat
  frame_le : limits.frameBytes.toNat ≤ maxProtocolFrameBytes.toNat
  string_max : limits.stringBytes.toNat ≤ maxProtocolStringBytes.toNat
  events_max : limits.events.toNat ≤ maxProtocolEvents.toNat

theorem checkLimit_eq_ok : checkLimit resource actual maximum = .ok () ↔ actual ≤ maximum := by
  simp [checkLimit]

variable {limits : ProtocolLimits}

theorem ProtocolLimits.validate_eq_ok : limits.validate = .ok () ↔ limits.Valid := by
  have hframe : (maxProtocolFrameBytes.toNat != maxTestEventBytes) = false := by decide
  have hversion : (testEventVersion != testProtocolVersion) = false := by decide
  simp only [ProtocolLimits.validate, unit_bind_eq_ok, failIf_eq_ok, checkLimit_eq_ok, hframe,
    hversion, and_true, Bool.or_eq_false_iff, decide_eq_false_iff_not, beq_eq_false_iff_ne,
    UInt32.lt_iff_toNat_lt, gt_iff_lt, not_lt, ne_eq, ← UInt32.toNat_inj]
  constructor
  · rintro ⟨⟨⟨⟨hheader, hstring⟩, hevents⟩, hle⟩, hf, hs, he⟩
    exact ⟨hheader, Nat.pos_of_ne_zero hstring, Nat.pos_of_ne_zero hevents, hle, hf, hs, he⟩
  · rintro ⟨hheader, hstring, hevents, hle, hf, hs, he⟩
    exact ⟨⟨⟨⟨hheader, hstring.ne'⟩, hevents.ne'⟩, hle⟩, hf, hs, he⟩

theorem ProtocolLimits.maximumStreamBytes_eq_ok :
    limits.maximumStreamBytes = .ok bytes ↔ limits.Valid ∧
      bytes = min (limits.frameBytes.toNat * limits.events.toNat) maxProtocolStreamBytes := by
  simp only [ProtocolLimits.maximumStreamBytes, unit_bind_eq_ok, ProtocolLimits.validate_eq_ok]
  exact and_congr_right fun _ ↦ ⟨fun h ↦ by cases h; rfl, fun h ↦ by rw [h]; rfl⟩

def validateString (limits : ProtocolLimits) (value : String) : Except ProtocolError Unit :=
  failIf (decide (byteLength value > limits.stringBytes.toNat))
    (.stringTooLarge limits.stringBytes (byteLength value))

def containsNonWhitespace (value : String) : Bool := value.toList.any (!isWhitespace ·)

def validateAssertion (limits : ProtocolLimits) (failure : AssertionFailure) :
    Except ProtocolError Unit := do
  validateString limits failure.expression
  failIf (!containsNonWhitespace failure.expression)
    (.nonCanonical "assertion expression is empty")
  forAll (validateString limits) ([failure.message, failure.expected, failure.actual].filterMap id)
  failIf (failure.message.any fun message ↦ !message.toList.any (!isWhitespace ·))
    (.nonCanonical "assertion message is empty")
  match failure.source with
  | none => pure ()
  | some source =>
    failIf (decide (source.range.start > source.range.stop))
      (.invalidSourceRange source.range.start source.range.stop)

def validateKind (limits : ProtocolLimits) : TestEventKind → Except ProtocolError Unit
  | .log _ _ message => do
    validateString limits message
    failIf message.isEmpty (.nonCanonical "log message is empty")
  | .assertionFailed _ failure => validateAssertion limits failure
  | .testFinished _ (.failed message) => do
    validateString limits message
    failIf (!containsNonWhitespace message) (.nonCanonical "failed test message is empty")
  | .testFinished _ (.timedOut timeoutNs) =>
    failIf (timeoutNs == 0) (.nonCanonical "test timeout must be nonzero")
  | .runFinished passed failed =>
    failIf (decide (passed.toNat + failed.toNat ≥ UInt32.size) ||
      decide (passed.toNat + failed.toNat > limits.events.toNat))
      (.resourceLimit "terminal test count" limits.events.toNat)
  | .runStarted _ | .testStarted _ | .testFinished .. | .heartbeat _ => .ok ()

def validateEvent (event : TestEvent) (limits : ProtocolLimits) : Except ProtocolError Unit := do
  limits.validate
  failIf (event.protocol != testEventVersion) (.unsupportedEventVersion event.protocol)
  failIf (decide (event.sequence.toNat ≥ limits.events.toNat))
    (.eventLimit limits.events event.sequence.toNat)
  validateKind limits event.kind

/-- The parts of an accepted event that its encoding relies on: every text fits the string limit
and every source range is ordered. -/
def TestEventKind.Fits (limits : ProtocolLimits) : TestEventKind → Prop
  | .log _ _ message => byteLength message ≤ limits.stringBytes.toNat
  | .assertionFailed _ failure =>
    byteLength failure.expression ≤ limits.stringBytes.toNat ∧
      (∀ text ∈ failure.message, byteLength text ≤ limits.stringBytes.toNat) ∧
      (∀ text ∈ failure.expected, byteLength text ≤ limits.stringBytes.toNat) ∧
      (∀ text ∈ failure.actual, byteLength text ≤ limits.stringBytes.toNat) ∧
      ∀ source ∈ failure.source, source.range.start ≤ source.range.stop
  | .testFinished _ (.failed message) => byteLength message ≤ limits.stringBytes.toNat
  | _ => True

theorem validateString_eq_ok :
    validateString limits value = .ok () ↔ byteLength value ≤ limits.stringBytes.toNat := by
  simp [validateString]

theorem validateKind_fits (h : validateKind limits kind = .ok ()) : kind.Fits limits := by
  cases kind with
  | log test level message =>
    simp only [validateKind, unit_bind_eq_ok, validateString_eq_ok] at h
    exact h.1
  | assertionFailed test failure =>
    simp only [validateKind, validateAssertion, unit_bind_eq_ok, validateString_eq_ok,
      forAll_eq_ok, List.mem_filterMap, List.mem_cons, List.not_mem_nil, or_false, id_eq] at h
    obtain ⟨hexpression, -, htexts, -, hsource⟩ := h
    refine ⟨hexpression, fun text htext ↦ htexts text ⟨_, .inl rfl, htext⟩,
      fun text htext ↦ htexts text ⟨_, .inr (.inl rfl), htext⟩,
      fun text htext ↦ htexts text ⟨_, .inr (.inr rfl), htext⟩, fun source hmem ↦ ?_⟩
    rw [Option.mem_def.1 hmem] at hsource
    simpa using hsource
  | testFinished test outcome =>
    cases outcome with
    | failed message =>
      simp only [validateKind, unit_bind_eq_ok, validateString_eq_ok] at h
      exact h.1
    | passed => trivial
    | timedOut timeoutNs => trivial
    | languageFatal cause => trivial
  | runStarted testCount => trivial
  | testStarted test => trivial
  | heartbeat monotonicTicks => trivial
  | runFinished passed failed => trivial

theorem validateEvent_eq_ok :
    validateEvent event limits = .ok () ↔ limits.Valid ∧ event.protocol = testEventVersion ∧
      event.sequence.toNat < limits.events.toNat ∧ validateKind limits event.kind = .ok () := by
  simp [validateEvent, unit_bind_eq_ok, ProtocolLimits.validate_eq_ok]

/-! ## The canonical event frame -/

open Wrela.Wire

abbrev PayloadWriter := Put ProtocolError Unit

abbrev PayloadReader := Get ProtocolError Unit

namespace PayloadWriter

variable (limits : ProtocolLimits)

def payloadLimit : ℕ := limits.frameBytes.toNat - testFrameHeaderBytes

def tooLarge (actual : ℕ) : ProtocolError :=
  .frameTooLarge limits.frameBytes (testFrameHeaderBytes + actual)

def extend (value : List UInt8) : PayloadWriter Unit :=
  append (payloadLimit limits) (tooLarge limits) value

def u8 (value : UInt8) : PayloadWriter Unit :=
  putLe (payloadLimit limits) (tooLarge limits) 1 value.toNat

def u32 (value : UInt32) : PayloadWriter Unit :=
  putLe (payloadLimit limits) (tooLarge limits) 4 value.toNat

def u64 (value : UInt64) : PayloadWriter Unit :=
  putLe (payloadLimit limits) (tooLarge limits) 8 value.toNat

def string (value : String) : PayloadWriter Unit :=
  if byteLength value > limits.stringBytes.toNat then
    fail (.stringTooLarge limits.stringBytes (byteLength value))
  else do
    u32 limits (UInt32.ofNat (byteLength value))
    extend limits (utf8Bytes value)

def optionalString : Option String → PayloadWriter Unit
  | none => u8 limits 0
  | some value => do
    u8 limits 1
    string limits value

end PayloadWriter

def pollBytes : ℕ := 4096

/-- How much of a run `copyUtf8` converts next: one poll interval, extended over the continuation
bytes of the character it would otherwise split. -/
def nextChunk (bytes : List UInt8) : Option ℕ :=
  if pollBytes < bytes.length then
    some (pollBytes + ((bytes.drop pollBytes).takeWhile isContinuation).length)
  else some bytes.length

def copyUtf8 (bytes : List UInt8) : Option String := copyChunks nextChunk bytes.length bytes

namespace PayloadReader

variable (limits : ProtocolLimits)

def u8 : PayloadReader UInt8 := getLe .unexpectedEnd 1 UInt8.ofNat

def u32 : PayloadReader UInt32 := getLe .unexpectedEnd 4 UInt32.ofNat

def u64 : PayloadReader UInt64 := getLe .unexpectedEnd 8 UInt64.ofNat

def string : PayloadReader String := do
  let length ← u32
  if length.toNat > limits.stringBytes.toNat then
    fail (.stringTooLarge limits.stringBytes length.toNat)
  else do
    let bytes ← take .unexpectedEnd length.toNat
    match copyUtf8 bytes with
    | some value => pure value
    | none => fail .invalidUtf8

def optionalString (kind : String) : PayloadReader (Option String) := do
  match ← u8 with
  | 0 => pure none
  | 1 => do
    let value ← string limits
    pure (some value)
  | tag => fail (.invalidTag kind tag)

end PayloadReader

def logLevelTag : LogLevel → UInt8
  | .trace => 0
  | .debug => 1
  | .info => 2
  | .warning => 3
  | .error => 4

def decodeLogLevel : UInt8 → PayloadReader LogLevel
  | 0 => pure .trace
  | 1 => pure .debug
  | 2 => pure .info
  | 3 => pure .warning
  | 4 => pure .error
  | tag => fail (.invalidTag "log level" tag)

def languageFatalCauseTag : LanguageFatalCause → UInt8
  | .checkedShiftResultLoss => 0
  | .invalidShiftCount => 1

def decodeLanguageFatalCause : UInt8 → PayloadReader LanguageFatalCause
  | 0 => pure .checkedShiftResultLoss
  | 1 => pure .invalidShiftCount
  | tag => fail (.invalidTag "language fatal cause" tag)

section Encoding

variable (limits : ProtocolLimits)

def encodeOptionalTest : Option TestId → PayloadWriter Unit
  | none => PayloadWriter.u8 limits 0
  | some test => do
    PayloadWriter.u8 limits 1
    PayloadWriter.u32 limits test.val

def encodeOptionalSource : Option Span → PayloadWriter Unit
  | none => PayloadWriter.u8 limits 0
  | some source => do
    PayloadWriter.u8 limits 1
    PayloadWriter.u32 limits source.file.val
    PayloadWriter.u32 limits source.range.start
    PayloadWriter.u32 limits source.range.stop

def encodeOutcome : GuestTestOutcome → PayloadWriter Unit
  | .passed => PayloadWriter.u8 limits 0
  | .failed message => do
    PayloadWriter.u8 limits 1
    PayloadWriter.string limits message
  | .timedOut timeoutNs => do
    PayloadWriter.u8 limits 2
    PayloadWriter.u64 limits timeoutNs
  | .languageFatal cause => do
    PayloadWriter.u8 limits 3
    PayloadWriter.u8 limits (languageFatalCauseTag cause)

def encodeEventKind : TestEventKind → PayloadWriter Unit
  | .runStarted testCount => do
    PayloadWriter.u8 limits 0
    PayloadWriter.u32 limits testCount
  | .testStarted test => do
    PayloadWriter.u8 limits 1
    PayloadWriter.u32 limits test.val
  | .log test level message => do
    PayloadWriter.u8 limits 2
    encodeOptionalTest limits test
    PayloadWriter.u8 limits (logLevelTag level)
    PayloadWriter.string limits message
  | .assertionFailed test failure => do
    PayloadWriter.u8 limits 3
    PayloadWriter.u32 limits test.val
    PayloadWriter.string limits failure.expression
    PayloadWriter.optionalString limits failure.message
    encodeOptionalSource limits failure.source
    PayloadWriter.optionalString limits failure.expected
    PayloadWriter.optionalString limits failure.actual
  | .testFinished test outcome => do
    PayloadWriter.u8 limits 4
    PayloadWriter.u32 limits test.val
    encodeOutcome limits outcome
  | .heartbeat monotonicTicks => do
    PayloadWriter.u8 limits 5
    PayloadWriter.u64 limits monotonicTicks
  | .runFinished passed failed => do
    PayloadWriter.u8 limits 6
    PayloadWriter.u32 limits passed
    PayloadWriter.u32 limits failed

def encodePayload (event : TestEvent) : PayloadWriter Unit := do
  PayloadWriter.u32 limits event.protocol
  PayloadWriter.u64 limits event.sequence
  encodeEventKind limits event.kind

def decodeOptionalTest : PayloadReader (Option TestId) := do
  match ← PayloadReader.u8 with
  | 0 => pure none
  | 1 => do
    let test ← PayloadReader.u32
    pure (some ⟨test⟩)
  | tag => fail (.invalidTag "optional test" tag)

def decodeOptionalSource : PayloadReader (Option Span) := do
  match ← PayloadReader.u8 with
  | 0 => pure none
  | 1 => do
    let file ← PayloadReader.u32
    let start ← PayloadReader.u32
    let stop ← PayloadReader.u32
    match TextRange.new start stop with
    | some range => pure (some ⟨⟨file⟩, range⟩)
    | none => fail (.invalidSourceRange start stop)
  | tag => fail (.invalidTag "optional assertion source" tag)

def decodeOutcome : PayloadReader GuestTestOutcome := do
  match ← PayloadReader.u8 with
  | 0 => pure .passed
  | 1 => do
    let message ← PayloadReader.string limits
    pure (.failed message)
  | 2 => do
    let timeoutNs ← PayloadReader.u64
    pure (.timedOut timeoutNs)
  | 3 => do
    let tag ← PayloadReader.u8
    let cause ← decodeLanguageFatalCause tag
    pure (.languageFatal cause)
  | tag => fail (.invalidTag "guest outcome" tag)

def decodeEventKind : PayloadReader TestEventKind := do
  match ← PayloadReader.u8 with
  | 0 => do
    let testCount ← PayloadReader.u32
    pure (.runStarted testCount)
  | 1 => do
    let test ← PayloadReader.u32
    pure (.testStarted ⟨test⟩)
  | 2 => do
    let test ← decodeOptionalTest
    let tag ← PayloadReader.u8
    let level ← decodeLogLevel tag
    let message ← PayloadReader.string limits
    pure (.log test level message)
  | 3 => do
    let test ← PayloadReader.u32
    let expression ← PayloadReader.string limits
    let message ← PayloadReader.optionalString limits "optional assertion message"
    let source ← decodeOptionalSource
    let expected ← PayloadReader.optionalString limits "optional expected value"
    let actual ← PayloadReader.optionalString limits "optional actual value"
    pure (.assertionFailed ⟨test⟩ ⟨expression, message, source, expected, actual⟩)
  | 4 => do
    let test ← PayloadReader.u32
    let outcome ← decodeOutcome limits
    pure (.testFinished ⟨test⟩ outcome)
  | 5 => do
    let monotonicTicks ← PayloadReader.u64
    pure (.heartbeat monotonicTicks)
  | 6 => do
    let passed ← PayloadReader.u32
    let failed ← PayloadReader.u32
    pure (.runFinished passed failed)
  | tag => fail (.invalidTag "event" tag)

def decodePayload : PayloadReader TestEvent := do
  let protocol ← PayloadReader.u32
  let sequence ← PayloadReader.u64
  let kind ← decodeEventKind limits
  pure ⟨protocol, sequence, kind⟩

end Encoding

def testFrameMagic : List UInt8 := [0x57, 0x52, 0x45, 0x4c, 0x54, 0x53, 0x54, 0x00]

structure FrameHeader where
  frameVersion : UInt32
  eventVersion : UInt32
  sequence : UInt64
  payloadBytes : UInt32
  checksum : UInt32
deriving DecidableEq, Repr

structure EncodedEventCandidate where
  header : FrameHeader
  bytes : List UInt8
deriving Repr

def crc32cBit (checksum : UInt32) : UInt32 :=
  (checksum >>> 1) ^^^ (0x82f63b78 &&& (0 - (checksum &&& 1)))

def crc32cByte (checksum : UInt32) (byte : UInt8) : UInt32 :=
  crc32cBit^[8] (checksum ^^^ byte.toUInt32)

def crc32c (bytes : List UInt8) : UInt32 := ~~~(bytes.foldl crc32cByte (~~~0))

def FrameHeader.toBytes (header : FrameHeader) : List UInt8 :=
  testFrameMagic ++ leBytes 4 header.frameVersion.toNat ++ leBytes 4 header.eventVersion.toNat ++
    leBytes 8 header.sequence.toNat ++ leBytes 4 header.payloadBytes.toNat ++
    leBytes 4 header.checksum.toNat

def fixedU32 (bytes : List UInt8) (offset : ℕ) : Except ProtocolError UInt32 :=
  if offset + 4 ≤ bytes.length then .ok (UInt32.ofNat (leValue ((bytes.drop offset).take 4)))
  else .error .unexpectedEnd

def fixedU64 (bytes : List UInt8) (offset : ℕ) : Except ProtocolError UInt64 :=
  if offset + 8 ≤ bytes.length then .ok (UInt64.ofNat (leValue ((bytes.drop offset).take 8)))
  else .error .unexpectedEnd

def parseHeader (frame : List UInt8) : Except ProtocolError FrameHeader := do
  failIf (decide (frame.length < testFrameHeaderBytes)) .unexpectedEnd
  failIf (frame.take testFrameMagic.length != testFrameMagic) .invalidMagic
  let frameVersion ← fixedU32 frame 8
  let eventVersion ← fixedU32 frame 12
  let sequence ← fixedU64 frame 16
  let payloadBytes ← fixedU32 frame 24
  let checksum ← fixedU32 frame 28
  pure ⟨frameVersion, eventVersion, sequence, payloadBytes, checksum⟩

def validateFrameShape (frame : List UInt8) (header : FrameHeader) (limits : ProtocolLimits) :
    Except ProtocolError Unit := do
  limits.validate
  failIf (decide (frame.length < testFrameHeaderBytes)) .unexpectedEnd
  failIf (decide (frame.length > limits.frameBytes.toNat))
    (.frameTooLarge limits.frameBytes frame.length)
  let observed ← parseHeader frame
  failIf (observed != header) (.nonCanonical "reported header differs from frame bytes")
  failIf (header.frameVersion != testFrameVersion) (.unsupportedFrameVersion header.frameVersion)
  failIf (header.eventVersion != testEventVersion) (.unsupportedEventVersion header.eventVersion)
  failIf (decide (header.sequence.toNat ≥ limits.events.toNat))
    (.eventLimit limits.events header.sequence.toNat)
  let expectedFrameBytes := testFrameHeaderBytes + header.payloadBytes.toNat
  failIf (decide (expectedFrameBytes > frame.length)) .unexpectedEnd
  failIf (decide (expectedFrameBytes < frame.length)) .trailingBytes
  failIf (decide (expectedFrameBytes > limits.frameBytes.toNat))
    (.frameTooLarge limits.frameBytes expectedFrameBytes)
  let payload := (frame.take expectedFrameBytes).drop testFrameHeaderBytes
  failIf (crc32c payload != header.checksum) .invalidChecksum

def encode (event : TestEvent) (limits : ProtocolLimits) :
    Except ProtocolError EncodedEventCandidate := do
  validateEvent event limits
  failIf (decide (limits.frameBytes.toNat < testFrameHeaderBytes)) .invalidLimits
  let (_, sink) ← encodePayload limits event ⟨[], ()⟩
  let payload := sink.bytes
  failIf (decide (payload.length ≥ UInt32.size)) (.frameTooLarge limits.frameBytes payload.length)
  let header : FrameHeader := {
    frameVersion := testFrameVersion
    eventVersion := testEventVersion
    sequence := event.sequence
    payloadBytes := UInt32.ofNat payload.length
    checksum := crc32c payload
  }
  let capacity := testFrameHeaderBytes + payload.length
  failIf (decide (capacity > limits.frameBytes.toNat)) (.frameTooLarge limits.frameBytes capacity)
  pure ⟨header, header.toBytes ++ payload⟩

def decode (frame : List UInt8) (limits : ProtocolLimits) : Except ProtocolError TestEvent := do
  limits.validate
  let header ← parseHeader frame
  validateFrameShape frame header limits
  let (event, source) ← decodePayload limits ⟨frame.drop testFrameHeaderBytes, ()⟩
  failIf (!source.rest.isEmpty) .trailingBytes
  validateEvent event limits
  failIf (event.protocol != header.eventVersion || event.sequence != header.sequence)
    (.sequenceMismatch header.sequence event.sequence)
  pure event

end Wrela.TestProtocol
