import Wrela.TestModel.Report
import Wrela.Wire.Guarded

/-!
# The canonical report codec

A report is written field by field in little-endian binary, with a count before every text, byte
array and vector.  The decoder holds each count against the bytes that are left, against the least
size of an element, and against the totals it has been asked for so far, before it allocates.
-/

namespace Wrela.TestModel

open Wrela.Source Wrela.BuildModel Wrela.Wire
open Wrela.TestProtocol (TestEvent TestEventKind GuestTestOutcome AssertionFailure LogLevel
  LanguageFatalCause)

inductive TestReportCodecError where
  | invalidLimit
  | outputTooLarge (limit : UInt64)
  | encode (text : String)
  | decode (text : String)
  | nonCanonical

def canonicalTestReportMagic : List UInt8 := utf8Bytes "WRELTRP\x00"

def canonicalTestReportEncodingVersion : UInt32 := 2

def copyPollBytes : ℕ := 16 * 1024

def minCaseBytes : ℕ := 20

def minEventBytes : ℕ := 17

def minImageGroupBytes : ℕ := 55

/-! ## Fields -/

abbrev Encoder := Put TestReportCodecError Unit

namespace Encoder

variable (maximumBytes : UInt64) {α : Type}

def tooLarge (_ : ℕ) : TestReportCodecError := .outputTooLarge maximumBytes

def raw (value : List UInt8) : Encoder Unit :=
  append maximumBytes.toNat (tooLarge maximumBytes) value

def number (width value : ℕ) : Encoder Unit :=
  putLe maximumBytes.toNat (tooLarge maximumBytes) width value

def u8 (value : UInt8) : Encoder Unit := number maximumBytes 1 value.toNat

def u32 (value : UInt32) : Encoder Unit := number maximumBytes 4 value.toNat

def i32 (value : Int32) : Encoder Unit := number maximumBytes 4 value.toUInt32.toNat

def u64 (value : UInt64) : Encoder Unit := number maximumBytes 8 value.toNat

/-- A count, refused when it does not fit its field. -/
def count (error : String) (length : ℕ) : Encoder Unit :=
  if length ≥ UInt32.size then fail (.encode error) else u32 maximumBytes (UInt32.ofNat length)

def string (value : String) : Encoder Unit := do
  count maximumBytes "string length exceeds canonical u32 field" (byteLength value)
  raw maximumBytes (utf8Bytes value)

def bytes (value : List UInt8) : Encoder Unit := do
  count maximumBytes "byte-array length exceeds canonical u32 field" value.length
  raw maximumBytes value

def option (encode : α → Encoder Unit) : Option α → Encoder Unit
  | none => u8 maximumBytes 0
  | some value => do
    u8 maximumBytes 1
    encode value

def vector (encode : α → Encoder Unit) (values : List α) : Encoder Unit := do
  count maximumBytes "vector count exceeds canonical u32 field" values.length
  putAll encode values

end Encoder

abbrev Reader := Get TestReportCodecError Held

/-- The end of the next piece of a text that is copied: the last character boundary within one
poll interval. -/
def pieceEnd (text : List UInt8) : ℕ → ℕ
  | 0 => 0
  | stop + 1 =>
    if (text[stop + 1]?).any isContinuation then pieceEnd text stop else stop + 1

def nextPiece (text : List UInt8) : Option ℕ :=
  let stop := pieceEnd text (min copyPollBytes text.length)
  if stop = 0 then none else some stop

namespace Reader

variable (maximumBytes : UInt64) {α : Type}

def truncated : TestReportCodecError := .decode "truncated canonical test report"

def raw (length : ℕ) : Reader (List UInt8) := take truncated length

def u8 : Reader UInt8 := getLe truncated 1 UInt8.ofNat

def u32 : Reader UInt32 := getLe truncated 4 UInt32.ofNat

def i32 : Reader Int32 := getLe truncated 4 fun value ↦ (UInt32.ofNat value).toInt32

def u64 : Reader UInt64 := getLe truncated 8 UInt64.ofNat

/-- A run of bytes after its count. -/
def counted (long : String) : Reader (List UInt8) := do
  let length ← u32
  payload maximumBytes.toNat (.decode "aggregate report payload exceeds byte limit") (.decode long)
    truncated length.toNat

def string : Reader String := do
  let source ← counted maximumBytes "string length exceeds remaining report bytes"
  match fromUtf8 source with
  | none => fail (.decode "canonical report string is not UTF-8")
  | some _ =>
    match copyChunks nextPiece source.length source with
    | none => fail (.decode "unable to advance through UTF-8 string")
    | some value => pure value

def byteVector : Reader (List UInt8) :=
  counted maximumBytes "byte-array length exceeds remaining report bytes"

def option (decode : Reader α) : Reader (Option α) := do
  match ← u8 with
  | 0 => pure none
  | 1 => do
    let value ← decode
    pure (some value)
  | _ => fail (.decode "invalid canonical option-presence tag")

def vector (minimumItemBytes : ℕ) (decode : Reader α) : Reader (List α) := do
  let count ← u32
  elements maximumBytes.toNat (.decode "aggregate report item count exceeds byte limit")
    (.decode "vector count exceeds remaining report bytes") minimumItemBytes decode count.toNat

/-- One byte that stands for a constructor. -/
def tagged (error : String) (ofTag : UInt8 → Option α) : Reader α := do
  let tag ← u8
  match ofTag tag with
  | some value => pure value
  | none => fail (.decode error)

end Reader

def languageRevisionTag : LanguageRevision → UInt8
  | .design01 => 0

def decodeLanguageRevision : UInt8 → Option LanguageRevision
  | 0 => some .design01
  | _ => none

def testKindTag : TestKind → UInt8
  | .comptimeUnit => 0
  | .integrationImage => 1
  | .declaredImage => 2

def decodeTestKind : UInt8 → Option TestKind
  | 0 => some .comptimeUnit
  | 1 => some .integrationImage
  | 2 => some .declaredImage
  | _ => none

def failurePhaseTag : FailurePhase → UInt8
  | .discovery => 0
  | .comptime => 1
  | .compile => 2
  | .link => 3
  | .boot => 4
  | .runtime => 5
  | .shutdown => 6
  | .protocol => 7

def decodeFailurePhase : UInt8 → Option FailurePhase
  | 0 => some .discovery
  | 1 => some .comptime
  | 2 => some .compile
  | 3 => some .link
  | 4 => some .boot
  | 5 => some .runtime
  | 6 => some .shutdown
  | 7 => some .protocol
  | _ => none

def logLevelTag : LogLevel → UInt8
  | .trace => 0
  | .debug => 1
  | .info => 2
  | .warning => 3
  | .error => 4

def decodeLogLevel : UInt8 → Option LogLevel
  | 0 => some .trace
  | 1 => some .debug
  | 2 => some .info
  | 3 => some .warning
  | 4 => some .error
  | _ => none

def languageFatalCauseTag : LanguageFatalCause → UInt8
  | .checkedShiftResultLoss => 0
  | .invalidShiftCount => 1

def decodeLanguageFatalCauseTag : UInt8 → Option LanguageFatalCause
  | 0 => some .checkedShiftResultLoss
  | 1 => some .invalidShiftCount
  | _ => none

/-! ## Records -/

section Encoding

variable (maximumBytes : UInt64)

open Encoder

def encodeDigest (digest : Sha256Digest) : Encoder Unit := raw maximumBytes digest.bytes

def encodeLanguageRevision (language : LanguageRevision) : Encoder Unit :=
  u8 maximumBytes (languageRevisionTag language)

def encodeTargetIdentity (target : TargetIdentity) : Encoder Unit := string maximumBytes target.name

def encodeBuildIdentity (build : BuildIdentity) : Encoder Unit := do
  encodeDigest maximumBytes build.compiler
  encodeLanguageRevision maximumBytes build.language
  encodeTargetIdentity maximumBytes build.target
  encodeDigest maximumBytes build.targetPackage
  encodeDigest maximumBytes build.standardLibrary
  encodeDigest maximumBytes build.sourceGraph
  encodeDigest maximumBytes build.request
  encodeDigest maximumBytes build.profile

def encodeSpan (span : Span) : Encoder Unit := do
  u32 maximumBytes span.file.val
  u32 maximumBytes span.range.start
  u32 maximumBytes span.range.stop

def encodeTestKind (kind : TestKind) : Encoder Unit := u8 maximumBytes (testKindTag kind)

def encodeTestId (test : TestId) : Encoder Unit := u32 maximumBytes test.val

def encodeDescriptor (descriptor : TestDescriptor) : Encoder Unit := do
  encodeTestId maximumBytes descriptor.id
  string maximumBytes descriptor.name
  encodeTestKind maximumBytes descriptor.kind
  option maximumBytes (encodeSpan maximumBytes) descriptor.source
  u64 maximumBytes descriptor.timeoutNs

def encodeLanguageFatalCause (cause : LanguageFatalCause) : Encoder Unit :=
  u8 maximumBytes (languageFatalCauseTag cause)

def encodeFailurePhase (phase : FailurePhase) : Encoder Unit :=
  u8 maximumBytes (failurePhaseTag phase)

def encodeOutcome : TestOutcome → Encoder Unit
  | .passed => u8 maximumBytes 0
  | .failed phase message => do
    u8 maximumBytes 1
    encodeFailurePhase maximumBytes phase
    string maximumBytes message
  | .timedOut phase timeoutNs => do
    u8 maximumBytes 2
    encodeFailurePhase maximumBytes phase
    u64 maximumBytes timeoutNs
  | .crashed code message => do
    u8 maximumBytes 3
    option maximumBytes (i32 maximumBytes) code
    string maximumBytes message
  | .languageFatal cause => do
    u8 maximumBytes 4
    encodeLanguageFatalCause maximumBytes cause

def encodeCaseResult (result : TestCaseResult) : Encoder Unit := do
  encodeDescriptor maximumBytes result.descriptor
  encodeOutcome maximumBytes result.outcome
  option maximumBytes (u64 maximumBytes) result.durationNs

def encodeOptionalDigest (digest : Option Sha256Digest) : Encoder Unit :=
  option maximumBytes (encodeDigest maximumBytes) digest

def encodeEvidence (evidence : ImageExecutionEvidence) : Encoder Unit := do
  encodeOptionalDigest maximumBytes evidence.imageDigest
  encodeDigest maximumBytes evidence.targetDigest
  encodeOptionalDigest maximumBytes evidence.emulatorDigest
  encodeOptionalDigest maximumBytes evidence.scenarioDigest
  encodeOptionalDigest maximumBytes evidence.commandDigest
  encodeOptionalDigest maximumBytes evidence.eventStreamDigest
  option maximumBytes (i32 maximumBytes) evidence.exitCode
  bytes maximumBytes evidence.stderr

def encodeAssertionFailure (failure : AssertionFailure) : Encoder Unit := do
  string maximumBytes failure.expression
  option maximumBytes (string maximumBytes) failure.message
  option maximumBytes (encodeSpan maximumBytes) failure.source
  option maximumBytes (string maximumBytes) failure.expected
  option maximumBytes (string maximumBytes) failure.actual

def encodeGuestOutcome : GuestTestOutcome → Encoder Unit
  | .passed => u8 maximumBytes 0
  | .failed message => do
    u8 maximumBytes 1
    string maximumBytes message
  | .timedOut timeoutNs => do
    u8 maximumBytes 2
    u64 maximumBytes timeoutNs
  | .languageFatal cause => do
    u8 maximumBytes 3
    encodeLanguageFatalCause maximumBytes cause

def encodeLogLevel (level : LogLevel) : Encoder Unit := u8 maximumBytes (logLevelTag level)

def encodeEventKind : TestEventKind → Encoder Unit
  | .runStarted testCount => do
    u8 maximumBytes 0
    u32 maximumBytes testCount
  | .testStarted test => do
    u8 maximumBytes 1
    encodeTestId maximumBytes test
  | .log test level message => do
    u8 maximumBytes 2
    option maximumBytes (encodeTestId maximumBytes) test
    encodeLogLevel maximumBytes level
    string maximumBytes message
  | .assertionFailed test failure => do
    u8 maximumBytes 3
    encodeTestId maximumBytes test
    encodeAssertionFailure maximumBytes failure
  | .testFinished test outcome => do
    u8 maximumBytes 4
    encodeTestId maximumBytes test
    encodeGuestOutcome maximumBytes outcome
  | .heartbeat monotonicTicks => do
    u8 maximumBytes 5
    u64 maximumBytes monotonicTicks
  | .runFinished passed failed => do
    u8 maximumBytes 6
    u32 maximumBytes passed
    u32 maximumBytes failed

def encodeEvent (event : TestEvent) : Encoder Unit := do
  u32 maximumBytes event.protocol
  u64 maximumBytes event.sequence
  encodeEventKind maximumBytes event.kind

def encodeImageGroupId (group : ImageGroupId) : Encoder Unit := u32 maximumBytes group.val

def encodeImageGroupResult (result : ImageGroupResult) : Encoder Unit := do
  encodeImageGroupId maximumBytes result.group
  vector maximumBytes (encodeCaseResult maximumBytes) result.cases
  vector maximumBytes (encodeEvent maximumBytes) result.events
  encodeEvidence maximumBytes result.evidence
  option maximumBytes (encodeOutcome maximumBytes) result.infrastructureFailure

def encodeReport (report : TestReport) : Encoder Unit := do
  u32 maximumBytes report.schema
  encodeBuildIdentity maximumBytes report.build
  option maximumBytes (u64 maximumBytes) report.startedUnixNs
  option maximumBytes (u64 maximumBytes) report.durationNs
  vector maximumBytes (encodeCaseResult maximumBytes) report.unit
  vector maximumBytes (encodeImageGroupResult maximumBytes) report.images

def encodeDocument (report : TestReport) : Encoder Unit := do
  raw maximumBytes canonicalTestReportMagic
  u32 maximumBytes canonicalTestReportEncodingVersion
  encodeReport maximumBytes report

end Encoding

section Decoding

variable (maximumBytes : UInt64)

open Reader

def decodeDigest : Reader Sha256Digest := do
  let bytes ← raw 32
  if h : bytes.length = 32 then pure ⟨bytes, h⟩
  else fail (.decode "truncated SHA-256 digest")

def decodeTargetIdentity : Reader TargetIdentity := do
  let name ← string maximumBytes
  match TargetIdentity.new name with
  | some target => pure target
  | none => fail (.decode "invalid target identity")

def decodeBuildIdentity : Reader BuildIdentity := do
  let compiler ← decodeDigest
  let language ← tagged "invalid language-revision tag" decodeLanguageRevision
  let target ← decodeTargetIdentity maximumBytes
  let targetPackage ← decodeDigest
  let standardLibrary ← decodeDigest
  let sourceGraph ← decodeDigest
  let request ← decodeDigest
  let profile ← decodeDigest
  pure ⟨compiler, language, target, targetPackage, standardLibrary, sourceGraph, request, profile⟩

def decodeSpan : Reader Span := do
  let file ← u32
  let start ← u32
  let stop ← u32
  pure ⟨⟨file⟩, ⟨start, stop⟩⟩

def decodeTestId : Reader TestId := do
  let id ← u32
  pure ⟨id⟩

def decodeDescriptor : Reader TestDescriptor := do
  let id ← decodeTestId
  let name ← string maximumBytes
  let kind ← tagged "invalid test-kind tag" decodeTestKind
  let source ← option decodeSpan
  let timeoutNs ← u64
  pure ⟨id, name, kind, source, timeoutNs⟩

def decodeLanguageFatalCause : Reader LanguageFatalCause :=
  tagged "invalid language-fatal-cause tag" decodeLanguageFatalCauseTag

def decodePhase : Reader FailurePhase := tagged "invalid failure-phase tag" decodeFailurePhase

def decodeOutcome : Reader TestOutcome := do
  match ← u8 with
  | 0 => pure .passed
  | 1 => do
    let phase ← decodePhase
    let message ← string maximumBytes
    pure (.failed phase message)
  | 2 => do
    let phase ← decodePhase
    let timeoutNs ← u64
    pure (.timedOut phase timeoutNs)
  | 3 => do
    let code ← option i32
    let message ← string maximumBytes
    pure (.crashed code message)
  | 4 => do
    let cause ← decodeLanguageFatalCause
    pure (.languageFatal cause)
  | _ => fail (.decode "invalid test-outcome tag")

def decodeCaseResult : Reader TestCaseResult := do
  let descriptor ← decodeDescriptor maximumBytes
  let outcome ← decodeOutcome maximumBytes
  let durationNs ← option u64
  pure ⟨descriptor, outcome, durationNs⟩

def decodeOptionalDigest : Reader (Option Sha256Digest) := option decodeDigest

def decodeEvidence : Reader ImageExecutionEvidence := do
  let imageDigest ← decodeOptionalDigest
  let targetDigest ← decodeDigest
  let emulatorDigest ← decodeOptionalDigest
  let scenarioDigest ← decodeOptionalDigest
  let commandDigest ← decodeOptionalDigest
  let eventStreamDigest ← decodeOptionalDigest
  let exitCode ← option i32
  let stderr ← byteVector maximumBytes
  pure ⟨imageDigest, targetDigest, emulatorDigest, scenarioDigest, commandDigest,
    eventStreamDigest, exitCode, stderr⟩

def decodeAssertionFailure : Reader AssertionFailure := do
  let expression ← string maximumBytes
  let message ← option (string maximumBytes)
  let source ← option decodeSpan
  let expected ← option (string maximumBytes)
  let actual ← option (string maximumBytes)
  pure ⟨expression, message, source, expected, actual⟩

def decodeGuestOutcome : Reader GuestTestOutcome := do
  match ← u8 with
  | 0 => pure .passed
  | 1 => do
    let message ← string maximumBytes
    pure (.failed message)
  | 2 => do
    let timeoutNs ← u64
    pure (.timedOut timeoutNs)
  | 3 => do
    let cause ← decodeLanguageFatalCause
    pure (.languageFatal cause)
  | _ => fail (.decode "invalid guest-test-outcome tag")

def decodeEventKind : Reader TestEventKind := do
  match ← u8 with
  | 0 => do
    let testCount ← u32
    pure (.runStarted testCount)
  | 1 => do
    let test ← decodeTestId
    pure (.testStarted test)
  | 2 => do
    let test ← option decodeTestId
    let level ← tagged "invalid log-level tag" decodeLogLevel
    let message ← string maximumBytes
    pure (.log test level message)
  | 3 => do
    let test ← decodeTestId
    let failure ← decodeAssertionFailure maximumBytes
    pure (.assertionFailed test failure)
  | 4 => do
    let test ← decodeTestId
    let outcome ← decodeGuestOutcome maximumBytes
    pure (.testFinished test outcome)
  | 5 => do
    let monotonicTicks ← u64
    pure (.heartbeat monotonicTicks)
  | 6 => do
    let passed ← u32
    let failed ← u32
    pure (.runFinished passed failed)
  | _ => fail (.decode "invalid test-event-kind tag")

def decodeEvent : Reader TestEvent := do
  let protocol ← u32
  let sequence ← u64
  let kind ← decodeEventKind maximumBytes
  pure ⟨protocol, sequence, kind⟩

def decodeImageGroupId : Reader ImageGroupId := do
  let id ← u32
  pure ⟨id⟩

def decodeImageGroupResult : Reader ImageGroupResult := do
  let group ← decodeImageGroupId
  let cases ← vector maximumBytes minCaseBytes (decodeCaseResult maximumBytes)
  let events ← vector maximumBytes minEventBytes (decodeEvent maximumBytes)
  let evidence ← decodeEvidence maximumBytes
  let infrastructureFailure ← option (decodeOutcome maximumBytes)
  pure ⟨group, cases, events, evidence, infrastructureFailure⟩

def decodeReport : Reader TestReport := do
  let schema ← u32
  let build ← decodeBuildIdentity maximumBytes
  let startedUnixNs ← option u64
  let durationNs ← option u64
  let unit ← vector maximumBytes minCaseBytes (decodeCaseResult maximumBytes)
  let images ← vector maximumBytes minImageGroupBytes (decodeImageGroupResult maximumBytes)
  pure ⟨schema, build, startedUnixNs, durationNs, unit, images⟩

/-- The whole input, whose end `decode` checks. -/
def decodeDocument : Reader TestReport := do
  let magic ← raw canonicalTestReportMagic.length
  if magic ≠ canonicalTestReportMagic then fail (.decode "invalid canonical test-report magic")
  else do
    let encodingVersion ← u32
    if encodingVersion ≠ canonicalTestReportEncodingVersion then
      fail (.decode "unsupported canonical test-report encoding version")
    else decodeReport maximumBytes

end Decoding

def checkLimit (maximumBytes : UInt64) : Except TestReportCodecError Unit :=
  if maximumBytes = 0 then .error .invalidLimit else .ok ()

/-- A first pass measures the report, and a second one writes it. -/
def encode (report : TestReport) (maximumBytes : UInt64) :
    Except TestReportCodecError (List UInt8) := do
  checkLimit maximumBytes
  let (_, counter) ← encodeDocument maximumBytes report ⟨[], ()⟩
  let (_, encoder) ← encodeDocument maximumBytes report ⟨[], ()⟩
  if encoder.bytes.length ≠ counter.bytes.length then
    .error (.encode "canonical report length changed while encoding")
  else .ok encoder.bytes

def decode (bytes : List UInt8) (maximumBytes : UInt64) :
    Except TestReportCodecError TestReport := do
  checkLimit maximumBytes
  if bytes.length > maximumBytes.toNat then .error (.outputTooLarge maximumBytes)
  else do
    let (report, reader) ← decodeDocument maximumBytes ⟨bytes, .zero⟩
    if reader.rest.isEmpty then .ok report
    else .error (.decode "trailing bytes after canonical test report")

structure EncodedTestReport where
  report : TestReport
  bytes : List UInt8

/-- Encode, decode, compare and encode again before the bytes are let out. -/
def sealTestReportEncoding (report : TestReport) (maximumBytes : UInt64) :
    Except TestReportCodecError EncodedTestReport := do
  checkLimit maximumBytes
  let bytes ← encode report maximumBytes
  if bytes.length > maximumBytes.toNat then .error (.outputTooLarge maximumBytes)
  else do
    let decoded ← decode bytes maximumBytes
    if decoded ≠ report then .error .nonCanonical
    else do
      let again ← encode decoded maximumBytes
      if again ≠ bytes then .error .nonCanonical else .ok ⟨report, bytes⟩

end Wrela.TestModel
