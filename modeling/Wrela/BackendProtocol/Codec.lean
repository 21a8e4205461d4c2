import Wrela.BuildModel.Profile
import Wrela.Wire.Number
import Wrela.Wire.Checked

/-!
# Backend messages

The requests the driver sends to the private backend and the responses it gets.  A path inside the
controlled build directory can only be made from a text that passes every check on it.
-/

namespace Wrela.BackendProtocol

open Wrela.Source Wrela.BuildModel

def protocolVersion : UInt32 := 5

def maxFrameBytes : ℕ := 16 * 1024 * 1024

def maxTextBytes : ℕ := 1024 * 1024

/-- Why a target was refused: its identity, or the evidence for its runtime object. -/
inductive TargetFault where
  | identity (error : AtomError)
  | runtimeEvidence
deriving DecidableEq

inductive ProtocolError where
  | invalidMagic
  | unsupportedVersion (version : UInt32)
  | unexpectedMessageKind (kind : UInt8)
  | frameTooLarge (length : ℕ)
  | frameLengthMismatch (declared actual : ℕ)
  | unexpectedEnd
  | trailingBytes
  | invalidUtf8
  | textTooLong (length : ℕ)
  | invalidBoolean (tag : UInt8)
  | invalidEnumTag (name : String) (tag : UInt8)
  | invalidOutcomeTag (tag : UInt8)
  | invalidPath (reason : String)
  | invalidTarget (fault : TargetFault)
  | invalidProfile (error : ProfileError)
  | buildConfigurationMismatch
deriving DecidableEq

/-- The components of a path, between its slashes. -/
def components (value : String) : List (List Char) := value.toList.splitOn '/'

/-- What is wrong with a path, if anything. -/
def pathError (value : String) : Option String :=
  if value.isEmpty then some "path is empty"
  else if value.toList.contains '\x00' then some "path contains NUL"
  else if value.toList.head? = some '/' || value.toList.head? = some '\\' ||
      value.toList.contains ':' then
    some "path must be relative to the private build directory"
  else if value.toList.contains '\\' then
    some "path must use canonical forward-slash separators"
  else if (components value).any fun component ↦
      component.isEmpty || component = ['.'] || component = ['.', '.'] then
    some "path contains an empty, current-directory, or parent component"
  else none

structure BackendPath where
  value : String
  valid : pathError value = none

def BackendPath.new (value : String) : Except ProtocolError BackendPath :=
  match h : pathError value with
  | some reason => .error (.invalidPath reason)
  | none => .ok ⟨value, h⟩

theorem BackendPath.new_eq_ok {value : String} {path : BackendPath} :
    BackendPath.new value = .ok path ↔ path.value = value := by
  unfold BackendPath.new
  constructor
  · intro h
    split at h
    · cases h
    · cases h
      rfl
  · rintro rfl
    split
    · rename_i reason herror
      rw [path.valid] at herror
      cases herror
    · rfl

/-- A sequence of names below a directory: no name is empty, the directory itself or its parent, and
none has a separator, a drive or stream colon, or a NUL in it. -/
def IsRelative (value : String) : Prop :=
  ∃ names : List (List Char), names ≠ [] ∧ value.toList = ['/'].intercalate names ∧
    ∀ name ∈ names, name ≠ [] ∧ name ≠ ['.'] ∧ name ≠ ['.', '.'] ∧
      '/' ∉ name ∧ '\\' ∉ name ∧ ':' ∉ name ∧ '\x00' ∉ name

theorem BackendPath.isRelative (path : BackendPath) : IsRelative path.value := by
  have hvalid := path.valid
  unfold pathError at hvalid
  split_ifs at hvalid with hempty hnul habsolute hbackslash hcomponent
  simp only [List.contains_eq_mem, decide_eq_true_eq, Bool.or_eq_true, not_or]
    at hnul habsolute hbackslash
  refine ⟨components path.value, List.splitOn_ne_nil _ _, (List.intercalate_splitOn '/').symm,
    fun name hname ↦ ?_⟩
  simp only [List.any_eq_true, Bool.or_eq_true, not_exists, not_and, not_or, List.isEmpty_iff,
    decide_eq_true_eq] at hcomponent
  obtain ⟨⟨hne, hcurrent⟩, hparent⟩ := hcomponent name hname
  have hmem {character : Char} (hcharacter : character ∈ name) :
      character ∈ path.value.toList ∧ character ≠ '/' := mem_of_mem_splitOn hname hcharacter
  exact ⟨hne, hcurrent, hparent, fun h ↦ (hmem h).2 rfl, fun h ↦ hbackslash (hmem h).1,
    fun h ↦ habsolute.2 (hmem h).1, fun h ↦ hnul (hmem h).1⟩

structure BackendRequest where
  requestId : UInt64
  build : BuildConfiguration
  wir : BackendPath
  wirDigest : Sha256Digest
  targetRuntimeDigest : Sha256Digest
  targetRuntimeBytes : UInt64
  targetPackage : BackendPath
  output : BackendPath
  report : BackendPath

structure BackendSuccess where
  artifact : BackendPath
  artifactDigest : Sha256Digest
  report : BackendPath
  reportDigest : Sha256Digest

inductive BackendFailureKind where
  | protocol | input | target | verification | codegen | link | report | internal

structure BackendFailure where
  kind : BackendFailureKind
  message : String

inductive BackendOutcome where
  | success (success : BackendSuccess)
  | failure (failure : BackendFailure)

structure BackendResponse where
  requestId : UInt64
  outcome : BackendOutcome

def BackendRequest.paths (request : BackendRequest) : List BackendPath :=
  [request.wir, request.targetPackage, request.output, request.report]

def BackendResponse.paths (response : BackendResponse) : List BackendPath :=
  match response.outcome with
  | .success success => [success.artifact, success.report]
  | .failure _ => []

open Wrela.Wire Wrela.Checked

abbrev Writer := Put ProtocolError Unit

abbrev Reader := Get ProtocolError Unit

/-! ## Fields -/

def pushU8 (value : UInt8) : Writer Unit := push (leBytes 1 value.toNat)

def pushU32 (value : UInt32) : Writer Unit := push (leBytes 4 value.toNat)

def pushU64 (value : UInt64) : Writer Unit := push (leBytes 8 value.toNat)

def pushBool (value : Bool) : Writer Unit := pushU8 value.toUInt8

def pushDigest (value : Sha256Digest) : Writer Unit := push value.bytes

def pushString (value : String) : Writer Unit :=
  if byteLength value > maxTextBytes then fail (.textTooLong (byteLength value))
  else do
    pushU32 (UInt32.ofNat (byteLength value))
    push (utf8Bytes value)

namespace Reader

def u8 : Reader UInt8 := getLe .unexpectedEnd 1 UInt8.ofNat

def u32 : Reader UInt32 := getLe .unexpectedEnd 4 UInt32.ofNat

def u64 : Reader UInt64 := getLe .unexpectedEnd 8 UInt64.ofNat

def boolean : Reader Bool := do
  match ← u8 with
  | 0 => pure false
  | 1 => pure true
  | tag => fail (.invalidBoolean tag)

def digest : Reader Sha256Digest := do
  let bytes ← take .unexpectedEnd 32
  if h : bytes.length = 32 then pure ⟨bytes, h⟩ else fail .unexpectedEnd

def string : Reader String := do
  let length ← u32
  if length.toNat > maxTextBytes then fail (.textTooLong length.toNat)
  else do
    let bytes ← take .unexpectedEnd length.toNat
    match fromUtf8 bytes with
    | some value => pure value
    | none => fail .invalidUtf8

/-- A tag of an enumeration. -/
def enumTag {α : Type} (name : String) (decode : UInt8 → Option α) : Reader α := do
  let tag ← u8
  match decode tag with
  | some value => pure value
  | none => fail (.invalidEnumTag name tag)

def path : Reader BackendPath := do
  let value ← string
  let path ← checked (BackendPath.new value)
  pure path

end Reader

def languageTag : LanguageRevision → UInt8
  | .design01 => 1

def decodeLanguage : UInt8 → Option LanguageRevision
  | 1 => some .design01
  | _ => none

def modeTag : BuildMode → UInt8
  | .development => 1
  | .release => 2

def decodeMode : UInt8 → Option BuildMode
  | 1 => some .development
  | 2 => some .release
  | _ => none

def recordingTag : RecordingMode → UInt8
  | .disabled => 0
  | .record => 1
  | .replay => 2

def decodeRecording : UInt8 → Option RecordingMode
  | 0 => some .disabled
  | 1 => some .record
  | 2 => some .replay
  | _ => none

def optimizationTag : OptimizationLevel → UInt8
  | .none => 0
  | .development => 1
  | .performance => 2
  | .size => 3

def decodeOptimization : UInt8 → Option OptimizationLevel
  | 0 => some .none
  | 1 => some .development
  | 2 => some .performance
  | 3 => some .size
  | _ => none

def failureKindTag : BackendFailureKind → UInt8
  | .protocol => 0
  | .input => 1
  | .target => 2
  | .verification => 3
  | .codegen => 4
  | .link => 5
  | .report => 6
  | .internal => 7

def decodeFailureKind : UInt8 → Option BackendFailureKind
  | 0 => some .protocol
  | 1 => some .input
  | 2 => some .target
  | 3 => some .verification
  | 4 => some .codegen
  | 5 => some .link
  | 6 => some .report
  | 7 => some .internal
  | _ => none

def encodeIdentity (identity : BuildIdentity) : Writer Unit := do
  pushDigest identity.compiler
  pushU8 (languageTag identity.language)
  pushString identity.target.name
  pushDigest identity.targetPackage
  pushDigest identity.standardLibrary
  pushDigest identity.sourceGraph
  pushDigest identity.request
  pushDigest identity.profile

def decodeIdentity : Reader BuildIdentity := do
  let compiler ← Reader.digest
  let language ← Reader.enumTag "language revision" decodeLanguage
  let name ← Reader.string
  let target ← checked ((TargetIdentity.check name).mapError (.invalidTarget ∘ .identity))
  let targetPackage ← Reader.digest
  let standardLibrary ← Reader.digest
  let sourceGraph ← Reader.digest
  let request ← Reader.digest
  let profile ← Reader.digest
  pure ⟨compiler, language, target, targetPackage, standardLibrary, sourceGraph, request, profile⟩

def encodeProfileData : Option Sha256Digest → Writer Unit
  | some digest => do
    pushBool true
    pushDigest digest
  | none => pushBool false

def decodeProfileData : Reader (Option Sha256Digest) := do
  if ← Reader.boolean then
    let digest ← Reader.digest
    pure (some digest)
  else pure none

def encodeProfile (profile : BuildProfile) : Writer Unit := do
  pushString profile.name
  pushU8 (modeTag profile.mode)
  pushU64 profile.comptime.steps
  pushU64 profile.comptime.memoryBytes
  pushU32 profile.comptime.callDepth
  pushU64 profile.memory.staticBytes
  pushU64 profile.memory.peakBytes
  pushU64 profile.memory.eventLogBytes
  pushBool profile.dma.coherent
  pushBool profile.dma.requireIommu
  pushU64 profile.recovery.resetTimeoutNs
  pushU64 profile.recovery.quarantineBytes
  pushU8 (recordingTag profile.recording)
  pushU8 (optimizationTag profile.optimization.level)
  encodeProfileData profile.optimization.profileData
  pushBool profile.diagnostics.sealedDeployment
  pushBool profile.diagnostics.warningsAsErrors
  pushBool profile.diagnostics.watchdogs

def decodeProfile : Reader BuildProfile := do
  let name ← Reader.string
  let mode ← Reader.enumTag "build mode" decodeMode
  let steps ← Reader.u64
  let memoryBytes ← Reader.u64
  let callDepth ← Reader.u32
  let staticBytes ← Reader.u64
  let peakBytes ← Reader.u64
  let eventLogBytes ← Reader.u64
  let coherent ← Reader.boolean
  let requireIommu ← Reader.boolean
  let resetTimeoutNs ← Reader.u64
  let quarantineBytes ← Reader.u64
  let recording ← Reader.enumTag "recording mode" decodeRecording
  let level ← Reader.enumTag "optimization level" decodeOptimization
  let profileData ← decodeProfileData
  let sealedDeployment ← Reader.boolean
  let warningsAsErrors ← Reader.boolean
  let watchdogs ← Reader.boolean
  pure ⟨name, mode, ⟨steps, memoryBytes, callDepth⟩, ⟨staticBytes, peakBytes, eventLogBytes⟩,
    ⟨coherent, requireIommu⟩, ⟨resetTimeoutNs, quarantineBytes⟩, recording, ⟨level, profileData⟩,
    ⟨sealedDeployment, warningsAsErrors, watchdogs⟩⟩

def encodeConfiguration (configuration : BuildConfiguration) : Writer Unit := do
  encodeIdentity configuration.identity
  encodeProfile configuration.profile

def decodeConfiguration : Reader BuildConfiguration := do
  let identity ← decodeIdentity
  let profile ← decodeProfile
  pure ⟨identity, profile⟩

def encodeRequestPayload (request : BackendRequest) : Writer Unit := do
  pushU64 request.requestId
  encodeConfiguration request.build
  pushDigest request.wirDigest
  pushDigest request.targetRuntimeDigest
  pushU64 request.targetRuntimeBytes
  pushString request.wir.value
  pushString request.targetPackage.value
  pushString request.output.value
  pushString request.report.value

def decodeRequestPayload : Reader BackendRequest := do
  let requestId ← Reader.u64
  let build ← decodeConfiguration
  let wirDigest ← Reader.digest
  let targetRuntimeDigest ← Reader.digest
  let targetRuntimeBytes ← Reader.u64
  let wir ← Reader.path
  let targetPackage ← Reader.path
  let output ← Reader.path
  let report ← Reader.path
  pure ⟨requestId, build, wir, wirDigest, targetRuntimeDigest, targetRuntimeBytes, targetPackage,
    output, report⟩

def encodeOutcome : BackendOutcome → Writer Unit
  | .success success => do
    pushU8 0
    pushString success.artifact.value
    pushDigest success.artifactDigest
    pushString success.report.value
    pushDigest success.reportDigest
  | .failure failure => do
    pushU8 1
    pushU8 (failureKindTag failure.kind)
    pushString failure.message

def decodeOutcome : Reader BackendOutcome := do
  match ← Reader.u8 with
  | 0 => do
    let artifact ← Reader.path
    let artifactDigest ← Reader.digest
    let report ← Reader.path
    let reportDigest ← Reader.digest
    pure (.success ⟨artifact, artifactDigest, report, reportDigest⟩)
  | 1 => do
    let kind ← Reader.enumTag "backend failure kind" decodeFailureKind
    let message ← Reader.string
    pure (.failure ⟨kind, message⟩)
  | tag => fail (.invalidOutcomeTag tag)

def encodeResponsePayload (response : BackendResponse) : Writer Unit := do
  pushU64 response.requestId
  encodeOutcome response.outcome

def decodeResponsePayload : Reader BackendResponse := do
  let requestId ← Reader.u64
  let outcome ← decodeOutcome
  pure ⟨requestId, outcome⟩

def magic : List UInt8 := [0x57, 0x52, 0x45, 0x4c, 0x42, 0x45, 0x50, 0x00]

inductive MessageKind where
  | request | response

def MessageKind.tag : MessageKind → UInt8
  | .request => 1
  | .response => 2

/-- Frame the bytes a payload writer produces. -/
def frame (kind : MessageKind) (payload : Writer Unit) : Except ProtocolError (List UInt8) := do
  let (_, sink) ← payload ⟨[], ()⟩
  let payload := sink.bytes
  failIf (decide (payload.length > maxFrameBytes)) (.frameTooLarge payload.length)
  pure (magic ++ leBytes 4 protocolVersion.toNat ++ leBytes 1 kind.tag.toNat ++
    leBytes 4 payload.length ++ payload)

/-- The header of a frame up to its payload length. -/
def header (expected : MessageKind) : Reader UInt32 := do
  let found ← take .unexpectedEnd magic.length
  if found ≠ magic then fail .invalidMagic
  else do
    let version ← Reader.u32
    if version ≠ protocolVersion then fail (.unsupportedVersion version)
    else do
      let kind ← Reader.u8
      if kind ≠ expected.tag then fail (.unexpectedMessageKind kind)
      else Reader.u32

def unframe (bytes : List UInt8) (expected : MessageKind) :
    Except ProtocolError (Source Unit) := do
  failIf (decide (bytes.length > maxFrameBytes + magic.length + 9)) (.frameTooLarge bytes.length)
  let (length, source) ← header expected ⟨bytes, ()⟩
  failIf (decide (length.toNat > maxFrameBytes)) (.frameTooLarge length.toNat)
  failIf (source.rest.length != length.toNat)
    (.frameLengthMismatch length.toNat source.rest.length)
  pure source

def validateRuntimeEvidence (digest : Sha256Digest) (bytes : UInt64) : Except ProtocolError Unit :=
  failIf (bytes == 0 || digest.isZero) (.invalidTarget .runtimeEvidence)

def validateBuild (build : BuildConfiguration) : Except ProtocolError Unit :=
  build.validate.mapError .invalidProfile

def encodeRequest (request : BackendRequest) (build : ValidatedBuildConfiguration) :
    Except ProtocolError (List UInt8) := do
  failIf (request.build != build.configuration) .buildConfigurationMismatch
  validateBuild request.build
  validateRuntimeEvidence request.targetRuntimeDigest request.targetRuntimeBytes
  frame .request (encodeRequestPayload request)

def decodeRequest (bytes : List UInt8) : Except ProtocolError BackendRequest := do
  let source ← unframe bytes .request
  let (request, source) ← decodeRequestPayload source
  failIf (!source.rest.isEmpty) .trailingBytes
  validateBuild request.build
  validateRuntimeEvidence request.targetRuntimeDigest request.targetRuntimeBytes
  pure request

def encodeResponse (response : BackendResponse) : Except ProtocolError (List UInt8) :=
  frame .response (encodeResponsePayload response)

def decodeResponse (bytes : List UInt8) : Except ProtocolError BackendResponse := do
  let source ← unframe bytes .response
  let (response, source) ← decodeResponsePayload source
  failIf (!source.rest.isEmpty) .trailingBytes
  pure response

end Wrela.BackendProtocol
