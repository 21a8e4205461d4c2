import Wrela.FlowCodec.Module
import Wrela.Validation.Module

/-!
# The canonical codec

A frame is a header that names the build and the payload length, then the payload.  The encoder
writes the length last, over a placeholder; the decoder validates what it has read before it
returns it.
-/

namespace Wrela.FlowCodec

open Wrela.Source Wrela.BuildModel Wrela.Flow Wrela.Wire Wrela.Validation

structure WireHeader where
  wireVersion : UInt32
  flowWirVersion : UInt32
  payloadBytes : UInt64
  build : BuildIdentity
deriving DecidableEq

structure EncodedFlowWirCandidate where
  header : WireHeader
  bytes : List UInt8
deriving DecidableEq

def flowValidationLimits (limits : CodecLimits) : ValidationLimits where
  arenaRecords := limits.vectorItems.toUInt64
  modelEdges := limits.vectorItems.toUInt64
  payloadBytes := limits.frameBytes
  validationWork := limits.validationWork
  errors := limits.validationErrors
  testPlan := limits.testPlan

def mapValidationFailure : ValidationFailure → CodecError
  | .invalidLimits => .invalidLimits
  | .resourceLimit resource limit => .validationResourceLimit resource limit
  | .invalid errors => .invalidFlowWir errors

def languageTag : LanguageRevision → UInt8
  | .design01 => 0

def cloneBuildIdentity (build : BuildIdentity) : Except CodecError BuildIdentity :=
  match copyUtf8 (utf8Bytes build.target.name) with
  | none => .error .invalidUtf8
  | some name =>
    match TargetIdentity.new name with
    | none => .error (.nonCanonical "invalid target identity")
    | some target => .ok { build with target }

namespace Writer

variable (limits : CodecLimits)

def position : Writer ℕ := fun sink ↦ .ok (sink.bytes.length, sink)

def patchU64 (offset : ℕ) (value : UInt64) : Writer Unit := fun sink ↦
  if offset + 8 ≤ sink.bytes.length then
    .ok ((), { sink with
      bytes := sink.bytes.take offset ++ leBytes 8 value.toNat ++ sink.bytes.drop (offset + 8) })
  else .error (.nonCanonical "invalid payload length offset")

def buildIdentity (build : BuildIdentity) : Writer Unit := do
  digest limits build.compiler
  u8 limits (languageTag build.language)
  string limits build.target.name
  digest limits build.targetPackage
  digest limits build.standardLibrary
  digest limits build.sourceGraph
  digest limits build.request
  digest limits build.profile

/-- Write a whole frame and return the length of its payload. -/
def frame (model : FlowWir) : Writer UInt64 := do
  raw limits flowWirMagic
  u32 limits flowWirWireVersion
  u32 limits flowWirVersion
  let payloadLengthOffset ← position
  u64 limits 0
  buildIdentity limits model.build
  let payloadStart ← position
  flowWir limits model
  let payloadEnd ← position
  let payloadBytes := UInt64.ofNat (payloadEnd - payloadStart)
  if payloadBytes = 0 then fail (.nonCanonical "empty FlowWir payload")
  else do
    patchU64 payloadLengthOffset payloadBytes
    pure payloadBytes

end Writer

def encode (limits : CodecLimits) (wir : ValidatedFlowWir) :
    Except CodecError EncodedFlowWirCandidate := do
  limits.validate
  let (payloadBytes, sink) ← Writer.frame limits wir.wir ⟨[], .default⟩
  let build ← cloneBuildIdentity wir.wir.build
  pure ⟨⟨flowWirWireVersion, flowWirVersion, payloadBytes, build⟩, sink.bytes⟩

namespace Reader

def targetIdentity : Reader TargetIdentity := do
  let length ← u32
  if length.toNat = 0 ∨ length.toNat > maxProfileAtomBytes then
    fail (.nonCanonical "invalid target identity length")
  else do
    let bytes ← raw length.toNat
    match copyUtf8 bytes with
    | none => fail .invalidUtf8
    | some name =>
      match TargetIdentity.new name with
      | none => fail (.nonCanonical "invalid target identity")
      | some identity => pure identity

def languageRevision : Reader LanguageRevision := do
  match ← u8 with
  | 0 => pure .design01
  | tag => fail (invalidTag "language revision" tag)

def buildIdentity : Reader BuildIdentity := do
  let compiler ← digest
  let language ← languageRevision
  let target ← targetIdentity
  let targetPackage ← digest
  let standardLibrary ← digest
  let sourceGraph ← digest
  let request ← digest
  let profile ← digest
  pure ⟨compiler, language, target, targetPackage, standardLibrary, sourceGraph, request, profile⟩

/-- The fields of a header, which charge nothing. -/
def header : Reader WireHeader := do
  let magic ← raw flowWirMagic.length
  if magic ≠ flowWirMagic then fail .invalidMagic
  else do
    let wireVersion ← u32
    if wireVersion ≠ flowWirWireVersion then fail (.unsupportedWireVersion wireVersion)
    else do
      let version ← u32
      if version ≠ flowWirVersion then fail (.unsupportedFlowWirVersion version)
      else do
        let payloadBytes ← u64
        if payloadBytes = 0 then fail (.nonCanonical "empty FlowWir payload")
        else do
          let build ← buildIdentity
          pure ⟨wireVersion, version, payloadBytes, build⟩

end Reader

/-- The header of a frame and the payload after it. -/
def parseHeader (bytes : List UInt8) : Except CodecError (WireHeader × List UInt8) := do
  let (header, source) ← Reader.header ⟨bytes, .default⟩
  if source.rest.length < header.payloadBytes.toNat then .error .unexpectedEnd
  else if source.rest.length > header.payloadBytes.toNat then .error .trailingBytes
  else .ok (header, source.rest)

def inspectHeader (bytes : List UInt8) : Except CodecError WireHeader := do
  let (header, _) ← parseHeader bytes
  pure header

/-- Read a payload to its end. -/
def readPayload (limits : CodecLimits) (build : BuildIdentity) (payload : List UInt8) :
    Except CodecError FlowWir := do
  let meter ← Meter.default.chargeString limits (byteLength build.target.name)
  let (model, source) ← Reader.flowWir limits build ⟨payload, meter⟩
  if source.rest.isEmpty then .ok model else .error .trailingBytes

def decode (limits : CodecLimits) (expectedBuild : Option BuildIdentity) (bytes : List UInt8) :
    Except CodecError ValidatedFlowWir := do
  limits.validate
  enforce "FlowWir frame bytes" limits.frameBytes bytes.length
  let (header, payload) ← parseHeader bytes
  if expectedBuild.all (· = header.build) then do
    let model ← readPayload limits header.build payload
    match validateWithLimits model (flowValidationLimits limits) with
    | .ok validated => .ok validated
    | .error failure => .error (mapValidationFailure failure)
  else .error .buildIdentityMismatch

structure EncodedFlowWir where
  header : WireHeader
  bytes : List UInt8

def validateCandidate (limits : CodecLimits) (candidate : EncodedFlowWirCandidate)
    (wir : ValidatedFlowWir) : Except CodecError Unit := do
  enforce "FlowWir frame bytes" limits.frameBytes candidate.bytes.length
  if !flowWirMagic.isPrefixOf candidate.bytes ||
      candidate.header.wireVersion != flowWirWireVersion ||
      candidate.header.flowWirVersion != flowWirVersion ||
      candidate.header.build != wir.wir.build || candidate.header.payloadBytes == 0 ||
      candidate.header.payloadBytes.toNat > candidate.bytes.length then
    .error (.nonCanonical "encoded header, build, payload length, or magic")
  else .ok ()

/-- Encode, and check the frame against its header, a second encoding and its own decoding. -/
def encodeAndVerify (limits : CodecLimits) (wir : ValidatedFlowWir) :
    Except CodecError EncodedFlowWir := do
  limits.validate
  let candidate ← encode limits wir
  validateCandidate limits candidate wir
  let inspected ← inspectHeader candidate.bytes
  if inspected ≠ candidate.header then
    .error (.nonCanonical "inspected header differs from encoded header")
  else do
    let expected ← encode limits wir
    if expected ≠ candidate then
      .error (.nonCanonical "codec output differs from the canonical FlowWir v19 encoding")
    else do
      let decoded ← decode limits (some wir.wir.build) candidate.bytes
      let decodedCanonical ← encode limits decoded
      if decodedCanonical ≠ candidate then
        .error (.nonCanonical "encoded bytes decode to a different FlowWir model")
      else do
        let repeated ← encode limits wir
        if repeated ≠ candidate then .error (.nonCanonical "FlowWir encoder is nondeterministic")
        else .ok ⟨candidate.header, candidate.bytes⟩

def decodeAndVerify (limits : CodecLimits) (expectedBuild : Option BuildIdentity)
    (bytes : List UInt8) : Except CodecError ValidatedFlowWir := do
  limits.validate
  enforce "FlowWir frame bytes" limits.frameBytes bytes.length
  let inspected ← inspectHeader bytes
  let decoded ← decode limits expectedBuild bytes
  if expectedBuild.all (· = decoded.wir.build) then do
    let canonical ← encode limits decoded
    validateCandidate limits canonical decoded
    if inspected = canonical.header ∧ canonical.bytes = bytes then .ok decoded
    else .error (.nonCanonical "decoded model does not reproduce its complete frame")
  else .error .buildIdentityMismatch

end Wrela.FlowCodec
