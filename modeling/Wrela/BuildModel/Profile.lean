import Wrela.Source.Text

/-!
# Build identity

The digests, target atom and language revision that name one build.  A target identity can only be
made from a valid atom, as in its constructor.
-/

namespace Wrela.BuildModel

open Wrela.Source

def maxProfileAtomBytes : ℕ := 4096

structure Sha256Digest where
  bytes : List UInt8
  length_eq : bytes.length = 32
deriving DecidableEq

/-- The digest that is one byte throughout. -/
def Sha256Digest.repeated (byte : UInt8) : Sha256Digest :=
  ⟨List.replicate 32 byte, List.length_replicate⟩

/-- Unicode control characters, general category `Cc`. -/
def isControl (character : Char) : Bool :=
  decide (character.val ≤ 0x1f) || decide (0x7f ≤ character.val ∧ character.val ≤ 0x9f)

def validateAtom (value : String) : Bool :=
  !value.isEmpty && decide (byteLength value ≤ maxProfileAtomBytes) &&
    value.toList.all fun character ↦
      !(isControl character || isWhitespace character || "\\/:".toList.contains character)

theorem validateAtom_aarch64QemuVirtUefi : validateAtom "aarch64-qemu-virt-uefi" = true := by
  decide

structure TargetIdentity where
  name : String
  valid : validateAtom name = true
deriving DecidableEq

def TargetIdentity.new (value : String) : Option TargetIdentity :=
  if h : validateAtom value = true then some ⟨value, h⟩ else none

theorem TargetIdentity.new_eq_some :
    TargetIdentity.new value = some identity ↔ identity.name = value := by
  unfold TargetIdentity.new
  constructor
  · intro h
    split at h
    · cases h
      rfl
    · cases h
  · rintro rfl
    rw [dif_pos identity.valid]

theorem TargetIdentity.byteLength_pos (identity : TargetIdentity) :
    0 < byteLength identity.name ∧ byteLength identity.name ≤ maxProfileAtomBytes := by
  have hvalid := identity.valid
  simp only [validateAtom, Bool.and_eq_true, Bool.not_eq_true', decide_eq_true_eq] at hvalid
  obtain ⟨⟨hne, hle⟩, -⟩ := hvalid
  refine ⟨Nat.pos_of_ne_zero fun hzero ↦ ?_, hle⟩
  have hempty : identity.name = "" := Wire.utf8Bytes_injective (List.eq_nil_of_length_eq_zero hzero)
  rw [hempty] at hne
  cases hne

inductive LanguageRevision where
  | design01
deriving DecidableEq

structure BuildIdentity where
  compiler : Sha256Digest
  language : LanguageRevision
  target : TargetIdentity
  targetPackage : Sha256Digest
  standardLibrary : Sha256Digest
  sourceGraph : Sha256Digest
  request : Sha256Digest
  profile : Sha256Digest
deriving DecidableEq

inductive BuildMode where
  | development | release
deriving DecidableEq

inductive RecordingMode where
  | disabled | record | replay
deriving DecidableEq

inductive OptimizationLevel where
  | none | development | performance | size
deriving DecidableEq

structure ComptimeLimits where
  steps : UInt64
  memoryBytes : UInt64
  callDepth : UInt32
deriving DecidableEq

structure MemoryLimits where
  staticBytes : UInt64
  peakBytes : UInt64
  eventLogBytes : UInt64
deriving DecidableEq

structure DmaPolicy where
  coherent : Bool
  requireIommu : Bool
deriving DecidableEq

structure RecoveryPolicy where
  resetTimeoutNs : UInt64
  quarantineBytes : UInt64
deriving DecidableEq

structure OptimizationPolicy where
  level : OptimizationLevel
  profileData : Option Sha256Digest
deriving DecidableEq

structure DiagnosticPolicy where
  sealedDeployment : Bool
  warningsAsErrors : Bool
  watchdogs : Bool
deriving DecidableEq

structure BuildProfile where
  name : String
  mode : BuildMode
  comptime : ComptimeLimits
  memory : MemoryLimits
  dma : DmaPolicy
  recovery : RecoveryPolicy
  recording : RecordingMode
  optimization : OptimizationPolicy
  diagnostics : DiagnosticPolicy
deriving DecidableEq

/-- A profile with every field but its name and mode at its default. -/
def BuildProfile.withDefaults (name : String) (mode : BuildMode) : BuildProfile where
  name := name
  mode := mode
  comptime := ⟨10000000, 64 * 1024 * 1024, 256⟩
  memory := ⟨256 * 1024 * 1024, 512 * 1024 * 1024, 0⟩
  dma := ⟨false, false⟩
  recovery := ⟨5000000000, 16 * 1024 * 1024⟩
  recording := .disabled
  optimization := ⟨.development, none⟩
  diagnostics := ⟨false, false, true⟩

def BuildProfile.development : BuildProfile := .withDefaults "development" .development

inductive AtomError where
  | empty
  | tooLong (length maximum : ℕ)
  | forbiddenCharacter (character : Char)
deriving DecidableEq

/-- What is wrong with an atom, if anything. -/
def atomError (value : String) : Option AtomError :=
  if value.isEmpty then some .empty
  else if maxProfileAtomBytes < byteLength value then
    some (.tooLong (byteLength value) maxProfileAtomBytes)
  else
    (value.toList.find? fun character ↦
      isControl character || isWhitespace character || "\\/:".toList.contains character).map
        .forbiddenCharacter

theorem atomError_eq_none : atomError value = none ↔ validateAtom value = true := by
  unfold atomError validateAtom
  split
  · simp [*]
  · split
    · simp_all
    · simp_all

/-- The checked constructor of a target identity, with what is wrong when it refuses. -/
def TargetIdentity.check (value : String) : Except AtomError TargetIdentity :=
  match h : atomError value with
  | some error => .error error
  | none => .ok ⟨value, atomError_eq_none.1 h⟩

theorem TargetIdentity.check_eq_ok :
    TargetIdentity.check value = .ok identity ↔ identity.name = value := by
  unfold TargetIdentity.check
  constructor
  · intro h
    split at h
    · cases h
    · cases h
      rfl
  · rintro rfl
    split
    · rename_i error herror
      rw [atomError_eq_none.2 identity.valid] at herror
      cases herror
    · rfl

inductive ProfileError where
  | invalidName (error : AtomError)
  | zeroComptimeLimit
  | invalidMemoryLimits
  | zeroResetTimeout
  | missingEventLogCapacity
deriving DecidableEq

/-- The first check a profile fails. -/
def BuildProfile.validate (profile : BuildProfile) : Except ProfileError Unit :=
  match atomError profile.name with
  | some error => .error (.invalidName error)
  | none =>
    if profile.comptime.steps = 0 ∨ profile.comptime.memoryBytes = 0 ∨
        profile.comptime.callDepth = 0 then
      .error .zeroComptimeLimit
    else if profile.memory.staticBytes = 0 ∨
        profile.memory.peakBytes < profile.memory.staticBytes then
      .error .invalidMemoryLimits
    else if profile.recovery.resetTimeoutNs = 0 then .error .zeroResetTimeout
    else if profile.recording ≠ .disabled ∧ profile.memory.eventLogBytes = 0 then
      .error .missingEventLogCapacity
    else .ok ()

structure BuildConfiguration where
  identity : BuildIdentity
  profile : BuildProfile
deriving DecidableEq

def BuildConfiguration.validate (configuration : BuildConfiguration) : Except ProfileError Unit :=
  configuration.profile.validate

def Sha256Digest.isZero (digest : Sha256Digest) : Bool := digest.bytes.all (· == 0)

/-- None of the digests of an identity is all zero. -/
def BuildIdentity.digestsNonzero (identity : BuildIdentity) : Bool :=
  [identity.compiler, identity.targetPackage, identity.standardLibrary, identity.sourceGraph,
    identity.request, identity.profile].all fun digest ↦ !digest.isZero

/-- A configuration that was sealed. -/
structure ValidatedBuildConfiguration where
  configuration : BuildConfiguration
  valid : configuration.validate = .ok ()
  digestsNonzero : configuration.identity.digestsNonzero = true

end Wrela.BuildModel
