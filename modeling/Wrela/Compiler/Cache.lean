import Wrela.FlowCodec.CanonicalLaws
import Wrela.PackageLoader.Sha256

/-!
# The artifact cache

A cache hands back candidates that are trusted for nothing: one is sealed against its request and
its digest, decoded, and compared with the module at hand before its bytes stand in for a fresh
encoding.  A sealed artifact carries the proof that its digest is the digest of its bytes.  A hit has
the bytes a fresh encoding would have had, and a miss goes on to that encoding.
-/

namespace Wrela.Compiler

open Wrela.Source Wrela.BuildModel Wrela.Flow Wrela.Wire Wrela.Validation Wrela.FlowCodec
open Wrela.PackageLoader Wrela.Checked

inductive CachedArtifactKind where
  | flowWirFrame | backendImage | imageReport | testReport
deriving DecidableEq

/-- The identity of a cached product within one build; its subject is never all zeros. -/
structure CacheKey where
  kind : CachedArtifactKind
  build : BuildIdentity
  subject : Sha256Digest
  subject_ne : subject.bytes.all (· == 0) = false
deriving DecidableEq

inductive CacheError where
  | cancelled
  | invalidKey
  | invalidLimit
  | resourceLimit (limit : UInt64)
  | keyMismatch
  | digestMismatch
  | io (text : String)

structure CacheReadRequest where
  key : CacheKey
  maximumBytes : UInt64

structure CacheEntryCandidate where
  key : CacheKey
  bytes : List UInt8
  digest : Sha256Digest

structure CachedArtifact where
  key : CacheKey
  bytes : List UInt8
  digest : Sha256Digest
  digest_eq : sha256Cancellable bytes = digest

def sealCachedArtifact (request : CacheReadRequest) (candidate : CacheEntryCandidate) :
    Except CacheError CachedArtifact :=
  if request.maximumBytes = 0 then .error .invalidLimit
  else if candidate.bytes.length > request.maximumBytes.toNat then
    .error (.resourceLimit request.maximumBytes)
  else if candidate.key ≠ request.key then .error .keyMismatch
  else if h : sha256Cancellable candidate.bytes = candidate.digest then
    .ok ⟨candidate.key, candidate.bytes, candidate.digest, h⟩
  else .error .digestMismatch

/-- What a cache answers.  One resolution asks each question at most once, so a cache with a state
of its own is also such a pair of answers. -/
structure ArtifactCache where
  load : CacheReadRequest → Except CacheError (Option CacheEntryCandidate)
  store : CachedArtifact → Except CacheError Unit

inductive ResolveError where
  | cancelled
  | codec (error : CodecError)

structure ResolvedFlowWirFrame where
  bytes : List UInt8
  digest : Sha256Digest
  reused : Bool

variable (cache : Option ArtifactCache) (key : CacheKey) (produced : ValidatedFlowWir)
  (codecLimits : CodecLimits) (maximumCacheBytes : UInt64)

/-- The key is one for the frame of this very build. -/
def describesFrame : Bool := key.kind == .flowWirFrame && key.build == produced.wir.build

def cacheRequest : CacheReadRequest := ⟨key, min maximumCacheBytes codecLimits.frameBytes⟩

/-- A candidate from the cache once sealed, or nothing. -/
def loadArtifact (cache : ArtifactCache) (request : CacheReadRequest) :
    Except ResolveError (Option CachedArtifact) :=
  match cache.load request with
  | .error .cancelled => .error .cancelled
  | .error _ => .ok none
  | .ok none => .ok none
  | .ok (some candidate) =>
    match sealCachedArtifact request candidate with
    | .ok artifact => .ok (some artifact)
    | .error .cancelled => .error .cancelled
    | .error _ => .ok none

/-- The frame a cache holds for the module, if it decodes to the module. -/
def reuseFrame (cache : ArtifactCache) : Except ResolveError (Option ResolvedFlowWirFrame) := do
  match ← loadArtifact cache (cacheRequest key codecLimits maximumCacheBytes) with
  | none => pure none
  | some artifact =>
    match decodeAndVerify codecLimits (some key.build) artifact.bytes with
    | .ok decoded =>
      if decoded.wir = produced.wir then pure (some ⟨artifact.bytes, artifact.digest, true⟩)
      else pure none
    | .error _ => pure none

/-- Offer a fresh frame to the cache; a refusal is of no consequence. -/
def storeFrame (cache : ArtifactCache) (bytes : List UInt8) (digest : Sha256Digest) :
    Except ResolveError Unit :=
  match sealCachedArtifact (cacheRequest key codecLimits maximumCacheBytes) ⟨key, bytes, digest⟩ with
  | .ok artifact =>
    match cache.store artifact with
    | .ok () => .ok ()
    | .error .cancelled => .error .cancelled
    | .error _ => .ok ()
  | .error .cancelled => .error .cancelled
  | .error _ => .ok ()

/-- Encode the module, and offer the frame to the cache when it may hold it. -/
def encodeFrame : Except ResolveError ResolvedFlowWirFrame := do
  let encoded ← (encodeAndVerify codecLimits produced).mapError .codec
  let digest := sha256Cancellable encoded.bytes
  match cache with
  | some cache =>
    if describesFrame key produced ∧ encoded.bytes.length ≤ maximumCacheBytes.toNat then
      storeFrame key codecLimits maximumCacheBytes cache encoded.bytes digest
  | none => pure ()
  pure ⟨encoded.bytes, digest, false⟩

/-- The frame of a module, from the cache where it can be. -/
def resolveFlowWirFrame : Except ResolveError ResolvedFlowWirFrame := do
  let reused ←
    if describesFrame key produced ∧ maximumCacheBytes ≠ 0 then
      match cache with
      | some cache => reuseFrame key produced codecLimits maximumCacheBytes cache
      | none => pure none
    else pure none
  match reused with
  | some frame => pure frame
  | none => encodeFrame cache key produced codecLimits maximumCacheBytes

theorem sealCachedArtifact_ne_cancelled (request : CacheReadRequest)
    (candidate : CacheEntryCandidate) : sealCachedArtifact request candidate ≠ .error .cancelled := by
  unfold sealCachedArtifact
  split_ifs <;> simp

/-- What a frame is, apart from where it came from. -/
def ResolvedFlowWirFrame.content (frame : ResolvedFlowWirFrame) : List UInt8 × Sha256Digest :=
  (frame.bytes, frame.digest)

/-- A cache that leaves cancellation to its caller. -/
structure NeverCancels (cache : ArtifactCache) : Prop where
  load_ne : ∀ request, cache.load request ≠ .error .cancelled
  store_ne : ∀ artifact, cache.store artifact ≠ .error .cancelled

variable {cache : ArtifactCache} {key : CacheKey} {produced : ValidatedFlowWir}
  {codecLimits : CodecLimits} {maximumCacheBytes : UInt64}

theorem loadArtifact_ok (hcache : NeverCancels cache) (request : CacheReadRequest) :
    ∃ loaded, loadArtifact cache request = .ok loaded := by
  unfold loadArtifact
  split
  · rename_i hload
    exact absurd hload (hcache.load_ne request)
  · exact ⟨_, rfl⟩
  · exact ⟨_, rfl⟩
  · rename_i candidate hload
    split
    · exact ⟨_, rfl⟩
    · rename_i hsealed
      exact absurd hsealed (sealCachedArtifact_ne_cancelled request candidate)
    · exact ⟨_, rfl⟩

/-- Whatever the cache answers, a reused frame has the content of a fresh one. -/
theorem reuseFrame_sound (hkey : key.build = produced.wir.build)
    (h : reuseFrame key produced codecLimits maximumCacheBytes cache = .ok (some frame)) :
    ∃ header, encodeAndVerify codecLimits produced = .ok ⟨header, frame.bytes⟩ ∧
      frame.digest = sha256Cancellable frame.bytes := by
  obtain ⟨loaded, -, h⟩ := bind_eq_ok.1 h
  split at h
  · cases h
  · rename_i artifact
    split at h
    · rename_i decoded hdecoded
      split at h
      · rename_i hsame
        cases h
        have hproduced : decoded = produced := by
          cases decoded
          cases produced
          cases hsame
          rfl
        subst hproduced
        rw [hkey] at hdecoded
        obtain ⟨header, hencode⟩ :=
          encodeAndVerify_of_decode codecLimits (decode_of_decodeAndVerify codecLimits hdecoded)
        exact ⟨header, hencode, artifact.digest_eq.symm⟩
      · cases h
    · cases h

theorem reuseFrame_ok (hcache : NeverCancels cache) :
    ∃ reused, reuseFrame key produced codecLimits maximumCacheBytes cache = .ok reused := by
  obtain ⟨loaded, hloaded⟩ := loadArtifact_ok hcache (cacheRequest key codecLimits maximumCacheBytes)
  rw [reuseFrame, hloaded, ok_bind]
  split
  · exact ⟨_, rfl⟩
  · split
    · split <;> exact ⟨_, rfl⟩
    · exact ⟨_, rfl⟩

theorem storeFrame_ok (hcache : NeverCancels cache) (bytes : List UInt8) (digest : Sha256Digest) :
    storeFrame key codecLimits maximumCacheBytes cache bytes digest = .ok () := by
  unfold storeFrame
  split
  · rename_i artifact _
    split
    · rfl
    · rename_i hstore
      exact absurd hstore (hcache.store_ne artifact)
    · rfl
  · rename_i hsealed
    exact absurd hsealed (sealCachedArtifact_ne_cancelled _ _)
  · rfl

/-- What resolution comes to when there is no cache. -/
theorem resolveFlowWirFrame_none :
    resolveFlowWirFrame none key produced codecLimits maximumCacheBytes =
      ((encodeAndVerify codecLimits produced).mapError .codec).map fun encoded ↦
        ⟨encoded.bytes, sha256Cancellable encoded.bytes, false⟩ := by
  have hnone : resolveFlowWirFrame none key produced codecLimits maximumCacheBytes =
      encodeFrame none key produced codecLimits maximumCacheBytes := by
    rw [resolveFlowWirFrame]
    split <;> rfl
  rw [hnone, encodeFrame]
  cases (encodeAndVerify codecLimits produced) <;> rfl

theorem encodeFrame_eq (hcache : NeverCancels cache) :
    encodeFrame (some cache) key produced codecLimits maximumCacheBytes =
      resolveFlowWirFrame none key produced codecLimits maximumCacheBytes := by
  rw [resolveFlowWirFrame_none, encodeFrame]
  cases encodeAndVerify codecLimits produced with
  | error failure => rfl
  | ok encoded =>
    simp only [Except.mapError, ok_bind]
    split
    · rw [storeFrame_ok hcache, ok_bind]
      rfl
    · rfl

/-- A cache changes nothing about a resolved frame but where it came from. -/
theorem resolveFlowWirFrame_transparent (hcache : NeverCancels cache) :
    (resolveFlowWirFrame (some cache) key produced codecLimits maximumCacheBytes).map
        ResolvedFlowWirFrame.content =
      (resolveFlowWirFrame none key produced codecLimits maximumCacheBytes).map
        ResolvedFlowWirFrame.content := by
  rw [resolveFlowWirFrame]
  split
  · rename_i hdescribes
    obtain ⟨reused, hreused⟩ :=
      @reuseFrame_ok cache key produced codecLimits maximumCacheBytes hcache
    rw [hreused, ok_bind]
    cases reused with
    | none => rw [encodeFrame_eq hcache]
    | some frame =>
      have hkey : key.build = produced.wir.build := by
        have hboth := hdescribes.1
        rw [describesFrame, Bool.and_eq_true] at hboth
        exact eq_of_beq hboth.2
      obtain ⟨header, hencode, hdigest⟩ := reuseFrame_sound hkey hreused
      rw [resolveFlowWirFrame_none, hencode]
      simp [Except.mapError, Except.map, ResolvedFlowWirFrame.content, hdigest, pure, Except.pure]
  · rw [pure_bind, encodeFrame_eq hcache]

def idleKey : CacheKey := ⟨.flowWirFrame, idleBuild, .repeated 1, rfl⟩

/-- A cache that offers an empty frame and refuses to hold anything. -/
def lyingCache : ArtifactCache where
  load request := .ok (some ⟨request.key, [], softwareSha256 []⟩)
  store _ := .error (.io "the device is full")

theorem resolveFlowWirFrame_transparent_lyingCache :
    (resolveFlowWirFrame (some lyingCache) idleKey validatedIdleImage .standard 4096).map
        ResolvedFlowWirFrame.content =
      (resolveFlowWirFrame none idleKey validatedIdleImage .standard 4096).map
        ResolvedFlowWirFrame.content := by
  have hnever : NeverCancels lyingCache := ⟨by rintro request ⟨⟩, by rintro artifact ⟨⟩⟩
  exact @resolveFlowWirFrame_transparent lyingCache idleKey validatedIdleImage .standard 4096 hnever

/-- A cache that says of itself that the work was cancelled. -/
def cancellingCache : ArtifactCache where
  load _ := .error .cancelled
  store _ := .ok ()

theorem encodeAndVerify_idleImage :
    ∃ encoded, encodeAndVerify .standard validatedIdleImage = .ok encoded := by
  obtain ⟨candidate, hencode⟩ := encode_idleImage
  have hdecode := decode_of_encode .standard hencode
    ((checkWithLimits_eq_ok idleImage).1 checkWithLimits_idleImage_codec)
    (show ∀ expected ∈ some idleBuild, expected = idleBuild by rintro _ ⟨⟩; rfl)
  obtain ⟨header, hsealed⟩ :=
    @encodeAndVerify_of_decode .standard candidate.bytes validatedIdleImage hdecode
  exact ⟨_, hsealed⟩

/-- Its answer is passed on, although nothing has asked to cancel. -/
theorem not_transparent_cancellingCache :
    (∃ frame, resolveFlowWirFrame none idleKey validatedIdleImage .standard 4096 = .ok frame) ∧
      ¬∃ frame, resolveFlowWirFrame (some cancellingCache) idleKey validatedIdleImage .standard
        4096 = .ok frame := by
  obtain ⟨encoded, hencoded⟩ := encodeAndVerify_idleImage
  refine ⟨⟨⟨encoded.bytes, sha256Cancellable encoded.bytes, false⟩, ?_⟩, ?_⟩
  · rw [resolveFlowWirFrame_none, hencoded]
    rfl
  · have hdescribes : describesFrame idleKey validatedIdleImage = true ∧ (4096 : UInt64) ≠ 0 :=
      ⟨by decide, by decide⟩
    rintro ⟨frame, h⟩
    rw [resolveFlowWirFrame, if_pos hdescribes] at h
    cases h

end Wrela.Compiler
