import Wrela.BackendProtocol.Codec

/-!
# The backend codec is a bijection on its image

Fields and payloads are related writer by reader, and the frame adds its header.  What is written is
read back, and what is read is written again, byte for byte.  A request is written under a sealed
configuration, so a request that was read is written again exactly when its configuration can be
sealed.
-/

namespace Wrela.BackendProtocol

open List Wrela.Source Wrela.BuildModel Wrela.Wire Wrela.Checked

/-! ## Fields -/

/-- The error no unbounded append reports. -/
def overflow (_ : ℕ) : ProtocolError := .unexpectedEnd

theorem emits_pushU8 (value : UInt8) : Emits (pushU8 value) Reader.u8 value :=
  @Emits.push _ _ _ _ _ _ _ overflow fun _ ↦ emits_u8 overflow value

theorem emits_pushU32 (value : UInt32) : Emits (pushU32 value) Reader.u32 value :=
  @Emits.push _ _ _ _ _ _ _ overflow fun _ ↦ emits_u32 overflow value

theorem emits_pushU64 (value : UInt64) : Emits (pushU64 value) Reader.u64 value :=
  @Emits.push _ _ _ _ _ _ _ overflow fun _ ↦ emits_u64 overflow value

variable {bytes : List UInt8}

theorem emits_push {count : ℕ} (hcount : bytes.length = count) :
    Emits (push bytes : Writer Unit) (take .unexpectedEnd count : Reader _) bytes :=
  @Emits.push _ _ _ _ _ _ _ overflow fun _ ↦ emits_append hcount

theorem emits_pushBool (value : Bool) : Emits (pushBool value) Reader.boolean value := by
  cases value with
  | false => exact Emits.last (emits_pushU8 0) rfl
  | true => exact Emits.last (emits_pushU8 1) rfl

theorem emits_pushDigest (value : Sha256Digest) : Emits (pushDigest value) Reader.digest value := by
  refine Emits.last (emits_push value.length_eq) ?_
  rw [dif_pos value.length_eq]

theorem toNat_ofNat_byteLength (h : byteLength value ≤ maxTextBytes) :
    (UInt32.ofNat (byteLength value)).toNat = byteLength value := by
  unfold maxTextBytes at h
  rw [UInt32.toNat_ofNat', Nat.mod_eq_of_lt (by omega)]

theorem emits_pushString (value : String) : Emits (pushString value) Reader.string value := by
  unfold pushString Reader.string
  split
  · exact Emits.refused _ _ _
  · rename_i hshort
    have hlength := toNat_ofNat_byteLength (Nat.le_of_not_gt hshort)
    refine Emits.bind (emits_pushU32 _) ?_
    rw [if_neg (by rwa [hlength]), hlength]
    refine Emits.last (emits_push rfl) ?_
    rw [fromUtf8_eq_some.2 rfl]

theorem emits_enumTag {α : Type} (name : String) {encode : α → UInt8} {decode : UInt8 → Option α}
    {value : α} (h : decode (encode value) = some value) :
    Emits (pushU8 (encode value)) (Reader.enumTag name decode) value := by
  refine Emits.last (emits_pushU8 _) ?_
  rw [h]

theorem emits_path (path : BackendPath) : Emits (pushString path.value) Reader.path path := by
  refine Emits.last (emits_pushString path.value) ?_
  rw [BackendPath.new_eq_ok.2 rfl]
  rfl

section Absorbs

variable {limit : ℕ}

theorem absorbs_u8 : Absorbs limit Reader.u8 pushU8 := Absorbs.push (Wire.absorbs_u8 overflow)

theorem absorbs_u32 : Absorbs limit Reader.u32 pushU32 := Absorbs.push (Wire.absorbs_u32 overflow)

theorem absorbs_u64 : Absorbs limit Reader.u64 pushU64 := Absorbs.push (Wire.absorbs_u64 overflow)

theorem absorbs_take {count : ℕ} :
    Absorbs limit (take .unexpectedEnd count : Reader _) (push : List UInt8 → Writer Unit) :=
  Absorbs.push (Wire.absorbs_take overflow)

theorem absorbs_boolean : Absorbs limit Reader.boolean pushBool := by
  refine AbsorbsAfter.start (AbsorbsAfter.bind absorbs_u8 fun tag ↦ ?_)
  split
  · exact AbsorbsAfter.done (by simp [pushBool, Bool.toUInt8])
  · exact AbsorbsAfter.done (by simp [pushBool, Bool.toUInt8])
  · exact AbsorbsAfter.rejected

theorem absorbs_digest : Absorbs limit Reader.digest pushDigest := by
  refine AbsorbsAfter.start (AbsorbsAfter.bind absorbs_take fun bytes ↦ ?_)
  split
  · exact AbsorbsAfter.done (by simp [pushDigest])
  · exact AbsorbsAfter.rejected

theorem absorbs_string : Absorbs limit Reader.string pushString := by
  refine AbsorbsAfter.start (AbsorbsAfter.bind absorbs_u32 fun length ↦ ?_)
  split
  · exact AbsorbsAfter.rejected
  · rename_i hshort
    refine AbsorbsAfter.bindReturns absorbs_take fun bytes hbytes ↦ ?_
    split
    · rename_i value hvalue
      have hcopied := fromUtf8_eq_some.1 hvalue
      have hlength : byteLength value = length.toNat := by
        rw [byteLength, hcopied, hbytes.length_take]
      apply AbsorbsAfter.done
      rw [pushString, if_neg (by rwa [hlength]), hlength, hcopied, UInt32.ofNat_toNat, pure_bind]
    · exact AbsorbsAfter.rejected

theorem absorbs_enumTag {α : Type} (name : String) {encode : α → UInt8}
    {decode : UInt8 → Option α} (h : ∀ tag value, decode tag = some value → encode value = tag) :
    Absorbs limit (Reader.enumTag name decode) fun value ↦ pushU8 (encode value) := by
  refine AbsorbsAfter.start (AbsorbsAfter.bind absorbs_u8 fun tag ↦ ?_)
  split
  · rename_i value hvalue
    exact AbsorbsAfter.done (by simp [h tag value hvalue])
  · exact AbsorbsAfter.rejected

theorem absorbs_path : Absorbs limit Reader.path fun path ↦ pushString path.value := by
  refine AbsorbsAfter.start (AbsorbsAfter.bind absorbs_string fun value ↦ ?_)
  rw [← bind_pure (checked (BackendPath.new value))]
  refine AbsorbsAfter.checked fun path hpath ↦ AbsorbsAfter.done ?_
  simp [BackendPath.new_eq_ok.1 hpath]

end Absorbs

theorem languageTag_of_decodeLanguage (tag : UInt8) (value : LanguageRevision)
    (h : decodeLanguage tag = some value) : languageTag value = tag := by
  unfold decodeLanguage at h
  split at h
  · cases h
    rfl
  · cases h

theorem modeTag_of_decodeMode (tag : UInt8) (value : BuildMode)
    (h : decodeMode tag = some value) : modeTag value = tag := by
  unfold decodeMode at h
  split at h <;> cases h <;> rfl

theorem recordingTag_of_decodeRecording (tag : UInt8) (value : RecordingMode)
    (h : decodeRecording tag = some value) : recordingTag value = tag := by
  unfold decodeRecording at h
  split at h <;> cases h <;> rfl

theorem optimizationTag_of_decodeOptimization (tag : UInt8) (value : OptimizationLevel)
    (h : decodeOptimization tag = some value) : optimizationTag value = tag := by
  unfold decodeOptimization at h
  split at h <;> cases h <;> rfl

theorem failureKindTag_of_decodeFailureKind (tag : UInt8) (value : BackendFailureKind)
    (h : decodeFailureKind tag = some value) : failureKindTag value = tag := by
  unfold decodeFailureKind at h
  split at h <;> cases h <;> rfl

theorem emits_identity (identity : BuildIdentity) :
    Emits (encodeIdentity identity) decodeIdentity identity := by
  refine Emits.bind (emits_pushDigest _)
    (Emits.bind (emits_enumTag _ (by cases identity.language; rfl))
      (Emits.bind (emits_pushString _) ?_))
  have htarget : TargetIdentity.check identity.target.name = .ok identity.target :=
    TargetIdentity.check_eq_ok.2 rfl
  simp only [htarget, Except.mapError, checked_ok_bind]
  exact Emits.bind (emits_pushDigest _) (Emits.bind (emits_pushDigest _)
    (Emits.bind (emits_pushDigest _) (Emits.bind (emits_pushDigest _)
      (Emits.last (emits_pushDigest _) rfl))))

theorem emits_profileData (data : Option Sha256Digest) :
    Emits (encodeProfileData data) decodeProfileData data := by
  cases data with
  | none => exact Emits.last (emits_pushBool false) rfl
  | some digest => exact Emits.bind (emits_pushBool true) (Emits.last (emits_pushDigest digest) rfl)

theorem emits_profile (profile : BuildProfile) :
    Emits (encodeProfile profile) decodeProfile profile :=
  Emits.bind (emits_pushString _) (Emits.bind (emits_enumTag _ (by cases profile.mode <;> rfl))
    (Emits.bind (emits_pushU64 _) (Emits.bind (emits_pushU64 _) (Emits.bind (emits_pushU32 _)
      (Emits.bind (emits_pushU64 _) (Emits.bind (emits_pushU64 _) (Emits.bind (emits_pushU64 _)
        (Emits.bind (emits_pushBool _) (Emits.bind (emits_pushBool _)
          (Emits.bind (emits_pushU64 _) (Emits.bind (emits_pushU64 _)
            (Emits.bind (emits_enumTag _ (by cases profile.recording <;> rfl))
              (Emits.bind (emits_enumTag _ (by cases profile.optimization.level <;> rfl))
                (Emits.bind (emits_profileData _) (Emits.bind (emits_pushBool _)
                  (Emits.bind (emits_pushBool _) (Emits.last (emits_pushBool _) rfl)))))))))))))))))

theorem emits_configuration (configuration : BuildConfiguration) :
    Emits (encodeConfiguration configuration) decodeConfiguration configuration :=
  Emits.bind (emits_identity _) (Emits.last (emits_profile _) rfl)

theorem emits_requestPayload (request : BackendRequest) :
    Emits (encodeRequestPayload request) decodeRequestPayload request :=
  Emits.bind (emits_pushU64 _) (Emits.bind (emits_configuration _)
    (Emits.bind (emits_pushDigest _) (Emits.bind (emits_pushDigest _) (Emits.bind (emits_pushU64 _)
      (Emits.bind (emits_path _) (Emits.bind (emits_path _) (Emits.bind (emits_path _)
        (Emits.last (emits_path _) rfl))))))))

theorem emits_outcome (outcome : BackendOutcome) :
    Emits (encodeOutcome outcome) decodeOutcome outcome := by
  cases outcome with
  | success success =>
    exact Emits.bind (emits_pushU8 0) (Emits.bind (emits_path _) (Emits.bind (emits_pushDigest _)
      (Emits.bind (emits_path _) (Emits.last (emits_pushDigest _) rfl))))
  | failure failure =>
    exact Emits.bind (emits_pushU8 1)
      (Emits.bind (emits_enumTag _ (by cases failure.kind <;> rfl))
        (Emits.last (emits_pushString _) rfl))

theorem emits_responsePayload (response : BackendResponse) :
    Emits (encodeResponsePayload response) decodeResponsePayload response :=
  Emits.bind (emits_pushU64 _) (Emits.last (emits_outcome _) rfl)

section Absorbs

variable {limit : ℕ}

theorem absorbs_identity : Absorbs limit decodeIdentity encodeIdentity := by
  refine AbsorbsAfter.start (AbsorbsAfter.bind absorbs_digest fun compiler ↦
    AbsorbsAfter.bind (absorbs_enumTag _ languageTag_of_decodeLanguage) fun language ↦
      AbsorbsAfter.bind absorbs_string fun name ↦ AbsorbsAfter.checked fun target htarget ↦ ?_)
  have hname : target.name = name := by
    cases hcheck : TargetIdentity.check name with
    | error error => simp [hcheck, Except.mapError] at htarget
    | ok identity =>
      simp only [hcheck, Except.mapError, Except.ok.injEq] at htarget
      rw [← htarget]
      exact TargetIdentity.check_eq_ok.1 hcheck
  exact AbsorbsAfter.bind absorbs_digest fun targetPackage ↦
    AbsorbsAfter.bind absorbs_digest fun standardLibrary ↦
      AbsorbsAfter.bind absorbs_digest fun sourceGraph ↦
        AbsorbsAfter.bind absorbs_digest fun request ↦
          AbsorbsAfter.bind absorbs_digest fun profile ↦
            AbsorbsAfter.done (by simp [encodeIdentity, hname])

theorem absorbs_profileData : Absorbs limit decodeProfileData encodeProfileData := by
  refine AbsorbsAfter.start (AbsorbsAfter.bind absorbs_boolean fun present ↦ ?_)
  cases present with
  | false => exact AbsorbsAfter.done (by simp [encodeProfileData])
  | true =>
    exact AbsorbsAfter.bind absorbs_digest fun digest ↦
      AbsorbsAfter.done (by simp [encodeProfileData])

theorem absorbs_profile : Absorbs limit decodeProfile encodeProfile :=
  AbsorbsAfter.start (AbsorbsAfter.bind absorbs_string fun name ↦
    AbsorbsAfter.bind (absorbs_enumTag _ modeTag_of_decodeMode) fun mode ↦
    AbsorbsAfter.bind absorbs_u64 fun steps ↦ AbsorbsAfter.bind absorbs_u64 fun memoryBytes ↦
    AbsorbsAfter.bind absorbs_u32 fun callDepth ↦ AbsorbsAfter.bind absorbs_u64 fun staticBytes ↦
    AbsorbsAfter.bind absorbs_u64 fun peakBytes ↦ AbsorbsAfter.bind absorbs_u64 fun eventLogBytes ↦
    AbsorbsAfter.bind absorbs_boolean fun coherent ↦
    AbsorbsAfter.bind absorbs_boolean fun requireIommu ↦
    AbsorbsAfter.bind absorbs_u64 fun resetTimeoutNs ↦
    AbsorbsAfter.bind absorbs_u64 fun quarantineBytes ↦
    AbsorbsAfter.bind (absorbs_enumTag _ recordingTag_of_decodeRecording) fun recording ↦
    AbsorbsAfter.bind (absorbs_enumTag _ optimizationTag_of_decodeOptimization) fun level ↦
    AbsorbsAfter.bind absorbs_profileData fun profileData ↦
    AbsorbsAfter.bind absorbs_boolean fun sealedDeployment ↦
    AbsorbsAfter.bind absorbs_boolean fun warningsAsErrors ↦
    AbsorbsAfter.bind absorbs_boolean fun watchdogs ↦
    AbsorbsAfter.done (by simp [encodeProfile]))

theorem absorbs_configuration : Absorbs limit decodeConfiguration encodeConfiguration :=
  AbsorbsAfter.start (AbsorbsAfter.bind absorbs_identity fun identity ↦
    AbsorbsAfter.bind absorbs_profile fun profile ↦
      AbsorbsAfter.done (by simp [encodeConfiguration]))

theorem absorbs_requestPayload : Absorbs limit decodeRequestPayload encodeRequestPayload :=
  AbsorbsAfter.start (AbsorbsAfter.bind absorbs_u64 fun requestId ↦
    AbsorbsAfter.bind absorbs_configuration fun build ↦
    AbsorbsAfter.bind absorbs_digest fun wirDigest ↦
    AbsorbsAfter.bind absorbs_digest fun targetRuntimeDigest ↦
    AbsorbsAfter.bind absorbs_u64 fun targetRuntimeBytes ↦
    AbsorbsAfter.bind absorbs_path fun wir ↦ AbsorbsAfter.bind absorbs_path fun targetPackage ↦
    AbsorbsAfter.bind absorbs_path fun output ↦ AbsorbsAfter.bind absorbs_path fun report ↦
    AbsorbsAfter.done (by simp [encodeRequestPayload]))

theorem absorbs_outcome : Absorbs limit decodeOutcome encodeOutcome := by
  refine AbsorbsAfter.start (AbsorbsAfter.bind absorbs_u8 fun tag ↦ ?_)
  split
  · exact AbsorbsAfter.bind absorbs_path fun artifact ↦
      AbsorbsAfter.bind absorbs_digest fun artifactDigest ↦
        AbsorbsAfter.bind absorbs_path fun report ↦
          AbsorbsAfter.bind absorbs_digest fun reportDigest ↦
            AbsorbsAfter.done (by simp [encodeOutcome])
  · exact AbsorbsAfter.bind (absorbs_enumTag _ failureKindTag_of_decodeFailureKind) fun kind ↦
      AbsorbsAfter.bind absorbs_string fun message ↦ AbsorbsAfter.done (by simp [encodeOutcome])
  · exact AbsorbsAfter.rejected

theorem absorbs_responsePayload : Absorbs limit decodeResponsePayload encodeResponsePayload :=
  AbsorbsAfter.start (AbsorbsAfter.bind absorbs_u64 fun requestId ↦
    AbsorbsAfter.bind absorbs_outcome fun outcome ↦
      AbsorbsAfter.done (by simp [encodeResponsePayload]))

end Absorbs

/-- The one frame of a payload. -/
def frameBytes (kind : MessageKind) (payload : List UInt8) : List UInt8 :=
  magic ++ leBytes 4 protocolVersion.toNat ++ leBytes 1 kind.tag.toNat ++
    leBytes 4 payload.length ++ payload

variable {kind : MessageKind} {request : BackendRequest}

theorem frame_eq_ok :
    frame kind writer = .ok bytes ↔ ∃ payload, writer ⟨[], ()⟩ = .ok ((), ⟨payload, ()⟩) ∧
      payload.length ≤ maxFrameBytes ∧ bytes = frameBytes kind payload := by
  simp only [frame, bind_eq_ok, exists_unit, failIf_eq_ok, decide_eq_false_iff_not, not_lt, gt_iff_lt]
  constructor
  · rintro ⟨⟨_, payload, _⟩, hwrite, hfits, hbytes⟩
    exact ⟨payload, hwrite, hfits, (Except.ok.inj hbytes).symm⟩
  · rintro ⟨payload, hwrite, hfits, rfl⟩
    exact ⟨((), ⟨payload, ()⟩), hwrite, hfits, rfl⟩

/-- The writer the reader of a header follows. -/
def putHeader (kind : MessageKind) (length : UInt32) : Writer Unit := do
  push magic
  pushU32 protocolVersion
  pushU8 kind.tag
  pushU32 length

theorem putHeader_eq (kind : MessageKind) (length : UInt32) (before : List UInt8) :
    putHeader kind length ⟨before, ()⟩ =
      .ok ((), ⟨before ++ (magic ++ leBytes 4 protocolVersion.toNat ++ leBytes 1 kind.tag.toNat ++
        leBytes 4 length.toNat), ()⟩) := by
  simp only [← append_assoc]
  rfl

theorem emits_header (kind : MessageKind) (length : UInt32) :
    Emits (putHeader kind length) (header kind) length := by
  refine Emits.bind (emits_push rfl) ?_
  rw [if_neg (not_not.2 rfl)]
  refine Emits.bind (emits_pushU32 _) ?_
  rw [if_neg (not_not.2 rfl)]
  refine Emits.bind (emits_pushU8 _) ?_
  rw [if_neg (not_not.2 rfl)]
  exact emits_pushU32 _

theorem absorbs_header {limit : ℕ} (kind : MessageKind) :
    Absorbs limit (header kind) (putHeader kind) := by
  refine AbsorbsAfter.start (AbsorbsAfter.bind absorbs_take fun found ↦ ?_)
  split
  · exact AbsorbsAfter.rejected
  · rename_i hmagic
    refine AbsorbsAfter.bind absorbs_u32 fun version ↦ ?_
    split
    · exact AbsorbsAfter.rejected
    · rename_i hversion
      refine AbsorbsAfter.bind absorbs_u8 fun tag ↦ ?_
      split
      · exact AbsorbsAfter.rejected
      · rename_i htag
        rw [not_not] at hmagic hversion htag
        exact AbsorbsAfter.last absorbs_u32 fun length ↦ by
          simp [putHeader, hmagic, hversion, htag]

/-- A payload is taken from exactly its own frame. -/
theorem unframe_eq_ok :
    unframe bytes kind = .ok source ↔ source.rest.length ≤ maxFrameBytes ∧
      bytes = frameBytes kind source.rest := by
  simp only [unframe, bind_eq_ok, exists_unit, failIf_eq_ok, decide_eq_false_iff_not, not_lt,
    gt_iff_lt, bne_eq_false_iff_eq]
  constructor
  · rintro ⟨-, ⟨length, found⟩, hread, hfits, hlength, hsource⟩
    obtain rfl : found = source := Except.ok.inj hsource
    obtain ⟨consumed, hconsumed, hwrite⟩ :=
      @absorbs_header (([] : List UInt8) ++ bytes).length kind _ _ _ hread
    have hlimit : ([] ++ consumed).length ≤ (([] : List UInt8) ++ bytes).length := by
      have hlengths := congrArg List.length hconsumed
      simp only [length_append] at hlengths
      simp only [nil_append]
      omega
    have hheader := (putHeader_eq kind length []).symm.trans (hwrite [] hlimit)
    simp only [nil_append, Except.ok.injEq, Prod.mk.injEq, Sink.mk.injEq, true_and,
      and_true] at hheader
    simp only at hlength hconsumed
    refine ⟨hlength ▸ hfits, ?_⟩
    rw [hconsumed, ← hheader, frameBytes, hlength]
  · rintro ⟨hfits, rfl⟩
    have hlength : (UInt32.ofNat source.rest.length).toNat = source.rest.length := by
      unfold maxFrameBytes at hfits
      rw [UInt32.toNat_ofNat', Nat.mod_eq_of_lt (by omega)]
    obtain ⟨written, hwritten, hread⟩ := emits_header kind (UInt32.ofNat source.rest.length) _ _
      (putHeader_eq kind (UInt32.ofNat source.rest.length) [])
    rw [hlength] at hwritten
    simp only [nil_append] at hwritten
    refine ⟨?_, (UInt32.ofNat source.rest.length, source), ?_, ?_, hlength.symm, rfl⟩
    · simp only [frameBytes, length_append, length_leBytes, magic, length_cons, length_nil]
      omega
    · rw [frameBytes, hwritten]
      exact hread source.rest
    · rw [hlength]
      exact hfits

/-- A payload reader that follows its writer, run on a whole frame and left with nothing, gives
exactly the values whose frame it is. -/
theorem readFrame_eq_ok {α : Type} {writer : α → Writer Unit}
    {reader : Reader α} (hemits : ∀ a, Emits (writer a) reader a)
    (habsorbs : ∀ limit, Absorbs limit reader writer) {a : α} :
    (∃ source rest, unframe bytes kind = .ok source ∧ reader source = .ok (a, rest) ∧
      rest.rest = []) ↔ frame kind (writer a) = .ok bytes := by
  rw [frame_eq_ok]
  constructor
  · rintro ⟨source, rest, hunframe, hread, hrest⟩
    obtain ⟨hfits, rfl⟩ := unframe_eq_ok.1 hunframe
    obtain ⟨consumed, hconsumed, hwrite⟩ := habsorbs source.rest.length source a rest hread
    rw [hrest, append_nil] at hconsumed
    refine ⟨source.rest, ?_, hfits, rfl⟩
    simpa [← hconsumed] using hwrite [] (by simp [← hconsumed])
  · rintro ⟨payload, hwrite, hfits, rfl⟩
    obtain ⟨written, hwritten, hread⟩ := hemits a _ _ hwrite
    simp only [nil_append] at hwritten
    refine ⟨⟨payload, ()⟩, ⟨[], ()⟩, unframe_eq_ok.2 ⟨hfits, rfl⟩, ?_, rfl⟩
    rw [hwritten]
    simpa using hread []

theorem validateBuild_eq_ok : validateBuild build = .ok () ↔ build.validate = .ok () := by
  unfold validateBuild
  cases build.validate <;> simp [Except.mapError]

/-- A request is read from exactly the frame that is written for it, if its profile and its runtime
evidence pass their checks. -/
theorem decodeRequest_eq_ok :
    decodeRequest bytes = .ok request ↔ frame .request (encodeRequestPayload request) = .ok bytes ∧
      request.build.validate = .ok () ∧
      validateRuntimeEvidence request.targetRuntimeDigest request.targetRuntimeBytes = .ok () := by
  rw [← readFrame_eq_ok emits_requestPayload fun _ ↦ absorbs_requestPayload]
  simp only [decodeRequest, bind_eq_ok, exists_unit, failIf_eq_ok, Bool.not_eq_eq_eq_not,
    Bool.not_false, List.isEmpty_iff]
  constructor
  · rintro ⟨source, hunframe, ⟨read, rest⟩, hread, hrest, hbuild, hevidence, hrequest⟩
    obtain rfl : read = request := Except.ok.inj hrequest
    exact ⟨⟨source, rest, hunframe, hread, hrest⟩, validateBuild_eq_ok.1 hbuild, hevidence⟩
  · rintro ⟨⟨source, rest, hunframe, hread, hrest⟩, hbuild, hevidence⟩
    exact ⟨source, hunframe, (request, rest), hread, hrest, validateBuild_eq_ok.2 hbuild,
      hevidence, rfl⟩

theorem decodeResponse_eq_ok {response : BackendResponse} :
    decodeResponse bytes = .ok response ↔ encodeResponse response = .ok bytes := by
  rw [encodeResponse, ← readFrame_eq_ok emits_responsePayload fun _ ↦ absorbs_responsePayload]
  simp only [decodeResponse, bind_eq_ok, exists_unit, failIf_eq_ok, Bool.not_eq_eq_eq_not,
    Bool.not_false, List.isEmpty_iff]
  constructor
  · rintro ⟨source, hunframe, ⟨read, rest⟩, hread, hrest, hresponse⟩
    obtain rfl : read = response := Except.ok.inj hresponse
    exact ⟨source, rest, hunframe, hread, hrest⟩
  · rintro ⟨source, rest, hunframe, hread, hrest⟩
    exact ⟨source, hunframe, (response, rest), hread, hrest, rfl⟩

theorem encodeRequest_eq_ok :
    encodeRequest request build = .ok bytes ↔
      request.build = build.configuration ∧ decodeRequest bytes = .ok request := by
  simp only [encodeRequest, bind_eq_ok, exists_unit, failIf_eq_ok, bne_eq_false_iff_eq,
    validateBuild_eq_ok, decodeRequest_eq_ok]
  tauto

/-- What is written is read back as itself, and what is read is written again byte for byte: every
response, and every request whose configuration can be sealed.  Whatever paths a message carries
when it was read, they stay below the build directory. -/
theorem backend_codec_bijective :
    (∀ request build bytes, encodeRequest request build = .ok bytes →
      decodeRequest bytes = .ok request) ∧
    (∀ response bytes, encodeResponse response = .ok bytes → decodeResponse bytes = .ok response) ∧
    (∀ bytes request, decodeRequest bytes = .ok request →
      ((∃ build, encodeRequest request build = .ok bytes) ↔
        request.build.identity.digestsNonzero = true) ∧
      (∀ build again, encodeRequest request build = .ok again → again = bytes) ∧
      ∀ path ∈ request.paths, IsRelative path.value) ∧
    ∀ bytes response, decodeResponse bytes = .ok response →
      encodeResponse response = .ok bytes ∧ ∀ path ∈ response.paths, IsRelative path.value := by
  refine ⟨fun request build bytes h ↦ (encodeRequest_eq_ok.1 h).2,
    fun response bytes h ↦ decodeResponse_eq_ok.2 h, fun bytes request h ↦ ⟨⟨?_, ?_⟩, ?_, ?_⟩,
    fun bytes response h ↦ ⟨decodeResponse_eq_ok.1 h, fun path _ ↦ path.isRelative⟩⟩
  · rintro ⟨build, hencode⟩
    rw [(encodeRequest_eq_ok.1 hencode).1]
    exact build.digestsNonzero
  · intro hdigests
    exact ⟨⟨request.build, (decodeRequest_eq_ok.1 h).2.1, hdigests⟩, encodeRequest_eq_ok.2 ⟨rfl, h⟩⟩
  · intro build again hencode
    have hagain := (decodeRequest_eq_ok.1 (encodeRequest_eq_ok.1 hencode).2).1
    exact Except.ok.inj (hagain.symm.trans (decodeRequest_eq_ok.1 h).1)
  · exact fun path _ ↦ path.isRelative

/-- A digest with one byte repeated. -/
def repeatedDigest (byte : UInt8) : Sha256Digest := .repeated byte

/-- A request for a development build, with the given digest for the compiler. -/
def requestWithCompiler (compiler : Sha256Digest) : BackendRequest where
  requestId := 7
  build :=
    { identity :=
        { compiler := compiler, language := .design01,
          target := ⟨"aarch64-qemu-virt-uefi", validateAtom_aarch64QemuVirtUefi⟩,
          targetPackage := repeatedDigest 1,
          standardLibrary := repeatedDigest 1, sourceGraph := repeatedDigest 1,
          request := repeatedDigest 1, profile := repeatedDigest 1 }
      profile := .development }
  wir := ⟨"build/input.wir", by decide⟩
  wirDigest := repeatedDigest 1
  targetRuntimeDigest := repeatedDigest 2
  targetRuntimeBytes := 4096
  targetPackage := ⟨"targets/aarch64-qemu-virt-uefi", by decide⟩
  output := ⟨"build/image.efi", by decide⟩
  report := ⟨"build/image.json", by decide⟩

/-- The frame of a request, whether or not its configuration can be sealed. -/
def requestFrame (request : BackendRequest) : List UInt8 :=
  ((frame .request (encodeRequestPayload request)).toOption).getD []

theorem decodeRequest_requestFrame
    (hframe : (frame .request (encodeRequestPayload request)).isOk = true)
    (hbuild : request.build.validate = .ok ())
    (hevidence : validateRuntimeEvidence request.targetRuntimeDigest request.targetRuntimeBytes =
      .ok ()) : decodeRequest (requestFrame request) = .ok request := by
  refine decodeRequest_eq_ok.2 ⟨?_, hbuild, hevidence⟩
  unfold requestFrame
  cases hresult : frame .request (encodeRequestPayload request) with
  | error error =>
    rw [hresult] at hframe
    cases hframe
  | ok bytes => rfl

theorem backend_codec_bijective_development :
    ∃ build, encodeRequest (requestWithCompiler (repeatedDigest 1)) build =
      .ok (requestFrame (requestWithCompiler (repeatedDigest 1))) :=
  ((backend_codec_bijective.2.2.1 _ _
    (decodeRequest_requestFrame (by decide +kernel) (by decide) (by decide))).1).2 (by decide)

/-- A frame whose compiler digest is zero is read, and nothing writes it again. -/
theorem decodeRequest_unsealed :
    decodeRequest (requestFrame (requestWithCompiler (repeatedDigest 0))) =
      .ok (requestWithCompiler (repeatedDigest 0)) ∧
    ∀ build, encodeRequest (requestWithCompiler (repeatedDigest 0)) build ≠
      .ok (requestFrame (requestWithCompiler (repeatedDigest 0))) := by
  refine ⟨decodeRequest_requestFrame (by decide +kernel) (by decide) (by decide), fun build h ↦ ?_⟩
  have hdigests := build.digestsNonzero
  rw [← (encodeRequest_eq_ok.1 h).1] at hdigests
  exact absurd hdigests (by decide)

end Wrela.BackendProtocol
