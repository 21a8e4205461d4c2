import Wrela.TestModel.ReportCodec
import Wrela.TestModel.ReportLaws

/-!
# Laws of the report codec

Writer and reader of each type are related once, in both directions, together with the least number
of bytes the type takes.  The least sizes of whole elements come out of the same walk over their
fields, and are what the decoder's guards assume.
-/

namespace Wrela.TestModel

open List Wrela.Source Wrela.BuildModel Wrela.Wire
open Wrela.TestProtocol (TestEvent TestEventKind GuestTestOutcome AssertionFailure LogLevel
  LanguageFatalCause)

/-- How a writer may fail. -/
def EncodeFailure (maximumBytes : UInt64) (error : TestReportCodecError) : Prop :=
  error = .outputTooLarge maximumBytes ∨ ∃ text, error = .encode text

theorem encodeFailure_tooLarge (maximumBytes : UInt64) (length : ℕ) :
    EncodeFailure maximumBytes (Encoder.tooLarge maximumBytes length) := .inl rfl

abbrev Delivered {α : Type} (maximumBytes : UInt64) (least : ℕ) (w : Encoder Unit) (r : Reader α)
    (a : α) : Prop :=
  Delivers (EncodeFailure maximumBytes) maximumBytes.toNat least w r a

/-- The reader reads back what the writer writes, at least `least` bytes of it and whatever the
guards have let through before, and the writer writes again what the reader accepts. -/
class Codes (maximumBytes : UInt64) {α : Type} (least : outParam ℕ)
    (w : outParam (α → Encoder Unit)) (r : Reader α) : Prop where
  delivers : ∀ value, Delivered maximumBytes least (w value) r value
  recovers : Recovers maximumBytes.toNat r w

section Rules

variable {α β : Type} {maximumBytes : UInt64} {least total : ℕ} {w : β → Encoder Unit}
  {r : Reader β}

variable {k : β → Reader α}

/-- A field takes its own least size off what the record is to take at least. -/
theorem deliversField (maximumBytes : UInt64) [h : Codes maximumBytes least w r] {value : β}
    {v : Encoder Unit} {a : α} (hk : Delivered maximumBytes (total - least) v (k value) a) :
    Delivered maximumBytes total (w value >>= fun _ ↦ v) (r >>= k) a :=
  Delivers.mono ((h.delivers value).bind hk) (by omega)

theorem deliversLast (maximumBytes : UInt64) [h : Codes maximumBytes least w r] {value : β}
    {a : α} (hle : total ≤ least) (hk : k value = pure a) :
    Delivered maximumBytes total (w value) (r >>= k) a :=
  Delivers.mono ((h.delivers value).last hk) hle

theorem recoversField [h : Codes maximumBytes least w r] {p : Encoder Unit} {v : α → Encoder Unit}
    (hk : ∀ b, RecoversAfter maximumBytes.toNat (p >>= fun _ ↦ w b) (k b) v) :
    RecoversAfter maximumBytes.toNat p (r >>= k) v :=
  RecoversAfter.bind h.recovers hk

end Rules

variable (maximumBytes : UInt64)

instance codes_u8 : Codes maximumBytes 1 (Encoder.u8 maximumBytes) Reader.u8 :=
  ⟨fun value ↦ delivers_u8 (encodeFailure_tooLarge _) value,
    recovers_u8 (Encoder.tooLarge maximumBytes)⟩

instance codes_u32 : Codes maximumBytes 4 (Encoder.u32 maximumBytes) Reader.u32 :=
  ⟨fun value ↦ delivers_u32 (encodeFailure_tooLarge _) value,
    recovers_u32 (Encoder.tooLarge maximumBytes)⟩

instance codes_i32 : Codes maximumBytes 4 (Encoder.i32 maximumBytes) Reader.i32 :=
  ⟨fun value ↦ delivers_i32 (encodeFailure_tooLarge _) value,
    recovers_i32 (Encoder.tooLarge maximumBytes)⟩

instance codes_u64 : Codes maximumBytes 8 (Encoder.u64 maximumBytes) Reader.u64 :=
  ⟨fun value ↦ delivers_u64 (encodeFailure_tooLarge _) value,
    recovers_u64 (Encoder.tooLarge maximumBytes)⟩

variable {error : String}

/-- An enumeration is coded by its table of tags when the table is one to one. -/
theorem codes_tagged {α : Type} {tag : α → UInt8} {ofTag : UInt8 → Option α}
    (hread : ∀ value, ofTag (tag value) = some value)
    (hwrite : ∀ byte value, ofTag byte = some value → tag value = byte) :
    Codes maximumBytes 1 (fun value ↦ Encoder.u8 maximumBytes (tag value))
      (Reader.tagged error ofTag) where
  delivers value := deliversLast maximumBytes le_rfl (by rw [hread value])
  recovers := by
    refine RecoversAfter.start (recoversField fun byte ↦ ?_)
    split
    · rename_i value hvalue
      exact RecoversAfter.done (by rw [pure_bind, hwrite byte value hvalue])
    · exact RecoversAfter.rejected

instance codes_languageRevision {error : String} : Codes maximumBytes 1
    (encodeLanguageRevision maximumBytes)
    (Reader.tagged error decodeLanguageRevision) := by
  refine codes_tagged maximumBytes (fun value ↦ by cases value; rfl) fun byte value h ↦ ?_
  unfold decodeLanguageRevision at h
  split at h <;> cases h
  rfl

instance codes_testKind {error : String} : Codes maximumBytes 1
    (encodeTestKind maximumBytes)
    (Reader.tagged error decodeTestKind) := by
  refine codes_tagged maximumBytes (fun value ↦ by cases value <;> rfl) fun byte value h ↦ ?_
  unfold decodeTestKind at h
  split at h <;> cases h <;> rfl

instance codes_failurePhase : Codes maximumBytes 1
    (encodeFailurePhase maximumBytes) decodePhase := by
  refine codes_tagged maximumBytes (fun value ↦ by cases value <;> rfl) fun byte value h ↦ ?_
  unfold decodeFailurePhase at h
  split at h <;> cases h <;> rfl

instance codes_logLevel {error : String} : Codes maximumBytes 1
    (encodeLogLevel maximumBytes)
    (Reader.tagged error decodeLogLevel) := by
  refine codes_tagged maximumBytes (fun value ↦ by cases value <;> rfl) fun byte value h ↦ ?_
  unfold decodeLogLevel at h
  split at h <;> cases h <;> rfl

instance codes_languageFatalCause :
    Codes maximumBytes 1 (encodeLanguageFatalCause maximumBytes) decodeLanguageFatalCause := by
  refine codes_tagged maximumBytes (fun value ↦ by cases value <;> rfl) fun byte value h ↦ ?_
  unfold decodeLanguageFatalCauseTag at h
  split at h <;> cases h <;> rfl

/-- A count in front of what it counts. -/
theorem delivers_count {α : Type} {length : ℕ} {v : Encoder Unit} {k : UInt32 → Reader α} {a : α}
    (hk : ∀ count : UInt32, count.toNat = length → Delivered maximumBytes 0 v (k count) a) :
    Delivered maximumBytes 4 (Encoder.count maximumBytes error length >>= fun _ ↦ v)
      (Reader.u32 >>= k) a := by
  unfold Encoder.count
  split
  · exact Delivers.refused (.inr ⟨_, rfl⟩) _ _ _
  · rename_i hshort
    refine deliversField maximumBytes (hk _ ?_)
    rw [UInt32.toNat_ofNat', Nat.mod_eq_of_lt (by simpa [UInt32.size] using hshort)]

theorem count_toNat (error : String) (count : UInt32) :
    Encoder.count maximumBytes error count.toNat = Encoder.u32 maximumBytes count := by
  have hlt := count.toNat_lt
  rw [Encoder.count, if_neg (by simpa [UInt32.size] using hlt), UInt32.ofNat_toNat]

section Collections

variable {α : Type} {least : ℕ} {w : α → Encoder Unit} {r : Reader α}

instance codes_option [h : Codes maximumBytes least w r] :
    Codes maximumBytes 1 (Encoder.option maximumBytes w) (Reader.option r) where
  delivers value := by
    cases value with
    | none => exact Delivers.last ((codes_u8 maximumBytes).delivers 0) rfl
    | some value =>
      exact deliversField maximumBytes (deliversLast maximumBytes (Nat.zero_le _) rfl)
  recovers := by
    refine RecoversAfter.start (recoversField fun tag ↦ ?_)
    split
    · exact RecoversAfter.done (by simp [Encoder.option])
    · exact recoversField fun value ↦ RecoversAfter.done (by simp [Encoder.option])
    · exact RecoversAfter.rejected

/-- Elements that are never shorter than the reader takes them for are never refused. -/
theorem codes_vector {minimumItemBytes : ℕ} (h : Codes maximumBytes least w r)
    (hpositive : 0 < least) (hminimum : minimumItemBytes ≤ least) :
    Codes maximumBytes 4 (Encoder.vector maximumBytes w)
      (Reader.vector maximumBytes minimumItemBytes r) where
  delivers values := by
    refine delivers_count maximumBytes fun count hcount ↦ ?_
    rw [hcount]
    exact delivers_elements hpositive hminimum values fun value _ ↦ h.delivers value
  recovers := by
    refine RecoversAfter.start (recoversField fun count ↦ ?_)
    refine RecoversAfter.lastReturns (recovers_elements h.recovers _) fun values hvalues ↦ ?_
    rw [Encoder.vector, hvalues.length_elements, count_toNat, pure_bind]

end Collections

theorem pieceEnd_le (text : List UInt8) (stop : ℕ) : pieceEnd text stop ≤ stop := by
  induction stop with
  | zero => exact le_rfl
  | succ stop ih =>
    rw [pieceEnd]
    split
    · exact ih.trans (Nat.le_succ _)
    · exact le_rfl

theorem pieceEnd_boundary (hpositive : pieceEnd text stop ≠ 0)
    (hbyte : text[pieceEnd text stop]? = some byte) :
    isContinuation byte = false := by
  induction stop with
  | zero => exact absurd rfl hpositive
  | succ stop ih =>
    rw [pieceEnd] at hpositive hbyte
    split at hbyte
    · rename_i hcontinues
      rw [if_pos hcontinues] at hpositive
      exact ih hpositive hbyte
    · rename_i hends
      rw [hbyte] at hends
      simpa using hends

/-- A search that comes back to the start has passed continuation bytes only. -/
theorem continues_of_pieceEnd_eq_zero (h : pieceEnd text stop = 0) (hpositive : 0 < index)
    (hle : index ≤ stop) :
    (text[index]?).any isContinuation = true := by
  induction stop with
  | zero => omega
  | succ stop ih =>
    rw [pieceEnd] at h
    split at h
    · rename_i hcontinues
      rcases Nat.lt_or_eq_of_le hle with hlt | rfl
      · exact ih h (Nat.lt_succ_iff.1 hlt)
      · exact hcontinues
    · cases h

/-- Within the first poll interval of a text there is a boundary to stop at. -/
theorem pieceEnd_ne_zero (hne : chars ≠ []) :
    pieceEnd (encodeChars chars) (min copyPollBytes (encodeChars chars).length) ≠ 0 := by
  obtain ⟨char, chars, rfl⟩ := exists_cons_of_ne_nil hne
  obtain ⟨first, rest, hshape, -, -, hrest⟩ := utf8EncodeChar_shape char
  have hencode : encodeChars (char :: chars) = (first :: rest) ++ encodeChars chars := by
    simp [encodeChars, hshape]
  intro hzero
  have hboundary : rest.length + 1 ≤ min copyPollBytes (encodeChars (char :: chars)).length := by
    rw [hencode, length_append, length_cons, copyPollBytes]
    omega
  have hcontinues := continues_of_pieceEnd_eq_zero hzero (Nat.succ_pos _) hboundary
  rw [hencode, List.getElem?_append_right (by simp), length_cons, Nat.sub_self] at hcontinues
  cases chars with
  | nil => simp [encodeChars] at hcontinues
  | cons next chars =>
    obtain ⟨nextFirst, nextRest, hnext, hstarts, -, -⟩ := utf8EncodeChar_shape next
    simp [encodeChars, hnext, hstarts] at hcontinues

theorem nextPiece_cuts (hne : chars ≠ []) :
    ∃ front back, chars = front ++ back ∧ front ≠ [] ∧
      nextPiece (encodeChars chars) = some (encodeChars front).length := by
  have hpositive := pieceEnd_ne_zero hne
  have hle := pieceEnd_le (encodeChars chars) (min copyPollBytes (encodeChars chars).length)
  obtain ⟨front, back, hsplit, hfront⟩ := encodeChars_split (hle.trans (min_le_right _ _))
    fun byte hbyte ↦ pieceEnd_boundary hpositive hbyte
  refine ⟨front, back, hsplit, ?_, ?_⟩
  · rintro rfl
    exact hpositive hfront.symm
  · rw [nextPiece, if_neg hpositive, hfront]

theorem delivers_counted {long : String} (value : List UInt8) :
    Delivered maximumBytes 4
      (Encoder.count maximumBytes error value.length >>= fun _ ↦ Encoder.raw maximumBytes value)
      (Reader.counted maximumBytes long) value :=
  delivers_count maximumBytes fun _ hcount ↦ delivers_payload (encodeFailure_tooLarge _) hcount.symm

theorem recovers_counted (error long : String) :
    Recovers maximumBytes.toNat (Reader.counted maximumBytes long) fun value ↦
      Encoder.count maximumBytes error value.length >>= fun _ ↦ Encoder.raw maximumBytes value := by
  refine RecoversAfter.start (recoversField fun count ↦ ?_)
  refine RecoversAfter.lastReturns (recovers_payload (Encoder.tooLarge maximumBytes))
    fun value hvalue ↦ ?_
  rw [hvalue.length_payload, count_toNat, pure_bind]
  rfl

instance codes_byteVector :
    Codes maximumBytes 4 (Encoder.bytes maximumBytes) (Reader.byteVector maximumBytes) :=
  ⟨fun value ↦ delivers_counted maximumBytes value, recovers_counted maximumBytes _ _⟩

instance codes_string :
    Codes maximumBytes 4 (Encoder.string maximumBytes) (Reader.string maximumBytes) where
  delivers value := by
    refine Delivers.last (delivers_counted maximumBytes (utf8Bytes value)) ?_
    have htext : fromUtf8 (utf8Bytes value) = some value := fromUtf8_eq_some.2 rfl
    have hcopied : copyChunks nextPiece (utf8Bytes value).length (utf8Bytes value) = some value :=
      copyChunks_utf8Bytes (fun chars hne ↦ nextPiece_cuts hne) le_rfl
    simp only [htext, hcopied]
  recovers := by
    refine RecoversAfter.start (RecoversAfter.bind
      (recovers_counted maximumBytes "string length exceeds canonical u32 field" _)
      fun source ↦ ?_)
    split
    · exact RecoversAfter.rejected
    · split
      · exact RecoversAfter.rejected
      · rename_i value hvalue
        have hsource := utf8Bytes_of_copyChunks hvalue
        exact RecoversAfter.done (by rw [pure_bind, Encoder.string, byteLength, hsource])

instance codes_targetIdentity : Codes maximumBytes 4 (encodeTargetIdentity maximumBytes)
    (decodeTargetIdentity maximumBytes) where
  delivers target := by
    have hnew : TargetIdentity.new target.name = some target := TargetIdentity.new_eq_some.2 rfl
    exact Delivers.last ((codes_string maximumBytes).delivers target.name) (by simp only [hnew])
  recovers := by
    refine RecoversAfter.start (recoversField fun name ↦ ?_)
    split
    · rename_i target htarget
      rw [TargetIdentity.new_eq_some] at htarget
      exact RecoversAfter.done (by rw [pure_bind, encodeTargetIdentity, htarget])
    · exact RecoversAfter.rejected

/-! ## Records -/

instance codes_digest : Codes maximumBytes 32 (encodeDigest maximumBytes) decodeDigest where
  delivers digest :=
    Delivers.last (delivers_append (encodeFailure_tooLarge _) digest.length_eq)
      (by rw [dif_pos digest.length_eq])
  recovers := by
    refine RecoversAfter.start
      (RecoversAfter.bind (recovers_take (Encoder.tooLarge maximumBytes)) fun bytes ↦ ?_)
    split
    · exact RecoversAfter.done (by rw [pure_bind]; rfl)
    · exact RecoversAfter.rejected

instance codes_optionalDigest :
    Codes maximumBytes 1 (encodeOptionalDigest maximumBytes) decodeOptionalDigest :=
  codes_option maximumBytes

instance codes_buildIdentity : Codes maximumBytes 197 (encodeBuildIdentity maximumBytes)
    (decodeBuildIdentity maximumBytes) where
  delivers build := by
    iterate 7 refine deliversField maximumBytes ?_
    exact deliversLast maximumBytes (by decide) rfl
  recovers := by
    apply RecoversAfter.start
    iterate 8 refine recoversField fun _ ↦ ?_
    exact RecoversAfter.done (by simp [encodeBuildIdentity])

instance codes_span : Codes maximumBytes 12 (encodeSpan maximumBytes) decodeSpan where
  delivers span := deliversField maximumBytes (deliversField maximumBytes
    (deliversLast maximumBytes (by decide) rfl))
  recovers := RecoversAfter.start (recoversField fun _ ↦ recoversField fun _ ↦
    recoversField fun _ ↦ RecoversAfter.done (by simp [encodeSpan]))

instance codes_testId : Codes maximumBytes 4 (encodeTestId maximumBytes) decodeTestId where
  delivers test := Delivers.last ((codes_u32 maximumBytes).delivers test.val) rfl
  recovers := RecoversAfter.start (recoversField fun _ ↦
    RecoversAfter.done (by rw [pure_bind]; rfl))

instance codes_imageGroupId :
    Codes maximumBytes 4 (encodeImageGroupId maximumBytes) decodeImageGroupId where
  delivers group := Delivers.last ((codes_u32 maximumBytes).delivers group.val) rfl
  recovers := RecoversAfter.start (recoversField fun _ ↦
    RecoversAfter.done (by rw [pure_bind]; rfl))

instance codes_descriptor :
    Codes maximumBytes 18 (encodeDescriptor maximumBytes) (decodeDescriptor maximumBytes) where
  delivers descriptor := by
    iterate 4 refine deliversField maximumBytes ?_
    exact deliversLast maximumBytes (by decide) rfl
  recovers := by
    apply RecoversAfter.start
    iterate 5 refine recoversField fun _ ↦ ?_
    exact RecoversAfter.done (by simp [encodeDescriptor])

/-- A constructor is its tag and then its fields. -/
theorem deliversTag {α : Type} {total : ℕ} {tag : UInt8} {v : Encoder Unit}
    {k : UInt8 → Reader α} {a : α} (hk : Delivered maximumBytes (total - 1) v (k tag) a) :
    Delivered maximumBytes total (Encoder.u8 maximumBytes tag >>= fun _ ↦ v)
      (Reader.u8 >>= k) a :=
  deliversField maximumBytes hk

instance codes_outcome :
    Codes maximumBytes 1 (encodeOutcome maximumBytes) (decodeOutcome maximumBytes) where
  delivers outcome := by
    cases outcome with
    | passed => exact Delivers.last ((codes_u8 maximumBytes).delivers 0) rfl
    | failed phase message =>
      exact deliversTag maximumBytes (deliversField maximumBytes
        (deliversLast maximumBytes (Nat.zero_le _) rfl))
    | timedOut phase timeoutNs =>
      exact deliversTag maximumBytes (deliversField maximumBytes
        (deliversLast maximumBytes (Nat.zero_le _) rfl))
    | crashed code message =>
      exact deliversTag maximumBytes (deliversField maximumBytes
        (deliversLast maximumBytes (Nat.zero_le _) rfl))
    | languageFatal cause =>
      exact deliversTag maximumBytes (deliversLast maximumBytes (Nat.zero_le _) rfl)
  recovers := by
    refine RecoversAfter.start (recoversField fun tag ↦ ?_)
    split
    · exact RecoversAfter.done (by simp [encodeOutcome])
    · exact recoversField fun phase ↦ recoversField fun message ↦
        RecoversAfter.done (by simp [encodeOutcome])
    · exact recoversField fun phase ↦ recoversField fun timeoutNs ↦
        RecoversAfter.done (by simp [encodeOutcome])
    · exact recoversField fun code ↦ recoversField fun message ↦
        RecoversAfter.done (by simp [encodeOutcome])
    · exact recoversField fun cause ↦ RecoversAfter.done (by simp [encodeOutcome])
    · exact RecoversAfter.rejected

/-- The least size of a case is the one the decoder assumes. -/
instance codes_caseResult : Codes maximumBytes minCaseBytes (encodeCaseResult maximumBytes)
    (decodeCaseResult maximumBytes) where
  delivers result := deliversField maximumBytes (deliversField maximumBytes
    (deliversLast maximumBytes (by decide) rfl))
  recovers := RecoversAfter.start (recoversField fun _ ↦ recoversField fun _ ↦
    recoversField fun _ ↦ RecoversAfter.done (by simp [encodeCaseResult]))

instance codes_evidence :
    Codes maximumBytes 42 (encodeEvidence maximumBytes) (decodeEvidence maximumBytes) where
  delivers evidence := by
    iterate 7 refine deliversField maximumBytes ?_
    exact deliversLast maximumBytes (by decide) rfl
  recovers := by
    apply RecoversAfter.start
    iterate 8 refine recoversField fun _ ↦ ?_
    exact RecoversAfter.done (by simp [encodeEvidence])

instance codes_assertionFailure : Codes maximumBytes 8 (encodeAssertionFailure maximumBytes)
    (decodeAssertionFailure maximumBytes) where
  delivers failure := by
    iterate 4 refine deliversField maximumBytes ?_
    exact deliversLast maximumBytes (by decide) rfl
  recovers := by
    apply RecoversAfter.start
    iterate 5 refine recoversField fun _ ↦ ?_
    exact RecoversAfter.done (by simp [encodeAssertionFailure])

instance codes_guestOutcome :
    Codes maximumBytes 1 (encodeGuestOutcome maximumBytes) (decodeGuestOutcome maximumBytes) where
  delivers outcome := by
    cases outcome with
    | passed => exact Delivers.last ((codes_u8 maximumBytes).delivers 0) rfl
    | failed message =>
      exact deliversTag maximumBytes (deliversLast maximumBytes (Nat.zero_le _) rfl)
    | timedOut timeoutNs =>
      exact deliversTag maximumBytes (deliversLast maximumBytes (Nat.zero_le _) rfl)
    | languageFatal cause =>
      exact deliversTag maximumBytes (deliversLast maximumBytes (Nat.zero_le _) rfl)
  recovers := by
    refine RecoversAfter.start (recoversField fun tag ↦ ?_)
    split
    · exact RecoversAfter.done (by simp [encodeGuestOutcome])
    · exact recoversField fun message ↦ RecoversAfter.done (by simp [encodeGuestOutcome])
    · exact recoversField fun timeoutNs ↦ RecoversAfter.done (by simp [encodeGuestOutcome])
    · exact recoversField fun cause ↦ RecoversAfter.done (by simp [encodeGuestOutcome])
    · exact RecoversAfter.rejected

/-- No kind of event is shorter than the start of a run or of a test. -/
instance codes_eventKind :
    Codes maximumBytes 5 (encodeEventKind maximumBytes) (decodeEventKind maximumBytes) where
  delivers kind := by
    cases kind with
    | runStarted testCount =>
      exact deliversTag maximumBytes (deliversLast maximumBytes (by decide) rfl)
    | testStarted test =>
      exact deliversTag maximumBytes (deliversLast maximumBytes (by decide) rfl)
    | log test level message =>
      exact deliversTag maximumBytes (deliversField maximumBytes (deliversField maximumBytes
        (deliversLast maximumBytes (by decide) rfl)))
    | assertionFailed test failure =>
      exact deliversTag maximumBytes (deliversField maximumBytes
        (deliversLast maximumBytes (by decide) rfl))
    | testFinished test outcome =>
      exact deliversTag maximumBytes (deliversField maximumBytes
        (deliversLast maximumBytes (by decide) rfl))
    | heartbeat monotonicTicks =>
      exact deliversTag maximumBytes (deliversLast maximumBytes (by decide) rfl)
    | runFinished passed failed =>
      exact deliversTag maximumBytes (deliversField maximumBytes
        (deliversLast maximumBytes (by decide) rfl))
  recovers := by
    refine RecoversAfter.start (recoversField fun tag ↦ ?_)
    split
    · exact recoversField fun testCount ↦ RecoversAfter.done (by simp [encodeEventKind])
    · exact recoversField fun test ↦ RecoversAfter.done (by simp [encodeEventKind])
    · exact recoversField fun test ↦ recoversField fun level ↦ recoversField fun message ↦
        RecoversAfter.done (by simp [encodeEventKind])
    · exact recoversField fun test ↦ recoversField fun failure ↦
        RecoversAfter.done (by simp [encodeEventKind])
    · exact recoversField fun test ↦ recoversField fun outcome ↦
        RecoversAfter.done (by simp [encodeEventKind])
    · exact recoversField fun ticks ↦ RecoversAfter.done (by simp [encodeEventKind])
    · exact recoversField fun passed ↦ recoversField fun failed ↦
        RecoversAfter.done (by simp [encodeEventKind])
    · exact RecoversAfter.rejected

instance codes_event :
    Codes maximumBytes minEventBytes (encodeEvent maximumBytes) (decodeEvent maximumBytes) where
  delivers event := deliversField maximumBytes (deliversField maximumBytes
    (deliversLast maximumBytes (by decide) rfl))
  recovers := RecoversAfter.start (recoversField fun _ ↦ recoversField fun _ ↦
    recoversField fun _ ↦ RecoversAfter.done (by simp [encodeEvent]))

instance codes_cases : Codes maximumBytes 4
    (Encoder.vector maximumBytes (encodeCaseResult maximumBytes))
    (Reader.vector maximumBytes minCaseBytes (decodeCaseResult maximumBytes)) :=
  codes_vector maximumBytes (codes_caseResult maximumBytes) (by decide) le_rfl

instance codes_events : Codes maximumBytes 4
    (Encoder.vector maximumBytes (encodeEvent maximumBytes))
    (Reader.vector maximumBytes minEventBytes (decodeEvent maximumBytes)) :=
  codes_vector maximumBytes (codes_event maximumBytes) (by decide) le_rfl

instance codes_imageGroupResult : Codes maximumBytes minImageGroupBytes
    (encodeImageGroupResult maximumBytes) (decodeImageGroupResult maximumBytes) where
  delivers result := by
    iterate 4 refine deliversField maximumBytes ?_
    exact deliversLast maximumBytes (by decide) rfl
  recovers := by
    apply RecoversAfter.start
    iterate 5 refine recoversField fun _ ↦ ?_
    exact RecoversAfter.done (by simp [encodeImageGroupResult])

instance codes_images : Codes maximumBytes 4
    (Encoder.vector maximumBytes (encodeImageGroupResult maximumBytes))
    (Reader.vector maximumBytes minImageGroupBytes (decodeImageGroupResult maximumBytes)) :=
  codes_vector maximumBytes (codes_imageGroupResult maximumBytes) (by decide) le_rfl

instance codes_report :
    Codes maximumBytes 0 (encodeReport maximumBytes) (decodeReport maximumBytes) where
  delivers report := by
    iterate 5 refine deliversField maximumBytes ?_
    exact deliversLast maximumBytes (by decide) rfl
  recovers := by
    apply RecoversAfter.start
    iterate 6 refine recoversField fun _ ↦ ?_
    exact RecoversAfter.done (by simp [encodeReport])

theorem delivers_document (report : TestReport) :
    Delivered maximumBytes 0 (encodeDocument maximumBytes report)
      (decodeDocument maximumBytes) report := by
  have hversion : Delivered maximumBytes 0
      (do Encoder.u32 maximumBytes canonicalTestReportEncodingVersion
          encodeReport maximumBytes report)
      (do let encodingVersion ← Reader.u32
          if encodingVersion ≠ canonicalTestReportEncodingVersion then
            fail (.decode "unsupported canonical test-report encoding version")
          else decodeReport maximumBytes) report := by
    refine deliversField maximumBytes ?_
    rw [if_neg (by simp)]
    exact (codes_report maximumBytes).delivers report
  refine Delivers.mono (Delivers.bind (delivers_append (encodeFailure_tooLarge _) rfl)
    (?_ : Delivered maximumBytes 0 _ _ _)) (Nat.zero_le _)
  rw [if_neg (by simp)]
  exact hversion

theorem recovers_document :
    Recovers maximumBytes.toNat (decodeDocument maximumBytes) (encodeDocument maximumBytes) := by
  refine RecoversAfter.start
    (RecoversAfter.bind (recovers_take (Encoder.tooLarge maximumBytes)) fun magic ↦ ?_)
  split
  · exact RecoversAfter.rejected
  · rename_i hmagic
    refine recoversField fun version ↦ ?_
    split
    · exact RecoversAfter.rejected
    · rename_i hversion
      rw [not_not] at hmagic hversion
      refine RecoversAfter.lastReturns (codes_report maximumBytes).recovers fun report _ ↦ ?_
      simp [encodeDocument, hmagic, hversion, Encoder.raw]

variable {report : TestReport} {bytes : List UInt8}

theorem encode_eq_ok :
    encode report maximumBytes = .ok bytes ↔ maximumBytes ≠ 0 ∧
      encodeDocument maximumBytes report ⟨[], ()⟩ = .ok ((), ⟨bytes, ()⟩) := by
  rw [encode, Checked.unit_bind_eq_ok, checkLimit]
  constructor
  · rintro ⟨hlimit, h⟩
    obtain ⟨⟨_, counter⟩, hcount, h⟩ := Checked.bind_eq_ok.1 h
    obtain ⟨⟨_, encoder⟩, hwrite, h⟩ := Checked.bind_eq_ok.1 h
    simp only at h
    split at h
    · cases h
    · cases h
      refine ⟨?_, hwrite⟩
      rintro rfl
      cases hlimit
  · rintro ⟨hlimit, h⟩
    refine ⟨if_neg hlimit, ?_⟩
    rw [h]
    simp [Checked.ok_bind]

theorem decode_eq_ok :
    decode bytes maximumBytes = .ok report ↔ maximumBytes ≠ 0 ∧
      bytes.length ≤ maximumBytes.toNat ∧ ∃ held,
        decodeDocument maximumBytes ⟨bytes, .zero⟩ = .ok (report, ⟨[], held⟩) := by
  rw [decode, Checked.unit_bind_eq_ok, checkLimit]
  constructor
  · rintro ⟨hlimit, h⟩
    split at h
    · cases h
    · rename_i hfits
      obtain ⟨⟨read, rest, held⟩, hread, h⟩ := Checked.bind_eq_ok.1 h
      cases rest with
      | nil =>
        cases h
        refine ⟨?_, by omega, held, hread⟩
        rintro rfl
        cases hlimit
      | cons byte rest => cases h
  · rintro ⟨hlimit, hfits, held, hread⟩
    refine ⟨if_neg hlimit, ?_⟩
    rw [if_neg (by omega), hread]
    rfl

theorem decode_of_encode
    (h : encode report maximumBytes = .ok bytes) : decode bytes maximumBytes = .ok report := by
  obtain ⟨hlimit, hwrite⟩ := (encode_eq_ok maximumBytes).1 h
  have hdelivers := delivers_document maximumBytes report
  obtain ⟨written, more, hbytes, hpayload, hitems, hread⟩ := hdelivers.reads _ _ hwrite
  simp only [nil_append] at hbytes
  subst hbytes
  have hlength : bytes.length ≤ maximumBytes.toNat := hdelivers.fits _ _ hwrite (Nat.zero_le _)
  have hwithin : (Held.zero.add more).Within maximumBytes.toNat := by
    constructor <;> simp only [Held.add, Held.zero] <;> omega
  have hdecoded := hread [] .zero hwithin
  rw [append_nil] at hdecoded
  exact (decode_eq_ok maximumBytes).2 ⟨hlimit, hlength, _, hdecoded⟩

theorem encode_of_decode
    (h : decode bytes maximumBytes = .ok report) : encode report maximumBytes = .ok bytes := by
  obtain ⟨hlimit, hfits, held, hread⟩ := (decode_eq_ok maximumBytes).1 h
  obtain ⟨consumed, hconsumed, hwrite⟩ := recovers_document maximumBytes _ _ _ hread
  simp only [append_nil] at hconsumed
  subst hconsumed
  exact (encode_eq_ok maximumBytes).2 ⟨hlimit, hwrite [] (by simpa using hfits)⟩

/-- Sealing a report comes to encoding it. -/
theorem sealTestReportEncoding_eq :
    sealTestReportEncoding report maximumBytes =
      (encode report maximumBytes).map fun bytes ↦ ⟨report, bytes⟩ := by
  rw [sealTestReportEncoding]
  cases hencode : encode report maximumBytes with
  | error failure =>
    cases hlimit : checkLimit maximumBytes with
    | error refused =>
      rw [encode, hlimit] at hencode
      cases hencode
      rfl
    | ok _ => rfl
  | ok bytes =>
    have hdecode := decode_of_encode maximumBytes hencode
    obtain ⟨hlimit, hfits, -⟩ := (decode_eq_ok maximumBytes).1 hdecode
    rw [checkLimit, if_neg hlimit]
    simp only [Checked.ok_bind]
    rw [if_neg (by omega), hdecode]
    simp only [Checked.ok_bind]
    rw [if_neg (not_not.2 rfl), hencode]
    simp [Checked.ok_bind, Except.map]

theorem encode_eq_error {error : TestReportCodecError}
    (h : encode report maximumBytes = .error error) :
    error = .invalidLimit ∨ EncodeFailure maximumBytes error := by
  have hdelivers := delivers_document maximumBytes report
  rw [encode, checkLimit] at h
  split at h
  · cases h
    exact .inl rfl
  · right
    rw [Checked.ok_bind] at h
    cases hwrite : encodeDocument maximumBytes report ⟨[], ()⟩ with
    | error failure =>
      rw [hwrite] at h
      cases h
      exact hdelivers.fails _ _ hwrite
    | ok written =>
      rw [hwrite] at h
      simp only [Checked.ok_bind] at h
      split at h
      · cases h
        exact .inr ⟨_, rfl⟩
      · cases h

/-- The codec is a bijection between the reports it encodes and the bytes it accepts, and sealing
a report never finds it otherwise. -/
theorem testReportCodec_bijective :
    (∀ report bytes, encode report maximumBytes = .ok bytes →
      decode bytes maximumBytes = .ok report) ∧
    (∀ bytes report, decode bytes maximumBytes = .ok report →
      encode report maximumBytes = .ok bytes) ∧
    ∀ report, sealTestReportEncoding report maximumBytes ≠ .error .nonCanonical ∧
      ∀ text, sealTestReportEncoding report maximumBytes ≠ .error (.decode text) := by
  refine ⟨fun _ _ h ↦ decode_of_encode maximumBytes h, fun _ _ h ↦ encode_of_decode maximumBytes h,
    fun report ↦ ?_⟩
  rw [sealTestReportEncoding_eq]
  cases hencode : encode report maximumBytes with
  | ok bytes => exact ⟨by rintro ⟨⟩, by rintro text ⟨⟩⟩
  | error failure =>
    rcases encode_eq_error maximumBytes hencode with rfl | rfl | ⟨text, rfl⟩
    · exact ⟨by rintro ⟨⟩, by rintro text ⟨⟩⟩
    · exact ⟨by rintro ⟨⟩, by rintro text ⟨⟩⟩
    · exact ⟨by rintro ⟨⟩, by rintro text ⟨⟩⟩

theorem testReportCodec_bijective_passingReport :
    ∃ bytes, encode passingReport 4096 = .ok bytes ∧ decode bytes 4096 = .ok passingReport := by
  have hok : (encode passingReport 4096).isOk = true := by decide +kernel
  cases hencode : encode passingReport 4096 with
  | ok bytes => exact ⟨bytes, rfl, (testReportCodec_bijective 4096).1 passingReport bytes hencode⟩
  | error failure =>
    rw [hencode] at hok
    cases hok

end Wrela.TestModel
