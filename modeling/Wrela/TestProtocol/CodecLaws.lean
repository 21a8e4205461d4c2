import Wrela.TestProtocol.Event

/-!
# The event codec is a bijection on its image

Payload fields are related writer by reader; the frame adds the header and its checks.
`frameOf` is the frame of an event written out as a byte list, without limits, and
`encode_eq_ok` says that encoding succeeds exactly on the valid events whose frame fits, with that
frame as its result.
-/

namespace Wrela.TestProtocol

open List Wrela.Source Wrela.Wire Wrela.Checked

theorem nextChunk_cuts (hne : chars ≠ []) :
    ∃ front back, chars = front ++ back ∧ front ≠ [] ∧
      nextChunk (encodeChars chars) = some (encodeChars front).length := by
  unfold nextChunk
  split
  · rename_i hlong
    set run := (((encodeChars chars).drop pollBytes).takeWhile isContinuation).length with hrun
    have hrunLe : run ≤ (encodeChars chars).length - pollBytes := by
      have hle := ( takeWhile_prefix (l := (encodeChars chars).drop pollBytes)
        isContinuation).length_le
      rwa [length_drop] at hle
    have hcut (byte : UInt8) (hbyte : (encodeChars chars)[pollBytes + run]? = some byte) :
        isContinuation byte = false := by
      rw [← List.getElem?_drop] at hbyte
      exact getElem?_length_takeWhile hbyte
    obtain ⟨front, back, hsplit, hfront⟩ := encodeChars_split (by omega) hcut
    refine ⟨front, back, hsplit, ?_, by rw [hfront]⟩
    rintro rfl
    have hempty : (encodeChars []).length = 0 := rfl
    unfold pollBytes at hfront
    omega
  · exact ⟨chars, [], by simp, hne, rfl⟩

variable {bytes : List UInt8} {offset : ℕ}

theorem copyUtf8_eq_some : copyUtf8 bytes = some text ↔ utf8Bytes text = bytes := by
  constructor
  · exact utf8Bytes_of_copyChunks
  · rintro rfl
    exact copyChunks_utf8Bytes (fun chars hne ↦ nextChunk_cuts hne) le_rfl

section Fields

variable (limits : ProtocolLimits)

theorem toNat_ofNat_byteLength (h : byteLength value ≤ limits.stringBytes.toNat) :
    (UInt32.ofNat (byteLength value)).toNat = byteLength value := by
  have hmax := limits.stringBytes.toNat_lt
  rw [UInt32.toNat_ofNat', Nat.mod_eq_of_lt (by omega)]

theorem emits_u8 (value : UInt8) :
    Emits (PayloadWriter.u8 limits value) PayloadReader.u8 value := Wire.emits_u8 _ value

theorem emits_u32 (value : UInt32) :
    Emits (PayloadWriter.u32 limits value) PayloadReader.u32 value := Wire.emits_u32 _ value

theorem emits_u64 (value : UInt64) :
    Emits (PayloadWriter.u64 limits value) PayloadReader.u64 value := Wire.emits_u64 _ value

theorem emits_string (value : String) :
    Emits (PayloadWriter.string limits value) (PayloadReader.string limits) value := by
  unfold PayloadWriter.string PayloadReader.string
  split
  · exact Emits.refused _ _ _
  · rename_i hshort
    have hlength := toNat_ofNat_byteLength limits (Nat.le_of_not_gt hshort)
    refine Emits.bind (emits_u32 limits _) ?_
    rw [if_neg (by rwa [hlength]), hlength]
    refine Emits.last (emits_append rfl) ?_
    rw [copyUtf8_eq_some.2 rfl]

theorem emits_optionalString (kind : String) (value : Option String) :
    Emits (PayloadWriter.optionalString limits value) (PayloadReader.optionalString limits kind)
      value := by
  cases value with
  | none => exact Emits.last (emits_u8 limits 0) rfl
  | some value => exact Emits.bind (emits_u8 limits 1) (Emits.last (emits_string limits value) rfl)

theorem absorbs_u8 : Absorbs (PayloadWriter.payloadLimit limits) PayloadReader.u8
    (PayloadWriter.u8 limits) := Wire.absorbs_u8 _

theorem absorbs_u32 : Absorbs (PayloadWriter.payloadLimit limits) PayloadReader.u32
    (PayloadWriter.u32 limits) := Wire.absorbs_u32 _

theorem absorbs_u64 : Absorbs (PayloadWriter.payloadLimit limits) PayloadReader.u64
    (PayloadWriter.u64 limits) := Wire.absorbs_u64 _

theorem absorbs_string : Absorbs (PayloadWriter.payloadLimit limits) (PayloadReader.string limits)
    (PayloadWriter.string limits) := by
  refine AbsorbsAfter.start (AbsorbsAfter.bind (absorbs_u32 limits) fun length ↦ ?_)
  split
  · exact AbsorbsAfter.rejected
  · rename_i hshort
    refine AbsorbsAfter.bindReturns (absorbs_take (PayloadWriter.tooLarge limits))
      fun bytes hbytes ↦ ?_
    split
    · rename_i value hvalue
      have hcopied := copyUtf8_eq_some.1 hvalue
      have hlength : byteLength value = length.toNat := by
        rw [byteLength, hcopied, hbytes.length_take]
      apply AbsorbsAfter.done
      rw [PayloadWriter.string, if_neg (by rwa [hlength]), hlength, hcopied,
        UInt32.ofNat_toNat, pure_bind]
      rfl
    · exact AbsorbsAfter.rejected

theorem absorbs_optionalString (kind : String) : Absorbs (PayloadWriter.payloadLimit limits)
    (PayloadReader.optionalString limits kind) (PayloadWriter.optionalString limits) := by
  refine AbsorbsAfter.start (AbsorbsAfter.bind (absorbs_u8 limits) fun tag ↦ ?_)
  split
  · exact AbsorbsAfter.done (by simp [PayloadWriter.optionalString])
  · exact AbsorbsAfter.bind (absorbs_string limits) fun value ↦
      AbsorbsAfter.done (by simp [PayloadWriter.optionalString])
  · exact AbsorbsAfter.rejected

end Fields

theorem decodeLogLevel_logLevelTag (level : LogLevel) :
    decodeLogLevel (logLevelTag level) = pure level := by
  cases level <;> rfl

section Payload

variable (limits : ProtocolLimits)

theorem emits_optionalTest (test : Option TestId) :
    Emits (encodeOptionalTest limits test) decodeOptionalTest test := by
  cases test with
  | none => exact Emits.last (emits_u8 limits 0) rfl
  | some test => exact Emits.bind (emits_u8 limits 1) (Emits.last (emits_u32 limits _) rfl)

theorem emits_optionalSource (source : Option Span)
    (h : ∀ span ∈ source, span.range.start ≤ span.range.stop) :
    Emits (encodeOptionalSource limits source) decodeOptionalSource source := by
  cases source with
  | none => exact Emits.last (emits_u8 limits 0) rfl
  | some span =>
    have hrange := TextRange.new_eq_some.2 ⟨h span rfl, rfl⟩
    refine Emits.bind (emits_u8 limits 1) (Emits.bind (emits_u32 limits _)
      (Emits.bind (emits_u32 limits _) (Emits.last (emits_u32 limits _) ?_)))
    simp only [hrange]

theorem emits_outcome (outcome : GuestTestOutcome) :
    Emits (encodeOutcome limits outcome) (decodeOutcome limits) outcome := by
  cases outcome with
  | passed => exact Emits.last (emits_u8 limits 0) rfl
  | failed message =>
    exact Emits.bind (emits_u8 limits 1) (Emits.last (emits_string limits message) rfl)
  | timedOut timeoutNs =>
    exact Emits.bind (emits_u8 limits 2) (Emits.last (emits_u64 limits timeoutNs) rfl)
  | languageFatal cause =>
    exact Emits.bind (emits_u8 limits 3)
      (Emits.last (emits_u8 limits _) (by cases cause <;> rfl))

theorem emits_eventKind (kind : TestEventKind) (h : kind.Fits limits) :
    Emits (encodeEventKind limits kind) (decodeEventKind limits) kind := by
  cases kind with
  | runStarted testCount =>
    exact Emits.bind (emits_u8 limits 0) (Emits.last (emits_u32 limits _) rfl)
  | testStarted test =>
    exact Emits.bind (emits_u8 limits 1) (Emits.last (emits_u32 limits _) rfl)
  | log test level message =>
    refine Emits.bind (emits_u8 limits 2) (Emits.bind (emits_optionalTest limits test)
      (Emits.bind (emits_u8 limits _) ?_))
    rw [decodeLogLevel_logLevelTag, pure_bind]
    exact Emits.last (emits_string limits message) rfl
  | assertionFailed test failure =>
    obtain ⟨-, -, -, -, hsource⟩ := h
    exact Emits.bind (emits_u8 limits 3) (Emits.bind (emits_u32 limits _)
      (Emits.bind (emits_string limits _) (Emits.bind (emits_optionalString limits _ _)
        (Emits.bind (emits_optionalSource limits _ hsource)
          (Emits.bind (emits_optionalString limits _ _)
            (Emits.last (emits_optionalString limits _ _) rfl))))))
  | testFinished test outcome =>
    exact Emits.bind (emits_u8 limits 4) (Emits.bind (emits_u32 limits _)
      (Emits.last (emits_outcome limits outcome) rfl))
  | heartbeat monotonicTicks =>
    exact Emits.bind (emits_u8 limits 5) (Emits.last (emits_u64 limits _) rfl)
  | runFinished passed failed =>
    exact Emits.bind (emits_u8 limits 6)
      (Emits.bind (emits_u32 limits _) (Emits.last (emits_u32 limits _) rfl))

theorem emits_payload (event : TestEvent) (h : event.kind.Fits limits) :
    Emits (encodePayload limits event) (decodePayload limits) event :=
  Emits.bind (emits_u32 limits _) (Emits.bind (emits_u64 limits _)
    (Emits.last (emits_eventKind limits event.kind h) rfl))

theorem absorbs_optionalTest : Absorbs (PayloadWriter.payloadLimit limits) decodeOptionalTest
    (encodeOptionalTest limits) := by
  refine AbsorbsAfter.start (AbsorbsAfter.bind (absorbs_u8 limits) fun tag ↦ ?_)
  split
  · exact AbsorbsAfter.done (by simp [encodeOptionalTest])
  · exact AbsorbsAfter.bind (absorbs_u32 limits) fun test ↦
      AbsorbsAfter.done (by simp [encodeOptionalTest])
  · exact AbsorbsAfter.rejected

theorem absorbs_optionalSource : Absorbs (PayloadWriter.payloadLimit limits) decodeOptionalSource
    (encodeOptionalSource limits) := by
  refine AbsorbsAfter.start (AbsorbsAfter.bind (absorbs_u8 limits) fun tag ↦ ?_)
  split
  · exact AbsorbsAfter.done (by simp [encodeOptionalSource])
  · refine AbsorbsAfter.bind (absorbs_u32 limits) fun file ↦
      AbsorbsAfter.bind (absorbs_u32 limits) fun start ↦
        AbsorbsAfter.bind (absorbs_u32 limits) fun stop ↦ ?_
    split
    · rename_i range hrange
      obtain ⟨-, rfl⟩ := TextRange.new_eq_some.1 hrange
      exact AbsorbsAfter.done (by simp [encodeOptionalSource])
    · exact AbsorbsAfter.rejected
  · exact AbsorbsAfter.rejected

theorem absorbs_outcome : Absorbs (PayloadWriter.payloadLimit limits) (decodeOutcome limits)
    (encodeOutcome limits) := by
  refine AbsorbsAfter.start (AbsorbsAfter.bind (absorbs_u8 limits) fun tag ↦ ?_)
  split
  · exact AbsorbsAfter.done (by simp [encodeOutcome])
  · exact AbsorbsAfter.bind (absorbs_string limits) fun message ↦
      AbsorbsAfter.done (by simp [encodeOutcome])
  · exact AbsorbsAfter.bind (absorbs_u64 limits) fun timeoutNs ↦
      AbsorbsAfter.done (by simp [encodeOutcome])
  · refine AbsorbsAfter.bind (absorbs_u8 limits) fun cause ↦ ?_
    unfold decodeLanguageFatalCause
    split
    · exact AbsorbsAfter.done (by simp [encodeOutcome, languageFatalCauseTag])
    · exact AbsorbsAfter.done (by simp [encodeOutcome, languageFatalCauseTag])
    · exact AbsorbsAfter.rejected
  · exact AbsorbsAfter.rejected

theorem absorbs_eventKind : Absorbs (PayloadWriter.payloadLimit limits) (decodeEventKind limits)
    (encodeEventKind limits) := by
  refine AbsorbsAfter.start (AbsorbsAfter.bind (absorbs_u8 limits) fun tag ↦ ?_)
  split
  · exact AbsorbsAfter.bind (absorbs_u32 limits) fun testCount ↦
      AbsorbsAfter.done (by simp [encodeEventKind])
  · exact AbsorbsAfter.bind (absorbs_u32 limits) fun test ↦
      AbsorbsAfter.done (by simp [encodeEventKind])
  · refine AbsorbsAfter.bind (absorbs_optionalTest limits) fun test ↦
      AbsorbsAfter.bind (absorbs_u8 limits) fun level ↦ ?_
    unfold decodeLogLevel
    split
    all_goals first
      | exact AbsorbsAfter.rejected
      | simp only [pure_bind]
        exact AbsorbsAfter.bind (absorbs_string limits) fun message ↦
          AbsorbsAfter.done (by simp [encodeEventKind, logLevelTag])
  · exact AbsorbsAfter.bind (absorbs_u32 limits) fun test ↦
      AbsorbsAfter.bind (absorbs_string limits) fun expression ↦
        AbsorbsAfter.bind (absorbs_optionalString limits _) fun message ↦
          AbsorbsAfter.bind (absorbs_optionalSource limits) fun source ↦
            AbsorbsAfter.bind (absorbs_optionalString limits _) fun expected ↦
              AbsorbsAfter.bind (absorbs_optionalString limits _) fun actual ↦
                AbsorbsAfter.done (by simp [encodeEventKind])
  · exact AbsorbsAfter.bind (absorbs_u32 limits) fun test ↦
      AbsorbsAfter.bind (absorbs_outcome limits) fun outcome ↦
        AbsorbsAfter.done (by simp [encodeEventKind])
  · exact AbsorbsAfter.bind (absorbs_u64 limits) fun monotonicTicks ↦
      AbsorbsAfter.done (by simp [encodeEventKind])
  · exact AbsorbsAfter.bind (absorbs_u32 limits) fun passed ↦
      AbsorbsAfter.bind (absorbs_u32 limits) fun failed ↦
        AbsorbsAfter.done (by simp [encodeEventKind])
  · exact AbsorbsAfter.rejected

theorem absorbs_payload : Absorbs (PayloadWriter.payloadLimit limits) (decodePayload limits)
    (encodePayload limits) :=
  AbsorbsAfter.start (AbsorbsAfter.bind (absorbs_u32 limits) fun protocol ↦
    AbsorbsAfter.bind (absorbs_u64 limits) fun sequence ↦
      AbsorbsAfter.bind (absorbs_eventKind limits) fun kind ↦
        AbsorbsAfter.done (by simp [encodePayload]))

end Payload

/-! ## The bytes of an event -/

def stringBytes (value : String) : List UInt8 := leBytes 4 (byteLength value) ++ utf8Bytes value

def optionalBytes {α : Type} (encode : α → List UInt8) : Option α → List UInt8
  | none => leBytes 1 0
  | some value => leBytes 1 1 ++ encode value

def spanBytes (source : Span) : List UInt8 :=
  leBytes 4 source.file.val.toNat ++ (leBytes 4 source.range.start.toNat ++
    leBytes 4 source.range.stop.toNat)

def outcomeBytes : GuestTestOutcome → List UInt8
  | .passed => leBytes 1 0
  | .failed message => leBytes 1 1 ++ stringBytes message
  | .timedOut timeoutNs => leBytes 1 2 ++ leBytes 8 timeoutNs.toNat
  | .languageFatal cause => leBytes 1 3 ++ leBytes 1 (languageFatalCauseTag cause).toNat

def kindBytes : TestEventKind → List UInt8
  | .runStarted testCount => leBytes 1 0 ++ leBytes 4 testCount.toNat
  | .testStarted test => leBytes 1 1 ++ leBytes 4 test.val.toNat
  | .log test level message => leBytes 1 2 ++ (optionalBytes (leBytes 4 ·.val.toNat) test ++
      (leBytes 1 (logLevelTag level).toNat ++ stringBytes message))
  | .assertionFailed test failure => leBytes 1 3 ++ (leBytes 4 test.val.toNat ++
      (stringBytes failure.expression ++ (optionalBytes stringBytes failure.message ++
        (optionalBytes spanBytes failure.source ++ (optionalBytes stringBytes failure.expected ++
          optionalBytes stringBytes failure.actual)))))
  | .testFinished test outcome => leBytes 1 4 ++ (leBytes 4 test.val.toNat ++ outcomeBytes outcome)
  | .heartbeat monotonicTicks => leBytes 1 5 ++ leBytes 8 monotonicTicks.toNat
  | .runFinished passed failed => leBytes 1 6 ++ (leBytes 4 passed.toNat ++ leBytes 4 failed.toNat)

def payloadOf (event : TestEvent) : List UInt8 :=
  leBytes 4 event.protocol.toNat ++ (leBytes 8 event.sequence.toNat ++ kindBytes event.kind)

def headerOf (event : TestEvent) : FrameHeader where
  frameVersion := testFrameVersion
  eventVersion := testEventVersion
  sequence := event.sequence
  payloadBytes := UInt32.ofNat (payloadOf event).length
  checksum := crc32c (payloadOf event)

/-- The one frame of an event. -/
def frameOf (event : TestEvent) : List UInt8 := (headerOf event).toBytes ++ payloadOf event

section Output

variable (limits : ProtocolLimits)

theorem appends_u8 (value : UInt8) :
    Appends (PayloadWriter.payloadLimit limits) (PayloadWriter.u8 limits value)
      (leBytes 1 value.toNat) := appends_append _ _ _

theorem appends_u32 (value : UInt32) :
    Appends (PayloadWriter.payloadLimit limits) (PayloadWriter.u32 limits value)
      (leBytes 4 value.toNat) := appends_append _ _ _

theorem appends_u64 (value : UInt64) :
    Appends (PayloadWriter.payloadLimit limits) (PayloadWriter.u64 limits value)
      (leBytes 8 value.toNat) := appends_append _ _ _

theorem appends_string (h : byteLength value ≤ limits.stringBytes.toNat) :
    Appends (PayloadWriter.payloadLimit limits) (PayloadWriter.string limits value)
      (stringBytes value) := by
  have hlength := appends_u32 limits (UInt32.ofNat (byteLength value))
  rw [toNat_ofNat_byteLength limits h] at hlength
  rw [PayloadWriter.string, if_neg (Nat.not_lt.2 h)]
  exact hlength.bind (appends_append _ _ _)

theorem appends_optionalString (h : ∀ text ∈ value, byteLength text ≤ limits.stringBytes.toNat) :
    Appends (PayloadWriter.payloadLimit limits) (PayloadWriter.optionalString limits value)
      (optionalBytes stringBytes value) := by
  cases value with
  | none => exact appends_u8 limits 0
  | some text => exact (appends_u8 limits 1).bind (appends_string limits (h text rfl))

theorem appends_optionalTest (test : Option TestId) :
    Appends (PayloadWriter.payloadLimit limits) (encodeOptionalTest limits test)
      (optionalBytes (leBytes 4 ·.val.toNat) test) := by
  cases test with
  | none => exact appends_u8 limits 0
  | some test => exact (appends_u8 limits 1).bind (appends_u32 limits test.val)

theorem appends_optionalSource (source : Option Span) :
    Appends (PayloadWriter.payloadLimit limits) (encodeOptionalSource limits source)
      (optionalBytes spanBytes source) := by
  cases source with
  | none => exact appends_u8 limits 0
  | some source =>
    exact (appends_u8 limits 1).bind ((appends_u32 limits _).bind
      ((appends_u32 limits _).bind (appends_u32 limits _)))

theorem appends_kind (h : kind.Fits limits) :
    Appends (PayloadWriter.payloadLimit limits) (encodeEventKind limits kind) (kindBytes kind) := by
  cases kind with
  | runStarted testCount => exact (appends_u8 limits 0).bind (appends_u32 limits _)
  | testStarted test => exact (appends_u8 limits 1).bind (appends_u32 limits _)
  | log test level message =>
    exact (appends_u8 limits 2).bind ((appends_optionalTest limits test).bind
      ((appends_u8 limits _).bind (appends_string limits h)))
  | assertionFailed test failure =>
    obtain ⟨hexpression, hmessage, hexpected, hactual, -⟩ := h
    exact (appends_u8 limits 3).bind ((appends_u32 limits _).bind
      ((appends_string limits hexpression).bind ((appends_optionalString limits hmessage).bind
        ((appends_optionalSource limits _).bind ((appends_optionalString limits hexpected).bind
          (appends_optionalString limits hactual))))))
  | testFinished test outcome =>
    refine (appends_u8 limits 4).bind ((appends_u32 limits _).bind ?_)
    cases outcome with
    | passed => exact appends_u8 limits 0
    | failed message => exact (appends_u8 limits 1).bind (appends_string limits h)
    | timedOut timeoutNs => exact (appends_u8 limits 2).bind (appends_u64 limits _)
    | languageFatal cause => exact (appends_u8 limits 3).bind (appends_u8 limits _)
  | heartbeat monotonicTicks => exact (appends_u8 limits 5).bind (appends_u64 limits _)
  | runFinished passed failed =>
    exact (appends_u8 limits 6).bind ((appends_u32 limits _).bind (appends_u32 limits _))

theorem appends_payload (h : event.kind.Fits limits) :
    Appends (PayloadWriter.payloadLimit limits) (encodePayload limits event) (payloadOf event) :=
  (appends_u32 limits _).bind ((appends_u64 limits _).bind (appends_kind limits h))

end Output

theorem fixedU32_slot {before after : List UInt8} (value : UInt32) (h : before.length = offset) :
    fixedU32 (before ++ (leBytes 4 value.toNat ++ after)) offset = .ok value := by
  subst h
  have hvalue := value.toNat_lt
  rw [fixedU32, if_pos (by simp), drop_left, take_left' (length_leBytes _ _),
    leValue_leBytes, Nat.mod_eq_of_lt (by simpa using hvalue), UInt32.ofNat_toNat]

theorem fixedU64_slot {before after : List UInt8} (value : UInt64) (h : before.length = offset) :
    fixedU64 (before ++ (leBytes 8 value.toNat ++ after)) offset = .ok value := by
  subst h
  have hvalue := value.toNat_lt
  rw [fixedU64, if_pos (by simp), drop_left, take_left' (length_leBytes _ _),
    leValue_leBytes, Nat.mod_eq_of_lt (by simpa using hvalue), UInt64.ofNat_toNat]

theorem length_slot (h : offset + width ≤ bytes.length) :
    ((bytes.drop offset).take width).length = width := by
  rw [List.length_take, length_drop]
  omega

theorem slot_of_fixedU32 (h : fixedU32 bytes offset = .ok value) :
    leBytes 4 value.toNat = (bytes.drop offset).take 4 := by
  unfold fixedU32 at h
  split at h
  · rename_i hle
    cases h
    have hlength := length_slot hle
    have hlt := leValue_lt ((bytes.drop offset).take 4)
    rw [hlength] at hlt
    have hback := leBytes_leValue ((bytes.drop offset).take 4)
    rw [hlength] at hback
    rw [UInt32.toNat_ofNat', Nat.mod_eq_of_lt (by simpa using hlt), hback]
  · cases h

theorem slot_of_fixedU64 (h : fixedU64 bytes offset = .ok value) :
    leBytes 8 value.toNat = (bytes.drop offset).take 8 := by
  unfold fixedU64 at h
  split at h
  · rename_i hle
    cases h
    have hlength := length_slot hle
    have hlt := leValue_lt ((bytes.drop offset).take 8)
    rw [hlength] at hlt
    have hback := leBytes_leValue ((bytes.drop offset).take 8)
    rw [hlength] at hback
    rw [UInt64.toNat_ofNat', Nat.mod_eq_of_lt (by simpa using hlt), hback]
  · cases h

@[simp]
theorem FrameHeader.length_toBytes (header : FrameHeader) :
    header.toBytes.length = testFrameHeaderBytes := by
  simp [FrameHeader.toBytes, testFrameMagic, testFrameHeaderBytes]

/-- A header is read from exactly the frames that begin with its bytes. -/
theorem parseHeader_eq_ok :
    parseHeader frame = .ok header ↔ ∃ payload, frame = header.toBytes ++ payload := by
  constructor
  · intro h
    simp only [parseHeader, bind_eq_ok, exists_unit, failIf_eq_ok, bne_eq_false_iff_eq] at h
    obtain ⟨-, hmagic, frameVersion, h₁, eventVersion, h₂, sequence, h₃, payloadBytes, h₄,
      checksum, h₅, hheader⟩ := h
    cases hheader
    refine ⟨frame.drop 32, ?_⟩
    have hmagic : testFrameMagic = frame.take 8 := hmagic.symm
    rw [FrameHeader.toBytes, slot_of_fixedU32 h₁, slot_of_fixedU32 h₂, slot_of_fixedU64 h₃,
      slot_of_fixedU32 h₄, slot_of_fixedU32 h₅, hmagic, ← take_add, ← take_add,
      ← take_add, ← take_add, ← take_add, take_append_drop]
  · rintro ⟨payload, rfl⟩
    have hmagic : (header.toBytes ++ payload).take testFrameMagic.length = testFrameMagic := by
      simp only [FrameHeader.toBytes, append_assoc]
      exact take_left
    have h₁ : fixedU32 (header.toBytes ++ payload) 8 = .ok header.frameVersion := by
      simp only [FrameHeader.toBytes, append_assoc]
      exact fixedU32_slot _ rfl
    have h₂ : fixedU32 (header.toBytes ++ payload) 12 = .ok header.eventVersion := by
      rw [FrameHeader.toBytes, append_assoc, append_assoc, append_assoc, append_assoc]
      exact fixedU32_slot _ rfl
    have h₃ : fixedU64 (header.toBytes ++ payload) 16 = .ok header.sequence := by
      rw [FrameHeader.toBytes, append_assoc, append_assoc, append_assoc]
      exact fixedU64_slot _ rfl
    have h₄ : fixedU32 (header.toBytes ++ payload) 24 = .ok header.payloadBytes := by
      rw [FrameHeader.toBytes, append_assoc, append_assoc]
      exact fixedU32_slot _ rfl
    have h₅ : fixedU32 (header.toBytes ++ payload) 28 = .ok header.checksum := by
      rw [FrameHeader.toBytes, append_assoc]
      exact fixedU32_slot _ rfl
    simp [parseHeader, hmagic, h₁, h₂, h₃, h₄, h₅]

/-- The checks on a frame's shape, given the header its bytes hold. -/
theorem validateFrameShape_eq_ok {payload : List UInt8} :
    validateFrameShape (header.toBytes ++ payload) header limits = .ok () ↔
      limits.Valid ∧ testFrameHeaderBytes + payload.length ≤ limits.frameBytes.toNat ∧
        header.frameVersion = testFrameVersion ∧ header.eventVersion = testEventVersion ∧
        header.sequence.toNat < limits.events.toNat ∧
        header.payloadBytes.toNat = payload.length ∧ crc32c payload = header.checksum := by
  have hparse : parseHeader (header.toBytes ++ payload) = .ok header :=
    parseHeader_eq_ok.2 ⟨payload, rfl⟩
  simp only [validateFrameShape, bind_eq_ok, exists_unit, failIf_eq_ok,
    ProtocolLimits.validate_eq_ok, decide_eq_false_iff_not, bne_eq_false_iff_eq, hparse,
    Except.ok.injEq, exists_eq_left', length_append, FrameHeader.length_toBytes]
  constructor
  · rintro ⟨hlimits, -, hlarge, -, hframe, hevent, hsequence, hshort, hlong, -, hcrc⟩
    have hlength : header.payloadBytes.toNat = payload.length := by omega
    rw [hlength, take_of_length_le (by simp), drop_left' header.length_toBytes] at hcrc
    exact ⟨hlimits, by omega, hframe, hevent, by omega, hlength, hcrc⟩
  · rintro ⟨hlimits, hfits, hframe, hevent, hsequence, hlength, hcrc⟩
    refine ⟨hlimits, by omega, by omega, trivial, hframe, hevent, by omega, by omega, by omega,
      by omega, ?_⟩
    rw [hlength, take_of_length_le (by simp), drop_left' header.length_toBytes, hcrc]

theorem length_frameOf (event : TestEvent) :
    (frameOf event).length = testFrameHeaderBytes + (payloadOf event).length := by
  simp [frameOf]

theorem parseHeader_frameOf (event : TestEvent) (rest : List UInt8) :
    parseHeader (frameOf event ++ rest) = .ok (headerOf event) :=
  parseHeader_eq_ok.2 ⟨payloadOf event ++ rest, by rw [frameOf, append_assoc]⟩

variable {event : TestEvent}

/-- Encoding succeeds exactly on the valid events whose frame fits, and yields that frame. -/
theorem encode_eq_ok :
    encode event limits = .ok candidate ↔ validateEvent event limits = .ok () ∧
      (frameOf event).length ≤ limits.frameBytes.toNat ∧
      candidate = ⟨headerOf event, frameOf event⟩ := by
  rw [encode, unit_bind_eq_ok]
  refine and_congr_right fun hvalid ↦ ?_
  obtain ⟨hlimits, -, -, hkind⟩ := validateEvent_eq_ok.1 hvalid
  have hpayload := appends_payload limits (validateKind_fits hkind)
  have hheader := hlimits.header_le
  have hframe : limits.frameBytes.toNat < UInt32.size := limits.frameBytes.toNat_lt
  have hlimit : PayloadWriter.payloadLimit limits =
    limits.frameBytes.toNat - testFrameHeaderBytes := rfl
  simp only [bind_eq_ok, exists_unit, failIf_eq_ok, decide_eq_false_iff_not, length_frameOf]
  constructor
  · rintro ⟨-, ⟨_, sink⟩, hrun, -, hcapacity, hcandidate⟩
    obtain ⟨hfits, rfl⟩ := (hpayload _ _).1 hrun
    cases hcandidate
    exact ⟨by simpa using hcapacity, rfl⟩
  · rintro ⟨hfits, rfl⟩
    have hfitsPayload : (payloadOf event).length ≤ PayloadWriter.payloadLimit limits := by omega
    refine ⟨by omega, ((), ⟨payloadOf event, ()⟩), (hpayload _ _).2 ⟨?_, rfl⟩, ?_, ?_, rfl⟩
    · simpa using hfitsPayload
    · simp only
      omega
    · simp only
      omega

/-- The payload reader consumes an event's payload and nothing after it. -/
theorem decodePayload_payloadOf (hkind : event.kind.Fits limits)
    (hfits : testFrameHeaderBytes + (payloadOf event).length ≤ limits.frameBytes.toNat)
    (rest : List UInt8) :
    decodePayload limits ⟨payloadOf event ++ rest, ()⟩ = .ok (event, ⟨rest, ()⟩) := by
  have hwritten := (appends_payload limits hkind ⟨[], ()⟩ ⟨payloadOf event, ()⟩).2
    ⟨by simp only [PayloadWriter.payloadLimit, length_nil]; omega, rfl⟩
  obtain ⟨bytes, hbytes, hread⟩ := emits_payload limits event hkind _ _ hwritten
  simp only [nil_append] at hbytes
  subst hbytes
  exact hread rest

/-- Decoding succeeds exactly on the frames of the valid events, as long as they fit. -/
theorem decode_eq_ok :
    decode frame limits = .ok event ↔ validateEvent event limits = .ok () ∧
      (frameOf event).length ≤ limits.frameBytes.toNat ∧ frame = frameOf event := by
  simp only [decode, bind_eq_ok, exists_unit, failIf_eq_ok, Bool.not_eq_eq_eq_not, Bool.not_false,
    List.isEmpty_iff, Bool.or_eq_false_iff, bne_eq_false_iff_eq]
  constructor
  · rintro ⟨-, header, hheader, hshape, ⟨event', source⟩, hread, hrest, hvalid, ⟨hversion,
      hsequence⟩, hevent⟩
    obtain rfl : event' = event := Except.ok.inj hevent
    obtain ⟨payload, rfl⟩ := parseHeader_eq_ok.1 hheader
    obtain ⟨hlimits, hfits, hframeVersion, heventVersion, -, hlength, hcrc⟩ :=
      validateFrameShape_eq_ok.1 hshape
    obtain ⟨-, -, -, hkind⟩ := validateEvent_eq_ok.1 hvalid
    rw [drop_left' header.length_toBytes] at hread
    obtain ⟨bytes, hbytes, hwrite⟩ := absorbs_payload limits _ _ _ hread
    simp only at hrest hbytes
    rw [hrest, append_nil] at hbytes
    subst hbytes
    have hwritten := hwrite [] (by simp only [nil_append, PayloadWriter.payloadLimit]; omega)
    obtain ⟨-, hpayload⟩ := (appends_payload limits (validateKind_fits hkind) _ _).1 hwritten
    have hpayload : payload = payloadOf event' := by simpa using hpayload
    subst hpayload
    have hheaderOf : header = headerOf event' := by
      obtain ⟨frameVersion, eventVersion, sequence, payloadBytes, checksum⟩ := header
      simp only at hframeVersion heventVersion hsequence hlength hcrc
      rw [headerOf, hframeVersion, heventVersion, hsequence, hcrc, ← hlength, UInt32.ofNat_toNat]
    subst hheaderOf
    exact ⟨hvalid, by rwa [length_frameOf], rfl⟩
  · rintro ⟨hvalid, hfits, rfl⟩
    obtain ⟨hlimits, hprotocol, hsequence, hkind⟩ := validateEvent_eq_ok.1 hvalid
    have hkindFits := validateKind_fits hkind
    rw [length_frameOf] at hfits
    have hframe := limits.frameBytes.toNat_lt
    have hheader := hlimits.header_le
    have hlength : (headerOf event).payloadBytes.toNat = (payloadOf event).length := by
      rw [headerOf, UInt32.toNat_ofNat', Nat.mod_eq_of_lt (by omega)]
    have hread := decodePayload_payloadOf hkindFits hfits []
    rw [append_nil] at hread
    refine ⟨ProtocolLimits.validate_eq_ok.2 hlimits, headerOf event,
      parseHeader_eq_ok.2 ⟨payloadOf event, rfl⟩,
      validateFrameShape_eq_ok.2 ⟨hlimits, hfits, rfl, rfl, hsequence, hlength, rfl⟩,
      (event, ⟨[], ()⟩), ?_, rfl, hvalid, ⟨hprotocol, rfl⟩, rfl⟩
    rw [frameOf, drop_left' (headerOf event).length_toBytes]
    exact hread

/-- Encoding and decoding are inverse to each other: every valid event whose frame fits is written,
read back as itself, and its payload read without touching what follows it; and every frame the
decoder accepts is what the encoder writes for the event it holds. -/
theorem encode_decode_bijective (limits : ProtocolLimits) :
    (∀ event, validateEvent event limits = .ok () →
      (frameOf event).length ≤ limits.frameBytes.toNat →
      ∃ candidate, encode event limits = .ok candidate ∧
        decode candidate.bytes limits = .ok event ∧
        ∀ rest, decodePayload limits ⟨candidate.bytes.drop testFrameHeaderBytes ++ rest, ()⟩ =
          .ok (event, ⟨rest, ()⟩)) ∧
    ∀ frame event, decode frame limits = .ok event →
      ∃ candidate, encode event limits = .ok candidate ∧ candidate.bytes = frame := by
  constructor
  · intro event hvalid hfits
    obtain ⟨-, -, -, hkind⟩ := validateEvent_eq_ok.1 hvalid
    refine ⟨⟨headerOf event, frameOf event⟩, encode_eq_ok.2 ⟨hvalid, hfits, rfl⟩,
      decode_eq_ok.2 ⟨hvalid, hfits, rfl⟩, fun rest ↦ ?_⟩
    rw [length_frameOf] at hfits
    simp only [frameOf, drop_left' (headerOf event).length_toBytes]
    exact decodePayload_payloadOf (validateKind_fits hkind) hfits rest
  · intro frame event hdecode
    obtain ⟨hvalid, hfits, rfl⟩ := decode_eq_ok.1 hdecode
    exact ⟨_, encode_eq_ok.2 ⟨hvalid, hfits, rfl⟩, rfl⟩

theorem encode_decode_bijective_runStarted :
    ∃ candidate, encode ⟨3, 0, .runStarted 1⟩ .standard = .ok candidate ∧
      decode candidate.bytes .standard = .ok ⟨3, 0, .runStarted 1⟩ ∧
      ∃ again, encode ⟨3, 0, .runStarted 1⟩ .standard = .ok again ∧
        again.bytes = candidate.bytes := by
  obtain ⟨candidate, hencode, hdecode, -⟩ :=
    (encode_decode_bijective .standard).1 ⟨3, 0, .runStarted 1⟩ rfl (by decide)
  exact ⟨candidate, hencode, hdecode, (encode_decode_bijective .standard).2 _ _ hdecode⟩

end Wrela.TestProtocol
