import Wrela.Data.ShiftRegister
import Wrela.TestProtocol.StreamLaws

/-!
# Damaged frames are rejected

The checksum of a payload is a shift register over its bits, each byte from its lowest bit on, so it
tells any two payloads apart that differ within 32 consecutive bits.  The header needs no checksum:
all of it is determined by the event in the payload, so a frame with the same payload and another
header is no frame at all.
-/

namespace Wrela.TestProtocol

open List Wrela.Source Wrela.Wire Wrela.Checked Wrela.ShiftRegister

/-- The bits of a byte in the order the checksum takes them in. -/
def byteBits (byte : UInt8) : List Bool := (List.range 8).map byte.toBitVec.getLsbD

def messageBits (bytes : List UInt8) : List Bool := bytes.flatMap byteBits

/-- The polynomial of CRC-32C, its bits reversed. -/
def castagnoli : BitVec 32 := 0x82f63b78

theorem length_byteBits (byte : UInt8) : (byteBits byte).length = 8 := by simp [byteBits]

theorem word_byteBits (byte : UInt8) : word 32 (byteBits byte) = byte.toUInt32.toBitVec := by
  apply BitVec.eq_of_getLsbD_eq
  intro i hi
  rw [getLsbD_word _ hi, UInt8.toBitVec_toUInt32, BitVec.getLsbD_setWidth]
  rcases Nat.lt_or_ge i 8 with hbit | hbit
  · simp [byteBits, hi, hbit]
  · rw [getD_eq_default _ _ (by rwa [length_byteBits]), BitVec.getLsbD_of_ge _ _ hbit,
      Bool.and_false]

theorem byteBits_injective : Function.Injective byteBits := by
  intro byte byte' h
  have hword : byte.toUInt32.toBitVec = byte'.toUInt32.toBitVec := by
    rw [← word_byteBits, h, word_byteBits]
  exact UInt8.toUInt32_inj.1 (UInt32.toBitVec_inj.1 hword)

theorem neg_and_one (register : BitVec 32) :
    0 - (register &&& 1) = if register.getLsbD 0 then BitVec.allOnes 32 else 0#32 := by
  have hbit : register &&& 1 = (BitVec.ofBool (register.getLsbD 0)).setWidth 32 :=
    BitVec.and_one_eq_setWidth_ofBool_getLsbD
  rw [hbit]
  cases register.getLsbD 0 <;> rfl

theorem toBitVec_crc32cBit (checksum : UInt32) :
    (crc32cBit checksum).toBitVec = shiftOut castagnoli checksum.toBitVec := by
  change (checksum.toBitVec >>> 1) ^^^ (castagnoli &&& (0 - (checksum.toBitVec &&& 1))) = _
  rw [neg_and_one, shiftOut]
  split
  · rw [BitVec.and_allOnes]
  · rw [BitVec.and_zero]

theorem toBitVec_crc32cByte (checksum : UInt32) (byte : UInt8) :
    (crc32cByte checksum byte).toBitVec = feed castagnoli checksum.toBitVec (byteBits byte) := by
  have hsteps : Function.Semiconj UInt32.toBitVec crc32cBit (shiftOut castagnoli) :=
    toBitVec_crc32cBit
  rw [crc32cByte, hsteps.iterate_right 8, UInt32.toBitVec_xor, ← word_byteBits,
    ← length_byteBits byte]
  exact iterate_shiftOut castagnoli (by rw [length_byteBits]; norm_num) _

theorem toBitVec_foldl_crc32cByte (bytes : List UInt8) (checksum : UInt32) :
    (bytes.foldl crc32cByte checksum).toBitVec =
      feed castagnoli checksum.toBitVec (messageBits bytes) := by
  induction bytes generalizing checksum with
  | nil => rfl
  | cons byte bytes ih =>
    rw [foldl_cons, ih, toBitVec_crc32cByte, ← feed_append]
    rfl

/-- Payloads that differ only within 32 consecutive bits have different checksums. -/
theorem crc32c_ne_of_burst {payload payload' : List UInt8}
    (hbits : messageBits payload = front ++ burst ++ back)
    (hbits' : messageBits payload' = front ++ burst' ++ back)
    (hlength : burst.length = burst'.length) (hburst : burst.length ≤ 32) (hne : burst ≠ burst') :
    crc32c payload ≠ crc32c payload' := by
  intro h
  have hregisters := congrArg UInt32.toBitVec (UInt32.not_inj.1 h)
  rw [toBitVec_foldl_crc32cByte, toBitVec_foldl_crc32cByte, hbits, hbits'] at hregisters
  exact feed_ne_of_burst rfl hlength hburst hne _ hregisters

/-- One byte of the frame became another one. -/
def ChangesByte (frame damaged : List UInt8) : Prop :=
  ∃ before byte byte' after, frame = before ++ byte :: after ∧ damaged = before ++ byte' :: after ∧
    byte ≠ byte'

/-- The payload, which is what the checksum covers, changed within at most 32 consecutive bits. -/
def ChangesBurst (frame damaged : List UInt8) : Prop :=
  ∃ (header payload payload' : List UInt8) (front burst burst' back : List Bool),
    header.length = testFrameHeaderBytes ∧ frame = header ++ payload ∧
      damaged = header ++ payload' ∧ messageBits payload = front ++ burst ++ back ∧
      messageBits payload' = front ++ burst' ++ back ∧ burst.length = burst'.length ∧
      burst.length ≤ 32 ∧ burst ≠ burst'

/-- A changed byte of the payload is a burst of eight bits. -/
theorem changesBurst_of_changesByte {header payload damaged : List UInt8}
    {before after : List UInt8} {byte byte' : UInt8}
    (hheader : header.length = testFrameHeaderBytes)
    (hframe : header ++ payload = before ++ byte :: after)
    (hdamaged : damaged = before ++ byte' :: after) (hne : byte ≠ byte')
    (hinside : header.length ≤ before.length) : ChangesBurst (header ++ payload) damaged := by
  obtain ⟨middle, rfl, rfl⟩ : ∃ middle, before = header ++ middle ∧
      payload = middle ++ byte :: after := by
    have hprefix : header <+: before := prefix_of_prefix_length_le
      (prefix_append header payload) (hframe ▸ prefix_append before _) hinside
    obtain ⟨middle, rfl⟩ := hprefix
    rw [append_assoc, append_cancel_left_eq] at hframe
    exact ⟨middle, rfl, hframe⟩
  refine ⟨header, middle ++ byte :: after, middle ++ byte' :: after, messageBits middle,
    byteBits byte, byteBits byte', messageBits after, hheader, rfl, ?_, ?_, ?_, ?_, ?_, ?_⟩
  · rw [hdamaged, append_assoc]
  · simp [messageBits]
  · simp [messageBits]
  · rw [length_byteBits, length_byteBits]
  · rw [length_byteBits]
    norm_num
  · exact fun h ↦ hne (byteBits_injective h)

theorem FrameHeader.toBytes_injective : Function.Injective FrameHeader.toBytes := by
  intro header header' h
  have hparse : parseHeader (header.toBytes ++ []) = .ok header := parseHeader_eq_ok.2 ⟨[], rfl⟩
  rw [h, parseHeader_eq_ok.2 ⟨[], rfl⟩] at hparse
  exact (Except.ok.inj hparse).symm

variable {limits limits' : ProtocolLimits}

theorem TestEventKind.Fits.mono {kind : TestEventKind}
    (h : kind.Fits limits) (hle : limits.stringBytes.toNat ≤ limits'.stringBytes.toNat) :
    kind.Fits limits' := by
  cases kind with
  | log test level message => exact le_trans h hle
  | assertionFailed test failure =>
    obtain ⟨hexpression, hmessage, hexpected, hactual, hsource⟩ := h
    exact ⟨hexpression.trans hle, fun text htext ↦ (hmessage text htext).trans hle,
      fun text htext ↦ (hexpected text htext).trans hle,
      fun text htext ↦ (hactual text htext).trans hle, hsource⟩
  | testFinished test outcome =>
    cases outcome with
    | failed message => exact le_trans h hle
    | passed | timedOut _ | languageFatal _ => trivial
  | runStarted _ | testStarted _ | heartbeat _ | runFinished _ _ => trivial

/-- The payload alone determines the event. -/
theorem eq_of_payloadOf_eq {event event' : TestEvent}
    (h : Sendable limits event) (h' : Sendable limits' event')
    (hpayload : payloadOf event = payloadOf event') : event = event' := by
  have hread {limits : ProtocolLimits} {event : TestEvent} (h : Sendable limits event) :
      decodePayload .standard ⟨payloadOf event ++ [], ()⟩ = .ok (event, ⟨[], ()⟩) := by
    obtain ⟨hvalid, hfits⟩ := h
    obtain ⟨hlimits, -, -, hkind⟩ := validateEvent_eq_ok.1 hvalid
    refine decodePayload_payloadOf ((validateKind_fits hkind).mono hlimits.string_max) ?_ []
    rw [length_frameOf] at hfits
    exact hfits.trans hlimits.frame_le
  have hboth := (hread h).symm.trans (hpayload ▸ hread h')
  exact (Prod.mk.inj (Except.ok.inj hboth)).1

/-- A damaged frame is not the frame of any event. -/
theorem frameOf_ne_of_damage {event event' : TestEvent}
    {damaged : List UInt8} (h : Sendable limits event) (h' : Sendable limits' event')
    (hdamage : ChangesByte (frameOf event) damaged ∨ ChangesBurst (frameOf event) damaged) :
    damaged ≠ frameOf event' := by
  rintro rfl
  have hburst (hchange : ChangesBurst (frameOf event) (frameOf event')) : False := by
    obtain ⟨header, payload, payload', front, burst, burst', back, hheader, hframe, hframe', hbits,
      hbits', hlength, hle, hne⟩ := hchange
    obtain ⟨hleft, rfl⟩ := append_inj hframe (by rw [FrameHeader.length_toBytes, hheader])
    obtain ⟨hright, rfl⟩ := append_inj hframe' (by rw [FrameHeader.length_toBytes, hheader])
    have hsame := FrameHeader.toBytes_injective (hleft.trans hright.symm)
    exact crc32c_ne_of_burst hbits hbits' hlength hle hne (congrArg FrameHeader.checksum hsame)
  rcases hdamage with ⟨before, byte, byte', after, hframe, hframe', hne⟩ | hchange
  · rcases Nat.lt_or_ge before.length testFrameHeaderBytes with hoffset | hoffset
    · -- The header changed and the payload did not.
      have hpayload : payloadOf event = payloadOf event' := by
        have hdrop := congrArg (List.drop testFrameHeaderBytes) hframe
        have hdrop' := congrArg (List.drop testFrameHeaderBytes) hframe'
        rw [frameOf, drop_left' (headerOf event).length_toBytes] at hdrop
        rw [frameOf, drop_left' (headerOf event').length_toBytes] at hdrop'
        obtain ⟨more, hmore⟩ := Nat.exists_eq_add_of_lt hoffset
        rw [hdrop, hdrop', hmore, Nat.add_assoc, drop_append, drop_append, Nat.add_sub_cancel_left]
        rfl
      obtain rfl := eq_of_payloadOf_eq h h' hpayload
      rw [hframe, append_cancel_left_eq, List.cons.injEq] at hframe'
      exact hne hframe'.1
    · exact hburst (changesBurst_of_changesByte (headerOf event).length_toBytes hframe hframe' hne
        (by rwa [FrameHeader.length_toBytes]))
  · exact hburst hchange

/-- No damaged frame is accepted: whatever event the encoder wrote and whatever single byte of its
frame, or run of at most 32 consecutive bits of its payload, was changed, both decoders reject the
result under any limits. -/
theorem damaged_frame_rejected {event : TestEvent} {limits : ProtocolLimits}
    {candidate : EncodedEventCandidate} {damaged : List UInt8}
    (hencoded : encode event limits = .ok candidate)
    (hdamage : ChangesByte candidate.bytes damaged ∨ ChangesBurst candidate.bytes damaged)
    (limits' : ProtocolLimits) :
    (∃ error, decode damaged limits' = .error error) ∧
      ∃ error, decodeAndVerifyEvent damaged limits' = .error error := by
  obtain ⟨hvalid, hfits, rfl⟩ := encode_eq_ok.1 hencoded
  have hne (event' : TestEvent) (h' : Sendable limits' event') : damaged ≠ frameOf event' :=
    frameOf_ne_of_damage ⟨hvalid, hfits⟩ h' hdamage
  constructor
  · cases hdecode : decode damaged limits' with
    | error error => exact ⟨error, rfl⟩
    | ok event' =>
      obtain ⟨hvalid', hfits', hframe⟩ := decode_eq_ok.1 hdecode
      exact absurd hframe (hne event' ⟨hvalid', hfits'⟩)
  · cases hdecode : decodeAndVerifyEvent damaged limits' with
    | error error => exact ⟨error, rfl⟩
    | ok event' =>
      obtain ⟨hsendable, hframe⟩ := decodeAndVerifyEvent_eq_ok.1 hdecode
      exact absurd hframe (hne event' hsendable)

/-- The frame that starts a run of two tests, with the lowest bit of its last byte flipped. -/
theorem damaged_frame_rejected_runStarted :
    (∃ error, decode ((frameOf ⟨3, 0, .runStarted 2⟩).dropLast ++ [1]) .standard = .error error) ∧
      ∃ error, decodeAndVerifyEvent ((frameOf ⟨3, 0, .runStarted 2⟩).dropLast ++ [1]) .standard =
        .error error := by
  have hencoded : encode ⟨3, 0, .runStarted 2⟩ .standard =
      .ok ⟨headerOf ⟨3, 0, .runStarted 2⟩, frameOf ⟨3, 0, .runStarted 2⟩⟩ :=
    encode_eq_ok.2 ⟨by decide, by decide, rfl⟩
  exact damaged_frame_rejected hencoded
    (.inl ⟨(frameOf ⟨3, 0, .runStarted 2⟩).dropLast, 0, 1, [], by decide +kernel, rfl, by decide⟩)
    .standard

end Wrela.TestProtocol
