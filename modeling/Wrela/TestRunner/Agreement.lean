import Wrela.TestRunner.LiveLaws

/-!
# The two demultiplexers

A scenario acts on what the live demultiplexer shows it, and the report is made of what the final
one returns.  They agree on a stream unless it is well formed in the eyes of one of them and out of
step in those of the other: a frame follows a hanging segment, which only the final demultiplexer
skips, or the delimiters of the line do not stand where the frames end, which only the final
demultiplexer accepts.
-/

namespace Wrela.TestRunner

open List Wrela.Checked Wrela.Slip Wrela.TestProtocol

/-- In whatever chunks the stream comes in, what the live demultiplexer decodes is what the final one
returns, and the events of the final stream are those the live demultiplexer has decoded. -/
def Agree (limits : ProtocolLimits) (preserve : Bool) (bytes : List UInt8) : Prop :=
  ∀ chunks : List (List UInt8), chunks.flatten = bytes →
    (∀ observer, LiveSerialObserver.observe limits chunks preserve = .ok observer →
      ∃ frames, List.Forall₂ (fun frame event ↦ decodeAndVerifyEvent frame limits = .ok event)
          frames observer.testEvents ∧
        decodeSlip bytes limits preserve = .ok frames.flatten) ∧
    ∀ stream events, decodeSlip bytes limits preserve = .ok stream →
      decodeAndVerifyStream stream limits = .ok events →
      ∃ observer, LiveSerialObserver.observe limits chunks preserve = .ok observer ∧
        observer.testEvents = events

/-- A frame that is as long as its header says. -/
def Whole (frame : List UInt8) : Prop :=
  ∃ header, parseHeader frame = .ok header ∧
    frame.length = testFrameHeaderBytes + header.payloadBytes.toNat

/-- A tail in which the stream may end. -/
def TailFits (limits : ProtocolLimits) (preserve : Bool) (tail : List UInt8) : Prop :=
  ¬ IsFrame tail ∨ preserve = true ∧ Unfinished limits.frameBytes.toNat tail

/-- No frame follows a hanging segment, every segment with a frame holds one and no more, and the
frames are within the limit of the stream. -/
structure InStep (limits : ProtocolLimits) (preserve : Bool) (bytes : List UInt8) : Prop where
  read : ∀ segment ∈ lostFrom false (serialSegments bytes), ¬ IsFrame segment
  tailRead : tailLostFrom false (serialSegments bytes) = true →
    TailFits limits preserve (serialTail bytes)
  whole : ∀ frames, Carries (serialSegments bytes) frames → ∀ frame ∈ frames, Whole frame
  fits : ∀ frames, Carries (serialSegments bytes) frames →
    frames.flatten.length ≤ min (limits.frameBytes.toNat * limits.events.toNat)
      maxProtocolStreamBytes

/-- The segments are the frames of a list of events, one each, in order. -/
def SegmentsReadable (limits : ProtocolLimits) (preserve : Bool) (bytes : List UInt8) : Prop :=
  ∃ events, Carries (serialSegments bytes) (events.map frameOf) ∧
    (∀ event ∈ events, Sendable limits event) ∧ LiveState.Numbered 0 events ∧
    TailFits limits preserve (serialTail bytes)

/-- The frames among the segments that are not skipped are, one after the other, a stream of
events. -/
def StreamReadable (limits : ProtocolLimits) (preserve : Bool) (bytes : List UInt8) : Prop :=
  ∃ frames events, Carries (keptFrom false (serialSegments bytes)) frames ∧
    (∀ frame ∈ frames, frame.length ≤ limits.frameBytes.toNat) ∧
    frames.flatten.length ≤ min (limits.frameBytes.toNat * limits.events.toNat)
      maxProtocolStreamBytes ∧
    frames.flatten = events.flatMap frameOf ∧ (∀ event ∈ events, Sendable limits event) ∧
    Grammar limits.events.toNat events ∧
    (tailLostFrom false (serialSegments bytes) = true ∨ TailFits limits preserve (serialTail bytes))

variable {segments frames : List (List UInt8)}

theorem carries_inj (h : Carries segments frames) (h' : Carries segments frames') :
    frames = frames' := by
  unfold Carries at h h'
  generalize (segments.filter fun segment ↦ IsFrame segment) = framed at h h'
  induction h generalizing frames' with
  | nil => cases h'; rfl
  | cons hhead htail ih =>
    obtain ⟨frame, later, hframe, hlater, rfl⟩ := List.forall₂_cons_left_iff.1 h'
    rw [hhead] at hframe
    rw [Option.some.inj hframe, ih hlater]

/-- Skipping segments that carry no frame changes nothing. -/
theorem filter_keptFrom (h : ∀ segment ∈ lostFrom skip segments, ¬ IsFrame segment) :
    ((keptFrom skip segments).filter fun segment ↦ IsFrame segment) =
      segments.filter fun segment ↦ IsFrame segment := by
  induction segments generalizing skip with
  | nil => cases skip <;> rfl
  | cons segment segments ih =>
    cases skip with
    | true =>
      obtain ⟨hsegment, hsegments⟩ := forall_mem_cons.1 h
      rw [keptFrom, ih hsegments, filter_cons_of_neg (by simpa using hsegment)]
    | false =>
      rw [keptFrom, filter_cons, filter_cons, ih h]

/-- Every frame that is skipped is missing from the bytes that are read. -/
theorem length_keptFrom (hframes : Carries segments frames)
    (hkept : Carries (keptFrom skip segments) kept) :
    kept.flatten.length + testFrameMagic.length *
        ((lostFrom skip segments).filter fun segment ↦ IsFrame segment).length ≤
      frames.flatten.length := by
  induction segments generalizing skip frames kept with
  | nil =>
    have hnil : kept = [] := by
      cases skip <;> exact carries_nil.1 hkept
    cases skip <;> simp [hnil, lostFrom]
  | cons segment segments ih =>
    by_cases hframe : IsFrame segment
    · obtain ⟨frame, later, hunescape, hlater, rfl⟩ := (carries_cons hframe).1 hframes
      have hmagic := magic_le_of_unescapeFrom hframe (unescape_eq_some.1 hunescape)
      cases skip with
      | true =>
        have hrest := ih hlater hkept
        rw [lostFrom, filter_cons_of_pos (by simpa using hframe), length_cons,
          flatten_cons, length_append, Nat.mul_succ]
        omega
      | false =>
        obtain ⟨frame', kept, hunescape', hkept', rfl⟩ := (carries_cons hframe).1 hkept
        rw [hunescape] at hunescape'
        cases hunescape'
        have hrest := ih hlater hkept'
        rw [lostFrom, flatten_cons, length_append, flatten_cons, length_append]
        omega
    · rw [carries_cons_of_not hframe] at hframes
      cases skip with
      | true =>
        rw [lostFrom, filter_cons_of_neg (by simpa using hframe)]
        exact ih hframes hkept
      | false =>
        rw [keptFrom, carries_cons_of_not hframe] at hkept
        exact ih hframes hkept

theorem whole_frameOf (h : Sendable limits event) : Whole (frameOf event) := by
  exact ⟨headerOf event, parseHeader_eq_ok.2 ⟨payloadOf event, rfl⟩, length_frameOf_header h⟩

theorem Whole.length_pos (h : Whole frame) : 0 < frame.length := by
  obtain ⟨header, -, hlength⟩ := h
  rw [hlength, testFrameHeaderBytes]
  omega

/-- Frames that are as long as their headers say are cut where the stream decoder cuts them. -/
theorem eq_map_frameOf {limits : ProtocolLimits}
    {events : List TestEvent} (hwhole : ∀ frame ∈ frames, Whole frame)
    (hsendable : ∀ event ∈ events, Sendable limits event)
    (h : frames.flatten = events.flatMap frameOf) : frames = events.map frameOf := by
  induction frames generalizing events with
  | nil =>
    cases events with
    | nil => rfl
    | cons event events =>
      have hpos := length_frameOf_pos event
      have hlength := congrArg List.length h
      rw [flatten_nil, flatMap_cons, length_append, length_nil] at hlength
      omega
  | cons frame frames ih =>
    obtain ⟨hframe, hframes⟩ := forall_mem_cons.1 hwhole
    cases events with
    | nil =>
      have hpos := hframe.length_pos
      have hlength := congrArg List.length h
      rw [flatten_cons, flatMap_nil, length_append, length_nil] at hlength
      omega
    | cons event events =>
      obtain ⟨hevent, hevents⟩ := forall_mem_cons.1 hsendable
      obtain ⟨header, hparse, hlength⟩ := hframe
      obtain ⟨payload, rfl⟩ := parseHeader_eq_ok.1 hparse
      rw [flatten_cons, flatMap_cons] at h
      -- Both sides begin with the same header, which settles where the first frame ends.
      have hheader : header = headerOf event := by
        have hleft : parseHeader (header.toBytes ++ payload ++ frames.flatten) = .ok header :=
          parseHeader_eq_ok.2 ⟨payload ++ frames.flatten, by rw [append_assoc]⟩
        rw [h, parseHeader_frameOf] at hleft
        exact (Except.ok.inj hleft).symm
      rw [hheader, ← length_frameOf_header hevent] at hlength
      rw [hheader] at h
      obtain ⟨hfirst, hrest⟩ := append_inj h hlength
      rw [map_cons, hheader, hfirst, ih hframes hevents hrest]

section Agreement

variable {limits : ProtocolLimits} {preserve : Bool} {bytes : List UInt8}

theorem observe_readable (hlimits : limits.Valid) (hbytes : chunks.flatten = bytes)
    (h : LiveSerialObserver.observe limits chunks preserve = .ok observer) :
    Carries (serialSegments bytes) (observer.testEvents.map frameOf) ∧
      (∀ event ∈ observer.testEvents, Sendable limits event) ∧
      LiveState.Numbered 0 observer.testEvents ∧ TailFits limits preserve (serialTail bytes) :=
  (LiveSerialObserver.observe_eq_ok hlimits hbytes).1 ⟨observer, h, rfl⟩

theorem maximumStreamBytes_of_valid (hlimits : limits.Valid) :
    limits.maximumStreamBytes = .ok (min (limits.frameBytes.toNat * limits.events.toNat)
      maxProtocolStreamBytes) :=
  ProtocolLimits.maximumStreamBytes_eq_ok.2 ⟨hlimits, rfl⟩

/-- What the final demultiplexer returns, as a stream of events. -/
theorem decodeSlip_readable (hslip : decodeSlip bytes limits preserve = .ok stream)
    (hstream : decodeAndVerifyStream stream limits = .ok events) :
    ∃ frames, Carries (keptFrom false (serialSegments bytes)) frames ∧
      (∀ frame ∈ frames, frame.length ≤ limits.frameBytes.toNat) ∧
      frames.flatten.length ≤ min (limits.frameBytes.toNat * limits.events.toNat)
        maxProtocolStreamBytes ∧
      frames.flatten = events.flatMap frameOf ∧ (∀ event ∈ events, Sendable limits event) ∧
      Grammar limits.events.toNat events ∧
      (tailLostFrom false (serialSegments bytes) = true ∨
        TailFits limits preserve (serialTail bytes)) := by
  obtain ⟨maximum, hmaximum, ⟨frames, hcarries, hfits, htotal, rfl⟩, htail⟩ :=
    decodeSlip_eq_ok.1 hslip
  obtain ⟨-, rfl⟩ := ProtocolLimits.maximumStreamBytes_eq_ok.1 hmaximum
  obtain ⟨-, hframes, hsendable, hgrammar⟩ := decodeAndVerifyStream_eq_ok.1 hstream
  exact ⟨frames, hcarries, hfits, htotal, hframes, hsendable, hgrammar, htail⟩

theorem grammar_numbered {maximum : ℕ} {events : List TestEvent} (h : Grammar maximum events) :
    LiveState.Numbered 0 events := by
  intro i event hevent
  have hlt := (List.getElem?_eq_some_iff.1 hevent).1
  rw [(h i event hevent).sequence, length_take_of_le (by omega), Nat.zero_add]

/-- In step, both demultiplexers see the same frames. -/
theorem InStep.agree (hlimits : limits.Valid) (h : InStep limits preserve bytes) :
    Agree limits preserve bytes := by
  have hcarries {frames : List (List UInt8)} :
      Carries (keptFrom false (serialSegments bytes)) frames ↔
        Carries (serialSegments bytes) frames := by
    rw [Carries, filter_keptFrom h.read, Carries]
  refine fun chunks hchunks ↦ ⟨fun observer hobserve ↦ ?_, fun stream events hslip hstream ↦ ?_⟩
  · obtain ⟨hsegments, hsendable, -, htail⟩ := observe_readable hlimits hchunks hobserve
    refine ⟨observer.testEvents.map frameOf, ?_, decodeSlip_eq_ok.2 ⟨_,
      maximumStreamBytes_of_valid hlimits, ⟨_, hcarries.2 hsegments, ?_, h.fits _ hsegments, rfl⟩,
      .inr htail⟩⟩
    · rw [List.forall₂_map_left_iff, List.forall₂_same]
      exact fun event hevent ↦ decodeAndVerifyEvent_eq_ok.2 ⟨hsendable event hevent, rfl⟩
    · rintro frame hframe
      obtain ⟨event, hevent, rfl⟩ := mem_map.1 hframe
      exact (hsendable event hevent).2
  · obtain ⟨frames, hkept, -, -, hframes, hsendable, hgrammar, htail⟩ :=
      decodeSlip_readable hslip hstream
    have hsegments := hcarries.1 hkept
    obtain rfl := eq_map_frameOf (h.whole frames hsegments) hsendable hframes
    exact (LiveSerialObserver.observe_eq_ok hlimits hchunks).2
      ⟨hsegments, hsendable, grammar_numbered hgrammar, htail.elim h.tailRead id⟩

/-- Where the segments are events and the demultiplexers agree, they are in step. -/
theorem Agree.inStep_of_segments (hlimits : limits.Valid) (h : Agree limits preserve bytes)
    (hreadable : SegmentsReadable limits preserve bytes) : InStep limits preserve bytes := by
  obtain ⟨events, hsegments, hsendable, hnumbered, htail⟩ := hreadable
  have hchunks : [bytes].flatten = bytes := flatten_singleton
  obtain ⟨observer, hobserve, rfl⟩ := (LiveSerialObserver.observe_eq_ok hlimits hchunks).2
    ⟨hsegments, hsendable, hnumbered, htail⟩
  obtain ⟨frames, hdecoded, hslip⟩ := (h [bytes] hchunks).1 observer hobserve
  have hframes : frames = observer.testEvents.map frameOf := by
    have heq := hdecoded.imp fun frame event hevent ↦ (decodeAndVerifyEvent_eq_ok.1 hevent).2
    rw [← List.forall₂_map_right_iff, List.forall₂_eq_eq_eq] at heq
    exact heq
  obtain ⟨maximum, hmaximum, ⟨kept, hkept, -, htotal, hflatten⟩, -⟩ := decodeSlip_eq_ok.1 hslip
  obtain ⟨-, rfl⟩ := ProtocolLimits.maximumStreamBytes_eq_ok.1 hmaximum
  refine ⟨fun segment hsegment hframe ↦ ?_, fun _ ↦ htail, fun frames' hframes' ↦ ?_,
    fun frames' hframes' ↦ ?_⟩
  · have hlost := length_keptFrom hsegments hkept
    have hmem : segment ∈ (lostFrom false (serialSegments bytes)).filter fun segment ↦
        IsFrame segment := mem_filter.2 ⟨hsegment, by simpa using hframe⟩
    have hpos := length_pos_of_mem hmem
    rw [← hflatten, hframes, show testFrameMagic.length = 8 from rfl] at hlost
    omega
  · rw [carries_inj hframes' hsegments, forall_mem_map]
    exact fun event hevent ↦ whole_frameOf (hsendable event hevent)
  · rw [carries_inj hframes' hsegments, ← hframes, hflatten]
    exact htotal

/-- Where the stream is one of events and the demultiplexers agree, the segments are events. -/
theorem Agree.segments_of_stream (hlimits : limits.Valid) (h : Agree limits preserve bytes)
    (hreadable : StreamReadable limits preserve bytes) : SegmentsReadable limits preserve bytes := by
  obtain ⟨frames, events, hkept, hfits, htotal, hframes, hsendable, hgrammar, htail⟩ := hreadable
  have hchunks : [bytes].flatten = bytes := flatten_singleton
  have hmaximum := maximumStreamBytes_of_valid hlimits
  have hslip : decodeSlip bytes limits preserve = .ok frames.flatten :=
    decodeSlip_eq_ok.2 ⟨_, hmaximum, ⟨frames, hkept, hfits, htotal, rfl⟩, htail⟩
  have hstream : decodeAndVerifyStream frames.flatten limits = .ok events :=
    decodeAndVerifyStream_eq_ok.2 ⟨⟨_, hmaximum, htotal⟩, hframes, hsendable, hgrammar⟩
  obtain ⟨observer, hobserve, rfl⟩ := (h [bytes] hchunks).2 _ _ hslip hstream
  exact ⟨_, observe_readable hlimits hchunks hobserve⟩

/-- The demultiplexers agree on a stream exactly when it is in step, or is no sequence of event
frames either segment by segment or as the stream of the segments that are not skipped. -/
theorem agree_iff (hlimits : limits.Valid) :
    Agree limits preserve bytes ↔ InStep limits preserve bytes ∨
      ¬ SegmentsReadable limits preserve bytes ∧ ¬ StreamReadable limits preserve bytes := by
  constructor
  · intro h
    by_cases hsegments : SegmentsReadable limits preserve bytes
    · exact .inl (h.inStep_of_segments hlimits hsegments)
    · by_cases hstream : StreamReadable limits preserve bytes
      · exact absurd (h.segments_of_stream hlimits hstream) hsegments
      · exact .inr ⟨hsegments, hstream⟩
  · rintro (hstep | ⟨hsegments, hstream⟩)
    · exact hstep.agree hlimits
    · refine fun chunks hchunks ↦ ⟨fun observer hobserve ↦ ?_, fun stream events hslip hverify ↦ ?_⟩
      · exact absurd ⟨_, observe_readable hlimits hchunks hobserve⟩ hsegments
      · obtain ⟨frames, hreadable⟩ := decodeSlip_readable hslip hverify
        exact absurd ⟨frames, events, hreadable⟩ hstream

end Agreement

/-- A run of no tests. -/
def emptyRun : List TestEvent := [⟨3, 0, .runStarted 0⟩, ⟨3, 1, .runFinished 0 0⟩]

theorem emptyRun_sendable : ∀ event ∈ emptyRun, Sendable .standard event := by
  intro event hmem
  fin_cases hmem <;> exact ⟨rfl, by decide⟩

theorem standard_valid : ProtocolLimits.standard.Valid := ProtocolLimits.validate_eq_ok.1 rfl

/-- A serial line with a line of text and the frames of `emptyRun`, each in a segment of its own. -/
def framedSerial : List UInt8 :=
  [0x6f, 0x6b] ++ slipEnd ::
    join [escape (frameOf ⟨3, 0, .runStarted 0⟩), [], escape (frameOf ⟨3, 1, .runFinished 0 0⟩)] []

theorem framedSerial_segments : serialSegments framedSerial =
    [escape (frameOf ⟨3, 0, .runStarted 0⟩), [], escape (frameOf ⟨3, 1, .runFinished 0 0⟩)] ∧
      serialTail framedSerial = [] := by
  decide +kernel

theorem framedSerial_carries : Carries (serialSegments framedSerial) (emptyRun.map frameOf) := by
  rw [framedSerial_segments.1, carries_cons (by decide)]
  refine ⟨_, _, unescape_escape _, ?_, rfl⟩
  rw [carries_cons_of_not (by decide), carries_cons (by decide)]
  exact ⟨_, _, unescape_escape _, carries_nil.2 rfl, rfl⟩

theorem agree_iff_framedSerial : Agree .standard false framedSerial := by
  refine (agree_iff standard_valid).2 (.inl ⟨?_, fun h ↦ ?_, fun frames h ↦ ?_, fun frames h ↦ ?_⟩)
  · decide +kernel
  · exact absurd h (by decide +kernel)
  · rw [carries_inj h framedSerial_carries, forall_mem_map]
    exact fun event hevent ↦ whole_frameOf (emptyRun_sendable event hevent)
  · rw [carries_inj h framedSerial_carries]
    decide

/-- A text that ends in an escape, and then a frame: only the live demultiplexer sees the frame. -/
def hangingSerial : List UInt8 :=
  slipEnd :: join [[slipEscape], escape (frameOf ⟨3, 0, .runStarted 0⟩)] []

/-- Two frames between one pair of delimiters: only the final demultiplexer takes them. -/
def packedSerial : List UInt8 := slipEnd :: join [escape (emptyRun.flatMap frameOf)] []

theorem not_agree_hangingSerial_packedSerial :
    ¬ Agree .standard false hangingSerial ∧ ¬ Agree .standard false packedSerial := by
  constructor
  · intro h
    have hparts : serialSegments hangingSerial =
        [[slipEscape], escape (frameOf ⟨3, 0, .runStarted 0⟩)] ∧ serialTail hangingSerial = [] := by
      decide +kernel
    have hstep := h.inStep_of_segments standard_valid ⟨[⟨3, 0, .runStarted 0⟩], ?_, ?_, ?_, ?_⟩
    · have hread := hstep.read
      revert hread
      decide +kernel
    · rw [hparts.1, carries_cons_of_not (by decide), carries_cons (by decide)]
      exact ⟨_, _, unescape_escape _, carries_nil.2 rfl, rfl⟩
    · exact fun event hmem ↦ emptyRun_sendable event (by simp_all [emptyRun])
    · exact LiveState.numbered_cons.2 ⟨rfl, fun i event hevent ↦ by simp at hevent⟩
    · rw [hparts.2]
      exact .inl (by decide)
  · intro h
    have hparts : serialSegments packedSerial = [escape (emptyRun.flatMap frameOf)] ∧
        serialTail packedSerial = [] := by
      decide +kernel
    have hcarries : Carries (serialSegments packedSerial) [emptyRun.flatMap frameOf] := by
      rw [hparts.1, carries_cons (by decide)]
      exact ⟨_, _, unescape_escape _, carries_nil.2 rfl, rfl⟩
    have hgrammar : Grammar ProtocolLimits.standard.events.toNat emptyRun := by
      refine grammar_iff_observeAll.2 ⟨⟨_, rfl⟩, fun i event hevent ↦ ?_⟩
      have hlt : i < 2 := (List.getElem?_eq_some_iff.1 hevent).1
      interval_cases i <;> cases hevent <;> rfl
    have hstep := h.inStep_of_segments standard_valid
      (h.segments_of_stream standard_valid ⟨[emptyRun.flatMap frameOf], emptyRun, ?_, ?_, ?_, by simp,
        emptyRun_sendable, hgrammar, .inr (.inl ?_)⟩)
    · obtain ⟨header, hheader, hlength⟩ := hstep.whole _ hcarries _ (mem_singleton_self _)
      rw [emptyRun, flatMap_cons, parseHeader_frameOf] at hheader
      cases hheader
      revert hlength
      decide
    · rw [hparts.1] at hcarries ⊢
      exact hcarries
    · decide
    · decide
    · rw [hparts.2]
      decide

end Wrela.TestRunner
