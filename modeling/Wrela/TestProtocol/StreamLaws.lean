import Wrela.TestProtocol.Grammar

/-!
# What an accepted stream is

`decodeAndVerifyStream_eq_ok` characterises the streams the decoder accepts: they are the
concatenations of the frames of events that are valid one by one and obey the grammar together.
From it follow that decoding a stream agrees with decoding its frames, and that the events of an
accepted stream satisfy the whole protocol.
-/

namespace Wrela.TestProtocol

open List Wrela.Wire Wrela.Checked

/-- An event that is valid on its own and whose frame fits. -/
def Sendable (limits : ProtocolLimits) (event : TestEvent) : Prop :=
  validateEvent event limits = .ok () ∧ (frameOf event).length ≤ limits.frameBytes.toNat

variable {limits : ProtocolLimits}

variable {event : TestEvent}

/-- The frame of a sendable event is as long as its header says. -/
theorem length_frameOf_header (h : Sendable limits event) :
    (frameOf event).length = testFrameHeaderBytes + (headerOf event).payloadBytes.toNat := by
  have hfits := h.2
  have hframe := limits.frameBytes.toNat_lt
  rw [length_frameOf] at hfits
  rw [length_frameOf, headerOf, UInt32.toNat_ofNat', Nat.mod_eq_of_lt (by omega)]

theorem validateFrameShape_frameOf (h : Sendable limits event) :
    validateFrameShape (frameOf event) (headerOf event) limits = .ok () := by
  have hlength := length_frameOf_header h
  obtain ⟨hvalid, hfits⟩ := h
  obtain ⟨hlimits, -, hsequence, -⟩ := validateEvent_eq_ok.1 hvalid
  rw [length_frameOf] at hfits hlength
  exact validateFrameShape_eq_ok.2 ⟨hlimits, hfits, rfl, rfl, hsequence, by omega, rfl⟩

/-- The verification after decoding never rejects what was decoded. -/
theorem decodeAndVerifyEvent_eq_ok :
    decodeAndVerifyEvent frame limits = .ok event ↔
      Sendable limits event ∧ frame = frameOf event := by
  constructor
  · intro h
    simp only [decodeAndVerifyEvent, bind_eq_ok, exists_unit] at h
    obtain ⟨-, -, header, -, -, decoded, hdecode, -, -, canonical, -, -, -, hevent⟩ := h
    cases hevent
    obtain ⟨hvalid, hfits, hframe⟩ := decode_eq_ok.1 hdecode
    exact ⟨⟨hvalid, hfits⟩, hframe⟩
  · rintro ⟨hsend, rfl⟩
    obtain ⟨hvalid, hfits⟩ := hsend
    obtain ⟨hlimits, -, -, -⟩ := validateEvent_eq_ok.1 hvalid
    have hheader : parseHeader (frameOf event) = .ok (headerOf event) :=
      parseHeader_eq_ok.2 ⟨payloadOf event, rfl⟩
    have hshape := validateFrameShape_frameOf ⟨hvalid, hfits⟩
    have hdecode := decode_eq_ok.2 ⟨hvalid, hfits, rfl⟩
    have hencode := encode_eq_ok.2 ⟨hvalid, hfits, rfl⟩
    have hlimits' : limits.validate = .ok () := ProtocolLimits.validate_eq_ok.2 hlimits
    have hlength : decide ((frameOf event).length > limits.frameBytes.toNat) = false :=
      decide_eq_false (Nat.not_lt.2 hfits)
    have hsequence : (headerOf event).sequence = event.sequence := rfl
    simp [decodeAndVerifyEvent, hlimits', hlength, hheader, hshape, hdecode, hvalid, hencode,
      hsequence]

theorem streamStep_eq_ok {cursor next : StreamCursor} :
    streamStep limits cursor = .ok next ↔
      ∃ event state, Sendable limits event ∧ event.sequence.toNat = cursor.events.length ∧
        cursor.remaining = frameOf event ++ next.remaining ∧
        cursor.state.observe event = .ok state ∧ next.events = cursor.events ++ [event] ∧
        next.state = state := by
  constructor
  · intro h
    simp only [streamStep, bind_eq_ok, exists_unit, failIf_eq_ok, bne_eq_false_iff_eq] at h
    obtain ⟨-, header, -, -, -, event, hevent, hsequence, state, hobserve, hnext⟩ := h
    cases hnext
    obtain ⟨hsend, hframe⟩ := decodeAndVerifyEvent_eq_ok.1 hevent
    refine ⟨event, state, hsend, hsequence, ?_, hobserve, rfl, rfl⟩
    rw [← hframe, take_append_drop]
  · rintro ⟨event, state, hsend, hsequence, hremaining, hobserve, hevents, hstate⟩
    obtain ⟨remaining, events, next⟩ := next
    simp only at hremaining hevents hstate
    subst hevents hstate
    have hlength := (length_frameOf_header hsend).symm
    obtain ⟨hvalid, hfits⟩ := hsend
    obtain ⟨-, -, hlimit, -⟩ := validateEvent_eq_ok.1 hvalid
    have hevent : decodeAndVerifyEvent (frameOf event) limits = .ok event :=
      decodeAndVerifyEvent_eq_ok.2 ⟨⟨hvalid, hfits⟩, rfl⟩
    have hcount : decide (cursor.events.length ≥ limits.events.toNat) = false :=
      decide_eq_false (by omega)
    have hlarge : decide ((frameOf event).length > limits.frameBytes.toNat) = false :=
      decide_eq_false (Nat.not_lt.2 hfits)
    simp [streamStep, hcount, hremaining, parseHeader_frameOf, hlength, hlarge, hevent, hsequence,
      hobserve]

theorem length_frameOf_pos (event : TestEvent) : 0 < (frameOf event).length := by
  rw [length_frameOf, testFrameHeaderBytes]
  omega

/-- The loop accepts exactly the frames of sendable events that the verifier runs through. -/
theorem streamLoop_eq_ok {cursor : StreamCursor} {events : List TestEvent} :
    streamLoop limits cursor = .ok events ↔ ∃ later, events = cursor.events ++ later ∧
      cursor.remaining = later.flatMap frameOf ∧ (∀ event ∈ later, Sendable limits event) ∧
      (∃ state, cursor.state.observeAll later = .ok state) ∧
      ∀ (i : ℕ) event, later[i]? = some event →
        event.sequence.toNat = cursor.events.length + i := by
  induction hlength : cursor.remaining.length using Nat.strong_induction_on generalizing cursor with
  | _ length ih =>
  rw [streamLoop]
  split
  · rename_i hempty
    have hnil : cursor.remaining = [] := List.isEmpty_iff.1 hempty
    constructor
    · intro h
      cases h
      exact ⟨[], by simp [hnil, StreamState.observeAll]⟩
    · rintro ⟨later, rfl, hframes, -⟩
      cases later with
      | nil => simp
      | cons event later =>
        have hpos := length_frameOf_pos event
        have hzero := congrArg List.length hframes
        rw [hnil, flatMap_cons, length_append, length_nil] at hzero
        omega
  · rename_i hempty
    constructor
    · intro h
      split at h
      · cases h
      · rename_i next hstep
        have hshrinks := streamStep_shrinks hstep
        rw [testFrameHeaderBytes] at hshrinks
        obtain ⟨event, state, hsend, hsequence, hremaining, hobserve, hevents, hstate⟩ :=
          streamStep_eq_ok.1 hstep
        obtain ⟨later, rfl, hframes, hsendable, ⟨last, hrun⟩, hsequences⟩ :=
          (ih _ (by omega) rfl).1 h
        rw [hevents, length_append, length_singleton] at hsequences
        refine ⟨event :: later, by rw [hevents, append_assoc, singleton_append],
          by rw [hremaining, hframes, flatMap_cons], ?_, ⟨last, ?_⟩, ?_⟩
        · exact forall_mem_cons.2 ⟨hsend, hsendable⟩
        · rw [StreamState.observeAll, hobserve, ok_bind, ← hstate, hrun]
        · intro i other hother
          cases i with
          | zero =>
            cases hother
            exact hsequence
          | succ i =>
            rw [hsequences i other (by simpa using hother)]
            omega
    · rintro ⟨later, rfl, hframes, hsendable, ⟨last, hrun⟩, hsequences⟩
      cases later with
      | nil => simp [hframes] at hempty
      | cons event later =>
        obtain ⟨state, hobserve, hrest⟩ := bind_eq_ok.1 hrun
        obtain ⟨hsend, hsendable⟩ := forall_mem_cons.1 hsendable
        have hstep : streamStep limits cursor = .ok
            ⟨later.flatMap frameOf, cursor.events ++ [event], state⟩ :=
          streamStep_eq_ok.2 ⟨event, state, hsend, by simpa using hsequences 0 event rfl,
            by rw [hframes, flatMap_cons], hobserve, rfl, rfl⟩
        have hshrinks := streamStep_shrinks hstep
        rw [testFrameHeaderBytes] at hshrinks
        split
        · rename_i error herror
          rw [hstep] at herror
          cases herror
        · rename_i next hnext
          rw [hstep] at hnext
          cases hnext
          refine (ih _ (by omega) rfl).2 ⟨later, by simp, rfl, hsendable, ⟨last, hrest⟩,
            fun i other hother ↦ ?_⟩
          rw [hsequences (i + 1) other (by simpa using hother), length_append, length_singleton]
          omega

theorem grammar_iff_observeAll :
    Grammar limits.events.toNat events ↔
      (∃ state, (StreamState.new limits.events).observeAll events = .ok state) ∧
        ∀ (i : ℕ) event, events[i]? = some event → event.sequence.toNat = i := by
  have hruns := (tracks_new limits.events).observeAll_iff events
  simpa only [nil_append, length_nil, Nat.zero_add, Grammar] using hruns.symm

/-- An accepted stream is the concatenation of the frames of its events, which are valid one by one
and obey the grammar together. -/
theorem decodeAndVerifyStream_eq_ok :
    decodeAndVerifyStream stream limits = .ok events ↔
      (∃ maximum, limits.maximumStreamBytes = .ok maximum ∧ stream.length ≤ maximum) ∧
      stream = events.flatMap frameOf ∧ (∀ event ∈ events, Sendable limits event) ∧
      Grammar limits.events.toNat events := by
  simp only [decodeAndVerifyStream, bind_eq_ok, exists_unit, failIf_eq_ok, streamLoop_eq_ok,
    nil_append, length_nil, Nat.zero_add, decide_eq_false_iff_not, gt_iff_lt, not_lt]
  constructor
  · rintro ⟨maximum, hmaximum, hlength, later, rfl, hframes, hsendable, hrun, hsequences⟩
    exact ⟨⟨maximum, hmaximum, hlength⟩, hframes, hsendable,
      grammar_iff_observeAll.2 ⟨hrun, hsequences⟩⟩
  · rintro ⟨⟨maximum, hmaximum, hlength⟩, hframes, hsendable, hgrammar⟩
    obtain ⟨hrun, hsequences⟩ := grammar_iff_observeAll.1 hgrammar
    exact ⟨maximum, hmaximum, hlength, events, rfl, hframes, hsendable, hrun, hsequences⟩

theorem Grammar.take {maximum : ℕ} {events : List TestEvent} (h : Grammar maximum events) (n : ℕ) :
    Grammar maximum (events.take n) := by
  intro i event hevent
  obtain ⟨hlt, -⟩ := List.getElem?_eq_some_iff.1 hevent
  rw [List.length_take] at hlt
  rw [List.getElem?_take_of_lt (by omega)] at hevent
  rw [take_take, min_eq_left (by omega)]
  exact h i event hevent

theorem Grammar.length_le {events : List TestEvent}
    (h : Grammar limits.events.toNat events) (hsendable : ∀ event ∈ events, Sendable limits event) :
    events.length ≤ limits.events.toNat := by
  by_contra hlong
  obtain ⟨event, hevent⟩ : ∃ event, events[limits.events.toNat]? = some event :=
    ⟨_, List.getElem?_eq_getElem (by omega)⟩
  have hsequence := (h _ event hevent).sequence
  obtain ⟨-, -, hlt, -⟩ := validateEvent_eq_ok.1 (hsendable event (mem_of_getElem? hevent)).1
  rw [length_take_of_le (by omega)] at hsequence
  omega

/-- Decoding a stream agrees with decoding its frames one by one.  The frames of a list of events
are decoded to that list exactly when every event is sendable, the verifier runs through the list
with dense sequence numbers, and the counts and bytes are within the limits; every accepted stream
is such a concatenation, each frame being what the encoder writes; acceptance is closed under
dropping events from the end; and every iteration of the loop consumes bytes. -/
theorem decodeAndVerifyStream_frames (limits : ProtocolLimits) :
    (∀ events, decodeAndVerifyStream (events.flatMap frameOf) limits = .ok events ↔
      (∀ event ∈ events, validateEvent event limits = .ok () ∧
        (frameOf event).length ≤ limits.frameBytes.toNat) ∧
      (∃ state, (StreamState.new limits.events).observeAll events = .ok state) ∧
      (∀ (i : ℕ) event, events[i]? = some event → event.sequence.toNat = i) ∧
      events.length ≤ limits.events.toNat ∧
      ∃ maximum, limits.maximumStreamBytes = .ok maximum ∧
        (events.flatMap frameOf).length ≤ maximum) ∧
    (∀ stream events, decodeAndVerifyStream stream limits = .ok events →
      stream = events.flatMap frameOf ∧
      ∀ event ∈ events, ∃ header, encode event limits = .ok ⟨header, frameOf event⟩) ∧
    (∀ events later, decodeAndVerifyStream ((events ++ later).flatMap frameOf) limits =
        .ok (events ++ later) →
      decodeAndVerifyStream (events.flatMap frameOf) limits = .ok events) ∧
    ∀ cursor next, streamStep limits cursor = .ok next →
      next.remaining.length < cursor.remaining.length := by
  refine ⟨fun events ↦ ?_, fun stream events h ↦ ?_, fun events later h ↦ ?_,
    fun cursor next h ↦ ?_⟩
  · rw [decodeAndVerifyStream_eq_ok, grammar_iff_observeAll]
    constructor
    · rintro ⟨hbytes, -, hsendable, hrun, hsequences⟩
      exact ⟨hsendable, hrun, hsequences,
        (grammar_iff_observeAll.2 ⟨hrun, hsequences⟩).length_le hsendable, hbytes⟩
    · rintro ⟨hsendable, hrun, hsequences, -, hbytes⟩
      exact ⟨hbytes, rfl, hsendable, hrun, hsequences⟩
  · obtain ⟨-, hframes, hsendable, -⟩ := decodeAndVerifyStream_eq_ok.1 h
    refine ⟨hframes, fun event hevent ↦ ⟨headerOf event, encode_eq_ok.2 ?_⟩⟩
    exact ⟨(hsendable event hevent).1, (hsendable event hevent).2, rfl⟩
  · obtain ⟨⟨maximum, hmaximum, hlength⟩, -, hsendable, hgrammar⟩ :=
      decodeAndVerifyStream_eq_ok.1 h
    have hstarts := hgrammar.take events.length
    rw [take_left] at hstarts
    rw [flatMap_append, length_append] at hlength
    exact decodeAndVerifyStream_eq_ok.2 ⟨⟨maximum, hmaximum, by omega⟩, rfl,
      fun event hevent ↦ hsendable event (by simp [hevent]), hstarts⟩
  · have hshrinks := streamStep_shrinks h
    rw [testFrameHeaderBytes] at hshrinks
    omega

/-- A complete run of one test that fails an assertion. -/
def failingRun : List TestEvent := [
  ⟨3, 0, .runStarted 1⟩,
  ⟨3, 1, .testStarted ⟨7⟩⟩,
  ⟨3, 2, .assertionFailed ⟨7⟩ ⟨"a == b", none, none, none, none⟩⟩,
  ⟨3, 3, .testFinished ⟨7⟩ (.failed "assertion failed")⟩,
  ⟨3, 4, .runFinished 0 1⟩]

theorem failingRun_sendable : ∀ event ∈ failingRun, Sendable .standard event := by
  intro event hmem
  fin_cases hmem <;> exact ⟨rfl, by decide⟩

theorem failingRun_grammar : Grammar (ProtocolLimits.standard.events.toNat) failingRun := by
  refine grammar_iff_observeAll.2 ⟨⟨_, rfl⟩, fun i event hevent ↦ ?_⟩
  have hlt : i < 5 := (List.getElem?_eq_some_iff.1 hevent).1
  interval_cases i <;> cases hevent <;> rfl

theorem failingRun_maximum : ∃ maximum, ProtocolLimits.standard.maximumStreamBytes = .ok maximum ∧
    (failingRun.flatMap frameOf).length ≤ maximum :=
  ⟨_, ProtocolLimits.maximumStreamBytes_eq_ok.2 ⟨ProtocolLimits.validate_eq_ok.1 rfl, rfl⟩,
    by decide +kernel⟩

theorem decodeAndVerifyStream_frames_failingRun :
    decodeAndVerifyStream (failingRun.flatMap frameOf) .standard = .ok failingRun ∧
      decodeAndVerifyStream ((failingRun.take 3).flatMap frameOf) .standard =
        .ok (failingRun.take 3) := by
  obtain ⟨haccepts, -, hstarts, -⟩ := decodeAndVerifyStream_frames .standard
  obtain ⟨hrun, hsequences⟩ := grammar_iff_observeAll.1 failingRun_grammar
  have haccepted := (haccepts failingRun).2
    ⟨failingRun_sendable, hrun, hsequences, by decide, failingRun_maximum⟩
  exact ⟨haccepted, hstarts (failingRun.take 3) (failingRun.drop 3) haccepted⟩

/-! ## The protocol as a whole -/

def kindAt (events : List TestEvent) (i : ℕ) : Option TestEventKind := (events[i]?).map (·.kind)

/-- The test has been started before position `i` and not yet finished there. -/
def RunningAt (events : List TestEvent) (i : ℕ) (test : TestId) : Prop :=
  (∃ j < i, kindAt events j = some (.testStarted test)) ∧
    ∀ j < i, ∀ outcome, kindAt events j ≠ some (.testFinished test outcome)

/-- The laws of the protocol, by position in the stream. -/
structure ProtocolLaws (events : List TestEvent) : Prop where
  sequence : ∀ (i : ℕ) event, events[i]? = some event → event.sequence.toNat = i
  runStarted : events ≠ [] → ∀ i, (∃ testCount, kindAt events i = some (.runStarted testCount)) ↔
    i = 0
  startedOnce : ∀ i j test, kindAt events i = some (.testStarted test) →
    kindAt events j = some (.testStarted test) → i = j
  finishedOnce : ∀ i j test outcome outcome', kindAt events i = some (.testFinished test outcome) →
    kindAt events j = some (.testFinished test outcome') → i = j
  finishedRunning : ∀ i test outcome, kindAt events i = some (.testFinished test outcome) →
    RunningAt events i test
  logRunning : ∀ i test level message, kindAt events i = some (.log (some test) level message) →
    RunningAt events i test
  assertionRunning : ∀ i test failure, kindAt events i = some (.assertionFailed test failure) →
    RunningAt events i test
  assertionFinish : ∀ i test failure kind,
    kindAt events i = some (.assertionFailed test failure) → kindAt events (i + 1) = some kind →
    kind = .testFinished test (.failed (failure.message.getD "assertion failed"))
  fatalFinish : ∀ i j test cause kind,
    kindAt events i = some (.testFinished test (.languageFatal cause)) → i < j →
    kindAt events j = some kind → ∃ passed failed, kind = .runFinished passed failed
  terminal : ∀ i passed failed, kindAt events i = some (.runFinished passed failed) →
    i + 1 = events.length
  summary : ∀ i passed failed, kindAt events i = some (.runFinished passed failed) →
    ∃ declared, kindAt events 0 = some (.runStarted declared) ∧
      (startedTests events).length = declared.toNat ∧
      (finishedTests events).length = declared.toNat ∧ passedCount events = passed.toNat ∧
      failedCount events = failed.toNat ∧ passed.toNat + failed.toNat = declared.toNat
  heartbeat : ∀ i j ticks ticks', i < j → kindAt events i = some (.heartbeat ticks) →
    kindAt events j = some (.heartbeat ticks') → ticks < ticks'

section Positions

variable {maximum i : ℕ} {events : List TestEvent} {kind : TestEventKind}

theorem kindAt_eq_some : kindAt events i = some kind ↔
    ∃ event, events[i]? = some event ∧ event.kind = kind := Option.map_eq_some_iff

theorem lt_of_kindAt (h : kindAt events i = some kind) : i < events.length := by
  obtain ⟨event, hevent, -⟩ := kindAt_eq_some.1 h
  exact (List.getElem?_eq_some_iff.1 hevent).1

theorem Grammar.admits (h : Grammar maximum events) (hkind : kindAt events i = some kind) :
    ∃ event, event.kind = kind ∧ Admits maximum (events.take i) event := by
  obtain ⟨event, hevent, hkind⟩ := kindAt_eq_some.1 hkind
  exact ⟨event, hkind, h i event hevent⟩

theorem exists_mem_take {p : TestEventKind → Prop} :
    (∃ event ∈ events.take i, p event.kind) ↔ ∃ j < i, ∃ kind, kindAt events j = some kind ∧ p kind := by
  constructor
  · rintro ⟨event, hmem, hp⟩
    obtain ⟨j, hj⟩ := mem_iff_getElem?.1 hmem
    have hlt : j < (events.take i).length := (List.getElem?_eq_some_iff.1 hj).1
    rw [List.length_take] at hlt
    rw [List.getElem?_take_of_lt (by omega)] at hj
    exact ⟨j, by omega, event.kind, kindAt_eq_some.2 ⟨event, hj, rfl⟩, hp⟩
  · rintro ⟨j, hj, kind, hkind, hp⟩
    obtain ⟨event, hevent, rfl⟩ := kindAt_eq_some.1 hkind
    refine ⟨event, mem_of_getElem? (i := j) ?_, hp⟩
    rw [List.getElem?_take_of_lt hj, hevent]

variable {test : TestId}

theorem TestEventKind.startedTest_eq_some :
    kind.startedTest = some test ↔ kind = .testStarted test := by
  cases kind <;> simp [TestEventKind.startedTest]

theorem TestEventKind.finishedTest_eq_some :
    kind.finishedTest = some test ↔ ∃ outcome, kind = .testFinished test outcome := by
  cases kind <;> simp [TestEventKind.finishedTest]

theorem TestEventKind.ticks_eq_some {ticks : UInt64} :
    kind.ticks = some ticks ↔ kind = .heartbeat ticks := by
  cases kind <;> simp [TestEventKind.ticks]

theorem TestEventKind.isRunFinished_eq_true :
    kind.isRunFinished = true ↔ ∃ passed failed, kind = .runFinished passed failed := by
  cases kind <;> simp [TestEventKind.isRunFinished]

theorem mem_startedTests_take : test ∈ startedTests (events.take i) ↔
    ∃ j < i, kindAt events j = some (.testStarted test) := by
  rw [startedTests, mem_filterMap, exists_mem_take (p := (·.startedTest = some test))]
  simp [TestEventKind.startedTest_eq_some]

theorem mem_finishedTests_take : test ∈ finishedTests (events.take i) ↔
    ∃ j < i, ∃ outcome, kindAt events j = some (.testFinished test outcome) := by
  rw [finishedTests, mem_filterMap, exists_mem_take (p := (·.finishedTest = some test))]
  simp only [TestEventKind.finishedTest_eq_some]
  constructor
  · rintro ⟨j, hj, _, hkind, outcome, rfl⟩
    exact ⟨j, hj, outcome, hkind⟩
  · rintro ⟨j, hj, outcome, hkind⟩
    exact ⟨j, hj, _, hkind, outcome, rfl⟩

theorem mem_heartbeats_take {ticks : UInt64} : ticks ∈ heartbeats (events.take i) ↔
    ∃ j < i, kindAt events j = some (.heartbeat ticks) := by
  rw [heartbeats, mem_filterMap, exists_mem_take (p := (·.ticks = some ticks))]
  simp [TestEventKind.ticks_eq_some]

/-- An event about a running test stands between that test's start and finish. -/
theorem Grammar.runningAt (h : Grammar maximum events)
    (hkind : kindAt events i = some kind) (htest : kind.runningTest = some test) :
    RunningAt events i test := by
  obtain ⟨event, rfl, hadmits⟩ := h.admits hkind
  obtain ⟨hstarted, hfinished⟩ := hadmits.running test htest
  refine ⟨mem_startedTests_take.1 hstarted, fun j hj outcome hfinish ↦ hfinished ?_⟩
  exact mem_finishedTests_take.2 ⟨j, hj, outcome, hfinish⟩

variable {passed failed : UInt32}

theorem Grammar.not_after_terminal (h : Grammar maximum events)
    (hfinish : kindAt events i = some (.runFinished passed failed)) (hlt : i < j) :
    kindAt events j = none := by
  cases hkind : kindAt events j with
  | none => rfl
  | some kind =>
    obtain ⟨event, -, hadmits⟩ := h.admits hkind
    obtain ⟨earlier, hmem, hterminal⟩ :=
      (exists_mem_take (p := (·.isRunFinished = true))).2 ⟨i, hlt, _, hfinish, rfl⟩
    rw [hadmits.notTerminal earlier hmem] at hterminal
    cases hterminal

theorem Grammar.terminal_last (h : Grammar maximum events)
    (hfinish : kindAt events i = some (.runFinished passed failed)) : i + 1 = events.length := by
  have hlt := lt_of_kindAt hfinish
  by_contra hne
  have hnone := h.not_after_terminal hfinish (Nat.lt_succ_self i)
  rw [kindAt, List.getElem?_eq_getElem (by omega)] at hnone
  cases hnone

theorem Grammar.first (h : Grammar maximum events) (hne : events ≠ []) :
    ∃ testCount, kindAt events 0 = some (.runStarted testCount) := by
  cases events with
  | nil => exact absurd rfl hne
  | cons first events =>
    obtain ⟨testCount, hkind⟩ := (h 0 first rfl).runStarted.2 rfl
    exact ⟨testCount, by simp [kindAt, hkind]⟩

theorem declaredCount_take (hi : 0 < i) (h : kindAt events 0 = some (.runStarted testCount)) :
    declaredCount (events.take i) = some testCount := by
  obtain ⟨n, rfl⟩ := Nat.exists_eq_add_of_lt hi
  cases events with
  | nil => cases h
  | cons first events =>
    obtain ⟨protocol, sequence, kind⟩ := first
    obtain rfl : kind = .runStarted testCount := Option.some.inj h
    simp [declaredCount]

theorem take_succ_of_kindAt (hkind : kindAt events i = some kind) :
    ∃ event, event.kind = kind ∧ events.take (i + 1) = events.take i ++ [event] := by
  obtain ⟨event, hevent, hkind⟩ := kindAt_eq_some.1 hkind
  exact ⟨event, hkind, by rw [take_add_one, hevent, Option.toList_some]⟩

theorem Grammar.summary (h : Grammar maximum events)
    (hfinish : kindAt events i = some (.runFinished passed failed)) :
    ∃ declared, kindAt events 0 = some (.runStarted declared) ∧
      (startedTests events).length = declared.toNat ∧
      (finishedTests events).length = declared.toNat ∧ passedCount events = passed.toNat ∧
      failedCount events = failed.toNat ∧ passed.toNat + failed.toNat = declared.toNat := by
  have hlt := lt_of_kindAt hfinish
  obtain ⟨declared, hfirst⟩ := h.first (ne_nil_of_length_pos (by omega))
  have hpos : 0 < i := by
    rcases Nat.eq_zero_or_pos i with rfl | hpos
    · rw [hfirst] at hfinish
      cases hfinish
    · exact hpos
  obtain ⟨admitted, hadmittedKind, hadmits⟩ := h.admits hfinish
  obtain ⟨hstarted, hfinished, hpassed, hfailed, htotal⟩ :=
    hadmits.summary passed failed hadmittedKind declared (declaredCount_take hpos hfirst)
  obtain ⟨event, hkind, hsplit⟩ := take_succ_of_kindAt hfinish
  rw [h.terminal_last hfinish, take_length] at hsplit
  refine ⟨declared, hfirst, ?_⟩
  rw [hsplit, startedTests_append, finishedTests_append, passedCount_append, failedCount_append,
    hkind]
  simpa [TestEventKind.startedTest, TestEventKind.finishedTest, TestEventKind.isPassed,
    TestEventKind.isFailed] using ⟨hstarted, hfinished, hpassed, hfailed, htotal⟩

/-- A list that obeys the grammar event by event obeys the laws of the protocol as a whole. -/
theorem Grammar.protocolLaws (h : Grammar maximum events) : ProtocolLaws events where
  sequence i event hevent := by
    have hlt := (List.getElem?_eq_some_iff.1 hevent).1
    rw [(h i event hevent).sequence, length_take_of_le (by omega)]
  runStarted hne i := by
    constructor
    · rintro ⟨testCount, hkind⟩
      obtain ⟨event, hevent, hadmits⟩ := h.admits hkind
      have hempty := hadmits.runStarted.1 ⟨testCount, hevent⟩
      exact (take_eq_nil_iff.1 hempty).resolve_right hne
    · rintro rfl
      exact h.first hne
  startedOnce i j test hi hj := by
    have hnot {i j : ℕ} (hi : kindAt events i = some (.testStarted test))
        (hj : kindAt events j = some (.testStarted test)) : ¬ i < j := fun hlt ↦ by
      obtain ⟨event, hevent, hadmits⟩ := h.admits hj
      exact (hadmits.started test hevent).1 (mem_startedTests_take.2 ⟨i, hlt, hi⟩)
    exact Nat.le_antisymm (Nat.not_lt.1 (hnot hj hi)) (Nat.not_lt.1 (hnot hi hj))
  finishedOnce i j test outcome outcome' hi hj := by
    have hnot {i j : ℕ} {outcome outcome' : GuestTestOutcome}
        (hi : kindAt events i = some (.testFinished test outcome))
        (hj : kindAt events j = some (.testFinished test outcome')) : ¬ i < j := fun hlt ↦
      (h.runningAt hj rfl).2 i hlt outcome hi
    exact Nat.le_antisymm (Nat.not_lt.1 (hnot hj hi)) (Nat.not_lt.1 (hnot hi hj))
  finishedRunning i test outcome hkind := h.runningAt hkind rfl
  logRunning i test level message hkind := h.runningAt hkind rfl
  assertionRunning i test failure hkind := h.runningAt hkind rfl
  assertionFinish i test failure kind hassert hnext := by
    obtain ⟨event, rfl, hadmits⟩ := h.admits hnext
    obtain ⟨asserted, hasserted, hsplit⟩ := take_succ_of_kindAt hassert
    refine hadmits.obliged _ _ ?_
    rw [hsplit, obligation_append, hasserted]
  fatalFinish i j test cause kind hfatal hlt hnext := by
    obtain ⟨event, rfl, hadmits⟩ := h.admits hnext
    have hearlier := (exists_mem_take (p := (·.isLanguageFatal = true))).2 ⟨i, hlt, _, hfatal, rfl⟩
    exact TestEventKind.isRunFinished_eq_true.1 (hadmits.fatal hearlier)
  terminal i passed failed hfinish := h.terminal_last hfinish
  summary i passed failed hfinish := h.summary hfinish
  heartbeat i j ticks ticks' hlt hi hj := by
    obtain ⟨event, hevent, hadmits⟩ := h.admits hj
    exact hadmits.ticks ticks' hevent ticks (mem_heartbeats_take.2 ⟨i, hlt, hi⟩)

end Positions

/-- The events of an accepted stream obey the laws of the protocol. -/
theorem decodeAndVerifyStream_protocolLaws {stream : List UInt8} {limits : ProtocolLimits}
    {events : List TestEvent} (h : decodeAndVerifyStream stream limits = .ok events) :
    ProtocolLaws events := by
  obtain ⟨-, -, -, hgrammar⟩ := decodeAndVerifyStream_eq_ok.1 h
  exact hgrammar.protocolLaws

theorem decodeAndVerifyStream_protocolLaws_failingRun :
    decodeAndVerifyStream (failingRun.flatMap frameOf) .standard = .ok failingRun ∧
      ProtocolLaws failingRun := by
  have haccepted : decodeAndVerifyStream (failingRun.flatMap frameOf) .standard = .ok failingRun :=
    decodeAndVerifyStream_eq_ok.2
      ⟨failingRun_maximum, rfl, failingRun_sendable, failingRun_grammar⟩
  exact ⟨haccepted, decodeAndVerifyStream_protocolLaws haccepted⟩

/-- A stream without frames is accepted, and then no event is the first one. -/
theorem decodeAndVerifyStream_empty :
    decodeAndVerifyStream [] .standard = .ok [] ∧
      ¬ ∃ testCount, kindAt [] 0 = some (.runStarted testCount) := by
  refine ⟨decodeAndVerifyStream_eq_ok.2 ⟨⟨_, ProtocolLimits.maximumStreamBytes_eq_ok.2 ⟨?_, rfl⟩,
    Nat.zero_le _⟩, rfl, by simp, fun i event hevent ↦ by simp at hevent⟩, by simp [kindAt]⟩
  exact ProtocolLimits.validate_eq_ok.1 rfl

end Wrela.TestProtocol
