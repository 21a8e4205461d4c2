import Wrela.TestProtocol.StreamLaws
import Wrela.TestRunner.FinalLaws

/-!
# What the live demultiplexer reads

`LiveState` is the observer without its positions, `observe_eq_ok` says which events it ends with:
those of all the frames among the segments, each frame being the encoding of one event.
-/

namespace Wrela.TestRunner

open List Wrela.Checked Wrela.Slip Wrela.TestProtocol

-- whatever the elements are, only those of the list are tried
open scoped Wrela.FiniteChecks

/-- What of a live observer decides its events. -/
structure LiveState where
  limits : ProtocolLimits
  started : Bool
  rawSegment : Bool
  escaped : Bool
  frame : List UInt8
  events : List TestEvent

namespace LiveState

def pushFrameByte (state : LiveState) (byte : UInt8) : Except ExecuteError LiveState := do
  failIf (decide (state.frame.length ≥ state.limits.frameBytes.toNat))
    (.scenario "test-event frame exceeds the protocol byte limit")
  pure { state with frame := state.frame ++ [byte] }

def resetSegment (state : LiveState) : LiveState :=
  { state with rawSegment := false, escaped := false, frame := [] }

def finishSegment (state : LiveState) : Except ExecuteError LiveState :=
  if state.rawSegment || decide (state.frame.length < testFrameMagic.length) then
    .ok state.resetSegment
  else do
    failIf state.escaped (.scenario "test-event frame ends inside a SLIP escape")
    let event ← (decodeAndVerifyEvent state.frame state.limits).mapError .invalidFrame
    let expected := state.events.length
    let actual := event.sequence
    failIf (actual.toNat != expected)
      (.scenario s!"live test-event sequence gap: expected {expected}, got {actual}")
    failIf (decide (expected ≥ state.limits.events.toNat))
      (.scenario "live test-event count exceeds the selected group limit")
    pure { state with events := state.events ++ [event] }.resetSegment

def pushByte (state : LiveState) (byte : UInt8) : Except ExecuteError LiveState :=
  if byte = slipEnd then
    if state.started then state.finishSegment else .ok { state with started := true }
  else if !state.started || state.rawSegment then .ok state
  else if state.frame.length < testFrameMagic.length then do
    let state ← state.pushFrameByte byte
    if testFrameMagic.take state.frame.length ≠ state.frame then
      pure { state with frame := [], rawSegment := true }
    else pure state
  else if state.escaped then do
    let decoded ← orFail (standIn byte)
      (.scenario "test-event frame contains a noncanonical SLIP escape")
    let state ← state.pushFrameByte decoded
    pure { state with escaped := false }
  else if byte = slipEscape then .ok { state with escaped := true }
  else state.pushFrameByte byte

end LiveState

namespace LiveSerialObserver

def state (observer : LiveSerialObserver) : LiveState where
  limits := observer.limits
  started := observer.started
  rawSegment := observer.rawSegment
  escaped := observer.escaped
  frame := observer.frame
  events := observer.events.map (·.event)

variable {observer : LiveSerialObserver}

theorem state_addSerialRange (start stop : ℕ) :
    (observer.addSerialRange start stop).state = observer.state := by
  unfold addSerialRange
  split
  · rfl
  · split
    · split <;> rfl
    · rfl

theorem addSerialRange_fields (start stop : ℕ) :
    (observer.addSerialRange start stop).limits = observer.limits ∧
      (observer.addSerialRange start stop).started = observer.started ∧
      (observer.addSerialRange start stop).escaped = observer.escaped ∧
      (observer.addSerialRange start stop).events = observer.events := by
  unfold addSerialRange
  split
  · exact ⟨rfl, rfl, rfl, rfl⟩
  · split
    · split <;> exact ⟨rfl, rfl, rfl, rfl⟩
    · exact ⟨rfl, rfl, rfl, rfl⟩

theorem state_finishSegment (position : ℕ) :
    (observer.finishSegment position).map state = observer.state.finishSegment := by
  obtain ⟨limits, started, rawSegment, escaped, segmentStart, frame, ranges, events⟩ := observer
  cases rawSegment with
  | true => rfl
  | false =>
    by_cases hempty : frame = []
    · subst hempty
      rfl
    · have hframe : frame.isEmpty = false := by simpa using hempty
      by_cases hshort : frame.length < testFrameMagic.length
      · simp only [finishSegment, LiveState.finishSegment, state, hframe, hshort, decide_true,
          Bool.or_true, Bool.false_eq_true, if_false, if_true, Except.map, resetSegment,
          addSerialRange_fields]
        rfl
      · simp only [finishSegment, LiveState.finishSegment, state, hframe, hshort,
          decide_false, Bool.or_self, Bool.false_eq_true, if_false, length_map]
        cases escaped with
        | true => rfl
        | false =>
          cases decodeAndVerifyEvent frame limits with
          | error error => rfl
          | ok event =>
            simp only [failIf_false, ok_bind, Except.mapError]
            cases event.sequence.toNat != events.length with
            | true => rfl
            | false =>
              cases decide (events.length ≥ limits.events.toNat) with
              | true => rfl
              | false => simp [resetSegment, LiveState.resetSegment, Except.map, state]

theorem state_pushByte (position : ℕ) (byte : UInt8) :
    (observer.pushByte position byte).map state = observer.state.pushByte byte := by
  by_cases hend : byte = slipEnd
  · simp only [pushByte, LiveState.pushByte, hend, if_true]
    cases hstarted : observer.started with
    | true =>
      rw [if_pos rfl, if_pos (show observer.state.started = true from hstarted),
        ← state_finishSegment position]
      cases observer.finishSegment position <;> rfl
    | false =>
      rw [if_neg (by simp), if_neg (by simp [state, hstarted])]
      rfl
  · have hrange := @state_addSerialRange observer position (position + 1)
    obtain ⟨limits, started, rawSegment, escaped, segmentStart, frame, ranges, events⟩ := observer
    simp only [pushByte, LiveState.pushByte, hend, if_false]
    cases started with
    | false => simpa [Except.map, state] using hrange
    | true =>
      cases rawSegment with
      | true => simpa [Except.map, state] using hrange
      | false =>
        simp only [state, Bool.not_true, Bool.or_self, Bool.false_eq_true, if_false]
        by_cases hshort : frame.length < testFrameMagic.length
        · simp only [hshort, if_true, pushFrameByte, LiveState.pushFrameByte]
          cases decide (frame.length ≥ limits.frameBytes.toNat) with
          | true => rfl
          | false =>
            simp only [failIf_false, ok_bind, pure_bind]
            by_cases hstarts : testFrameMagic.take (frame ++ [byte]).length = frame ++ [byte]
            · simp only [hstarts, ne_eq, not_true_eq_false, if_false]
              rfl
            · simp only [hstarts, ne_eq, not_false_eq_true, if_true, addSerialRange_fields]
              rfl
        · simp only [hshort, if_false, pushFrameByte, LiveState.pushFrameByte]
          cases escaped with
          | true =>
            cases standIn byte with
            | none => rfl
            | some decoded =>
              cases decide (frame.length ≥ limits.frameBytes.toNat) <;> rfl
          | false =>
            by_cases hescape : byte = slipEscape
            · simp [hescape, Except.map, state]
            · simp only [Bool.false_eq_true, hescape, if_false]
              cases decide (frame.length ≥ limits.frameBytes.toNat) <;> rfl

/-- The chunks of a session are read like one stretch of bytes, wherever they lie. -/
theorem state_push (bytes : List UInt8) (start : ℕ) :
    (observer.push bytes start).map state = bytes.foldlM LiveState.pushByte observer.state := by
  induction bytes generalizing observer start with
  | nil => rfl
  | cons byte bytes ih =>
    rw [push, foldlM_cons, ← state_pushByte start]
    cases observer.pushByte start byte with
    | error error => rfl
    | ok pushed => exact ih (start + 1)

theorem state_pushChunks (chunks : List (List UInt8)) (start : ℕ) :
    (observer.pushChunks chunks start).map state =
      chunks.flatten.foldlM LiveState.pushByte observer.state := by
  induction chunks generalizing observer start with
  | nil => rfl
  | cons chunk chunks ih =>
    rw [pushChunks, flatten_cons, foldlM_append, ← state_push chunk start]
    cases observer.push chunk start with
    | error error => rfl
    | ok pushed => exact ih (start + chunk.length)

theorem finish_eq_ok {streamEnd : ℕ} {preserve : Bool} {events : List ObservedEvent} :
    (∃ last, observer.finish streamEnd preserve = .ok last ∧ last.events = events) ↔
      (observer.started = false ∨ observer.rawSegment = true ∨
        observer.frame.length < testFrameMagic.length ∨ preserve = true) ∧
      events = observer.events := by
  unfold finish
  split
  · rename_i hidle
    have hopen : observer.started = false ∨ observer.rawSegment = true ∨
        observer.frame.length < testFrameMagic.length ∨ preserve = true := by
      simp only [Bool.or_eq_true, Bool.not_eq_true', List.isEmpty_iff] at hidle
      rcases hidle with (hstarted | hraw) | hempty
      · exact .inl hstarted
      · exact .inr (.inl hraw)
      · exact .inr (.inr (.inl (by rw [hempty]; decide)))
    simp only [Except.ok.injEq, exists_eq_left', hopen, true_and]
    exact eq_comm
  · rename_i hidle
    simp only [Bool.or_eq_true, Bool.not_eq_true', not_or, Bool.not_eq_false] at hidle
    obtain ⟨⟨hstarted, hraw⟩, -⟩ := hidle
    split
    · rename_i hshort
      simp only [Except.ok.injEq, exists_eq_left', hshort, true_or, or_true, true_and, resetSegment,
        addSerialRange_fields]
      exact eq_comm
    · rename_i hshort
      cases preserve with
      | true =>
        simp only [if_true, Except.ok.injEq, exists_eq_left', or_true, true_and, resetSegment]
        exact eq_comm
      | false => simp [hstarted, hraw, hshort]

end LiveSerialObserver

namespace LiveState

section Segment

variable {limits : ProtocolLimits} {events : List TestEvent}

/-- The observer at the start of a segment. -/
def between (limits : ProtocolLimits) (events : List TestEvent) : LiveState :=
  ⟨limits, true, false, false, [], events⟩

theorem foldlM_raw {text : List UInt8} (h : slipEnd ∉ text) {state : LiveState}
    (hraw : state.rawSegment = true) : text.foldlM pushByte state = .ok state := by
  induction text with
  | nil => rfl
  | cons byte text ih =>
    rw [mem_cons, not_or] at h
    have hstep : state.pushByte byte = .ok state := by simp [pushByte, Ne.symm h.1, hraw]
    rw [foldlM_cons, hstep, ok_bind, ih h.2]

theorem foldlM_magic (hlimit : testFrameMagic.length ≤ limits.frameBytes.toNat)
    (hn : n ≤ testFrameMagic.length) :
    (testFrameMagic.take n).foldlM pushByte (between limits events) =
      .ok ⟨limits, true, false, false, testFrameMagic.take n, events⟩ := by
  induction n with
  | zero => rfl
  | succ n ih =>
    have hlt : n < testFrameMagic.length := hn
    have hend : testFrameMagic[n] ≠ slipEnd := by
      have hall : ∀ byte ∈ testFrameMagic, byte ≠ slipEnd := by decide
      exact hall _ (getElem_mem hlt)
    have hroom : ¬ limits.frameBytes.toNat ≤ n := by omega
    rw [take_succ_eq_append_getElem hlt, foldlM_append, ih hlt.le, ok_bind]
    simp [pushByte, pushFrameByte, hend, hlt, hlt.le, hroom]
    rfl

/-- A text is no event, and leaves the observer between segments. -/
theorem foldlM_text (hlimit : testFrameMagic.length ≤ limits.frameBytes.toNat)
    {segment : List UInt8} (hend : slipEnd ∉ segment) (hframe : ¬ IsFrame segment) :
    ∃ last, segment.foldlM pushByte (between limits events) = .ok last ∧ last.events = events ∧
      (last.rawSegment = true ∨ last.frame.length < testFrameMagic.length) ∧
      last.pushByte slipEnd = .ok (between limits events) := by
  obtain ⟨n, hn, rfl | ⟨byte, rest, rfl, hbyte⟩⟩ := exists_leaves hframe
  · refine ⟨_, foldlM_magic hlimit hn.le, rfl, .inr ?_, ?_⟩
    · rwa [length_take_of_le hn.le]
    · simp [pushByte, finishSegment, hn, resetSegment, between]
  · rw [mem_append, mem_cons, not_or, not_or] at hend
    obtain ⟨-, hend, hrest⟩ := hend
    have hraw : pushByte ⟨limits, true, false, false, testFrameMagic.take n, events⟩ byte =
        .ok ⟨limits, true, true, false, [], events⟩ := by
      have hroom : ¬ limits.frameBytes.toNat ≤ n := by omega
      have hoff : testFrameMagic.take (n + 1) ≠ testFrameMagic.take n ++ [byte] := by
        rw [take_succ_eq_append_getElem hn]
        intro heq
        rw [append_cancel_left_eq, List.cons.injEq] at heq
        exact hbyte (by rw [List.getElem?_eq_getElem hn, heq.1])
      simp [pushByte, pushFrameByte, Ne.symm hend, hn, hn.le, hroom, hoff]
      rfl
    rw [foldlM_append, foldlM_magic hlimit hn.le, ok_bind, foldlM_cons, hraw, ok_bind,
      foldlM_raw hrest rfl]
    exact ⟨_, rfl, rfl, .inl rfl, rfl⟩

theorem pushFrameByte_eq_ok {state next : LiveState} {byte : UInt8} :
    state.pushFrameByte byte = .ok next ↔ state.frame.length < state.limits.frameBytes.toNat ∧
      next = { state with frame := state.frame ++ [byte] } := by
  simp only [pushFrameByte, unit_bind_eq_ok, failIf_eq_ok, decide_eq_false_iff_not, ge_iff_le,
    not_le]
  exact and_congr_right fun _ ↦ ⟨fun h ↦ (Except.ok.inj h).symm, fun h ↦ h ▸ rfl⟩

theorem pushByte_receives : Receives pushByte
    (fun frame escaped ↦ ⟨limits, true, false, escaped, frame, events⟩) testFrameMagic.length
    limits.frameBytes.toNat where
  standIn frame byte next hmagic hend := by
    simp only [pushByte, hend, if_false, Bool.not_true, Bool.or_self, Bool.false_eq_true,
      Nat.not_lt.2 hmagic, if_true, bind_eq_ok, orFail_eq_ok, pushFrameByte_eq_ok]
    constructor
    · rintro ⟨decoded, hdecoded, _, ⟨hroom, rfl⟩, hnext⟩
      exact ⟨decoded, hdecoded, hroom, (Except.ok.inj hnext).symm⟩
    · rintro ⟨decoded, hdecoded, hroom, rfl⟩
      exact ⟨decoded, hdecoded, _, ⟨hroom, rfl⟩, rfl⟩
  escape frame hmagic := by
    have hend : slipEscape ≠ slipEnd := by decide
    simp [pushByte, hend, Nat.not_lt.2 hmagic]
  plain frame byte next hmagic hend hescape := by
    simp only [pushByte, hend, if_false, Bool.not_true, Bool.or_self, Bool.false_eq_true,
      Nat.not_lt.2 hmagic, hescape, pushFrameByte_eq_ok]

/-- A delimiter after a frame decodes it, unless an escape is open. -/
theorem pushByte_close {frame : List UInt8} {escaped : Bool} {next : LiveState}
    (hmagic : testFrameMagic.length ≤ frame.length) :
    pushByte ⟨limits, true, false, escaped, frame, events⟩ slipEnd = .ok next ↔
      escaped = false ∧ ∃ event, decodeAndVerifyEvent frame limits = .ok event ∧
        event.sequence.toNat = events.length ∧ events.length < limits.events.toNat ∧
        next = between limits (events ++ [event]) := by
  simp only [pushByte, if_true, finishSegment, Bool.false_or, decide_eq_true_eq,
    Nat.not_lt.2 hmagic, if_false, bind_eq_ok, exists_unit, failIf_eq_ok, mapError_eq_ok,
    bne_eq_false_iff_eq, decide_eq_false_iff_not, ge_iff_le, not_le]
  refine and_congr_right fun hescaped ↦ exists_congr fun event ↦ and_congr_right fun _ ↦
    and_congr_right fun _ ↦ and_congr_right fun _ ↦ ⟨fun h ↦ (Except.ok.inj h).symm, fun h ↦ ?_⟩
  subst h
  rfl

/-- A frame is one event. -/
theorem foldlM_frame (hlimit : testFrameMagic.length ≤ limits.frameBytes.toNat)
    {segment : List UInt8} (hend : slipEnd ∉ segment) (hframe : IsFrame segment)
    {next : LiveState} :
    (segment ++ [slipEnd]).foldlM pushByte (between limits events) = .ok next ↔
      ∃ event, unescape segment = some (frameOf event) ∧ Sendable limits event ∧
        event.sequence.toNat = events.length ∧ next = between limits (events ++ [event]) := by
  have hmagic : testFrameMagic.foldlM pushByte (between limits events) =
      .ok ⟨limits, true, false, false, testFrameMagic, events⟩ :=
    foldlM_magic hlimit (Nat.le_refl testFrameMagic.length)
  simp only [foldlM_append, bind_eq_ok, foldlM_cons, foldlM_nil,
    receives_foldlM_opened pushByte_receives hmagic hlimit hend hframe]
  constructor
  · rintro ⟨_, ⟨frame, escaped, hframe, -, hmagic, rfl⟩, after, hstep, hnext⟩
    obtain ⟨rfl, event, hevent, hsequence, -, rfl⟩ := (pushByte_close hmagic).1 hstep
    obtain ⟨hsend, rfl⟩ := decodeAndVerifyEvent_eq_ok.1 hevent
    exact ⟨event, unescape_eq_some.2 hframe, hsend, hsequence, (Except.ok.inj hnext).symm⟩
  · rintro ⟨event, hunescape, hsend, hsequence, rfl⟩
    have hmagic := magic_le_of_unescapeFrom hframe (unescape_eq_some.1 hunescape)
    obtain ⟨-, -, hlt, -⟩ := validateEvent_eq_ok.1 hsend.1
    exact ⟨_, ⟨_, false, unescape_eq_some.1 hunescape, hsend.2, hmagic, rfl⟩, _,
      (pushByte_close hmagic).2 ⟨rfl, event, decodeAndVerifyEvent_eq_ok.2 ⟨hsend, rfl⟩, hsequence,
        by omega, rfl⟩, rfl⟩

end Segment

section Stream

variable {limits : ProtocolLimits} {events : List TestEvent}

/-- Events numbered from `first` on. -/
def Numbered (first : ℕ) (events : List TestEvent) : Prop :=
  ∀ (i : ℕ) event, events[i]? = some event → event.sequence.toNat = first + i

theorem numbered_cons :
    Numbered first (event :: events) ↔
      event.sequence.toNat = first ∧ Numbered (first + 1) events := by
  constructor
  · intro h
    refine ⟨h 0 event rfl, fun i later hlater ↦ ?_⟩
    rw [h (i + 1) later hlater]
    omega
  · rintro ⟨hevent, hlater⟩ i later hi
    cases i with
    | zero =>
      cases hi
      exact hevent
    | succ i =>
      rw [hlater i later hi]
      omega

/-- A run over segments adds one event for every frame. -/
theorem foldlM_segments (hlimit : testFrameMagic.length ≤ limits.frameBytes.toNat)
    {segments : List (List UInt8)} (hend : ∀ segment ∈ segments, slipEnd ∉ segment)
    {next : LiveState} :
    (segments.flatMap (· ++ [slipEnd])).foldlM pushByte (between limits events) = .ok next ↔
      ∃ later, Carries segments (later.map frameOf) ∧ (∀ event ∈ later, Sendable limits event) ∧
        Numbered events.length later ∧ next = between limits (events ++ later) := by
  induction segments generalizing events with
  | nil =>
    simp only [flatMap_nil, foldlM_nil, carries_nil, map_eq_nil_iff]
    constructor
    · intro h
      exact ⟨[], rfl, by simp, fun i event hevent ↦ by simp at hevent,
        by simpa using (Except.ok.inj h).symm⟩
    · rintro ⟨_, rfl, -, -, rfl⟩
      rw [append_nil]
      rfl
  | cons segment segments ih =>
    obtain ⟨hsegment, hsegments⟩ := forall_mem_cons.1 hend
    rw [flatMap_cons, foldlM_append, bind_eq_ok]
    by_cases hframe : IsFrame segment
    · simp only [foldlM_frame hlimit hsegment hframe, carries_cons hframe]
      constructor
      · rintro ⟨_, ⟨event, hunescape, hsend, hsequence, rfl⟩, hrun⟩
        obtain ⟨later, hcarries, hsendable, hnumbered, rfl⟩ := (ih hsegments).1 hrun
        rw [length_append, length_singleton] at hnumbered
        exact ⟨event :: later, ⟨_, _, hunescape, hcarries, rfl⟩,
          forall_mem_cons.2 ⟨hsend, hsendable⟩, numbered_cons.2 ⟨hsequence, hnumbered⟩,
          by simp⟩
      · rintro ⟨later, ⟨frame, frames, hunescape, hcarries, hlater⟩, hsendable, hnumbered, rfl⟩
        obtain ⟨event, later, rfl, rfl, rfl⟩ := map_eq_cons_iff.1 hlater
        obtain ⟨hsend, hsendable⟩ := forall_mem_cons.1 hsendable
        obtain ⟨hsequence, hnumbered⟩ := numbered_cons.1 hnumbered
        refine ⟨_, ⟨event, hunescape, hsend, hsequence, rfl⟩,
          (ih hsegments).2 ⟨later, hcarries, hsendable, ?_, by simp⟩⟩
        rwa [length_append, length_singleton]
    · obtain ⟨last, hlast, -, -, hclose⟩ :=
        @foldlM_text limits events hlimit segment hsegment hframe
      have hstep : (segment ++ [slipEnd]).foldlM pushByte (between limits events) =
          .ok (between limits events) := by
        rw [foldlM_append, hlast, ok_bind, foldlM_cons, hclose]
        rfl
      simp only [hstep, Except.ok.injEq, exists_eq_left', carries_cons_of_not hframe]
      exact ih hsegments

theorem foldlM_tail (hlimit : testFrameMagic.length ≤ limits.frameBytes.toNat) {tail : List UInt8}
    (hend : slipEnd ∉ tail) {preserve : Bool} {result : List TestEvent} :
    (∃ last, tail.foldlM pushByte (between limits events) = .ok last ∧
        (last.started = false ∨ last.rawSegment = true ∨
          last.frame.length < testFrameMagic.length ∨ preserve = true) ∧ last.events = result) ↔
      result = events ∧ (¬ IsFrame tail ∨
        preserve = true ∧ Unfinished limits.frameBytes.toNat tail) := by
  by_cases hframe : IsFrame tail
  · have hmagic : testFrameMagic.foldlM pushByte (between limits events) =
        .ok ⟨limits, true, false, false, testFrameMagic, events⟩ :=
      foldlM_magic hlimit (Nat.le_refl testFrameMagic.length)
    simp only [receives_foldlM_opened pushByte_receives hmagic hlimit hend hframe, hframe,
      not_true_eq_false, false_or]
    constructor
    · rintro ⟨_, ⟨frame, escaped, hframe, hfits, hmagic, rfl⟩, hpreserve, rfl⟩
      exact ⟨rfl, by simpa [Nat.not_lt.2 hmagic] using hpreserve, frame, escaped, hframe, hfits⟩
    · rintro ⟨rfl, rfl, frame, escaped, htail, hfits⟩
      exact ⟨_, ⟨frame, escaped, htail, hfits, magic_le_of_unescapeFrom hframe htail, rfl⟩,
        .inr (.inr (.inr rfl)), rfl⟩
  · obtain ⟨last, hlast, hevents, hopen, -⟩ := @foldlM_text limits events hlimit tail hend hframe
    simp only [hlast, Except.ok.injEq, exists_eq_left', hframe, not_false_eq_true, true_or,
      and_true, hevents]
    constructor
    · rintro ⟨-, rfl⟩
      rfl
    · rintro rfl
      exact ⟨.inr (hopen.imp_right .inl), rfl⟩

theorem foldlM_preamble {preamble : List UInt8} (hend : slipEnd ∉ preamble) :
    preamble.foldlM pushByte (LiveSerialObserver.new limits).state =
      .ok (LiveSerialObserver.new limits).state := by
  induction preamble with
  | nil => rfl
  | cons byte preamble ih =>
    rw [mem_cons, not_or] at hend
    have hstep : (LiveSerialObserver.new limits).state.pushByte byte =
        .ok (LiveSerialObserver.new limits).state := by
      simp [pushByte, Ne.symm hend.1, LiveSerialObserver.new, LiveSerialObserver.state]
    rw [foldlM_cons, hstep, ok_bind, ih hend.2]

end Stream

end LiveState

namespace LiveSerialObserver

/-- The typed events of an observer. -/
def testEvents (observer : LiveSerialObserver) : List TestEvent := observer.events.map (·.event)

/-- The end of a session, seen without positions. -/
theorem observe_eq_foldlM {limits : ProtocolLimits} {chunks : List (List UInt8)} {preserve : Bool}
    {events : List TestEvent} :
    (∃ observer, observe limits chunks preserve = .ok observer ∧ observer.testEvents = events) ↔
      ∃ last, chunks.flatten.foldlM LiveState.pushByte (new limits).state = .ok last ∧
        (last.started = false ∨ last.rawSegment = true ∨
          last.frame.length < testFrameMagic.length ∨ preserve = true) ∧ last.events = events := by
  rw [← state_pushChunks chunks 0, observe]
  cases (new limits).pushChunks chunks 0 with
  | error error => simp [Except.map]
  | ok pushed =>
    simp only [ok_bind, Except.map, Except.ok.injEq, exists_eq_left']
    constructor
    · rintro ⟨observer, hfinish, rfl⟩
      obtain ⟨hopen, hevents⟩ := finish_eq_ok.1 ⟨observer, hfinish, rfl⟩
      exact ⟨hopen, by rw [testEvents, hevents]; rfl⟩
    · rintro ⟨hopen, rfl⟩
      obtain ⟨observer, hfinish, hevents⟩ := finish_eq_ok.2 ⟨hopen, rfl⟩
      exact ⟨observer, hfinish, by rw [testEvents, hevents]; rfl⟩

/-- The live observer ends with one event for every frame of the stream, however the stream came in. -/
theorem observe_eq_ok {limits : ProtocolLimits} (hlimits : limits.Valid)
    {chunks : List (List UInt8)} {bytes : List UInt8} (hbytes : chunks.flatten = bytes)
    {preserve : Bool} {events : List TestEvent} :
    (∃ observer, observe limits chunks preserve = .ok observer ∧ observer.testEvents = events) ↔
      Carries (serialSegments bytes) (events.map frameOf) ∧
      (∀ event ∈ events, Sendable limits event) ∧ LiveState.Numbered 0 events ∧
      (¬ IsFrame (serialTail bytes) ∨
        preserve = true ∧ Unfinished limits.frameBytes.toNat (serialTail bytes)) := by
  rw [observe_eq_foldlM, hbytes]
  have hlimit : testFrameMagic.length ≤ limits.frameBytes.toNat :=
    (show testFrameMagic.length ≤ testFrameHeaderBytes by decide).trans hlimits.header_le
  rcases serial_cases bytes with ⟨hend, hsegments, htail⟩ | ⟨preamble, hend, hsegments, htail, hbytes⟩
  · rw [hsegments, htail, LiveState.foldlM_preamble hend]
    have hempty : ¬ IsFrame [] := by decide
    simp only [Except.ok.injEq, exists_eq_left', carries_nil, map_eq_nil_iff, hempty,
      not_false_eq_true, true_or, and_true]
    constructor
    · rintro ⟨-, rfl⟩
      exact ⟨rfl, by simp [new, state], fun i event hevent ↦ by simp [new, state] at hevent⟩
    · rintro ⟨rfl, -⟩
      exact ⟨.inl rfl, rfl⟩
  · have hstart : (new limits).state.pushByte slipEnd = .ok (LiveState.between limits []) := rfl
    have hrun : bytes.foldlM LiveState.pushByte (new limits).state =
        (do
          let state ← ((serialSegments bytes).flatMap (· ++ [slipEnd])).foldlM LiveState.pushByte
            (LiveState.between limits [])
          (serialTail bytes).foldlM LiveState.pushByte state) := by
      conv_lhs => rw [hbytes]
      rw [foldlM_append, LiveState.foldlM_preamble hend, ok_bind, foldlM_cons, hstart,
        ok_bind, join, foldlM_append]
    simp only [hrun, bind_eq_ok, LiveState.foldlM_segments hlimit hsegments, nil_append, length_nil]
    constructor
    · rintro ⟨last, ⟨_, ⟨later, hcarries, hsendable, hnumbered, rfl⟩, hlast⟩, hopen, hevents⟩
      obtain ⟨rfl, hrest⟩ := (LiveState.foldlM_tail hlimit htail).1 ⟨last, hlast, hopen, hevents⟩
      exact ⟨hcarries, hsendable, hnumbered, hrest⟩
    · rintro ⟨hcarries, hsendable, hnumbered, hrest⟩
      obtain ⟨last, hlast, hopen, hevents⟩ :=
        (@LiveState.foldlM_tail limits events hlimit _ htail preserve events).2 ⟨rfl, hrest⟩
      exact ⟨last, ⟨_, ⟨events, hcarries, hsendable, hnumbered, rfl⟩, hlast⟩, hopen, hevents⟩

end LiveSerialObserver

end Wrela.TestRunner
