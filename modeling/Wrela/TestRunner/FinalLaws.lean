import Wrela.TestRunner.Harness
import Wrela.Wire.Folds

/-!
# What the final demultiplexer reads

A serial stream is a preamble, the segments between its delimiters and an unfinished tail.
`decodeSlip_eq_ok` says which of them `decodeSlip` returns: the frames among the segments it sees.
It does not see every segment: after a `Hanging` one, which ends in an open escape before the magic
is complete, it takes the closing delimiter for the escaped byte and skips to the next delimiter.
-/

namespace Wrela.TestRunner

open List Wrela.Checked Wrela.Slip Wrela.TestProtocol

-- whatever the elements are, only those of the list are tried
open scoped Wrela.FiniteChecks

/-! ## Segments -/

/-- The segments of a serial stream that a delimiter opens and another closes. -/
def serialSegments (bytes : List UInt8) : List (List UInt8) := (cut bytes).1.tail

/-- What follows the last delimiter. -/
def serialTail (bytes : List UInt8) : List UInt8 :=
  if (cut bytes).1.isEmpty then [] else (cut bytes).2

def IsFrame (segment : List UInt8) : Prop := testFrameMagic <+: segment

instance : DecidablePred IsFrame := fun segment ↦
  inferInstanceAs (Decidable (testFrameMagic <+: segment))

/-- The segment opens an escape before it has shown the whole magic, and ends there. -/
def Hanging (segment : List UInt8) : Prop :=
  ∃ n < testFrameMagic.length, segment = testFrameMagic.take n ++ [slipEscape]

instance : DecidablePred Hanging := fun segment ↦
  inferInstanceAs (Decidable (∃ n < testFrameMagic.length, segment = _))

/-- The segments that are read when the one after a hanging segment is skipped. -/
def keptFrom : Bool → List (List UInt8) → List (List UInt8)
  | _, [] => []
  | true, _ :: segments => keptFrom false segments
  | false, segment :: segments => segment :: keptFrom (decide (Hanging segment)) segments

/-- The segments that are skipped. -/
def lostFrom : Bool → List (List UInt8) → List (List UInt8)
  | _, [] => []
  | true, segment :: segments => segment :: lostFrom false segments
  | false, segment :: segments => lostFrom (decide (Hanging segment)) segments

/-- Whether the tail is skipped. -/
def tailLostFrom : Bool → List (List UInt8) → Bool
  | lost, [] => lost
  | true, _ :: segments => tailLostFrom false segments
  | false, segment :: segments => tailLostFrom (decide (Hanging segment)) segments

/-- The frames that the segments carry, in order. -/
def Carries (segments frames : List (List UInt8)) : Prop :=
  List.Forall₂ (fun segment frame ↦ unescape segment = some frame)
    (segments.filter fun segment ↦ IsFrame segment) frames

/-- An unfinished frame that is well formed so far. -/
def Unfinished (frameLimit : ℕ) (tail : List UInt8) : Prop :=
  ∃ frame escaped, unescapeFrom false tail = some (frame, escaped) ∧ frame.length ≤ frameLimit

theorem carries_nil : Carries [] frames ↔ frames = [] := by
  simp [Carries]

theorem carries_cons_of_not {segment : List UInt8} {segments frames : List (List UInt8)}
    (h : ¬ IsFrame segment) : Carries (segment :: segments) frames ↔ Carries segments frames := by
  rw [Carries, filter_cons_of_neg (by simpa using h), Carries]

theorem carries_cons {segment : List UInt8} {segments frames : List (List UInt8)}
    (h : IsFrame segment) : Carries (segment :: segments) frames ↔
      ∃ frame later, unescape segment = some frame ∧ Carries segments later ∧
        frames = frame :: later := by
  rw [Carries, filter_cons_of_pos (by simpa using h), List.forall₂_cons_left_iff]
  rfl

theorem slipEscape_not_mem_magic : slipEscape ∉ testFrameMagic := by decide

/-- No escape stands for a byte of the magic. -/
theorem standIn_not_magic {byte decoded : UInt8} (h : standIn byte = some decoded) {n : ℕ} :
    testFrameMagic[n]? ≠ some decoded := by
  intro hmem
  have hplain : ∀ byte ∈ testFrameMagic, byte ≠ slipEnd ∧ byte ≠ slipEscape := by decide
  obtain ⟨hend, hescape⟩ := hplain _ (mem_of_getElem? hmem)
  unfold standIn at h
  split at h
  · exact hend (Option.some.inj h).symm
  · split at h
    · exact hescape (Option.some.inj h).symm
    · cases h

theorem Hanging.not_isFrame {segment : List UInt8} (h : Hanging segment) : ¬ IsFrame segment := by
  obtain ⟨n, hn, rfl⟩ := h
  intro hframe
  have hlength := hframe.length_le
  rw [length_append, length_take_of_le hn.le, length_singleton] at hlength
  have heq := hframe.eq_of_length_le (by simp; omega)
  exact slipEscape_not_mem_magic (heq ▸ mem_append_right _ (mem_singleton_self _))

theorem not_hanging_take {n : ℕ} : ¬ Hanging (testFrameMagic.take n) := by
  rintro ⟨m, -, heq⟩
  have hmem : slipEscape ∈ testFrameMagic.take n := heq ▸ mem_append_right _ (by simp)
  exact slipEscape_not_mem_magic (mem_of_mem_take hmem)

theorem hanging_leaves {n : ℕ} {byte : UInt8} {rest : List UInt8} (hn : n < testFrameMagic.length)
    (hbyte : testFrameMagic[n]? ≠ some byte) :
    Hanging (testFrameMagic.take n ++ byte :: rest) ↔ byte = slipEscape ∧ rest = [] := by
  constructor
  · rintro ⟨m, hm, heq⟩
    have hlength := congrArg List.length heq
    simp only [length_append, length_take_of_le hn.le, length_take_of_le hm.le,
      length_cons, length_nil] at hlength
    rcases Nat.lt_or_eq_of_le (show n ≤ m by omega) with hlt | rfl
    · have hat := congrArg (·[n]?) heq
      simp only [List.getElem?_append_left, length_take_of_le hm.le, hlt,
        List.getElem?_take_of_lt] at hat
      rw [List.getElem?_append_right (by simp), length_take_of_le hn.le, Nat.sub_self] at hat
      exact absurd hat.symm hbyte
    · simpa using append_cancel_left heq
  · rintro ⟨rfl, rfl⟩
    exact ⟨n, hn, rfl⟩

/-- Where a text leaves a prefix it does not have. -/
theorem exists_leaves {α : Type} {start text : List α} (h : ¬ start <+: text) :
    ∃ n < start.length, text = start.take n ∨
      ∃ a rest, text = start.take n ++ a :: rest ∧ start[n]? ≠ some a := by
  induction start generalizing text with
  | nil => exact absurd ( nil_prefix) h
  | cons b start ih =>
    cases text with
    | nil => exact ⟨0, by simp, .inl (by simp)⟩
    | cons a text =>
      by_cases hhead : b = a
      · subst hhead
        obtain ⟨n, hn, htext⟩ := @ih text fun hstarts ↦ h (cons_prefix_cons.2 ⟨rfl, hstarts⟩)
        exact ⟨n + 1, by simpa using hn, by simpa using htext⟩
      · exact ⟨0, by simp, .inr ⟨a, text, by simp [hhead]⟩⟩

/-- Every frame has its magic. -/
theorem magic_le_of_unescapeFrom {segment frame : List UInt8} {escaped : Bool}
    (hframe : IsFrame segment) (h : unescapeFrom false segment = some (frame, escaped)) :
    testFrameMagic.length ≤ frame.length := by
  obtain ⟨body, rfl⟩ := hframe
  rw [unescapeFrom_append slipEscape_not_mem_magic] at h
  obtain ⟨⟨rest, pending⟩, -, hsome⟩ := Option.map_eq_some_iff.1 h
  obtain ⟨rfl, -⟩ := Prod.mk.inj hsome
  simp

/-- A receiver that takes over the magic has the whole frame at the end of its segment. -/
theorem receives_foldlM_opened {σ ε : Type} {step : σ → UInt8 → Except ε σ}
    {state : List UInt8 → Bool → σ} {limit : ℕ}
    (h : Receives step state testFrameMagic.length limit) {start : σ}
    (hmagic : testFrameMagic.foldlM step start = .ok (state testFrameMagic false))
    (hlimit : testFrameMagic.length ≤ limit) {segment : List UInt8} (hend : slipEnd ∉ segment)
    (hframe : IsFrame segment) {next : σ} :
    segment.foldlM step start = .ok next ↔
      ∃ frame escaped, unescapeFrom false segment = some (frame, escaped) ∧
        frame.length ≤ limit ∧ testFrameMagic.length ≤ frame.length ∧
        next = state frame escaped := by
  obtain ⟨body, rfl⟩ := hframe
  rw [mem_append, not_or] at hend
  rw [foldlM_append, hmagic, ok_bind, h.foldlM_eq_ok hend.2 le_rfl hlimit,
    unescapeFrom_append slipEscape_not_mem_magic]
  constructor
  · rintro ⟨rest, pending, hrest, hfits, hnext⟩
    exact ⟨_, pending, by rw [hrest]; rfl, hfits, by simp, hnext⟩
  · rintro ⟨frame, escaped, hframe, hfits, -, hnext⟩
    obtain ⟨⟨rest, pending⟩, hrest, hsome⟩ := Option.map_eq_some_iff.1 hframe
    obtain ⟨rfl, rfl⟩ := Prod.mk.inj hsome
    exact ⟨rest, pending, hrest, hfits, hnext⟩

section Segment

variable {frameLimit streamLimit : ℕ} {stream : List UInt8}

/-- The demultiplexer at the start of a segment, which it reads or skips. -/
def between (skip : Bool) (stream : List UInt8) : SlipState := ⟨stream, [], true, false, skip⟩

theorem foldlM_skip {segment : List UInt8} (h : slipEnd ∉ segment) :
    segment.foldlM (decodeSlipByte frameLimit streamLimit) (between true stream) =
      .ok (between true stream) := by
  induction segment with
  | nil => rfl
  | cons byte segment ih =>
    rw [mem_cons, not_or] at h
    have hstep : decodeSlipByte frameLimit streamLimit (between true stream) byte =
        .ok (between true stream) := by
      simp [decodeSlipByte, between, Ne.symm h.1]
    rw [foldlM_cons, hstep, ok_bind, ih h.2]

/-- The magic is taken over byte by byte. -/
theorem foldlM_magic (hlimit : testFrameMagic.length ≤ frameLimit) {n : ℕ}
    (hn : n ≤ testFrameMagic.length) :
    (testFrameMagic.take n).foldlM (decodeSlipByte frameLimit streamLimit) (between false stream) =
      .ok ⟨stream, testFrameMagic.take n, true, false, false⟩ := by
  induction n with
  | zero => rfl
  | succ n ih =>
    have hlt : n < testFrameMagic.length := hn
    have hplain : testFrameMagic[n] ≠ slipEnd ∧ testFrameMagic[n] ≠ slipEscape := by
      have hall : ∀ byte ∈ testFrameMagic, byte ≠ slipEnd ∧ byte ≠ slipEscape := by decide
      exact hall _ (getElem_mem hlt)
    have hroom : ¬ frameLimit ≤ n := by omega
    rw [take_succ_eq_append_getElem hlt, foldlM_append, ih hlt.le, ok_bind]
    simp [decodeSlipByte, pushSegmentByte, pushFrameByte, hplain.1, hplain.2, hlt.le, hroom, hlt,
      failIf]

/-- A byte that enters a frame past its magic needs room. -/
theorem pushSegmentByte_eq_ok {frame : List UInt8} {byte : UInt8} {escaped : Bool}
    {next : SlipState} (hmagic : testFrameMagic.length ≤ frame.length) :
    pushSegmentByte ⟨stream, frame, true, escaped, false⟩ byte frameLimit = .ok next ↔
      frame.length < frameLimit ∧ next = ⟨stream, frame ++ [byte], true, escaped, false⟩ := by
  have hpast : ¬ frame.length < testFrameMagic.length := by omega
  simp only [pushSegmentByte, hpast, false_and, if_false, pushFrameByte, bind_eq_ok, exists_unit,
    failIf_eq_ok, decide_eq_false_iff_not, ge_iff_le, not_le]
  constructor
  · rintro ⟨_, ⟨hroom, hframe⟩, hnext⟩
    cases hframe
    exact ⟨hroom, (Except.ok.inj hnext).symm⟩
  · rintro ⟨hroom, rfl⟩
    exact ⟨_, ⟨hroom, rfl⟩, rfl⟩

theorem decodeSlipByte_receives : Receives (decodeSlipByte frameLimit streamLimit)
    (fun frame escaped ↦ ⟨stream, frame, true, escaped, false⟩) testFrameMagic.length
    frameLimit where
  standIn frame byte next hmagic _ := by
    cases hdecoded : standIn byte with
    | none => simp [decodeSlipByte, hdecoded, hmagic]
    | some decoded =>
      simp only [decodeSlipByte, hdecoded, Bool.not_true, Bool.false_eq_true, if_false, if_true,
        bind_eq_ok, pushSegmentByte_eq_ok hmagic, Option.some.injEq, exists_eq_left']
      constructor
      · rintro ⟨_, ⟨hroom, rfl⟩, hafter⟩
        exact ⟨hroom, (Except.ok.inj hafter).symm⟩
      · rintro ⟨hroom, rfl⟩
        exact ⟨_, ⟨hroom, rfl⟩, rfl⟩
  escape _ _ := rfl
  plain frame byte next hmagic hend hescape := by
    simp only [decodeSlipByte, Bool.not_true, Bool.false_eq_true, if_false, hescape, hend,
      pushSegmentByte_eq_ok hmagic]

/-- A byte that breaks off the magic makes the segment raw text. -/
theorem pushSegmentByte_raw {n : ℕ} (hn : n < testFrameMagic.length) {byte : UInt8} {escaped : Bool}
    (hbyte : testFrameMagic[n]? ≠ some byte) :
    pushSegmentByte ⟨stream, testFrameMagic.take n, true, escaped, false⟩ byte frameLimit =
      .ok ⟨stream, [], true, escaped, true⟩ := by
  rw [pushSegmentByte, length_take_of_le hn.le, if_pos ⟨hn, hbyte⟩]

/-- A text adds nothing to the stream, and leaves the demultiplexer between segments; a hanging one
makes it skip the next. -/
theorem foldlM_text (hlimit : testFrameMagic.length ≤ frameLimit) {segment : List UInt8}
    (hend : slipEnd ∉ segment) (hframe : ¬ IsFrame segment) :
    ∃ last, segment.foldlM (decodeSlipByte frameLimit streamLimit) (between false stream) =
        .ok last ∧ last.stream = stream ∧
      (last.rawSegment = true ∨ last.frame.length < testFrameMagic.length) ∧
      decodeSlipByte frameLimit streamLimit last slipEnd =
        .ok (between (decide (Hanging segment)) stream) := by
  obtain ⟨n, hn, rfl | ⟨byte, rest, rfl, hbyte⟩⟩ := exists_leaves hframe
  · have hshort : ¬ testFrameMagic.length ≤ n := by omega
    refine ⟨_, foldlM_magic hlimit hn.le, rfl, .inr ?_, ?_⟩
    · rwa [length_take_of_le hn.le]
    · rw [decide_eq_false not_hanging_take]
      simp [decodeSlipByte, hshort, between]
  · rw [mem_append, mem_cons, not_or, not_or] at hend
    obtain ⟨-, hend, hrest⟩ := hend
    rw [foldlM_append, foldlM_magic hlimit hn.le, ok_bind, foldlM_cons]
    by_cases hescape : byte = slipEscape
    · subst hescape
      have hopen : decodeSlipByte frameLimit streamLimit
          ⟨stream, testFrameMagic.take n, true, false, false⟩ slipEscape =
            .ok ⟨stream, testFrameMagic.take n, true, true, false⟩ := rfl
      have hshort : ¬ testFrameMagic.length ≤ n := by omega
      rw [hopen, ok_bind]
      cases rest with
      | nil =>
        -- The delimiter is read as the escaped byte.
        have hhang : Hanging (testFrameMagic.take n ++ [slipEscape]) :=
          (hanging_leaves hn hbyte).2 ⟨rfl, rfl⟩
        refine ⟨_, rfl, rfl, .inr ?_, ?_⟩
        · rwa [length_take_of_le hn.le]
        · rw [decide_eq_true hhang]
          simp [decodeSlipByte, hshort, between, show standIn slipEnd = none from rfl]
      | cons after rest =>
        rw [mem_cons, not_or] at hrest
        have hraw : decodeSlipByte frameLimit streamLimit
            ⟨stream, testFrameMagic.take n, true, true, false⟩ after =
              .ok (between true stream) := by
          cases hdecoded : standIn after with
          | none => simp [decodeSlipByte, hdecoded, hshort, between]
          | some decoded =>
            simp only [decodeSlipByte, hdecoded, Bool.not_true, Bool.false_eq_true, if_false,
              if_true, pushSegmentByte_raw hn (standIn_not_magic hdecoded), ok_bind]
            rfl
        have hnot : ¬ Hanging (testFrameMagic.take n ++ slipEscape :: after :: rest) :=
          fun hhang ↦ cons_ne_nil _ _ ((hanging_leaves hn hbyte).1 hhang).2
        rw [foldlM_cons, hraw, ok_bind, foldlM_skip hrest.2, decide_eq_false hnot]
        exact ⟨_, rfl, rfl, .inl rfl, rfl⟩
    · have hraw : decodeSlipByte frameLimit streamLimit
          ⟨stream, testFrameMagic.take n, true, false, false⟩ byte = .ok (between true stream) := by
        simp only [decodeSlipByte, Bool.not_true, Bool.false_eq_true, if_false, hescape,
          Ne.symm hend, pushSegmentByte_raw hn hbyte]
        rfl
      have hnot : ¬ Hanging (testFrameMagic.take n ++ byte :: rest) := fun hhang ↦
        hescape ((hanging_leaves hn hbyte).1 hhang).1
      rw [hraw, ok_bind, foldlM_skip hrest, decide_eq_false hnot]
      exact ⟨_, rfl, rfl, .inl rfl, rfl⟩

/-- What a frame's segment leaves before its delimiter. -/
theorem foldlM_opened (hlimit : testFrameMagic.length ≤ frameLimit) {segment : List UInt8}
    (hend : slipEnd ∉ segment) (hframe : IsFrame segment) {next : SlipState} :
    segment.foldlM (decodeSlipByte frameLimit streamLimit) (between false stream) = .ok next ↔
      ∃ frame escaped, unescapeFrom false segment = some (frame, escaped) ∧
        frame.length ≤ frameLimit ∧ testFrameMagic.length ≤ frame.length ∧
        next = ⟨stream, frame, true, escaped, false⟩ := by
  have hmagic : testFrameMagic.foldlM (decodeSlipByte frameLimit streamLimit)
      (between false stream) = .ok ⟨stream, testFrameMagic, true, false, false⟩ :=
    foldlM_magic hlimit (Nat.le_refl testFrameMagic.length)
  exact receives_foldlM_opened decodeSlipByte_receives hmagic hlimit hend hframe

/-- A delimiter after a frame appends it to the stream, unless an escape is open. -/
theorem decodeSlipByte_close {frame : List UInt8} {escaped : Bool} {next : SlipState}
    (hmagic : testFrameMagic.length ≤ frame.length) :
    decodeSlipByte frameLimit streamLimit ⟨stream, frame, true, escaped, false⟩ slipEnd = .ok next ↔
      escaped = false ∧ stream.length + frame.length ≤ streamLimit ∧
        next = between false (stream ++ frame) := by
  cases escaped with
  | true => simp [decodeSlipByte, show standIn slipEnd = none from rfl, hmagic]
  | false =>
    simp only [decodeSlipByte, Bool.not_true, Bool.false_eq_true, if_false, if_true, ge_iff_le,
      hmagic, bind_eq_ok, exists_unit, failIf_eq_ok, decide_eq_false_iff_not, not_lt, gt_iff_lt,
      true_and]
    exact and_congr_right fun _ ↦ ⟨fun h ↦ (Except.ok.inj h).symm, fun h ↦ h ▸ rfl⟩

/-- A frame is added to the stream as it is unescaped. -/
theorem foldlM_frame (hlimit : testFrameMagic.length ≤ frameLimit) {segment : List UInt8}
    (hend : slipEnd ∉ segment) (hframe : IsFrame segment) {next : SlipState} :
    (segment ++ [slipEnd]).foldlM (decodeSlipByte frameLimit streamLimit) (between false stream) =
        .ok next ↔
      ∃ frame, unescape segment = some frame ∧ frame.length ≤ frameLimit ∧
        stream.length + frame.length ≤ streamLimit ∧ next = between false (stream ++ frame) := by
  simp only [foldlM_append, bind_eq_ok, foldlM_opened hlimit hend hframe, foldlM_cons, foldlM_nil]
  constructor
  · rintro ⟨_, ⟨frame, escaped, hframe, hfits, hmagic, rfl⟩, after, hstep, hnext⟩
    obtain ⟨rfl, hroom, rfl⟩ := (decodeSlipByte_close hmagic).1 hstep
    exact ⟨frame, unescape_eq_some.2 hframe, hfits, hroom, (Except.ok.inj hnext).symm⟩
  · rintro ⟨frame, hunescape, hfits, hroom, rfl⟩
    have hmagic := magic_le_of_unescapeFrom hframe (unescape_eq_some.1 hunescape)
    exact ⟨_, ⟨frame, false, unescape_eq_some.1 hunescape, hfits, hmagic, rfl⟩, _,
      (decodeSlipByte_close hmagic).2 ⟨rfl, hroom, rfl⟩, rfl⟩

end Segment

section Stream

variable {frameLimit streamLimit : ℕ} {stream : List UInt8}

/-- A run over segments adds the frames of those that are read. -/
theorem foldlM_segments (hlimit : testFrameMagic.length ≤ frameLimit)
    {segments : List (List UInt8)} (hend : ∀ segment ∈ segments, slipEnd ∉ segment) {skip : Bool}
    (hroom : stream.length ≤ streamLimit) {next : SlipState} :
    (segments.flatMap (· ++ [slipEnd])).foldlM (decodeSlipByte frameLimit streamLimit)
        (between skip stream) = .ok next ↔
      ∃ frames, Carries (keptFrom skip segments) frames ∧
        (∀ frame ∈ frames, frame.length ≤ frameLimit) ∧
        stream.length + frames.flatten.length ≤ streamLimit ∧
        next = between (tailLostFrom skip segments) (stream ++ frames.flatten) := by
  induction segments generalizing skip stream with
  | nil =>
    simp only [flatMap_nil, foldlM_nil, keptFrom, tailLostFrom, carries_nil]
    constructor
    · intro h
      exact ⟨[], rfl, by simp, by simpa using hroom, by simpa using (Except.ok.inj h).symm⟩
    · rintro ⟨_, rfl, -, -, rfl⟩
      simp
      rfl
  | cons segment segments ih =>
    obtain ⟨hsegment, hsegments⟩ := forall_mem_cons.1 hend
    rw [flatMap_cons, foldlM_append, bind_eq_ok]
    cases skip with
    | true =>
      have hskip : (segment ++ [slipEnd]).foldlM (decodeSlipByte frameLimit streamLimit)
          (between true stream) = .ok (between false stream) := by
        rw [foldlM_append, foldlM_skip hsegment]
        rfl
      simp only [hskip, Except.ok.injEq, exists_eq_left', keptFrom, tailLostFrom]
      exact ih hsegments hroom
    | false =>
      by_cases hframe : IsFrame segment
      · have hhang : decide (Hanging segment) = false :=
          decide_eq_false fun hhang ↦ hhang.not_isFrame hframe
        simp only [foldlM_frame hlimit hsegment hframe, keptFrom, tailLostFrom, hhang,
          carries_cons hframe]
        constructor
        · rintro ⟨_, ⟨frame, hunescape, hfits, hlength, rfl⟩, hrun⟩
          rw [← length_append] at hlength
          obtain ⟨frames, hcarries, hfit, htotal, rfl⟩ := (ih hsegments hlength).1 hrun
          rw [length_append] at htotal
          refine ⟨frame :: frames, ⟨frame, frames, hunescape, hcarries, rfl⟩,
            forall_mem_cons.2 ⟨hfits, hfit⟩, ?_, by simp⟩
          rw [flatten_cons, length_append]
          omega
        · rintro ⟨_, ⟨frame, frames, hunescape, hcarries, rfl⟩, hfit, htotal, rfl⟩
          obtain ⟨hfits, hfit⟩ := forall_mem_cons.1 hfit
          rw [flatten_cons, length_append] at htotal
          have hlength : (stream ++ frame).length ≤ streamLimit := by
            rw [length_append]
            omega
          refine ⟨_, ⟨frame, hunescape, hfits, by omega, rfl⟩,
            (ih hsegments hlength).2 ⟨frames, hcarries, hfit, ?_, by simp⟩⟩
          rw [length_append]
          omega
      · obtain ⟨last, hlast, -, -, hclose⟩ :=
          @foldlM_text frameLimit streamLimit stream hlimit segment hsegment hframe
        have hstep : (segment ++ [slipEnd]).foldlM (decodeSlipByte frameLimit streamLimit)
            (between false stream) = .ok (between (decide (Hanging segment)) stream) := by
          rw [foldlM_append, hlast, ok_bind, foldlM_cons, hclose]
          rfl
        simp only [hstep, Except.ok.injEq, exists_eq_left', keptFrom, tailLostFrom,
          carries_cons_of_not hframe]
        exact ih hsegments hroom

/-- The end of the stream inside a segment: the frame may be unfinished only where a complete prefix
is enough. -/
theorem foldlM_tail (hlimit : testFrameMagic.length ≤ frameLimit) {tail : List UInt8}
    (hend : slipEnd ∉ tail) {skip preserve : Bool} {result : List UInt8} :
    (∃ last, tail.foldlM (decodeSlipByte frameLimit streamLimit) (between skip stream) = .ok last ∧
        (!preserve && !last.rawSegment && decide (last.frame.length ≥ testFrameMagic.length)) =
          false ∧ last.stream = result) ↔
      result = stream ∧ (skip = true ∨ ¬ IsFrame tail ∨ preserve = true ∧ Unfinished frameLimit tail) := by
  cases skip with
  | true =>
    simp only [foldlM_skip hend, Except.ok.injEq, exists_eq_left', true_or, and_true]
    simp [between, eq_comm]
  | false =>
    by_cases hframe : IsFrame tail
    · simp only [foldlM_opened hlimit hend hframe]
      constructor
      · rintro ⟨_, ⟨frame, escaped, hframe, hfits, hmagic, rfl⟩, hpreserve, rfl⟩
        refine ⟨rfl, .inr (.inr ⟨?_, frame, escaped, hframe, hfits⟩)⟩
        simpa [hmagic] using hpreserve
      · rintro ⟨rfl, hskip | hnot | ⟨rfl, frame, escaped, htail, hfits⟩⟩
        · cases hskip
        · exact absurd hframe hnot
        · exact ⟨_, ⟨frame, escaped, htail, hfits, magic_le_of_unescapeFrom hframe htail, rfl⟩,
            rfl, rfl⟩
    · obtain ⟨last, hlast, hstream, hshort, -⟩ :=
        @foldlM_text frameLimit streamLimit stream hlimit tail hend hframe
      simp only [hlast, Except.ok.injEq, exists_eq_left', hframe, not_false_eq_true, true_or,
        or_true, and_true, hstream]
      constructor
      · rintro ⟨-, rfl⟩
        rfl
      · rintro rfl
        refine ⟨?_, rfl⟩
        rcases hshort with hraw | hshort
        · simp [hraw]
        · simp [hshort]

theorem decodeSlipByte_unstarted (h : byte ≠ slipEnd) :
    decodeSlipByte frameLimit streamLimit SlipState.new byte = .ok SlipState.new := by
  simp [decodeSlipByte, SlipState.new, h]

/-- The preamble is passed over. -/
theorem foldlM_preamble {preamble : List UInt8} (hend : slipEnd ∉ preamble) :
    preamble.foldlM (decodeSlipByte frameLimit streamLimit) SlipState.new = .ok SlipState.new := by
  induction preamble with
  | nil => rfl
  | cons byte preamble ih =>
    rw [mem_cons, not_or] at hend
    rw [foldlM_cons, decodeSlipByte_unstarted (Ne.symm hend.1), ok_bind, ih hend.2]

end Stream

/-- A serial stream either has no delimiter, or is a preamble and what follows the first one. -/
theorem serial_cases (bytes : List UInt8) :
    (slipEnd ∉ bytes ∧ serialSegments bytes = [] ∧ serialTail bytes = []) ∨
      ∃ preamble, slipEnd ∉ preamble ∧ (∀ segment ∈ serialSegments bytes, slipEnd ∉ segment) ∧
        slipEnd ∉ serialTail bytes ∧
        bytes = preamble ++ slipEnd :: join (serialSegments bytes) (serialTail bytes) := by
  have hjoin := join_cut bytes
  obtain ⟨hsegments, htail⟩ := slipEnd_not_mem_cut bytes
  rcases hcut : cut bytes with ⟨segments, tail⟩
  rw [hcut] at hjoin hsegments htail
  cases segments with
  | nil =>
    left
    rw [serialSegments, serialTail, hcut]
    refine ⟨?_, rfl, rfl⟩
    rw [← hjoin]
    exact htail
  | cons preamble segments =>
    right
    obtain ⟨hpreamble, hsegments⟩ := forall_mem_cons.1 hsegments
    rw [serialSegments, serialTail, hcut]
    refine ⟨preamble, hpreamble, hsegments, htail, ?_⟩
    rw [← hjoin, join_cons]
    rfl

/-- `decodeSlip` returns the frames of the segments it does not skip. -/
theorem decodeSlip_eq_ok {bytes stream : List UInt8} {limits : ProtocolLimits} {preserve : Bool} :
    decodeSlip bytes limits preserve = .ok stream ↔
      ∃ maximum, limits.maximumStreamBytes = .ok maximum ∧
        (∃ frames, Carries (keptFrom false (serialSegments bytes)) frames ∧
          (∀ frame ∈ frames, frame.length ≤ limits.frameBytes.toNat) ∧
          frames.flatten.length ≤ maximum ∧ stream = frames.flatten) ∧
        (tailLostFrom false (serialSegments bytes) = true ∨ ¬ IsFrame (serialTail bytes) ∨
          preserve = true ∧ Unfinished limits.frameBytes.toNat (serialTail bytes)) := by
  simp only [decodeSlip, bind_eq_ok, exists_unit, failIf_eq_ok, mapError_eq_ok]
  refine exists_congr fun maximum ↦ and_congr_right fun hmaximum ↦ ?_
  obtain ⟨hvalid, -⟩ := ProtocolLimits.maximumStreamBytes_eq_ok.1 hmaximum
  have hlimit : testFrameMagic.length ≤ limits.frameBytes.toNat :=
    (show testFrameMagic.length ≤ testFrameHeaderBytes by decide).trans hvalid.header_le
  rcases serial_cases bytes with ⟨hend, hsegments, htail⟩ | ⟨preamble, hend, hsegments, htail, hbytes⟩
  · rw [hsegments, htail, foldlM_preamble hend]
    have hempty : ¬ IsFrame [] := by decide
    simp only [Except.ok.injEq, exists_eq_left', keptFrom, carries_nil, exists_eq_left, hempty,
      not_false_eq_true, true_or, or_true, and_true, flatten_nil, length_nil]
    constructor
    · rintro ⟨-, hstream⟩
      exact ⟨by simp, Nat.zero_le _, (Except.ok.inj hstream).symm⟩
    · rintro ⟨-, -, rfl⟩
      exact ⟨by simp [SlipState.new, testFrameMagic], rfl⟩
  · have hstart : decodeSlipByte limits.frameBytes.toNat maximum SlipState.new slipEnd =
        .ok (between false []) := rfl
    have hrun : bytes.foldlM (decodeSlipByte limits.frameBytes.toNat maximum) SlipState.new =
        (do
          let state ← ((serialSegments bytes).flatMap (· ++ [slipEnd])).foldlM
            (decodeSlipByte limits.frameBytes.toNat maximum) (between false [])
          (serialTail bytes).foldlM (decodeSlipByte limits.frameBytes.toNat maximum) state) := by
      conv_lhs => rw [hbytes]
      rw [foldlM_append, foldlM_preamble hend, ok_bind, foldlM_cons, hstart, ok_bind, join,
        foldlM_append]
    have hroom : ([] : List UInt8).length ≤ maximum := Nat.zero_le _
    simp only [hrun, bind_eq_ok, foldlM_segments hlimit hsegments hroom, nil_append,
      length_nil, Nat.zero_add]
    constructor
    · rintro ⟨last, ⟨_, ⟨frames, hcarries, hfits, htotal, rfl⟩, hlast⟩, hfinish, hstream⟩
      obtain ⟨hresult, hrest⟩ := (foldlM_tail hlimit htail).1 ⟨last, hlast, hfinish, rfl⟩
      cases hstream
      exact ⟨⟨frames, hcarries, hfits, htotal, hresult⟩, hrest⟩
    · rintro ⟨⟨frames, hcarries, hfits, htotal, rfl⟩, hrest⟩
      obtain ⟨last, hlast, hfinish, hstream⟩ :=
        (@foldlM_tail limits.frameBytes.toNat maximum frames.flatten hlimit _ htail _ preserve _).2
          ⟨rfl, hrest⟩
      refine ⟨last, ⟨_, ⟨frames, hcarries, hfits, htotal, rfl⟩, hlast⟩, hfinish, ?_⟩
      rw [hstream]
      rfl

end Wrela.TestRunner
