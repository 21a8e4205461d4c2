import Mathlib.Data.Nat.Log
import Wrela.Data.OpenAddressing
import Wrela.TestProtocol.CodecLaws

/-!
# The table of test states

The stream verifier remembers every test it has seen in an open-addressed table that doubles when
it is half full.  `Invariant` is what every operation keeps; under it the table is a map from tests
to states (`insertActive_new`, `markFinished_active`), and an insertion fails only when the table
already holds `maximum` tests.
-/

namespace Wrela.TestProtocol

open List Wrela.Checked Wrela.OpenAddressing

inductive TrackedTestState where
  | active | finished
deriving DecidableEq, Repr

structure TestStateSlot where
  test : TestId
  state : TrackedTestState
deriving Repr

structure TestStateTable where
  slots : List (Option TestStateSlot)
  entries : ℕ
  maximum : UInt32
deriving Repr

def rotateRight16 (value : UInt32) : UInt32 := (value >>> 16) ||| (value <<< 16)

/-- The position a test is looked for first, before it is masked to the table. -/
def testSlotStart (test : TestId) : ℕ := (test.val * 0x9e3779b9 ^^^ rotateRight16 test.val).toNat

def nextPowerOfTwo (n : ℕ) : ℕ := 2 ^ Nat.clog 2 n

namespace TestStateTable

def new (maximum : UInt32) : TestStateTable := ⟨[], 0, maximum⟩

def setMaximum (table : TestStateTable) (maximum : UInt32) : TestStateTable :=
  { table with maximum }

def find (table : TestStateTable) (test : TestId) : Option ℕ :=
  OpenAddressing.find TestStateSlot.test testSlotStart table.slots test

def state (table : TestStateTable) (test : TestId) : Option TrackedTestState := do
  let index ← table.find test
  let slot ← table.slots[index]?
  let slot ← slot
  pure slot.state

def placeTestSlot (slots : List (Option TestStateSlot)) (slot : TestStateSlot) :
    Option (List (Option TestStateSlot)) :=
  OpenAddressing.place TestStateSlot.test testSlotStart slots slot

def ensureInsertCapacity (table : TestStateTable) : Except ProtocolError TestStateTable := do
  let required := table.entries + 1
  let maximum := table.maximum.toNat
  failIf (decide (required > maximum)) (.resourceLimit "test-state entries" maximum)
  if !table.slots.isEmpty && decide (required ≤ table.slots.length / 2) then
    pure table
  else do
    let maximumCapacity := nextPowerOfTwo (maximum * 2)
    let proposed := if table.slots.isEmpty then 2 else table.slots.length * 2
    let capacity := min proposed maximumCapacity
    failIf (decide (capacity ≤ table.slots.length) || decide (capacity < required))
      (.resourceLimit "test-state table slots" maximum)
    let slots ← orFail (placeAll TestStateSlot.test testSlotStart (List.replicate capacity none)
      (contents table.slots)) (.protocolContractMismatch "test-state table rehash failed")
    pure { table with slots }

def insertActive (table : TestStateTable) (test : TestId) :
    Except ProtocolError (Bool × TestStateTable) :=
  if (table.find test).isSome then pure (false, table)
  else do
    let table ← table.ensureInsertCapacity
    let slots ← orFail (placeTestSlot table.slots ⟨test, .active⟩)
      (.protocolContractMismatch "test-state table has no insertion slot")
    pure (true, { table with slots, entries := table.entries + 1 })

def markFinished (table : TestStateTable) (test : TestId) : Bool × TestStateTable :=
  match table.find test with
  | none => (false, table)
  | some index =>
    match table.slots[index]? with
    | some (some slot) =>
      if slot.state = .active then
        (true, { table with slots := table.slots.set index (some { slot with state := .finished }) })
      else (false, table)
    | some none | none => (false, table)

/-- The table is at most half full, counts its entries, and is either not yet allocated or well
formed for probing. -/
structure Invariant (table : TestStateTable) : Prop where
  entries_eq : table.entries = (contents table.slots).length
  half : 2 * table.entries ≤ table.slots.length
  wellFormed : table.slots ≠ [] →
    2 ≤ table.slots.length ∧ WellFormed TestStateSlot.test testSlotStart table.slots

theorem invariant_new (maximum : UInt32) : (new maximum).Invariant := ⟨rfl, le_rfl, by simp [new]⟩

theorem Invariant.setMaximum {table : TestStateTable} (h : table.Invariant) (maximum : UInt32) :
    (table.setMaximum maximum).Invariant := ⟨h.entries_eq, h.half, h.wellFormed⟩

variable {table : TestStateTable}

variable {test : TestId}

theorem Invariant.find_eq_some (h : table.Invariant) :
    table.find test = some index ↔
      ∃ slot, table.slots[index]? = some (some slot) ∧ slot.test = test := by
  rcases eq_or_ne table.slots [] with hempty | hne
  · simp [find, OpenAddressing.find, hempty]
  · exact (h.wellFormed hne).2.find_eq_some

/-- The table is the map whose graph is its list of entries. -/
theorem Invariant.state_eq_some (h : table.Invariant) {state : TrackedTestState} :
    table.state test = some state ↔ ⟨test, state⟩ ∈ contents table.slots := by
  simp only [TestStateTable.state, Option.bind_eq_bind, Option.bind_eq_some_iff, h.find_eq_some,
    mem_contents, Option.pure_def, Option.some.injEq]
  constructor
  · rintro ⟨index, ⟨slot, hslot, rfl⟩, _, hslot', slot', rfl, rfl⟩
    rw [hslot] at hslot'
    cases hslot'
    exact mem_of_getElem? hslot
  · intro hmem
    obtain ⟨index, hindex⟩ := mem_iff_getElem?.1 hmem
    exact ⟨index, ⟨_, hindex, rfl⟩, _, hindex, _, rfl, rfl⟩

theorem Invariant.state_eq_none (h : table.Invariant) :
    table.state test = none ↔ ∀ slot ∈ contents table.slots, slot.test ≠ test := by
  rw [Option.eq_none_iff_forall_not_mem]
  constructor
  · rintro hnone slot hmem rfl
    exact hnone slot.state (h.state_eq_some.2 hmem)
  · intro hnone state hstate
    exact hnone _ (h.state_eq_some.1 hstate) rfl

theorem Invariant.find_isSome (h : table.Invariant) :
    (table.find test).isSome = (table.state test).isSome := by
  cases hfind : table.find test with
  | none => simp [TestStateTable.state, hfind]
  | some index =>
    obtain ⟨slot, hslot, -⟩ := h.find_eq_some.1 hfind
    simp [TestStateTable.state, hfind, hslot]

/-- Two tables that satisfy the invariant and hold the same entries are the same map. -/
theorem Invariant.state_congr {table' : TestStateTable} (h : table.Invariant)
    (h' : table'.Invariant) (hperm : (contents table'.slots).Perm (contents table.slots))
    (test : TestId) : table'.state test = table.state test := by
  apply Option.ext
  intro state
  rw [h.state_eq_some, h'.state_eq_some, hperm.mem_iff]

theorem le_nextPowerOfTwo (n : ℕ) : n ≤ nextPowerOfTwo n := Nat.le_pow_clog (by norm_num) n

/-- A power of two above a smaller power of two is at least its double. -/
theorem double_le_nextPowerOfTwo (h : 2 ^ e < n) : 2 ^ e * 2 ≤ nextPowerOfTwo n := by
  have hlt : e < Nat.clog 2 n := (Nat.lt_clog_iff_pow_lt (by norm_num)).2 h
  rw [← pow_succ]
  exact Nat.pow_le_pow_right (by norm_num) hlt

/-- Room for one more entry is found exactly when the table holds fewer than `maximum`. -/
theorem Invariant.ensureInsertCapacity (h : table.Invariant)
    (hroom : table.entries < table.maximum.toNat) :
    ∃ table', table.ensureInsertCapacity = .ok table' ∧ table'.Invariant ∧
      table'.entries = table.entries ∧ table'.maximum = table.maximum ∧
      2 * (table.entries + 1) ≤ table'.slots.length ∧
      (contents table'.slots).Perm (contents table.slots) := by
  have hhalf := h.half
  rw [TestStateTable.ensureInsertCapacity, failIf_eq_ok.2 (by simpa using hroom), ok_bind]
  split
  · rename_i hfits
    simp only [Bool.and_eq_true, decide_eq_true_eq] at hfits
    exact ⟨table, rfl, h, rfl, rfl, by omega, .refl _⟩
  · rename_i hfull
    -- The new capacity is the doubled length (or two), never cut short by the ceiling.
    have hcapacity : ∃ e, min (if table.slots.isEmpty then 2 else table.slots.length * 2)
          (nextPowerOfTwo (table.maximum.toNat * 2)) = 2 ^ e ∧ table.slots.length < 2 ^ e ∧
          2 ≤ 2 ^ e ∧ 2 * (table.entries + 1) ≤ 2 ^ e := by
      rcases eq_or_ne table.slots [] with hempty | hne
      · have hentries : table.entries = 0 := by
          rw [hempty, length_nil] at hhalf
          omega
        have hceiling : 2 ≤ nextPowerOfTwo (table.maximum.toNat * 2) :=
          le_trans (by omega) (le_nextPowerOfTwo _)
        refine ⟨1, ?_, ?_, le_rfl, ?_⟩
        · rw [hempty]
          exact min_eq_left hceiling
        · simp [hempty]
        · rw [hentries, pow_one]
      · obtain ⟨htwo, hwell⟩ := h.wellFormed hne
        obtain ⟨e, he⟩ := hwell.powerOfTwo
        have hisEmpty : table.slots.isEmpty = false := hwell.not_isEmpty
        simp only [hisEmpty, Bool.not_false, Bool.true_and, decide_eq_true_eq] at hfull
        have hceiling := double_le_nextPowerOfTwo (e := e) (n := table.maximum.toNat * 2)
          (by omega)
        refine ⟨e + 1, ?_, ?_, ?_, ?_⟩
        · rw [hisEmpty, if_neg (by simp), he, pow_succ]
          exact min_eq_left hceiling
        all_goals
          rw [pow_succ]
          omega
    obtain ⟨e, hmin, hlonger, htwo, hroomy⟩ := hcapacity
    simp only [hmin]
    rw [failIf_eq_ok.2 (by simp only [Bool.or_eq_false_iff, decide_eq_false_iff_not]; omega),
      ok_bind]
    have hnodup : ((contents table.slots).map TestStateSlot.test).Nodup := by
      rcases eq_or_ne table.slots [] with hempty | hne
      · simp [hempty, contents, List.reduceOption]
      · exact (h.wellFormed hne).2.nodup_keys
    have hblank : contents (List.replicate (2 ^ e) (none : Option TestStateSlot)) = [] := by
      simp [contents]
    obtain ⟨slots, hplace, hwell, hlength, hperm⟩ := placeAll_spec
      (wellFormed_replicate TestStateSlot.test testSlotStart e) (contents table.slots)
      (by rw [hblank, ← h.entries_eq, length_nil, length_replicate]; omega) hnodup
      (by simp [hblank])
    rw [hblank, nil_append] at hperm
    rw [length_replicate] at hlength
    refine ⟨{ table with slots }, by rw [hplace]; rfl, ⟨?_, ?_, fun _ ↦ ⟨?_, hwell⟩⟩, rfl, rfl, ?_,
      hperm⟩
    · rw [hperm.length_eq]
      exact h.entries_eq
    all_goals
      simp only [hlength]
      omega

theorem Invariant.insertActive_known (h : table.Invariant)
    (hknown : table.state test ≠ none) : table.insertActive test = .ok (false, table) := by
  have hfind : (table.find test).isSome = true := by
    rw [h.find_isSome, Option.isSome_iff_ne_none]
    exact hknown
  rw [TestStateTable.insertActive, if_pos hfind]
  rfl

/-- An insertion of a new test with room left adds it as active and changes nothing else. -/
theorem Invariant.insertActive_new (h : table.Invariant)
    (hnew : table.state test = none) (hroom : table.entries < table.maximum.toNat) :
    ∃ table', table.insertActive test = .ok (true, table') ∧ table'.Invariant ∧
      table'.entries = table.entries + 1 ∧ table'.maximum = table.maximum ∧
      ∀ other, table'.state other = if other = test then some .active else table.state other := by
  have hfind : (table.find test).isSome = false := by rw [h.find_isSome, hnew]; rfl
  obtain ⟨grown, hgrow, hinv, hentries, hmaximum, hlength, hperm⟩ := h.ensureInsertCapacity hroom
  have hne : grown.slots ≠ [] := by
    intro hempty
    rw [hempty, length_nil] at hlength
    omega
  obtain ⟨htwo, hwell⟩ := hinv.wellFormed hne
  obtain ⟨index, hindex, hplace, hwell'⟩ := hwell.place_spec (a := ⟨test, .active⟩)
    (none_mem_of_length_contents_lt (by rw [← hinv.entries_eq, hentries]; omega))
    fun slot hslot ↦ h.state_eq_none.1 hnew slot (hperm.mem_iff.1 (mem_contents.2 hslot))
  have hadded := contents_set_perm hindex (a := (⟨test, .active⟩ : TestStateSlot))
  set slots := grown.slots.set index (some (⟨test, .active⟩ : TestStateSlot)) with hslots
  have hinv' : Invariant ⟨slots, grown.entries + 1, grown.maximum⟩ := by
    refine ⟨?_, ?_, fun _ ↦ ⟨?_, hwell'⟩⟩
    · rw [hadded.length_eq, length_cons, hinv.entries_eq]
    · rw [hslots, length_set, hentries]
      exact hlength
    · rw [hslots, length_set]
      exact htwo
  refine ⟨_, ?_, hinv', by rw [hentries], hmaximum, fun other ↦ Option.ext fun state ↦ ?_⟩
  · rw [TestStateTable.insertActive, hfind, if_neg (by simp), hgrow, ok_bind]
    simp only [placeTestSlot, hplace]
    rfl
  · rw [hinv'.state_eq_some, hadded.mem_iff, mem_cons, hperm.mem_iff, TestStateSlot.mk.injEq]
    split
    · rename_i hsame
      subst hsame
      have habsent : (⟨other, state⟩ : TestStateSlot) ∉ contents table.slots := fun hmem ↦
        h.state_eq_none.1 hnew _ hmem rfl
      simp [habsent, eq_comm]
    · rename_i hother
      rw [h.state_eq_some]
      simp [hother]

/-- Finishing an active test changes its state and nothing else. -/
theorem Invariant.markFinished_active (h : table.Invariant)
    (hactive : table.state test = some .active) :
    (table.markFinished test).1 = true ∧ (table.markFinished test).2.Invariant ∧
      (table.markFinished test).2.entries = table.entries ∧
      (table.markFinished test).2.maximum = table.maximum ∧
      ∀ other, (table.markFinished test).2.state other =
        if other = test then some .finished else table.state other := by
  obtain ⟨index, hslot⟩ := mem_iff_getElem?.1 (mem_contents.1 (h.state_eq_some.1 hactive))
  have hfind := h.find_eq_some.2 ⟨_, hslot, rfl⟩
  have hlt : index < table.slots.length := (List.getElem?_eq_some_iff.1 hslot).1
  have hne : table.slots ≠ [] := by
    intro hempty
    rw [hempty, length_nil] at hlt
    omega
  obtain ⟨htwo, hwell⟩ := h.wellFormed hne
  set slots := table.slots.set index (some (⟨test, .finished⟩ : TestStateSlot)) with hslots
  have hmark : table.markFinished test = (true, { table with slots }) := by
    simp only at hfind
    simp only [TestStateTable.markFinished, hfind, hslot]
    rfl
  have hwell' : WellFormed TestStateSlot.test testSlotStart slots := hwell.replace hslot rfl
  have hold := contents_split hslot
  have hcontents := contents_set hlt (some (⟨test, .finished⟩ : TestStateSlot))
  have hinv' : Invariant { table with slots } := by
    refine ⟨?_, ?_, fun _ ↦ ⟨?_, hwell'⟩⟩
    · have hlength := congrArg List.length hold
      simp only [hslots, hcontents, length_append, Option.toList_some, length_cons,
        length_nil] at hlength ⊢
      rw [h.entries_eq]
      exact hlength
    all_goals
      simp only [hslots, length_set]
    · exact h.half
    · exact htwo
  rw [hmark]
  refine ⟨rfl, hinv', rfl, rfl, fun other ↦ Option.ext fun state ↦ ?_⟩
  have hmem : (⟨other, state⟩ : TestStateSlot) ∈ contents slots ↔
      if other = test then state = .finished else ⟨other, state⟩ ∈ contents table.slots := by
    split
    · rename_i hsame
      subst hsame
      constructor
      · intro hmem
        obtain ⟨j, hj⟩ := mem_iff_getElem?.1 (mem_contents.1 hmem)
        have hself : slots[index]? = some (some ⟨other, .finished⟩) := List.getElem?_set_self hlt
        have hsame := hwell'.unique j index _ _ hj hself rfl
        rw [hsame, hself] at hj
        cases hj
        rfl
      · rintro rfl
        rw [hslots, hcontents]
        simp
    · rename_i hother
      rw [hslots, hcontents, hold]
      simp [hother]
  rw [hinv'.state_eq_some, hmem]
  split
  · simp [eq_comm]
  · rw [h.state_eq_some]

end TestStateTable

open Wrela.Wire

structure StreamState where
  declaredTests : Option UInt32
  tests : TestStateTable
  started : UInt32
  finished : UInt32
  passed : UInt32
  failed : UInt32
  languageFatal : Bool
  pendingAssertion : Option (TestId × String)
  lastHeartbeat : Option UInt64
  terminal : Bool
deriving Repr

def checkedStreamCount (value limit : UInt32) (resource : String) : Except ProtocolError UInt32 :=
  if value.toNat + 1 < UInt32.size ∧ value + 1 ≤ limit then .ok (value + 1)
  else .error (.resourceLimit resource limit.toNat)

def TestEventKind.isRunFinished : TestEventKind → Bool
  | .runFinished .. => true
  | _ => false

namespace StreamState

def new (maximumTests : UInt32) : StreamState where
  declaredTests := none
  tests := TestStateTable.new maximumTests
  started := 0
  finished := 0
  passed := 0
  failed := 0
  languageFatal := false
  pendingAssertion := none
  lastHeartbeat := none
  terminal := false

def requireActive (state : StreamState) (sequence : UInt64) (test : TestId) (event : String) :
    Except ProtocolError Unit :=
  failIf (state.tests.state test != some .active)
    (.invalidTestReference sequence test.val event)

/-- The `RunStarted` transition. -/
def observeRunStarted (state : StreamState) (sequence : UInt64) (testCount : UInt32) :
    Except ProtocolError StreamState := do
  failIf (state.declaredTests.isSome || sequence != 0) (.invalidStreamOrder sequence
    "RunStarted must appear exactly once at sequence zero")
  failIf (decide (testCount > state.tests.maximum))
    (.testCountExceeded sequence state.tests.maximum testCount)
  pure { state with
    declaredTests := some testCount
    tests := state.tests.setMaximum testCount }

/-- The checks every event after `RunStarted` passes before its own transition. -/
def requireOrder (state : StreamState) (event : TestEvent) : Except ProtocolError UInt32 := do
  let declared ← orFail state.declaredTests (.invalidStreamOrder event.sequence
    "RunStarted must precede every other event")
  failIf state.terminal (.invalidStreamOrder event.sequence "no event may follow RunFinished")
  failIf (state.languageFatal && !event.kind.isRunFinished) (.invalidStreamOrder event.sequence
    "LanguageFatal must be followed immediately by RunFinished")
  failIf (state.pendingAssertion.any fun (test, message) ↦
      event.kind != .testFinished test (.failed message))
    (.invalidStreamOrder event.sequence
      "AssertionFailed must be followed immediately by its exact failed TestFinished")
  pure declared

def observeTestStarted (state : StreamState) (declared : UInt32) (sequence : UInt64)
    (test : TestId) : Except ProtocolError StreamState := do
  failIf (decide (state.started.toNat + 1 ≥ UInt32.size))
    (.resourceLimit "started test count" declared.toNat)
  let actual := state.started + 1
  failIf (decide (actual > declared)) (.testCountExceeded sequence declared actual)
  let (inserted, tests) ← state.tests.insertActive test
  failIf (!inserted) (.duplicateTestStart sequence test.val)
  pure { state with tests, started := actual }

def observeTestFinished (state : StreamState) (declared : UInt32) (sequence : UInt64)
    (test : TestId) (outcome : GuestTestOutcome) : Except ProtocolError StreamState := do
  state.requireActive sequence test "TestFinished"
  let (marked, tests) := state.tests.markFinished test
  failIf (!marked) (.invalidTestReference sequence test.val "TestFinished")
  let finished ← checkedStreamCount state.finished declared "finished tests"
  let state := { state with tests, finished }
  match outcome with
  | .passed => do
    let passed ← checkedStreamCount state.passed declared "passed tests"
    pure { state with passed, pendingAssertion := none }
  | .failed _ | .timedOut _ => do
    let failed ← checkedStreamCount state.failed declared "failed tests"
    pure { state with failed, pendingAssertion := none }
  | .languageFatal _ => do
    let failed ← checkedStreamCount state.failed declared "failed tests"
    pure { state with failed, languageFatal := true, pendingAssertion := none }

def observeHeartbeat (state : StreamState) (sequence monotonicTicks : UInt64) :
    Except ProtocolError StreamState := do
  match state.lastHeartbeat with
  | some previous =>
    failIf (decide (previous ≥ monotonicTicks))
      (.nonMonotonicHeartbeat sequence previous monotonicTicks)
  | none => pure ()
  pure { state with lastHeartbeat := some monotonicTicks }

def observeRunFinished (state : StreamState) (declared : UInt32) (sequence : UInt64)
    (passed failed : UInt32) : Except ProtocolError StreamState := do
  failIf (state.started != declared || state.finished != declared || state.passed != passed ||
      state.failed != failed || passed.toNat + failed.toNat != declared.toNat)
    (.streamSummaryMismatch sequence declared state.started state.finished state.passed
      state.failed passed failed)
  pure { state with terminal := true }

def observe (state : StreamState) (event : TestEvent) : Except ProtocolError StreamState :=
  match event.kind with
  | .runStarted testCount => state.observeRunStarted event.sequence testCount
  | .testStarted test => do
    let declared ← state.requireOrder event
    state.observeTestStarted declared event.sequence test
  | .log (some test) _ _ => do
    let _ ← state.requireOrder event
    state.requireActive event.sequence test "Log"
    pure state
  | .log none _ _ => do
    let _ ← state.requireOrder event
    pure state
  | .assertionFailed test failure => do
    let _ ← state.requireOrder event
    state.requireActive event.sequence test "AssertionFailed"
    pure { state with
      pendingAssertion := some (test, failure.message.getD "assertion failed") }
  | .testFinished test outcome => do
    let declared ← state.requireOrder event
    state.observeTestFinished declared event.sequence test outcome
  | .heartbeat monotonicTicks => do
    let _ ← state.requireOrder event
    state.observeHeartbeat event.sequence monotonicTicks
  | .runFinished passed failed => do
    let declared ← state.requireOrder event
    state.observeRunFinished declared event.sequence passed failed

/-- The verifier's transitions along a list of events. -/
def observeAll (state : StreamState) : List TestEvent → Except ProtocolError StreamState
  | [] => .ok state
  | event :: events => do
    let state ← state.observe event
    observeAll state events

end StreamState

def decodeAndVerifyEvent (frame : List UInt8) (limits : ProtocolLimits) :
    Except ProtocolError TestEvent := do
  limits.validate
  failIf (decide (frame.length > limits.frameBytes.toNat))
    (.frameTooLarge limits.frameBytes frame.length)
  let header ← parseHeader frame
  validateFrameShape frame header limits
  let event ← decode frame limits
  validateEvent event limits
  failIf (header.sequence != event.sequence) (.sequenceMismatch header.sequence event.sequence)
  let canonical ← encode event limits
  validateFrameShape canonical.bytes canonical.header limits
  failIf (canonical.header != header || canonical.bytes != frame)
    (.nonCanonical "decoded event does not reproduce its complete frame")
  pure event

/-- Where the stream loop stands: the bytes after `offset`, the events decoded so far and the
verifier's state. -/
structure StreamCursor where
  remaining : List UInt8
  events : List TestEvent
  state : StreamState

def streamStep (limits : ProtocolLimits) (cursor : StreamCursor) :
    Except ProtocolError StreamCursor := do
  let expectedSequence := cursor.events.length
  failIf (decide (expectedSequence ≥ limits.events.toNat))
    (.eventLimit limits.events expectedSequence)
  let header ← parseHeader cursor.remaining
  let frameBytes := testFrameHeaderBytes + header.payloadBytes.toNat
  failIf (decide (frameBytes > limits.frameBytes.toNat))
    (.frameTooLarge limits.frameBytes frameBytes)
  failIf (decide (frameBytes > cursor.remaining.length)) .unexpectedEnd
  let event ← decodeAndVerifyEvent (cursor.remaining.take frameBytes) limits
  failIf (event.sequence.toNat != expectedSequence)
    (.streamSequenceMismatch expectedSequence event.sequence)
  let state ← cursor.state.observe event
  pure ⟨cursor.remaining.drop frameBytes, cursor.events ++ [event], state⟩

/-- An iteration consumes at least a header. -/
theorem streamStep_shrinks {next : StreamCursor} (h : streamStep limits cursor = .ok next) :
    next.remaining.length + testFrameHeaderBytes ≤ cursor.remaining.length := by
  simp only [streamStep, bind_eq_ok, exists_unit, failIf_eq_ok, decide_eq_false_iff_not] at h
  obtain ⟨-, header, -, -, henough, event, -, -, state, -, hnext⟩ := h
  cases hnext
  simp only [List.length_drop]
  omega

def streamLoop (limits : ProtocolLimits) (cursor : StreamCursor) :
    Except ProtocolError (List TestEvent) :=
  if cursor.remaining.isEmpty then .ok cursor.events
  else
    match h : streamStep limits cursor with
    | .error error => .error error
    | .ok next => streamLoop limits next
termination_by cursor.remaining.length
decreasing_by
  have hshrinks := streamStep_shrinks h
  unfold testFrameHeaderBytes at hshrinks
  omega

def decodeAndVerifyStream (stream : List UInt8) (limits : ProtocolLimits) :
    Except ProtocolError (List TestEvent) := do
  let maximumStreamBytes ← limits.maximumStreamBytes
  failIf (decide (stream.length > maximumStreamBytes))
    (.streamTooLarge maximumStreamBytes stream.length)
  streamLoop limits ⟨stream, [], StreamState.new limits.events⟩

end Wrela.TestProtocol
