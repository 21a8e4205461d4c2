import Wrela.TestProtocol.StateTable

/-!
# The protocol grammar

What the verifier enforces, said about the events alone.  `Admits maximum past event` is the
condition for `event` to follow the list `past`; it mentions neither the verifier's counters nor its
table.  `Tracks` relates a verifier state to the events it has seen, and `observe_iff` says that a
tracking verifier accepts exactly the admitted events.
-/

namespace Wrela.TestProtocol

open List Wrela.Checked

/-! ## What a list of events has reported -/

def TestEventKind.startedTest : TestEventKind → Option TestId
  | .testStarted test => some test
  | _ => none

def TestEventKind.finishedTest : TestEventKind → Option TestId
  | .testFinished test _ => some test
  | _ => none

/-- The test an event refers to as running. -/
def TestEventKind.runningTest : TestEventKind → Option TestId
  | .log test _ _ => test
  | .assertionFailed test _ => some test
  | .testFinished test _ => some test
  | _ => none

def TestEventKind.isPassed : TestEventKind → Bool
  | .testFinished _ .passed => true
  | _ => false

def TestEventKind.isFailed : TestEventKind → Bool
  | .testFinished _ .passed => false
  | .testFinished .. => true
  | _ => false

def TestEventKind.isLanguageFatal : TestEventKind → Bool
  | .testFinished _ (.languageFatal _) => true
  | _ => false

def TestEventKind.ticks : TestEventKind → Option UInt64
  | .heartbeat monotonicTicks => some monotonicTicks
  | _ => none

def startedTests (past : List TestEvent) : List TestId := past.filterMap (·.kind.startedTest)

def finishedTests (past : List TestEvent) : List TestId := past.filterMap (·.kind.finishedTest)

def passedCount (past : List TestEvent) : ℕ := past.countP (·.kind.isPassed)

def failedCount (past : List TestEvent) : ℕ := past.countP (·.kind.isFailed)

def heartbeats (past : List TestEvent) : List UInt64 := past.filterMap (·.kind.ticks)

/-- The test count announced by the first event. -/
def declaredCount (past : List TestEvent) : Option UInt32 :=
  match past.head? with
  | some ⟨_, _, .runStarted testCount⟩ => some testCount
  | _ => none

/-- The finish the last event obliges the stream to report next. -/
def obligation (past : List TestEvent) : Option (TestId × String) :=
  match past.getLast? with
  | some ⟨_, _, .assertionFailed test failure⟩ =>
    some (test, failure.message.getD "assertion failed")
  | _ => none

/-- The condition for `event` to follow `past`. -/
structure Admits (maximum : ℕ) (past : List TestEvent) (event : TestEvent) : Prop where
  sequence : event.sequence.toNat = past.length
  runStarted : (∃ testCount, event.kind = .runStarted testCount) ↔ past = []
  declared : ∀ testCount, event.kind = .runStarted testCount → testCount.toNat ≤ maximum
  notTerminal : ∀ earlier ∈ past, earlier.kind.isRunFinished = false
  fatal : (∃ earlier ∈ past, earlier.kind.isLanguageFatal) → event.kind.isRunFinished
  obliged : ∀ test message, obligation past = some (test, message) →
    event.kind = .testFinished test (.failed message)
  started : ∀ test, event.kind = .testStarted test → test ∉ startedTests past ∧
    ∀ testCount, declaredCount past = some testCount → (startedTests past).length < testCount.toNat
  running : ∀ test, event.kind.runningTest = some test →
    test ∈ startedTests past ∧ test ∉ finishedTests past
  ticks : ∀ ticks, event.kind = .heartbeat ticks → ∀ earlier ∈ heartbeats past, earlier < ticks
  summary : ∀ passed failed, event.kind = .runFinished passed failed →
    ∀ testCount, declaredCount past = some testCount →
      (startedTests past).length = testCount.toNat ∧
      (finishedTests past).length = testCount.toNat ∧ passedCount past = passed.toNat ∧
      failedCount past = failed.toNat ∧ passed.toNat + failed.toNat = testCount.toNat

section Append

variable (past : List TestEvent) (event : TestEvent)

@[simp]
theorem startedTests_append :
    startedTests (past ++ [event]) = startedTests past ++ event.kind.startedTest.toList := by
  cases h : event.kind.startedTest <;> simp [startedTests, h]

@[simp]
theorem finishedTests_append :
    finishedTests (past ++ [event]) = finishedTests past ++ event.kind.finishedTest.toList := by
  cases h : event.kind.finishedTest <;> simp [finishedTests, h]

@[simp]
theorem heartbeats_append :
    heartbeats (past ++ [event]) = heartbeats past ++ event.kind.ticks.toList := by
  cases h : event.kind.ticks <;> simp [heartbeats, h]

@[simp]
theorem passedCount_append :
    passedCount (past ++ [event]) = passedCount past + event.kind.isPassed.toNat := by
  cases h : event.kind.isPassed <;> simp [passedCount, countP_append, h]

@[simp]
theorem failedCount_append :
    failedCount (past ++ [event]) = failedCount past + event.kind.isFailed.toNat := by
  cases h : event.kind.isFailed <;> simp [failedCount, countP_append, h]

theorem declaredCount_append (h : past ≠ []) :
    declaredCount (past ++ [event]) = declaredCount past := by
  cases past with
  | nil => exact absurd rfl h
  | cons first past => rfl

theorem obligation_append :
    obligation (past ++ [event]) =
      match event.kind with
      | .assertionFailed test failure => some (test, failure.message.getD "assertion failed")
      | _ => none := by
  rw [obligation, List.getLast?_concat]
  obtain ⟨protocol, sequence, kind⟩ := event
  cases kind <;> rfl

end Append

/-- The verifier's table and counters after the events `past`. -/
structure TracksTests (maximum : UInt32) (past : List TestEvent) (state : StreamState) : Prop where
  table : state.tests.Invariant
  states : ∀ test, state.tests.state test =
    if test ∈ finishedTests past then some .finished
    else if test ∈ startedTests past then some .active else none
  maximum_eq : state.tests.maximum = (declaredCount past).getD maximum
  entries : state.tests.entries = (startedTests past).length
  started : state.started.toNat = (startedTests past).length
  finished : state.finished.toNat = (finishedTests past).length
  passed : state.passed.toNat = passedCount past
  failed : state.failed.toNat = failedCount past
  started_nodup : (startedTests past).Nodup
  finished_nodup : (finishedTests past).Nodup
  finished_subset : finishedTests past ⊆ startedTests past
  started_le : ∀ testCount, declaredCount past = some testCount →
    (startedTests past).length ≤ testCount.toNat
  outcomes : passedCount past + failedCount past = (finishedTests past).length

/-- `state` is the verifier's state after the events `past`. -/
structure Tracks (maximum : UInt32) (past : List TestEvent) (state : StreamState) : Prop extends
    TracksTests maximum past state where
  declared : state.declaredTests = declaredCount past
  begun : past ≠ [] → declaredCount past ≠ none
  fatal : state.languageFatal = past.any (·.kind.isLanguageFatal)
  pending : state.pendingAssertion = obligation past
  heartbeat : state.lastHeartbeat = (heartbeats past).getLast?
  ticks : (heartbeats past).Pairwise (· < ·)
  terminal : state.terminal = past.any (·.kind.isRunFinished)

theorem tracks_new (maximum : UInt32) : Tracks maximum [] (StreamState.new maximum) where
  table := TestStateTable.invariant_new maximum
  states test := rfl
  maximum_eq := rfl
  entries := rfl
  started := rfl
  finished := rfl
  passed := rfl
  failed := rfl
  started_nodup := nodup_nil
  finished_nodup := nodup_nil
  finished_subset := List.Subset.refl _
  started_le testCount h := by cases h
  outcomes := rfl
  declared := rfl
  begun h := absurd rfl h
  fatal := rfl
  pending := rfl
  heartbeat := rfl
  ticks := List.Pairwise.nil
  terminal := rfl

section Step

variable {maximum : UInt32} {past : List TestEvent} {state : StreamState} {event : TestEvent}

variable {test : TestId} {declared : UInt32} {state' : StreamState}

theorem TracksTests.state_eq_active (h : TracksTests maximum past state) :
    state.tests.state test = some .active ↔
      test ∈ startedTests past ∧ test ∉ finishedTests past := by
  rw [h.states]
  split
  · simp [*]
  · split <;> simp [*]

theorem TracksTests.state_eq_none (h : TracksTests maximum past state) :
    state.tests.state test = none ↔ test ∉ startedTests past := by
  rw [h.states]
  split
  · rename_i hfinished
    simp [h.finished_subset hfinished]
  · split <;> simp [*]

theorem TracksTests.requireActive_eq_ok (h : TracksTests maximum past state) {sequence : UInt64}
    {name : String} :
    state.requireActive sequence test name = .ok () ↔
      test ∈ startedTests past ∧ test ∉ finishedTests past := by
  rw [StreamState.requireActive, failIf_eq_ok, bne_eq_false_iff_eq, h.state_eq_active]

/-- The part of `Admits` that does not depend on the kind of the next event. -/
structure Ordered (past : List TestEvent) (kind : TestEventKind) : Prop where
  notTerminal : ∀ earlier ∈ past, earlier.kind.isRunFinished = false
  fatal : (∃ earlier ∈ past, earlier.kind.isLanguageFatal) → kind.isRunFinished
  obliged : ∀ test message, obligation past = some (test, message) →
    kind = .testFinished test (.failed message)

theorem Tracks.requireOrder_eq_ok (h : Tracks maximum past state) :
    state.requireOrder event = .ok declared ↔
      declaredCount past = some declared ∧ Ordered past event.kind := by
  simp only [StreamState.requireOrder, bind_eq_ok, exists_unit, failIf_eq_ok, orFail_eq_ok,
    h.declared, h.terminal, h.fatal, h.pending]
  constructor
  · rintro ⟨found, hfound, hterminal, hfatal, hpending, hdeclared⟩
    cases hdeclared
    refine ⟨hfound, by simpa using hterminal, fun hearlier ↦ ?_, fun test message hobliged ↦ ?_⟩
    · rw [any_eq_true.2 hearlier] at hfatal
      simpa using hfatal
    · rw [hobliged] at hpending
      simpa using hpending
  · rintro ⟨hdeclared, hterminal, hfatal, hobliged⟩
    refine ⟨declared, hdeclared, by simpa using hterminal, ?_, ?_, rfl⟩
    · cases hany : past.any (·.kind.isLanguageFatal) with
      | false => rfl
      | true => simpa using hfatal (any_eq_true.1 hany)
    · cases hpending : obligation past with
      | none => rfl
      | some pair => simpa using hobliged pair.1 pair.2 hpending

theorem Admits.ordered {maximum : ℕ} (h : Admits maximum past event) :
    Ordered past event.kind := ⟨h.notTerminal, h.fatal, h.obliged⟩

/-- The count of finished tests leaves room for one that is still running. -/
theorem TracksTests.finished_lt (h : TracksTests maximum past state)
    (hstarted : test ∈ startedTests past) (hrunning : test ∉ finishedTests past) :
    (finishedTests past).length < (startedTests past).length := by
  have hnodup : (test :: finishedTests past).Nodup := nodup_cons.2 ⟨hrunning, h.finished_nodup⟩
  have hsubset : test :: finishedTests past ⊆ startedTests past :=
    cons_subset.2 ⟨hstarted, h.finished_subset⟩
  exact (hnodup.subperm hsubset).length_le

theorem checkedStreamCount_eq_ok (value limit : UInt32) (resource : String)
    (h : value.toNat < limit.toNat) :
    ∃ next, checkedStreamCount value limit resource = .ok next ∧ next.toNat = value.toNat + 1 := by
  have hlimit := limit.toNat_lt
  have hadd : (value + 1).toNat = value.toNat + 1 := by
    rw [UInt32.toNat_add, UInt32.toNat_one, Nat.mod_eq_of_lt (by omega)]
  refine ⟨value + 1, if_pos ⟨?_, ?_⟩, hadd⟩
  · rw [UInt32.size]
    omega
  · rw [UInt32.le_iff_toNat_le, hadd]
    omega

section

variable (h : TracksTests maximum past state)
include h

/-- An event that neither starts nor finishes a test leaves the table and counters alone. -/
theorem TracksTests.quiet (hne : past ≠ []) (hstarted : event.kind.startedTest = none)
    (hfinished : event.kind.finishedTest = none) (hpassed : event.kind.isPassed = false)
    (hfailed : event.kind.isFailed = false) (htests : state'.tests = state.tests)
    (hcounts : state'.started = state.started ∧ state'.finished = state.finished ∧
      state'.passed = state.passed ∧ state'.failed = state.failed) :
    TracksTests maximum (past ++ [event]) state' := by
  obtain ⟨hs, hf, hp, hq⟩ := hcounts
  constructor
  all_goals
    simp only [htests, hs, hf, hp, hq, startedTests_append, finishedTests_append,
      passedCount_append, failedCount_append, hstarted, hfinished, hpassed, hfailed,
      Option.toList_none, append_nil, Bool.toNat_false, Nat.add_zero,
      declaredCount_append past event hne]
  exacts [h.table, h.states, h.maximum_eq, h.entries, h.started, h.finished, h.passed, h.failed,
    h.started_nodup, h.finished_nodup, h.finished_subset, h.started_le, h.outcomes]

theorem TracksTests.observeTestStarted_ok (hdeclared : declaredCount past = some declared)
    (hnew : test ∉ startedTests past) (hroom : (startedTests past).length < declared.toNat)
    (hkind : event.kind = .testStarted test) :
    ∃ tests started, state.observeTestStarted declared event.sequence test =
        .ok { state with tests, started } ∧
      TracksTests maximum (past ++ [event]) { state with tests, started } := by
  have hne : past ≠ [] := by
    rintro rfl
    cases hdeclared
  have hlimit := declared.toNat_lt
  have hstarted := h.started
  have hactual : (state.started + 1).toNat = (startedTests past).length + 1 := by
    rw [UInt32.toNat_add, UInt32.toNat_one, hstarted, Nat.mod_eq_of_lt (by omega)]
  have hmaximum : state.tests.maximum = declared := by rw [h.maximum_eq, hdeclared]; rfl
  obtain ⟨tests, hinsert, htable, hentries, hmax, hstates⟩ :=
    h.table.insertActive_new (h.state_eq_none.2 hnew) (by rw [h.entries, hmaximum]; exact hroom)
  have hoverflow : decide (state.started.toNat + 1 ≥ UInt32.size) = false := by
    rw [UInt32.size, decide_eq_false_iff_not]
    omega
  have hcount : decide (state.started + 1 > declared) = false := by
    rw [decide_eq_false_iff_not, gt_iff_lt, UInt32.lt_iff_toNat_lt, hactual]
    omega
  refine ⟨tests, state.started + 1, ?_, ?_⟩
  · simp [StreamState.observeTestStarted, hoverflow, hcount, hinsert]
  have hunfinished : test ∉ finishedTests past := fun hmem ↦ hnew (h.finished_subset hmem)
  constructor
  all_goals
    simp only [startedTests_append, finishedTests_append, passedCount_append, failedCount_append,
      hkind, TestEventKind.startedTest, TestEventKind.finishedTest, TestEventKind.isPassed,
      TestEventKind.isFailed, Option.toList_some, Option.toList_none, append_nil,
      length_append, length_cons, length_nil, Bool.toNat_false, Nat.add_zero,
      Nat.zero_add, declaredCount_append past event hne]
  · exact htable
  · intro other
    rw [hstates, h.states]
    by_cases hsame : other = test
    · simp [hsame, hunfinished]
    · simp [hsame]
  · rw [hmax, h.maximum_eq]
  · rw [hentries, h.entries]
  · exact hactual
  · exact h.finished
  · exact h.passed
  · exact h.failed
  · exact h.started_nodup.append (nodup_singleton test) (disjoint_singleton.2 hnew)
  · exact h.finished_nodup
  · exact subset_append_of_subset_left _ h.finished_subset
  · intro testCount hcount
    rw [hdeclared] at hcount
    cases hcount
    omega
  · exact h.outcomes

theorem TracksTests.admitted_of_observeTestStarted {sequence : UInt64}
    (hobserve : state.observeTestStarted declared sequence test = .ok state') :
    test ∉ startedTests past ∧ (startedTests past).length < declared.toNat := by
  simp only [StreamState.observeTestStarted, bind_eq_ok, exists_unit, failIf_eq_ok,
    decide_eq_false_iff_not] at hobserve
  obtain ⟨hoverflow, hcount, ⟨inserted, tests⟩, hinsert, hinserted, -⟩ := hobserve
  constructor
  · rw [← h.state_eq_none]
    by_contra hknown
    rw [h.table.insertActive_known hknown] at hinsert
    cases hinsert
    cases hinserted
  · rw [UInt32.size] at hoverflow
    rw [gt_iff_lt, UInt32.lt_iff_toNat_lt, UInt32.toNat_add, UInt32.toNat_one,
      Nat.mod_eq_of_lt (by omega), h.started] at hcount
    omega

/-- The table and counters after a running test has finished, with the counters of its outcome. -/
theorem TracksTests.finish {declared finished passed failed : UInt32} {outcome : GuestTestOutcome}
    (hdeclared : declaredCount past = some declared) (hstarted : test ∈ startedTests past)
    (hrunning : test ∉ finishedTests past) (hkind : event.kind = .testFinished test outcome)
    (hfinished : finished.toNat = state.finished.toNat + 1)
    (hpassed : passed.toNat = state.passed.toNat + event.kind.isPassed.toNat)
    (hfailed : failed.toNat = state.failed.toNat + event.kind.isFailed.toNat) {fatal : Bool} :
    TracksTests maximum (past ++ [event]) { state with
      tests := (state.tests.markFinished test).2, finished, passed, failed,
      languageFatal := fatal, pendingAssertion := none } := by
  have hne : past ≠ [] := by
    rintro rfl
    cases hdeclared
  obtain ⟨-, htable, hentries, hmax, hstates⟩ :=
    h.table.markFinished_active (h.state_eq_active.2 ⟨hstarted, hrunning⟩)
  have hone : event.kind.isPassed.toNat + event.kind.isFailed.toNat = 1 := by
    rw [hkind]
    cases outcome <;> rfl
  have houtcomes := h.outcomes
  constructor
  all_goals
    simp only [startedTests_append, finishedTests_append, passedCount_append, failedCount_append,
      hkind, TestEventKind.startedTest, TestEventKind.finishedTest, Option.toList_some,
      Option.toList_none, append_nil, length_append, length_cons, length_nil,
      Nat.zero_add, declaredCount_append past event hne]
  · exact htable
  · intro other
    rw [hstates, h.states]
    by_cases hsame : other = test
    · simp [hsame]
    · simp [hsame]
  · rw [hmax, h.maximum_eq]
  · rw [hentries, h.entries]
  · exact h.started
  · rw [hfinished, h.finished]
  · rw [← hkind, hpassed, h.passed]
  · rw [← hkind, hfailed, h.failed]
  · exact h.started_nodup
  · exact h.finished_nodup.append (nodup_singleton test) (disjoint_singleton.2 hrunning)
  · exact append_subset.2 ⟨h.finished_subset, by simpa using hstarted⟩
  · exact h.started_le
  · rw [hkind] at hone
    omega

theorem TracksTests.observeTestFinished_ok {outcome : GuestTestOutcome}
    (hdeclared : declaredCount past = some declared) (hstarted : test ∈ startedTests past)
    (hrunning : test ∉ finishedTests past) (hkind : event.kind = .testFinished test outcome) :
    ∃ finished passed failed, state.observeTestFinished declared event.sequence test outcome =
        .ok { state with
          tests := (state.tests.markFinished test).2, finished, passed, failed,
          languageFatal := state.languageFatal || event.kind.isLanguageFatal,
          pendingAssertion := none } ∧
      TracksTests maximum (past ++ [event]) { state with
          tests := (state.tests.markFinished test).2, finished, passed, failed,
          languageFatal := state.languageFatal || event.kind.isLanguageFatal,
          pendingAssertion := none } := by
  have hactive : state.requireActive event.sequence test "TestFinished" = .ok () :=
    h.requireActive_eq_ok.2 ⟨hstarted, hrunning⟩
  obtain ⟨hmarked, -⟩ := h.table.markFinished_active (h.state_eq_active.2 ⟨hstarted, hrunning⟩)
  have hroom := h.finished_lt hstarted hrunning
  have hle := h.started_le declared hdeclared
  have houtcomes := h.outcomes
  obtain ⟨finished, hfinish, hfinished⟩ := checkedStreamCount_eq_ok state.finished
    declared "finished tests" (by rw [h.finished]; omega)
  obtain ⟨passed, hpass, hpassed⟩ := checkedStreamCount_eq_ok state.passed
    declared "passed tests" (by rw [h.passed]; omega)
  obtain ⟨failed, hfail, hfailed⟩ := checkedStreamCount_eq_ok state.failed
    declared "failed tests" (by rw [h.failed]; omega)
  cases outcome with
  | passed =>
    refine ⟨finished, passed, state.failed, ?_, h.finish hdeclared hstarted hrunning hkind
      hfinished (by rw [hpassed, hkind]; rfl) (by rw [hkind]; rfl)⟩
    simp [StreamState.observeTestFinished, hactive, hmarked, hfinish, hpass, hkind,
      TestEventKind.isLanguageFatal]
  | failed message | timedOut timeoutNs | languageFatal cause =>
    refine ⟨finished, state.passed, failed, ?_, h.finish hdeclared hstarted hrunning hkind
      hfinished (by rw [hkind]; rfl) (by rw [hfailed, hkind]; rfl)⟩
    simp [StreamState.observeTestFinished, hactive, hmarked, hfinish, hfail, hkind,
      TestEventKind.isLanguageFatal]

end

/-- The verifier's flags after an event other than `RunStarted`, given its table and counters. -/
theorem Tracks.extend (h : Tracks maximum past state)
    (htests : TracksTests maximum (past ++ [event]) state') (hne : past ≠ [])
    (hdeclared : state'.declaredTests = state.declaredTests)
    (hfatal : state'.languageFatal = (state.languageFatal || event.kind.isLanguageFatal))
    (hpending : state'.pendingAssertion = obligation (past ++ [event]))
    (hheartbeat : state'.lastHeartbeat = (heartbeats (past ++ [event])).getLast?)
    (hticks : (heartbeats (past ++ [event])).Pairwise (· < ·))
    (hterminal : state'.terminal = (state.terminal || event.kind.isRunFinished)) :
    Tracks maximum (past ++ [event]) state' where
  toTracksTests := htests
  declared := by rw [hdeclared, h.declared, declaredCount_append past event hne]
  begun _ := by
    rw [declaredCount_append past event hne]
    exact h.begun hne
  fatal := by rw [hfatal, h.fatal, any_append, any_cons, any_nil, Bool.or_false]
  pending := hpending
  heartbeat := hheartbeat
  ticks := hticks
  terminal := by
    rw [hterminal, h.terminal, any_append, any_cons, any_nil, Bool.or_false]

/-- An event that is not a heartbeat keeps the recorded ticks. -/
theorem Tracks.sameTicks (h : Tracks maximum past state) (event : TestEvent)
    (hticks : event.kind.ticks = none) :
    state.lastHeartbeat = (heartbeats (past ++ [event])).getLast? ∧
      (heartbeats (past ++ [event])).Pairwise (· < ·) := by
  rw [heartbeats_append, hticks, Option.toList_none, append_nil]
  exact ⟨h.heartbeat, h.ticks⟩

/-- After an accepted event that was not obliged to be something else, nothing is pending. -/
theorem Tracks.pending_none (h : Tracks maximum past state) (hordered : Ordered past event.kind)
    (hkind : ∀ test outcome, event.kind ≠ .testFinished test outcome) :
    state.pendingAssertion = none := by
  rw [h.pending]
  cases hobliged : obligation past with
  | none => rfl
  | some pair => exact absurd (hordered.obliged pair.1 pair.2 hobliged) (hkind _ _)

theorem Tracks.observeRunStarted_ok (h : Tracks maximum [] state) {testCount : UInt32}
    (hkind : event.kind = .runStarted testCount) (hsequence : event.sequence.toNat = 0)
    (hmaximum : testCount.toNat ≤ maximum.toNat) :
    ∃ state', state.observe event = .ok state' ∧ Tracks maximum [event] state' := by
  have hzero : event.sequence = 0 := UInt64.toNat_inj.1 (by rw [hsequence]; rfl)
  have hdeclared : state.declaredTests = none := h.declared
  have hmax : state.tests.maximum = maximum := h.maximum_eq
  have hcount : decide (testCount > state.tests.maximum) = false := by
    rw [decide_eq_false_iff_not, gt_iff_lt, UInt32.lt_iff_toNat_lt, hmax]
    omega
  obtain ⟨protocol, sequence, kind⟩ := event
  simp only at hkind hzero
  subst hkind hzero
  refine ⟨{ state with
    declaredTests := some testCount, tests := state.tests.setMaximum testCount }, ?_, ?_⟩
  · simp [StreamState.observe, StreamState.observeRunStarted, hdeclared, hcount]
  · exact {
      table := h.table.setMaximum testCount
      states := h.states
      maximum_eq := rfl
      entries := h.entries
      started := h.started
      finished := h.finished
      passed := h.passed
      failed := h.failed
      started_nodup := nodup_nil
      finished_nodup := nodup_nil
      finished_subset := List.Subset.refl _
      started_le := fun _ _ ↦ Nat.zero_le _
      outcomes := rfl
      declared := rfl
      begun := fun _ ↦ by simp [declaredCount]
      fatal := h.fatal
      pending := h.pending
      heartbeat := h.heartbeat
      ticks := List.Pairwise.nil
      terminal := h.terminal }

section

variable (h : Tracks maximum past state)
include h

/-- An admitted event other than `RunStarted` passes the ordering checks. -/
theorem Tracks.requireOrder_ok (hadmits : Admits maximum.toNat past event)
    (hkind : ∀ testCount, event.kind ≠ .runStarted testCount) :
    past ≠ [] ∧ ∃ declared, declaredCount past = some declared ∧
      state.requireOrder event = .ok declared := by
  have hne : past ≠ [] := fun hempty ↦ by
    obtain ⟨testCount, hstart⟩ := hadmits.runStarted.2 hempty
    exact hkind testCount hstart
  obtain ⟨declared, hdeclared⟩ := Option.ne_none_iff_exists'.1 (h.begun hne)
  exact ⟨hne, declared, hdeclared, h.requireOrder_eq_ok.2 ⟨hdeclared, hadmits.ordered⟩⟩

theorem Tracks.observeHeartbeat_ok (hne : past ≠ []) (hordered : Ordered past event.kind)
    {ticks : UInt64} (hkind : event.kind = .heartbeat ticks)
    (hticks : ∀ earlier ∈ heartbeats past, earlier < ticks) :
    ∃ state', state.observeHeartbeat event.sequence ticks = .ok state' ∧
      Tracks maximum (past ++ [event]) state' := by
  refine ⟨{ state with lastHeartbeat := some ticks }, ?_, ?_⟩
  · unfold StreamState.observeHeartbeat
    cases hlast : state.lastHeartbeat with
    | none => rfl
    | some previous =>
      have hmem : previous ∈ heartbeats past := by
        rw [h.heartbeat] at hlast
        exact mem_of_getLast? hlast
      have hlater : decide (previous ≥ ticks) = false :=
        decide_eq_false (UInt64.not_le.2 (hticks previous hmem))
      simp [hlater]
  · have hquiet : TracksTests maximum (past ++ [event]) { state with lastHeartbeat := some ticks } :=
      h.toTracksTests.quiet hne (by rw [hkind]; rfl) (by rw [hkind]; rfl) (by rw [hkind]; rfl)
        (by rw [hkind]; rfl) rfl ⟨rfl, rfl, rfl, rfl⟩
    refine h.extend hquiet hne rfl ?_ ?_ ?_ ?_ ?_
    · simp [hkind, TestEventKind.isLanguageFatal]
    · rw [obligation_append, hkind]
      exact h.pending_none hordered (by simp [hkind])
    · simp [hkind, TestEventKind.ticks]
    · rw [heartbeats_append, hkind]
      exact pairwise_append.2 ⟨h.ticks, by simp [TestEventKind.ticks], by
        simpa [TestEventKind.ticks] using hticks⟩
    · simp [hkind, TestEventKind.isRunFinished]

theorem Tracks.ticks_of_observeHeartbeat {sequence ticks : UInt64}
    (hobserve : state.observeHeartbeat sequence ticks = .ok state') :
    ∀ earlier ∈ heartbeats past, earlier < ticks := by
  intro earlier hmem
  obtain ⟨front, last, hsplit⟩ : ∃ front last, heartbeats past = front ++ [last] :=
    ⟨_, _, (dropLast_append_getLast (ne_nil_of_mem hmem)).symm⟩
  have hlast : state.lastHeartbeat = some last := by
    rw [h.heartbeat, hsplit, List.getLast?_concat]
  simp only [StreamState.observeHeartbeat, hlast, bind_eq_ok, exists_unit, failIf_eq_ok,
    decide_eq_false_iff_not] at hobserve
  have hlater : last < ticks := UInt64.not_le.1 hobserve.1
  have hsorted := h.ticks
  rw [hsplit] at hmem hsorted
  rcases mem_append.1 hmem with hfront | hsame
  · have hearlier := (pairwise_append.1 hsorted).2.2 earlier hfront last (by simp)
    exact UInt64.lt_trans hearlier hlater
  · rwa [mem_singleton.1 hsame]

theorem Tracks.observeRunFinished_ok (hne : past ≠ []) (hordered : Ordered past event.kind)
    {passed failed : UInt32} (hkind : event.kind = .runFinished passed failed)
    (hsummary : (startedTests past).length = declared.toNat ∧
      (finishedTests past).length = declared.toNat ∧ passedCount past = passed.toNat ∧
      failedCount past = failed.toNat ∧ passed.toNat + failed.toNat = declared.toNat) :
    ∃ state', state.observeRunFinished declared event.sequence passed failed = .ok state' ∧
      Tracks maximum (past ++ [event]) state' := by
  obtain ⟨hstarted, hfinished, hpassed, hfailed, htotal⟩ := hsummary
  have hstarted : state.started = declared := UInt32.toNat_inj.1 (by rw [h.started, hstarted])
  have hfinished : state.finished = declared := UInt32.toNat_inj.1 (by rw [h.finished, hfinished])
  have hpassed : state.passed = passed := UInt32.toNat_inj.1 (by rw [h.passed, hpassed])
  have hfailed : state.failed = failed := UInt32.toNat_inj.1 (by rw [h.failed, hfailed])
  refine ⟨{ state with terminal := true }, ?_, ?_⟩
  · simp [StreamState.observeRunFinished, hstarted, hfinished, hpassed, hfailed, htotal]
  · have hquiet : TracksTests maximum (past ++ [event]) { state with terminal := true } :=
      h.toTracksTests.quiet hne (by rw [hkind]; rfl) (by rw [hkind]; rfl) (by rw [hkind]; rfl)
        (by rw [hkind]; rfl) rfl ⟨rfl, rfl, rfl, rfl⟩
    obtain ⟨hlast, hticks⟩ := h.sameTicks event (by rw [hkind]; rfl)
    refine h.extend hquiet hne rfl ?_ ?_ hlast hticks ?_
    · simp [hkind, TestEventKind.isLanguageFatal]
    · rw [obligation_append, hkind]
      exact h.pending_none hordered (by simp [hkind])
    · simp [hkind, TestEventKind.isRunFinished]

/-- Logs change nothing the verifier remembers. -/
theorem Tracks.log (hne : past ≠ []) (hordered : Ordered past event.kind) {test : Option TestId}
    {level : LogLevel} {message : String} (hkind : event.kind = .log test level message) :
    Tracks maximum (past ++ [event]) state := by
  have hquiet : TracksTests maximum (past ++ [event]) state :=
    h.toTracksTests.quiet hne (by rw [hkind]; rfl) (by rw [hkind]; rfl) (by rw [hkind]; rfl)
      (by rw [hkind]; rfl) rfl ⟨rfl, rfl, rfl, rfl⟩
  obtain ⟨hlast, hticks⟩ := h.sameTicks event (by rw [hkind]; rfl)
  refine h.extend hquiet hne rfl ?_ ?_ hlast hticks ?_
  · simp [hkind, TestEventKind.isLanguageFatal]
  · rw [obligation_append, hkind]
    exact h.pending_none hordered (by simp [hkind])
  · simp [hkind, TestEventKind.isRunFinished]

/-- A verifier that tracks its past accepts every admitted event and goes on tracking. -/
theorem Tracks.observe_ok (hadmits : Admits maximum.toNat past event) :
    ∃ state', state.observe event = .ok state' ∧ Tracks maximum (past ++ [event]) state' := by
  have hordered := hadmits.ordered
  cases hkind : event.kind with
  | runStarted testCount =>
    obtain rfl := hadmits.runStarted.1 ⟨testCount, hkind⟩
    exact h.observeRunStarted_ok hkind hadmits.sequence (hadmits.declared testCount hkind)
  | testStarted test =>
    obtain ⟨hne, declared, hdeclared, horder⟩ := h.requireOrder_ok hadmits (by simp [hkind])
    obtain ⟨hnew, hroom⟩ := hadmits.started test hkind
    obtain ⟨tests, started, hobserve, htests⟩ :=
      h.observeTestStarted_ok hdeclared hnew (hroom declared hdeclared) hkind
    obtain ⟨hlast, hticks⟩ := h.sameTicks event (by rw [hkind]; rfl)
    refine ⟨{ state with tests, started }, ?_, h.extend htests hne rfl ?_ ?_ hlast hticks ?_⟩
    · simp [StreamState.observe, hkind, horder, hobserve]
    · simp [hkind, TestEventKind.isLanguageFatal]
    · rw [obligation_append, hkind]
      exact h.pending_none hordered (by simp [hkind])
    · simp [hkind, TestEventKind.isRunFinished]
  | log test level message =>
    obtain ⟨hne, declared, hdeclared, horder⟩ := h.requireOrder_ok hadmits (by simp [hkind])
    refine ⟨state, ?_, h.log hne hordered hkind⟩
    cases test with
    | none => simp [StreamState.observe, hkind, horder]
    | some test =>
      have hactive : state.requireActive event.sequence test "Log" = .ok () :=
        h.requireActive_eq_ok.2 (hadmits.running test (by rw [hkind]; rfl))
      simp [StreamState.observe, hkind, horder, hactive]
  | assertionFailed test failure =>
    obtain ⟨hne, declared, hdeclared, horder⟩ := h.requireOrder_ok hadmits (by simp [hkind])
    have hactive : state.requireActive event.sequence test "AssertionFailed" = .ok () :=
      h.requireActive_eq_ok.2 (hadmits.running test (by rw [hkind]; rfl))
    have hquiet : TracksTests maximum (past ++ [event]) { state with
        pendingAssertion := some (test, failure.message.getD "assertion failed") } :=
      h.toTracksTests.quiet hne (by rw [hkind]; rfl) (by rw [hkind]; rfl) (by rw [hkind]; rfl)
        (by rw [hkind]; rfl) rfl ⟨rfl, rfl, rfl, rfl⟩
    obtain ⟨hlast, hticks⟩ := h.sameTicks event (by rw [hkind]; rfl)
    refine ⟨_, ?_, h.extend hquiet hne rfl ?_ ?_ hlast hticks ?_⟩
    · simp [StreamState.observe, hkind, horder, hactive]
    · simp [hkind, TestEventKind.isLanguageFatal]
    · rw [obligation_append, hkind]
    · simp [hkind, TestEventKind.isRunFinished]
  | testFinished test outcome =>
    obtain ⟨hne, declared, hdeclared, horder⟩ := h.requireOrder_ok hadmits (by simp [hkind])
    obtain ⟨hstarted, hrunning⟩ := hadmits.running test (by rw [hkind]; rfl)
    obtain ⟨finished, passed, failed, hobserve, htests⟩ :=
      h.observeTestFinished_ok hdeclared hstarted hrunning hkind
    obtain ⟨hlast, hticks⟩ := h.sameTicks event (by rw [hkind]; rfl)
    refine ⟨_, ?_, h.extend htests hne rfl rfl ?_ hlast hticks ?_⟩
    · simp only [StreamState.observe, hkind, horder, ok_bind]
      rw [hobserve, hkind]
    · rw [obligation_append, hkind]
    · simp [hkind, TestEventKind.isRunFinished]
  | heartbeat ticks =>
    obtain ⟨hne, declared, hdeclared, horder⟩ := h.requireOrder_ok hadmits (by simp [hkind])
    obtain ⟨state', hobserve, htracks⟩ :=
      h.observeHeartbeat_ok hne hordered hkind (hadmits.ticks ticks hkind)
    exact ⟨state', by simp [StreamState.observe, hkind, horder, hobserve], htracks⟩
  | runFinished passed failed =>
    obtain ⟨hne, declared, hdeclared, horder⟩ := h.requireOrder_ok hadmits (by simp [hkind])
    obtain ⟨state', hobserve, htracks⟩ := h.observeRunFinished_ok hne hordered hkind
      (hadmits.summary passed failed hkind declared hdeclared)
    exact ⟨state', by simp [StreamState.observe, hkind, horder, hobserve], htracks⟩

/-- The kind-specific conditions complete the ordering checks to admission. -/
theorem Tracks.admits_of_requireOrder (hsequence : event.sequence.toNat = past.length)
    (hkind : ∀ testCount, event.kind ≠ .runStarted testCount)
    (horder : state.requireOrder event = .ok declared)
    (hstarted : ∀ test, event.kind = .testStarted test →
      test ∉ startedTests past ∧ (startedTests past).length < declared.toNat)
    (hrunning : ∀ test, event.kind.runningTest = some test →
      test ∈ startedTests past ∧ test ∉ finishedTests past)
    (hticks : ∀ ticks, event.kind = .heartbeat ticks → ∀ earlier ∈ heartbeats past, earlier < ticks)
    (hsummary : ∀ passed failed, event.kind = .runFinished passed failed →
      (startedTests past).length = declared.toNat ∧ (finishedTests past).length = declared.toNat ∧
      passedCount past = passed.toNat ∧ failedCount past = failed.toNat ∧
      passed.toNat + failed.toNat = declared.toNat) :
    Admits maximum.toNat past event := by
  obtain ⟨hdeclared, hordered⟩ := h.requireOrder_eq_ok.1 horder
  have hsame {testCount : UInt32} (hcount : declaredCount past = some testCount) :
      testCount = declared := by
    rw [hdeclared] at hcount
    exact (Option.some.inj hcount).symm
  refine ⟨hsequence, ⟨fun ⟨testCount, hstart⟩ ↦ absurd hstart (hkind testCount), ?_⟩,
    fun testCount hstart ↦ absurd hstart (hkind testCount), hordered.notTerminal, hordered.fatal,
    hordered.obliged, fun test htest ↦ ⟨(hstarted test htest).1, fun testCount hcount ↦ ?_⟩,
    hrunning, hticks, fun passed failed hfinish testCount hcount ↦ ?_⟩
  · rintro rfl
    cases hdeclared
  · rw [hsame hcount]
    exact (hstarted test htest).2
  · rw [hsame hcount]
    exact hsummary passed failed hfinish

/-- What a tracking verifier accepts is admitted. -/
theorem Tracks.admits_of_observe (hsequence : event.sequence.toNat = past.length)
    (hobserve : state.observe event = .ok state') : Admits maximum.toNat past event := by
  cases hkind : event.kind with
  | runStarted testCount =>
    simp only [StreamState.observe, hkind, StreamState.observeRunStarted, bind_eq_ok, exists_unit,
      failIf_eq_ok, Bool.or_eq_false_iff, bne_eq_false_iff_eq, decide_eq_false_iff_not] at hobserve
    obtain ⟨⟨-, hzero⟩, hcount, -⟩ := hobserve
    have hempty : past = [] := by
      rw [hzero] at hsequence
      exact eq_nil_of_length_eq_zero hsequence.symm
    subst hempty
    have hmax : state.tests.maximum = maximum := h.maximum_eq
    rw [hmax, gt_iff_lt, UInt32.lt_iff_toNat_lt] at hcount
    refine ⟨hsequence, ⟨fun _ ↦ rfl, fun _ ↦ ⟨testCount, hkind⟩⟩, fun other hother ↦ ?_, by simp,
      by simp, by simp [obligation], ?_, ?_, ?_, ?_⟩
    · rw [hkind] at hother
      cases hother
      omega
    all_goals simp [hkind, TestEventKind.runningTest]
  | testStarted test =>
    simp only [StreamState.observe, hkind, bind_eq_ok] at hobserve
    obtain ⟨declared, horder, hstart⟩ := hobserve
    refine h.admits_of_requireOrder hsequence (by simp [hkind]) horder (fun other hother ↦ ?_)
      (by simp [hkind, TestEventKind.runningTest]) (by simp [hkind]) (by simp [hkind])
    rw [hkind] at hother
    cases hother
    exact h.admitted_of_observeTestStarted hstart
  | log test level message =>
    have hlog : ∃ declared, state.requireOrder event = .ok declared ∧ ∀ running ∈ test,
        running ∈ startedTests past ∧ running ∉ finishedTests past := by
      cases test with
      | none =>
        simp only [StreamState.observe, hkind, bind_eq_ok] at hobserve
        obtain ⟨declared, horder, -⟩ := hobserve
        exact ⟨declared, horder, by simp⟩
      | some test =>
        simp only [StreamState.observe, hkind, bind_eq_ok, exists_unit] at hobserve
        obtain ⟨declared, horder, hactive, -⟩ := hobserve
        refine ⟨declared, horder, fun running hmem ↦ ?_⟩
        cases hmem
        exact h.requireActive_eq_ok.1 hactive
    obtain ⟨declared, horder, hrunning⟩ := hlog
    refine h.admits_of_requireOrder hsequence (by simp [hkind]) horder (by simp [hkind])
      (fun running hmem ↦ hrunning running ?_) (by simp [hkind]) (by simp [hkind])
    rw [hkind] at hmem
    exact hmem
  | assertionFailed test _ | testFinished test _ =>
    simp only [StreamState.observe, hkind, bind_eq_ok, StreamState.observeTestFinished,
      exists_unit] at hobserve
    obtain ⟨declared, horder, hactive, -⟩ := hobserve
    refine h.admits_of_requireOrder hsequence (by simp [hkind]) horder (by simp [hkind])
      (fun running hmem ↦ ?_) (by simp [hkind]) (by simp [hkind])
    rw [hkind] at hmem
    cases hmem
    exact h.requireActive_eq_ok.1 hactive
  | heartbeat ticks =>
    simp only [StreamState.observe, hkind, bind_eq_ok] at hobserve
    obtain ⟨declared, horder, hbeat⟩ := hobserve
    refine h.admits_of_requireOrder hsequence (by simp [hkind]) horder (by simp [hkind])
      (by simp [hkind, TestEventKind.runningTest]) (fun other hother ↦ ?_) (by simp [hkind])
    rw [hkind] at hother
    cases hother
    exact h.ticks_of_observeHeartbeat hbeat
  | runFinished passed failed =>
    simp only [StreamState.observe, hkind, bind_eq_ok, StreamState.observeRunFinished,
      exists_unit, failIf_eq_ok, Bool.or_eq_false_iff, bne_eq_false_iff_eq] at hobserve
    obtain ⟨declared, horder, ⟨⟨⟨⟨hstarted, hfinished⟩, hpassed⟩, hfailed⟩, htotal⟩, -⟩ := hobserve
    refine h.admits_of_requireOrder hsequence (by simp [hkind]) horder (by simp [hkind])
      (by simp [hkind, TestEventKind.runningTest]) (by simp [hkind]) fun passed' failed' hother ↦ ?_
    rw [hkind] at hother
    cases hother
    rw [← h.started, ← h.finished, ← h.passed, ← h.failed, hstarted, hfinished, hpassed, hfailed]
    exact ⟨rfl, rfl, rfl, rfl, htotal⟩

end

end Step

/-- Every event of the list may follow the events before it. -/
def Grammar (maximum : ℕ) (events : List TestEvent) : Prop :=
  ∀ (i : ℕ) event, events[i]? = some event → Admits maximum (events.take i) event

/-- The verifier runs through a list of events with dense sequence numbers exactly when the list
obeys the grammar. -/
theorem Tracks.observeAll_iff {maximum : UInt32} {past : List TestEvent} {state : StreamState}
    (h : Tracks maximum past state) (events : List TestEvent) :
    ((∃ state', state.observeAll events = .ok state') ∧
      ∀ (i : ℕ) event, events[i]? = some event → event.sequence.toNat = past.length + i) ↔
    ∀ (i : ℕ) event, events[i]? = some event →
      Admits maximum.toNat (past ++ events.take i) event := by
  induction events generalizing past state with
  | nil => simp [StreamState.observeAll]
  | cons first events ih =>
    constructor
    · rintro ⟨⟨state', hrun⟩, hsequence⟩
      obtain ⟨next, hobserve, hrest⟩ := bind_eq_ok.1 hrun
      have hadmits := h.admits_of_observe (hsequence 0 first rfl) hobserve
      obtain ⟨next', hobserve', htracks⟩ := h.observe_ok hadmits
      rw [hobserve] at hobserve'
      cases hobserve'
      have hlater := (ih htracks).1 ⟨⟨state', hrest⟩, fun i event hevent ↦ by
        rw [length_append, length_singleton, Nat.add_assoc, Nat.add_comm 1]
        exact hsequence (i + 1) event (by simpa using hevent)⟩
      intro i event hevent
      cases i with
      | zero =>
        cases hevent
        simpa using hadmits
      | succ i =>
        have := hlater i event (by simpa using hevent)
        rwa [append_assoc, singleton_append, ← take_succ_cons] at this
    · intro hall
      have hadmits : Admits maximum.toNat past first := by simpa using hall 0 first rfl
      obtain ⟨next, hobserve, htracks⟩ := h.observe_ok hadmits
      obtain ⟨⟨state', hrest⟩, hsequence⟩ := (ih htracks).2 fun i event hevent ↦ by
        have := hall (i + 1) event (by simpa using hevent)
        rwa [take_succ_cons, ← singleton_append, ← append_assoc] at this
      refine ⟨⟨state', by rw [StreamState.observeAll, hobserve, ok_bind, hrest]⟩, ?_⟩
      intro i event hevent
      cases i with
      | zero =>
        cases hevent
        simpa using hadmits.sequence
      | succ i =>
        have := hsequence i event (by simpa using hevent)
        rw [this, length_append, length_singleton, Nat.add_assoc, Nat.add_comm 1]

end Wrela.TestProtocol
