import Wrela.TestModel.Report
import Wrela.TestProtocol.Grammar

/-!
# What an accepted report proves

The check of an event list keeps one state per planned test.  `Tracks` says what these states know
about the events seen so far; the steps preserve it, and at the end of an accepted list it tells how
every planned test went.
-/

namespace Wrela.TestModel

open List Wrela.Source Wrela.BuildModel Wrela.Checked
open Wrela.TestProtocol (TestEvent TestEventKind GuestTestOutcome AssertionFailure
  startedTests finishedTests heartbeats declaredCount obligation startedTests_append
  finishedTests_append heartbeats_append declaredCount_append obligation_append)

/-- The tests of a group have consecutive identifiers. -/
structure ConsecutiveTests (group : FullImageTestGroup) : Prop where
  nonempty : group.tests ≠ []
  consecutive : group.tests.IsChain fun left right ↦
    left.descriptor.id.val.toNat + 1 = right.descriptor.id.val.toNat

variable {index : ℕ}

theorem isChain_getElem_toNat {tests : List ImageTest} (h : tests.IsChain fun left right ↦
    left.descriptor.id.val.toNat + 1 = right.descriptor.id.val.toNat) {first : ImageTest}
    (hfirst : tests.head? = some first) {planned : ImageTest}
    (hplanned : tests[index]? = some planned) :
    planned.descriptor.id.val.toNat = first.descriptor.id.val.toNat + index := by
  induction index generalizing planned with
  | zero =>
    rw [← List.head?_eq_getElem?, hfirst] at hplanned
    cases hplanned
    rfl
  | succ index ih =>
    obtain ⟨hlt, rfl⟩ := List.getElem?_eq_some_iff.1 hplanned
    have hbefore := ih (List.getElem?_eq_getElem (Nat.lt_of_succ_lt hlt))
    have hstep := isChain_iff_getElem.1 h index hlt
    omega

theorem ConsecutiveTests.stateIndex_eq_some {group : FullImageTestGroup}
    (h : ConsecutiveTests group) {test : TestId} :
    stateIndex group test = some index ↔
      ∃ planned, group.tests[index]? = some planned ∧ planned.descriptor.id = test := by
  obtain ⟨first, hfirst⟩ : ∃ first, group.tests.head? = some first :=
    ⟨_, List.head?_eq_some_head h.nonempty⟩
  unfold stateIndex
  simp only [hfirst, Option.bind_eq_bind, Option.bind_some]
  constructor
  · intro hindex
    split_ifs at hindex with hlt
    obtain ⟨planned, hplanned, hsame⟩ := Option.bind_eq_some_iff.1 hindex
    split_ifs at hsame with hid
    cases hsame
    exact ⟨planned, hplanned, hid⟩
  · rintro ⟨planned, hplanned, rfl⟩
    have hid := isChain_getElem_toNat h.consecutive hfirst hplanned
    rw [if_neg (by omega), show planned.descriptor.id.val.toNat -
      first.descriptor.id.val.toNat = index by omega, hplanned, Option.bind_some, if_pos rfl]

theorem ConsecutiveTests.injective {group : FullImageTestGroup} (h : ConsecutiveTests group)
    {i j : ℕ} {left right : ImageTest} (hleft : group.tests[i]? = some left)
    (hright : group.tests[j]? = some right) (hid : left.descriptor.id = right.descriptor.id) :
    i = j := by
  have hi := h.stateIndex_eq_some.2 ⟨left, hleft, rfl⟩
  have hj := h.stateIndex_eq_some.2 ⟨right, hright, rfl⟩
  rw [hid, hj] at hi
  exact (Option.some.inj hi).symm

/-! ## The life of a test -/

/-- The events that move a test from one state to the next. -/
def movesTest (test : TestId) : TestEventKind → Bool
  | .testStarted other => other == test
  | .assertionFailed other _ => other == test
  | .testFinished other _ => other == test
  | _ => false

/-- What a list of events reports about the life of a test. -/
def lifecycle (events : List TestEvent) (test : TestId) : List TestEventKind :=
  (events.map TestEvent.kind).filter (movesTest test)

theorem lifecycle_append (past : List TestEvent) (event : TestEvent) (test : TestId) :
    lifecycle (past ++ [event]) test =
      lifecycle past test ++ if movesTest test event.kind then [event.kind] else [] := by
  rw [lifecycle, map_append, filter_append, map_singleton]
  congr 1
  split_ifs with hmoves <;> simp [hmoves]

/-- The lives that lead to a state. -/
def Lives (test : TestId) : EventTestState → List TestEventKind → Prop
  | .pending, life => life = []
  | .active, life => life = [.testStarted test]
  | .assertionFailed message, life =>
    ∃ failure, assertionMessage failure = message ∧
      life = [.testStarted test, .assertionFailed test failure]
  | .finished outcome, life =>
    life = [.testStarted test, .testFinished test outcome] ∨
      ∃ failure, outcome = .failed (assertionMessage failure) ∧
        life = [.testStarted test, .assertionFailed test failure, .testFinished test outcome]

def isFinished : EventTestState → Bool
  | .finished _ => true
  | _ => false

def isRunning : EventTestState → Bool
  | .active => true
  | .assertionFailed _ => true
  | _ => false

/-- The finish a state obliges the next event to report. -/
def EventTestState.obliges (test : TestId) : EventTestState → Option (TestId × String)
  | .assertionFailed message => some (test, message)
  | _ => none

/-- The numbers of the last event, if it ends the run. -/
def terminalOf (past : List TestEvent) : Option (UInt32 × UInt32) :=
  match past.getLast? with
  | some ⟨_, _, .runFinished passed failed⟩ => some (passed, failed)
  | _ => none

theorem terminalOf_append (past : List TestEvent) (event : TestEvent) :
    terminalOf (past ++ [event]) =
      match event.kind with
      | .runFinished passed failed => some (passed, failed)
      | _ => none := by
  rw [terminalOf, List.getLast?_concat]
  obtain ⟨protocol, sequence, kind⟩ := event
  cases kind <;> rfl

/-- What the states of the check know about the events before. -/
structure Tracks (group : FullImageTestGroup) (past : List TestEvent) (state : EventState) :
    Prop where
  length : state.states.length = group.tests.length
  lives : ∀ (index : ℕ) (planned : ImageTest), group.tests[index]? = some planned →
    ∃ testState, state.states[index]? = some testState ∧
      Lives planned.descriptor.id testState (lifecycle past planned.descriptor.id)
  asserted : ∀ (index : ℕ) (planned : ImageTest) (message : String),
    group.tests[index]? = some planned → (state.states[index]? = some (.assertionFailed message) ↔
      obligation past = some (planned.descriptor.id, message))
  planned : ∀ test message, obligation past = some (test, message) →
    ∃ index, stateIndex group test = some index
  activeCount : state.activeCount + (finishedTests past).length = (startedTests past).length
  finishedCount : state.finishedCount = (finishedTests past).length
  activeStates : state.activeCount = state.states.countP isRunning
  finishedStates : state.finishedCount = state.states.countP isFinished
  languageFatal : state.languageFatal = past.any (·.kind.isLanguageFatal)
  lastHeartbeat : state.lastHeartbeat = (heartbeats past).getLast?
  terminal : state.terminal = terminalOf past
  begun : past ≠ [] → (∃ testCount, declaredCount past = some testCount ∧
    testCount.toNat = group.tests.length) ∨ state.terminal.isSome ∧ state.finishedCount = 0

theorem tracks_new (group : FullImageTestGroup) : Tracks group [] (.new group.tests.length) where
  length := length_replicate
  lives index planned hplanned := by
    refine ⟨.pending, ?_, rfl⟩
    have hlt := (List.getElem?_eq_some_iff.1 hplanned).1
    simp [EventState.new, hlt]
  asserted index planned message hplanned := by
    simp [EventState.new, obligation, List.getElem?_replicate]
  planned test message h := by cases h
  activeCount := rfl
  finishedCount := rfl
  activeStates := by simp [EventState.new, countP_replicate, isRunning]
  finishedStates := by simp [EventState.new, countP_replicate, isFinished]
  languageFatal := rfl
  lastHeartbeat := rfl
  terminal := rfl
  begun h := absurd rfl h

section Step

variable {group : FullImageTestGroup} {result : ImageGroupResult} {past : List TestEvent}
  {state state' : EventState} {event : TestEvent} {test : TestId}

/-- The state that waits for the end of a failed test is the one the last event made. -/
theorem Tracks.pendingAssertion_eq (h : Tracks group past state)
    (hgroup : ConsecutiveTests group) : pendingAssertion group state = obligation past := by
  have hfound (pair : TestId × String) (hpair : pendingAssertion group state = some pair) :
      obligation past = some pair := by
    obtain ⟨⟨testState, index⟩, hmem, hmatch⟩ := List.exists_of_findSome?_eq_some hpair
    have hstate := mem_zipIdx_iff_getElem?.1 hmem
    cases testState with
    | pending => cases hmatch
    | active => cases hmatch
    | finished outcome => cases hmatch
    | assertionFailed message =>
      obtain ⟨planned, hplanned, rfl⟩ := Option.map_eq_some_iff.1 hmatch
      exact (h.asserted index planned message hplanned).1 hstate
  cases hfind : pendingAssertion group state with
  | some pair => exact (hfound pair hfind).symm
  | none =>
    cases hobliged : obligation past with
    | none => rfl
    | some pair =>
      obtain ⟨test, message⟩ := pair
      obtain ⟨index, hindex⟩ := h.planned test message hobliged
      obtain ⟨planned, hplanned, rfl⟩ := hgroup.stateIndex_eq_some.1 hindex
      have hstate := (h.asserted index planned message hplanned).2 hobliged
      have hnone := List.findSome?_eq_none_iff.1 hfind (.assertionFailed message, index)
        (mem_zipIdx_iff_getElem?.2 hstate)
      simp [hplanned] at hnone

/-- What an event in order satisfies, whatever its kind. -/
structure InOrder (past : List TestEvent) (event : TestEvent) : Prop where
  protocol : event.protocol = TestProtocol.testProtocolVersion
  sequence : event.sequence.toNat = past.length
  payload : eventPayloadBytes event ≤ TestProtocol.maxTestEventBytes
  fatal : past.any (·.kind.isLanguageFatal) = true → event.kind.isRunFinished = true
  obliged : ∀ test message, obligation past = some (test, message) →
    event.kind = .testFinished test (.failed message)

theorem Tracks.eventInOrder_iff (h : Tracks group past state) (hgroup : ConsecutiveTests group) :
    eventInOrder group state past.length event = true ↔ InOrder past event := by
  rw [eventInOrder, h.pendingAssertion_eq hgroup, h.languageFatal]
  simp only [Bool.and_eq_true, beq_iff_eq, decide_eq_true_eq, Bool.or_eq_true, Bool.not_eq_true',
    Option.all_eq_true]
  constructor
  · rintro ⟨⟨⟨⟨hprotocol, hsequence⟩, hpayload⟩, hfatal⟩, hobliged⟩
    exact ⟨hprotocol, hsequence, hpayload, fun hany ↦ hfatal.resolve_left (by simp [hany]),
      fun test message hmem ↦ hobliged (test, message) hmem⟩
  · rintro ⟨hprotocol, hsequence, hpayload, hfatal, hobliged⟩
    refine ⟨⟨⟨⟨hprotocol, hsequence⟩, hpayload⟩, ?_⟩, fun pair hmem ↦ hobliged pair.1 pair.2 hmem⟩
    by_cases hany : past.any (·.kind.isLanguageFatal) = true
    · exact .inr (hfatal hany)
    · exact .inl (by simpa using hany)

theorem startedTest_eq_none (h : ∀ test, movesTest test event.kind = false) :
    event.kind.startedTest = none ∧ event.kind.finishedTest = none := by
  cases hkind : event.kind with
  | testStarted test | testFinished test _ => simpa [hkind, movesTest] using h test
  | _ => exact ⟨rfl, rfl⟩

/-- An event that moves no test. -/
theorem Tracks.quiet (h : Tracks group past state) (hmoves : ∀ test, movesTest test event.kind = false)
    (hobliged : obligation past = none) (hstates : state'.states = state.states)
    (hactive : state'.activeCount = state.activeCount)
    (hfinished : state'.finishedCount = state.finishedCount)
    (hfatal : state'.languageFatal = state.languageFatal)
    (hheartbeat : state'.lastHeartbeat = (heartbeats (past ++ [event])).getLast?)
    (hterminal : state'.terminal = terminalOf (past ++ [event]))
    (hbegun : (∃ testCount, declaredCount (past ++ [event]) = some testCount ∧
      testCount.toNat = group.tests.length) ∨ state'.terminal.isSome ∧ state'.finishedCount = 0) :
    Tracks group (past ++ [event]) state' := by
  obtain ⟨hstarted, hdone⟩ := startedTest_eq_none hmoves
  have hobligation : obligation (past ++ [event]) = none := by
    rw [obligation_append]
    cases hkind : event.kind with
    | assertionFailed test failure => simpa [hkind, movesTest] using hmoves test
    | _ => rfl
  have hany : event.kind.isLanguageFatal = false := by
    cases hkind : event.kind with
    | testFinished test outcome => simpa [hkind, movesTest] using hmoves test
    | _ => rfl
  refine ⟨by rw [hstates, h.length], fun index planned hplanned ↦ ?_,
    fun index planned message hplanned ↦ ?_, fun test message hnot ↦ ?_, ?_, ?_, ?_, ?_, ?_,
    hheartbeat, hterminal, fun _ ↦ hbegun⟩
  · rw [hstates, lifecycle_append, hmoves, if_neg (by simp), append_nil]
    exact h.lives index planned hplanned
  · rw [hstates, h.asserted index planned message hplanned, hobliged, hobligation]
  · rw [hobligation] at hnot
    cases hnot
  · rw [hactive, finishedTests_append, startedTests_append, hstarted, hdone]
    simpa using h.activeCount
  · rw [hfinished, finishedTests_append, hdone]
    simpa using h.finishedCount
  · rw [hactive, hstates, h.activeStates]
  · rw [hfinished, hstates, h.finishedStates]
  · rw [hfatal, h.languageFatal, any_append]
    simp [hany]

theorem Tracks.stateOf_eq_some (h : Tracks group past state) (hgroup : ConsecutiveTests group)
    (hstate : stateOf group state test = some testState) :
    ∃ index planned, stateIndex group test = some index ∧ group.tests[index]? = some planned ∧
      planned.descriptor.id = test ∧ state.states[index]? = some testState ∧
      Lives test testState (lifecycle past test) := by
  obtain ⟨index, hindex, hentry⟩ := Option.bind_eq_some_iff.1 hstate
  obtain ⟨planned, hplanned, rfl⟩ := hgroup.stateIndex_eq_some.1 hindex
  obtain ⟨known, hknown, hlives⟩ := h.lives index planned hplanned
  rw [hentry] at hknown
  cases hknown
  exact ⟨index, planned, hindex, hplanned, rfl, hentry, hlives⟩

variable {before : EventTestState}

theorem countP_set_eq {states : List EventTestState} {p : EventTestState → Bool} {index : ℕ}
    {next : EventTestState} {count count' : ℕ} (hentry : states[index]? = some before)
    (hcount : count = states.countP p) (h : count' + (p before).toNat = count + (p next).toNat) :
    count' = (states.set index next).countP p := by
  obtain ⟨hlt, hget⟩ := List.getElem?_eq_some_iff.1 hentry
  have hpositive := boole_getElem_le_countP (p := p) hlt
  rw [hget, ← hcount] at hpositive
  rw [countP_set hlt, hget, ← hcount]
  cases hbefore : p before <;> cases hnext : p next <;>
    simp [hbefore, hnext] at h hpositive ⊢ <;> omega

section

variable (h : Tracks group past state)
include h

/-- An event that moves one test to its next state. -/
theorem Tracks.move (hgroup : ConsecutiveTests group) {next : EventTestState}
    (hbefore : stateOf group state test = some before)
    (hmoves : ∀ other, movesTest other event.kind = (test == other))
    (hlives : Lives test before (lifecycle past test) →
      Lives test next (lifecycle past test ++ [event.kind]))
    (hobliged : ∀ other message, obligation past = some (other, message) → other = test)
    (hnext : obligation (past ++ [event]) = next.obliges test)
    (hstates : state'.states = withState group state test next)
    (hactive : state'.activeCount + (finishedTests (past ++ [event])).length =
      (startedTests (past ++ [event])).length)
    (hfinished : state'.finishedCount = (finishedTests (past ++ [event])).length)
    (hcountActive : state'.activeCount + (isRunning before).toNat =
      state.activeCount + (isRunning next).toNat)
    (hcountFinished : state'.finishedCount + (isFinished before).toNat =
      state.finishedCount + (isFinished next).toNat)
    (hfatal : state'.languageFatal = (past ++ [event]).any (·.kind.isLanguageFatal))
    (hheartbeat : state'.lastHeartbeat = state.lastHeartbeat)
    (hterminal : state.terminal = none ∧ state'.terminal = none) (hne : past ≠ []) :
    Tracks group (past ++ [event]) state' := by
  obtain ⟨index, planned, hindex, hplanned, hid, hentry, hlife⟩ := h.stateOf_eq_some hgroup hbefore
  obtain ⟨hlt, hget⟩ := List.getElem?_eq_some_iff.1 hentry
  have hstates : state'.states = state.states.set index next := by
    rw [hstates, withState, hindex]
  have hother {i : ℕ} {other : ImageTest} (hother : group.tests[i]? = some other) (hi : i ≠ index) :
      other.descriptor.id ≠ test := fun hsame ↦
    hi (hgroup.injective hother hplanned (hsame.trans hid.symm))
  have hquiet : event.kind.ticks = none := by
    cases hkind : event.kind with
    | heartbeat ticks => simpa [hkind, movesTest] using hmoves test
    | _ => rfl
  have hnotTerminal : terminalOf (past ++ [event]) = none := by
    rw [terminalOf_append]
    cases hkind : event.kind with
    | runFinished passed failed => simpa [hkind, movesTest] using hmoves test
    | _ => rfl
  refine ⟨by rw [hstates, length_set, h.length], fun i other hi ↦ ?_,
    fun i other message hi ↦ ?_, fun other message hsome ↦ ?_, hactive, hfinished, ?_, ?_, hfatal,
    ?_, hterminal.2.trans hnotTerminal.symm, fun _ ↦ ?_⟩
  · rw [hstates, lifecycle_append, hmoves]
    by_cases hsame : i = index
    · subst hsame
      obtain rfl := Option.some.inj (hplanned.symm.trans hi)
      rw [hid, if_pos (by simp), List.getElem?_set_self hlt]
      exact ⟨next, rfl, hlives hlife⟩
    · rw [if_neg (by simpa using (hother hi hsame).symm), append_nil,
        List.getElem?_set_ne (Ne.symm hsame)]
      exact h.lives i other hi
  · rw [hstates, hnext]
    by_cases hsame : i = index
    · subst hsame
      obtain rfl := Option.some.inj (hplanned.symm.trans hi)
      rw [List.getElem?_set_self hlt, hid]
      cases next <;> simp [EventTestState.obliges]
    · rw [List.getElem?_set_ne (Ne.symm hsame), h.asserted i other message hi]
      refine iff_of_false (fun hsome ↦ hother hi hsame (hobliged _ _ hsome)) ?_
      cases next <;> simp [EventTestState.obliges, (hother hi hsame).symm]
  · rw [hnext] at hsome
    cases next with
    | assertionFailed terminalMessage =>
      obtain ⟨rfl, -⟩ := Prod.mk.inj (Option.some.inj hsome)
      exact ⟨index, hindex⟩
    | pending => cases hsome
    | active => cases hsome
    | finished outcome => cases hsome
  · exact hstates ▸ countP_set_eq hentry h.activeStates hcountActive
  · exact hstates ▸ countP_set_eq hentry h.finishedStates hcountFinished
  · rw [hheartbeat, h.lastHeartbeat, heartbeats_append, hquiet]
    simp
  · rcases h.begun hne with ⟨testCount, hdeclared, hlength⟩ | ⟨hsome, -⟩
    · exact .inl ⟨testCount, by rw [declaredCount_append _ _ hne, hdeclared], hlength⟩
    · rw [hterminal.1] at hsome
      cases hsome

theorem Tracks.declared_append (hne : past ≠ []) (hterminal : state.terminal = none) : ∃ testCount,
      declaredCount (past ++ [event]) = some testCount ∧ testCount.toNat = group.tests.length := by
  rcases h.begun hne with ⟨testCount, hdeclared, hlength⟩ | ⟨hsome, -⟩
  · exact ⟨testCount, by rw [declaredCount_append _ _ hne, hdeclared], hlength⟩
  · rw [hterminal] at hsome
    cases hsome

theorem Tracks.heartbeat_append (hticks : event.kind.ticks = none) :
    state.lastHeartbeat = (heartbeats (past ++ [event])).getLast? := by
  rw [heartbeats_append, hticks, h.lastHeartbeat]
  simp

/-- A test that is not pending has a past. -/
theorem Tracks.ne_nil (hgroup : ConsecutiveTests group)
    (hstate : stateOf group state test = some testState) (hnot : testState ≠ .pending) :
    past ≠ [] := by
  rintro rfl
  obtain ⟨index, planned, -, -, -, -, hlives⟩ := h.stateOf_eq_some hgroup hstate
  cases testState with
  | pending => exact hnot rfl
  | active => cases hlives
  | assertionFailed message =>
    obtain ⟨failure, -, hlife⟩ := hlives
    cases hlife
  | finished outcome => rcases hlives with hlife | ⟨failure, -, hlife⟩ <;> cases hlife

/-- An event that changes nothing but the last heartbeat or the end of the run. -/
theorem Tracks.quiet_of_open (horder : InOrder past event)
    (hmoves : ∀ test, movesTest test event.kind = false) (hne : past ≠ [])
    (hterminal : state.terminal = none) (hticks : event.kind.ticks = none)
    (hnext : terminalOf (past ++ [event]) = none) : Tracks group (past ++ [event]) state := by
  refine h.quiet hmoves ?_ rfl rfl rfl rfl (h.heartbeat_append hticks) (hterminal.trans hnext.symm)
    (.inl (h.declared_append hne hterminal))
  cases hobliged : obligation past with
  | none => rfl
  | some pair =>
    have hkind := horder.obliged pair.1 pair.2 hobliged
    simpa [hkind, movesTest] using hmoves pair.1

end

theorem InOrder.obligation_eq_none (h : InOrder past event)
    (hkind : ∀ test outcome, event.kind ≠ .testFinished test outcome) : obligation past = none := by
  cases hobliged : obligation past with
  | none => rfl
  | some pair => exact absurd (h.obliged pair.1 pair.2 hobliged) (hkind _ _)

/-- The states in which a test may finish with an outcome. -/
def MayFinish (outcome : GuestTestOutcome) (before : EventTestState) : Prop :=
  before = .active ∨ ∃ message, before = .assertionFailed message ∧ outcome = .failed message

variable {outcome : GuestTestOutcome}

theorem mayFinish_eq_true :
    mayFinish testState outcome = true ↔
      ∃ before, testState = some before ∧ MayFinish outcome before := by
  unfold MayFinish
  constructor
  · intro h
    unfold mayFinish at h
    split at h
    · exact ⟨_, rfl, .inl rfl⟩
    · rename_i terminalMessage message
      rw [beq_iff_eq.1 h]
      exact ⟨_, rfl, .inr ⟨_, rfl, rfl⟩⟩
    · cases h
  · rintro ⟨before, rfl, rfl | ⟨message, rfl, rfl⟩⟩
    · rfl
    · simp [mayFinish]

theorem lives_finished (hbefore : MayFinish outcome before) (h : Lives test before life) :
    Lives test (.finished outcome) (life ++ [.testFinished test outcome]) := by
  rcases hbefore with rfl | ⟨message, rfl, rfl⟩
  · rw [show life = [.testStarted test] from h]
    exact .inl rfl
  · obtain ⟨failure, rfl, rfl⟩ := h
    exact .inr ⟨failure, rfl, rfl⟩

section

variable (h : Tracks group past state) (hgroup : ConsecutiveTests group)
include h hgroup

/-- A test that may finish is counted as active. -/
theorem Tracks.activeCount_pos (hstate : stateOf group state test = some before)
    (hbefore : MayFinish outcome before) : 0 < state.activeCount := by
  obtain ⟨index, planned, -, -, -, hentry, -⟩ := h.stateOf_eq_some hgroup hstate
  rw [h.activeStates, countP_pos_iff]
  refine ⟨before, mem_of_getElem? hentry, ?_⟩
  rcases hbefore with rfl | ⟨message, rfl, -⟩ <;> rfl

/-- An accepted event is in order, and the new state tracks it too. -/
theorem Tracks.observeEvent
    (hstep : observeEvent group result past.length state event = some state') :
    InOrder past event ∧ Tracks group (past ++ [event]) state' := by
  unfold TestModel.observeEvent at hstep
  split_ifs at hstep with hcheck
  have horder := (h.eventInOrder_iff hgroup).1 hcheck
  refine ⟨horder, ?_⟩
  have hpast : past.length ≠ 0 ↔ past ≠ [] := not_congr length_eq_zero_iff
  cases hkind : event.kind with
  | runStarted testCount =>
    rw [hkind, observeKind] at hstep
    split_ifs at hstep with hbad
    cases hstep
    rw [not_or, not_not, not_not, length_eq_zero_iff] at hbad
    obtain ⟨rfl, hcount⟩ := hbad
    obtain ⟨protocol, sequence, kind⟩ := event
    obtain rfl : kind = .runStarted testCount := hkind
    exact h.quiet (fun _ ↦ rfl) rfl rfl rfl rfl rfl (h.heartbeat_append rfl)
      (h.terminal.trans rfl) (.inl ⟨testCount, rfl, hcount⟩)
  | testStarted test =>
    rw [hkind, observeKind] at hstep
    split_ifs at hstep with hbad
    cases hstep
    simp only [not_or, not_not, Option.not_isSome_iff_eq_none] at hbad
    obtain ⟨hne, hterminal, hstate⟩ := hbad
    refine h.move hgroup hstate (fun other ↦ by rw [hkind]; rfl) ?_ ?_ ?_ rfl ?_ ?_ rfl rfl ?_ rfl
      ⟨hterminal, hterminal⟩ (hpast.1 hne)
    · intro (hlife : lifecycle past test = [])
      rw [hlife, hkind]
      rfl
    · intro other message hobliged
      rw [horder.obligation_eq_none (by simp [hkind])] at hobliged
      cases hobliged
    · rw [obligation_append, hkind]
      rfl
    · have hactive := h.activeCount
      simp [hkind, TestEventKind.startedTest, TestEventKind.finishedTest]
      omega
    · simpa [hkind, TestEventKind.finishedTest] using h.finishedCount
    · rw [h.languageFatal, any_append]
      simp [hkind, TestEventKind.isLanguageFatal]
  | log test level message =>
    cases test with
    | some test =>
      rw [hkind, observeKind] at hstep
      split_ifs at hstep with hbad
      cases hstep
      simp only [not_or, not_not, Option.not_isSome_iff_eq_none] at hbad
      obtain ⟨hterminal, hstate, -⟩ := hbad
      exact h.quiet_of_open horder (by simp [hkind, movesTest])
        (h.ne_nil hgroup hstate (by simp)) hterminal (by rw [hkind]; rfl)
        (by rw [terminalOf_append, hkind])
    | none =>
      rw [hkind, observeKind] at hstep
      split_ifs at hstep with hbad
      cases hstep
      simp only [not_or, Option.not_isSome_iff_eq_none] at hbad
      obtain ⟨hne, hterminal, -⟩ := hbad
      exact h.quiet_of_open horder (by simp [hkind, movesTest]) (hpast.1 hne) hterminal
        (by rw [hkind]; rfl) (by rw [terminalOf_append, hkind])
  | assertionFailed test failure =>
    rw [hkind, observeKind] at hstep
    split_ifs at hstep with hbad
    cases hstep
    simp only [not_or, not_not, Option.not_isSome_iff_eq_none] at hbad
    obtain ⟨hterminal, hstate, -⟩ := hbad
    refine h.move hgroup hstate (fun other ↦ by rw [hkind]; rfl) ?_ ?_ ?_ rfl ?_ ?_ rfl rfl ?_ rfl
      ⟨hterminal, hterminal⟩ (h.ne_nil hgroup hstate (by simp))
    · intro (hlife : lifecycle past test = [.testStarted test])
      rw [hlife, hkind]
      exact ⟨failure, rfl, rfl⟩
    · intro other message hobliged
      rw [horder.obligation_eq_none (by simp [hkind])] at hobliged
      cases hobliged
    · rw [obligation_append, hkind]
      rfl
    · simpa [hkind, TestEventKind.startedTest, TestEventKind.finishedTest] using h.activeCount
    · simpa [hkind, TestEventKind.finishedTest] using h.finishedCount
    · rw [h.languageFatal, any_append]
      simp [hkind, TestEventKind.isLanguageFatal]
  | testFinished test outcome =>
    rw [hkind] at hstep
    simp only [observeKind] at hstep
    split_ifs at hstep with hbad
    cases hstep
    simp only [not_or, Bool.not_eq_true', Bool.not_eq_false, Option.not_isSome_iff_eq_none] at hbad
    obtain ⟨hterminal, hmay, -⟩ := hbad
    obtain ⟨before, hstate, hbefore⟩ := mayFinish_eq_true.1 hmay
    have hpositive := h.activeCount_pos hgroup hstate hbefore
    refine h.move hgroup hstate (fun other ↦ by rw [hkind]; rfl) ?_ ?_ ?_ rfl ?_ ?_ ?_ ?_ ?_ rfl
      ⟨hterminal, hterminal⟩ (h.ne_nil hgroup hstate ?_)
    · rw [hkind]
      exact lives_finished hbefore
    · intro other message hobliged
      have hsame := horder.obliged other message hobliged
      rw [hkind] at hsame
      exact (TestEventKind.testFinished.inj hsame).1.symm
    · rw [obligation_append, hkind]
      rfl
    · have hactive := h.activeCount
      simp [hkind, TestEventKind.startedTest, TestEventKind.finishedTest]
      omega
    · simp [hkind, TestEventKind.finishedTest, h.finishedCount]
    · rcases hbefore with rfl | ⟨message, rfl, -⟩ <;> simp [isRunning] <;> omega
    · rcases hbefore with rfl | ⟨message, rfl, -⟩ <;> simp [isFinished]
    · have hnone : past.any (·.kind.isLanguageFatal) = false := by
        by_contra hany
        have hlast := horder.fatal (by simpa using hany)
        simp [hkind, TestEventKind.isRunFinished] at hlast
      rw [any_append, hnone, Bool.false_or]
      cases outcome <;> simp [hkind, TestEventKind.isLanguageFatal]
    · rcases hbefore with rfl | ⟨message, rfl, -⟩ <;> simp
  | heartbeat ticks =>
    rw [hkind, observeKind] at hstep
    split_ifs at hstep with hbad
    cases hstep
    simp only [not_or, Option.not_isSome_iff_eq_none] at hbad
    obtain ⟨hne, hterminal, -⟩ := hbad
    refine h.quiet (by simp [hkind, movesTest]) (horder.obligation_eq_none (by simp [hkind])) rfl
      rfl rfl rfl ?_ ?_ (.inl (h.declared_append (hpast.1 hne) hterminal))
    · simp [hkind, TestEventKind.ticks]
    · rw [terminalOf_append, hkind]
      exact hterminal
  | runFinished passed failed =>
    rw [hkind, observeKind] at hstep
    split_ifs at hstep with hbad
    cases hstep
    simp only [not_or, not_not, Option.not_isSome_iff_eq_none] at hbad
    obtain ⟨hterminal, -⟩ := hbad
    refine h.quiet (by simp [hkind, movesTest]) (horder.obligation_eq_none (by simp [hkind])) rfl
      rfl rfl rfl (h.heartbeat_append (by rw [hkind]; rfl)) ?_ ?_
    · rw [terminalOf_append, hkind]
    · by_cases hne : past = []
      · subst hne
        exact .inr ⟨rfl, h.finishedCount⟩
      · exact .inl (h.declared_append hne hterminal)

theorem Tracks.observeEvents
    (hrun : observeEvents group result past.length state events = some state') :
    Tracks group (past ++ events) state' := by
  induction events generalizing past state with
  | nil =>
    cases hrun
    rwa [append_nil]
  | cons event events ih =>
    obtain ⟨next, hstep, hrest⟩ := Option.bind_eq_some_iff.1 hrun
    have hnext := (h.observeEvent hgroup hstep).2
    have hlength : (past ++ [event]).length = past.length + 1 := by simp
    have hall := ih hnext (hlength ▸ hrest)
    rwa [append_assoc] at hall

end

end Step

theorem consecutiveTests_of_binding (h : group.validateCompiledBindingWithLimits limits = .ok ()) :
    ConsecutiveTests group := by
  iterate 3 obtain ⟨-, h⟩ := unit_bind_eq_ok.1 h
  obtain ⟨hbudgets, h⟩ := unit_bind_eq_ok.1 h
  obtain ⟨hids, -⟩ := unit_bind_eq_ok.1 h
  refine ⟨fun hempty ↦ ?_, ?_⟩
  · simp [FullImageTestGroup.budgetsValid, hempty] at hbudgets
  · simpa [FullImageTestGroup.testIdsConsecutive] using hids

variable {α : Type}

theorem forAllIndexed_eq_ok (h : TestPlan.forAllIndexed check items = .ok ())
    (hitem : items[index]? = some item) : check index item = .ok () :=
  forAll_eq_ok.1 h (item, index) (mem_zipIdx_iff_getElem?.2 hitem)

/-- What a sealed plan guarantees about its groups. -/
theorem ValidatedTestPlan.validateGroup (plan : ValidatedTestPlan)
    (hgroup : plan.plan.imageGroups[index]? = some group) :
    plan.plan.validateGroup plan.limits index group = .ok () := by
  have h := plan.valid
  unfold TestPlan.validateWithLimits at h
  iterate 10 obtain ⟨-, h⟩ := unit_bind_eq_ok.1 h
  obtain ⟨hgroups, -⟩ := unit_bind_eq_ok.1 h
  exact forAllIndexed_eq_ok hgroups hgroup

theorem ValidatedTestPlan.consecutiveTests (plan : ValidatedTestPlan)
    (hgroup : plan.plan.imageGroups[index]? = some group) :
    ConsecutiveTests group := by
  obtain ⟨-, h⟩ := unit_bind_eq_ok.1 (plan.validateGroup hgroup)
  exact consecutiveTests_of_binding (unit_bind_eq_ok.1 h).1

theorem forAll_zip_eq_ok {β : Type} {check : α × β → Except TestModelError Unit} {left : List α}
    {right : List β} (h : forAll check (left.zip right) = .ok ()) {a : α} {b : β}
    (ha : left[index]? = some a) (hb : right[index]? = some b) : check (a, b) = .ok () :=
  forAll_eq_ok.1 h (a, b)
    (mem_of_getElem? (List.getElem?_zip_eq_some.2 ⟨ha, hb⟩))

/-! ## Accepted results -/

/-- The outcome a case reports for the outcome of its guest. -/
def TestOutcome.ofGuest : GuestTestOutcome → TestOutcome
  | .passed => .passed
  | .failed message => .failed .runtime message
  | .timedOut timeoutNs => .timedOut .runtime timeoutNs
  | .languageFatal cause => .languageFatal cause

theorem guestOutcomeMatchesCase_iff :
    guestOutcomeMatchesCase guest case = true ↔ case = .ofGuest guest := by
  cases guest with
  | passed => cases case <;> simp [guestOutcomeMatchesCase, TestOutcome.ofGuest]
  | failed message =>
    cases case with
    | failed phase text =>
      cases phase <;> simp [guestOutcomeMatchesCase, TestOutcome.ofGuest, @eq_comm _ text]
    | _ => simp [guestOutcomeMatchesCase, TestOutcome.ofGuest]
  | timedOut timeoutNs =>
    cases case with
    | timedOut phase other =>
      cases phase <;> simp [guestOutcomeMatchesCase, TestOutcome.ofGuest, @eq_comm _ other]
    | _ => simp [guestOutcomeMatchesCase, TestOutcome.ofGuest]
  | languageFatal cause =>
    cases case with
    | languageFatal other =>
      simp [guestOutcomeMatchesCase, TestOutcome.ofGuest, @eq_comm _ other]
    | _ => simp [guestOutcomeMatchesCase, TestOutcome.ofGuest]

/-- The outcomes a list of events reports for a test. -/
def finishes (events : List TestEvent) (test : TestId) : List GuestTestOutcome :=
  events.filterMap fun event ↦
    match event.kind with
    | .testFinished other outcome => if other = test then some outcome else none
    | _ => none

/-- The events back a result in which everything passed. -/
structure Backed (group : FullImageTestGroup) (result : ImageGroupResult) : Prop where
  starts : ∃ testCount, result.events.head?.map TestEvent.kind = some (.runStarted testCount) ∧
    testCount.toNat = group.tests.length
  ends : ∃ passed, result.events.getLast?.map TestEvent.kind = some (.runFinished passed 0) ∧
    passed.toNat = group.tests.length
  tests : ∀ planned ∈ group.tests, lifecycle result.events planned.descriptor.id =
    [.testStarted planned.descriptor.id, .testFinished planned.descriptor.id .passed]

/-- Every case reports the one outcome its test finished with. -/
def CasesReported (result : ImageGroupResult) : Prop :=
  ∀ case ∈ result.cases, ∃ outcome, finishes result.events case.descriptor.id = [outcome] ∧
    case.outcome = .ofGuest outcome

theorem finishes_eq (events : List TestEvent) (test : TestId) :
    finishes events test = (lifecycle events test).filterMap fun kind ↦
      match kind with
      | .testFinished _ outcome => some outcome
      | _ => none := by
  induction events with
  | nil => rfl
  | cons event events ih =>
    rw [finishes, filterMap_cons, ← finishes, ih, lifecycle, lifecycle, map_cons]
    cases hkind : event.kind with
    | testFinished other outcome =>
      by_cases hsame : other = test
      · simp [movesTest, hsame]
      · simp [movesTest, hsame]
    | testStarted other | assertionFailed other _ =>
      by_cases hsame : other = test <;> simp [movesTest, hsame]
    | _ => simp [movesTest]

/-- An accepted event list and the state the check reaches at its end. -/
structure Accepted (group : FullImageTestGroup) (result : ImageGroupResult) (state : EventState) :
    Prop where
  tracks : Tracks group result.events state
  cases : ∀ case ∈ result.cases, caseMatches group state case = true
  summary : summaryValid group result state = true

theorem validateImageEvents_eq_ok (hgroup : ConsecutiveTests group)
    (h : validateImageEvents result group maximumTests = .ok ()) :
    (result.events = [] ∧ result.infrastructureFailure.isSome ∧ result.cases = []) ∨
      ∃ state, Accepted group result state := by
  unfold validateImageEvents at h
  split_ifs at h with hempty
  · simp only [failIf_eq_ok, Bool.not_eq_false', Bool.and_eq_true, List.isEmpty_iff] at h
    exact .inl ⟨List.isEmpty_iff.1 hempty, h.1, h.2⟩
  · obtain ⟨-, h⟩ := unit_bind_eq_ok.1 h
    obtain ⟨state, hrun, h⟩ := bind_eq_ok.1 h
    obtain ⟨hcases, hsummary⟩ := unit_bind_eq_ok.1 h
    simp only [failIf_eq_ok, Bool.not_eq_false', all_eq_true] at hcases hsummary
    exact .inr ⟨state, ((tracks_new group).observeEvents hgroup (orFail_eq_ok.1 hrun)), hcases,
      hsummary⟩

section Accepted

variable {group : FullImageTestGroup} {result : ImageGroupResult} {state : EventState}

section

variable (h : Accepted group result state)
include h

theorem Accepted.lives (hgroup : ConsecutiveTests group) (hcase : case ∈ result.cases) :
    ∃ outcome, Lives case.descriptor.id (.finished outcome)
      (lifecycle result.events case.descriptor.id) ∧ case.outcome = .ofGuest outcome := by
  have hmatch := h.cases case hcase
  unfold caseMatches at hmatch
  split at hmatch
  · rename_i outcome hstate
    obtain ⟨-, -, -, -, -, -, hlives⟩ := h.tracks.stateOf_eq_some hgroup hstate
    exact ⟨outcome, hlives, guestOutcomeMatchesCase_iff.1 hmatch⟩
  · cases hmatch

theorem Accepted.casesReported (hgroup : ConsecutiveTests group) : CasesReported result := by
  intro case hcase
  obtain ⟨outcome, hlives, houtcome⟩ := h.lives hgroup hcase
  refine ⟨outcome, ?_, houtcome⟩
  rw [finishes_eq]
  rcases hlives with hlife | ⟨failure, -, hlife⟩ <;> simp [hlife]

/-- Without an infrastructure failure the last event counts the cases. -/
theorem Accepted.terminal (hnone : result.infrastructureFailure = none) :
    ∃ passed failed, state.terminal = some (passed, failed) ∧ passed.toNat = passedCases result ∧
      failed.toNat = result.cases.length - passedCases result ∧
      state.finishedCount = group.tests.length := by
  have hsummary := h.summary
  rw [summaryValid, hnone] at hsummary
  simp only [Bool.and_eq_true, beq_iff_eq] at hsummary
  obtain ⟨⟨passed, failed⟩, hterminal, hcounts⟩ := Option.map_eq_some_iff.1 hsummary.1
  obtain ⟨hpassed, hfailed⟩ := Prod.mk.inj hcounts
  exact ⟨passed, failed, hterminal, hpassed, hfailed, hsummary.2⟩

theorem Accepted.backed (hgroup : ConsecutiveTests group)
    (hnone : result.infrastructureFailure = none)
    (hcases : ∀ (index : ℕ) (planned : ImageTest), group.tests[index]? = some planned →
      ∃ case ∈ result.cases, case.descriptor = planned.descriptor)
    (hlength : result.cases.length = group.tests.length)
    (hpassed : ∀ case ∈ result.cases, case.outcome = .passed) : Backed group result := by
  obtain ⟨passed, failed, hterminal, hpassedCases, hfailedCases, hfinished⟩ := h.terminal hnone
  have hall : passedCases result = result.cases.length :=
    countP_eq_length.2 fun case hcase ↦ by simp [hpassed case hcase]
  have hpositive := length_pos_of_ne_nil hgroup.nonempty
  have hevents : result.events ≠ [] := by
    intro hempty
    have hnil := h.tracks.terminal
    rw [hempty, hterminal] at hnil
    cases hnil
  refine ⟨?_, ?_, fun planned hplanned ↦ ?_⟩
  · rcases h.tracks.begun hevents with ⟨testCount, hdeclared, hcount⟩ | ⟨-, hzero⟩
    · refine ⟨testCount, ?_, hcount⟩
      unfold declaredCount at hdeclared
      split at hdeclared
      · rename_i hhead
        rw [hhead, ← Option.some.inj hdeclared]
        rfl
      · cases hdeclared
    · omega
  · refine ⟨passed, ?_, by omega⟩
    have hlast := h.tracks.terminal
    rw [hterminal] at hlast
    unfold terminalOf at hlast
    split at hlast
    · rename_i hevent
      obtain ⟨rfl, rfl⟩ := Prod.mk.inj (Option.some.inj hlast)
      have hzero : failed = 0 := UInt32.toNat_inj.1 (by simpa [hall] using hfailedCases)
      rw [hevent, hzero]
      rfl
    · cases hlast
  · obtain ⟨index, hindex⟩ := List.getElem?_of_mem hplanned
    obtain ⟨case, hcase, hdescriptor⟩ := hcases index planned hindex
    obtain ⟨outcome, hlives, houtcome⟩ := h.lives hgroup hcase
    rw [hpassed case hcase] at houtcome
    rw [hdescriptor] at hlives
    cases outcome with
    | passed =>
      rcases hlives with hlife | ⟨failure, hfailed, -⟩
      · exact hlife
      · cases hfailed
    | failed message => cases houtcome
    | timedOut timeoutNs => cases houtcome
    | languageFatal cause => cases houtcome

end

end Accepted

/-- The parts of an accepted group result its verdict rests on. -/
structure GroupChecked (plan : ValidatedTestPlan) (group : FullImageTestGroup)
    (result : ImageGroupResult) : Prop where
  group_eq : result.group = group.id
  complete : result.infrastructureFailure = none → result.cases.length = group.tests.length
  descriptors : ∀ (index : ℕ) (case : TestCaseResult) (planned : ImageTest),
    result.cases[index]? = some case → group.tests[index]? = some planned →
      case.descriptor = planned.descriptor
  events : validateImageEvents result group plan.limits.tests = .ok ()

theorem validateGroupResult_eq_ok (h : validateGroupResult plan result group = .ok ()) :
    GroupChecked plan group result := by
  obtain ⟨hgroup, h⟩ := unit_bind_eq_ok.1 h
  obtain ⟨-, h⟩ := unit_bind_eq_ok.1 h
  obtain ⟨hcomplete, h⟩ := unit_bind_eq_ok.1 h
  iterate 2 obtain ⟨-, h⟩ := unit_bind_eq_ok.1 h
  obtain ⟨hdescriptors, hevents⟩ := unit_bind_eq_ok.1 h
  simp only [failIf_eq_ok, Bool.or_eq_false_iff, bne_eq_false_iff_eq] at hgroup
  refine ⟨hgroup.1, fun hnone ↦ ?_, fun index case planned hcase hplanned ↦ ?_, hevents⟩
  · simpa [hnone] using hcomplete
  · simpa using forAll_zip_eq_ok hdescriptors hcase hplanned

/-- The parts of an accepted report its verdict rests on. -/
structure ReportChecked (plan : ValidatedTestPlan) (report : TestReport) : Prop where
  unit_length : report.unit.length = plan.plan.unitTests.length
  images_length : report.images.length = plan.plan.imageGroups.length
  unit : ∀ (index : ℕ) (case : TestCaseResult) (planned : ComptimeTest),
    report.unit[index]? = some case → plan.plan.unitTests[index]? = some planned →
      case.descriptor = planned.descriptor
  images : ∀ (index : ℕ) (result : ImageGroupResult) (group : FullImageTestGroup),
    report.images[index]? = some result → plan.plan.imageGroups[index]? = some group →
      GroupChecked plan group result

theorem validateAgainst_eq_ok (h : report.validateAgainst plan = .ok ()) :
    ReportChecked plan report := by
  unfold TestReport.validateAgainst at h
  iterate 3 obtain ⟨-, h⟩ := unit_bind_eq_ok.1 h
  obtain ⟨hunits, h⟩ := unit_bind_eq_ok.1 h
  obtain ⟨himages, h⟩ := unit_bind_eq_ok.1 h
  iterate 2 obtain ⟨-, h⟩ := unit_bind_eq_ok.1 h
  obtain ⟨hunit, hgroups⟩ := unit_bind_eq_ok.1 h
  refine ⟨by simpa using hunits, by simpa using himages,
    fun index case planned hcase hplanned ↦ ?_, fun index result group hresult hgroup ↦
      validateGroupResult_eq_ok (forAll_zip_eq_ok hgroups hresult hgroup)⟩
  have hcheck := forAll_zip_eq_ok hunit hcase hplanned
  simp only [validateUnitResult, failIf_eq_ok, Bool.or_eq_false_iff, bne_eq_false_iff_eq] at hcheck
  exact hcheck.1.1

theorem getElem?_of_length_eq {β : Type} {left : List α} {right : List β}
    (h : left.length = right.length) {b : β} (hb : right[index]? = some b) :
    ∃ a, left[index]? = some a := by
  have hlt := (List.getElem?_eq_some_iff.1 hb).1
  exact ⟨_, List.getElem?_eq_getElem (h ▸ hlt)⟩

/-- A passing report is backed by its events, and no accepted report misstates how a test ended. -/
theorem validateAgainst_backed {plan : ValidatedTestPlan} {report : TestReport}
    (h : report.validateAgainst plan = .ok ()) :
    (report.passed = true →
      (∀ (index : ℕ) (planned : ComptimeTest), plan.plan.unitTests[index]? = some planned →
        ∃ case, report.unit[index]? = some case ∧ case.descriptor = planned.descriptor ∧
          case.outcome = .passed) ∧
      ∀ (index : ℕ) (group : FullImageTestGroup), plan.plan.imageGroups[index]? = some group →
        ∃ result, report.images[index]? = some result ∧ result.group = group.id ∧
          Backed group result) ∧
    ∀ result ∈ report.images, CasesReported result := by
  have hreport := validateAgainst_eq_ok h
  have haccepted {index : ℕ} {group : FullImageTestGroup} {result : ImageGroupResult}
      (hgroup : plan.plan.imageGroups[index]? = some group)
      (hresult : report.images[index]? = some result) :=
    validateImageEvents_eq_ok (plan.consecutiveTests hgroup)
      (hreport.images index result group hresult hgroup).events
  refine ⟨fun hpassed ↦ ?_, fun result hmem ↦ ?_⟩
  · simp only [TestReport.passed, Bool.and_eq_true, all_eq_true, mem_append,
      mem_flatMap, beq_iff_eq] at hpassed
    obtain ⟨houtcomes, hfailures⟩ := hpassed
    refine ⟨fun index planned hplanned ↦ ?_, fun index group hgroup ↦ ?_⟩
    · obtain ⟨case, hcase⟩ := getElem?_of_length_eq hreport.unit_length hplanned
      exact ⟨case, hcase, hreport.unit index case planned hcase hplanned,
        houtcomes case (.inl (mem_of_getElem? hcase))⟩
    · obtain ⟨result, hresult⟩ := getElem?_of_length_eq hreport.images_length hgroup
      have hmem := mem_of_getElem? hresult
      have hchecked := hreport.images index result group hresult hgroup
      have hnone : result.infrastructureFailure = none :=
        Option.isNone_iff_eq_none.1 (hfailures result hmem)
      have hlength := hchecked.complete hnone
      refine ⟨result, hresult, hchecked.group_eq, ?_⟩
      rcases haccepted hgroup hresult with ⟨-, hsome, -⟩ | ⟨state, hstate⟩
      · simp [hnone] at hsome
      · refine hstate.backed (plan.consecutiveTests hgroup) hnone (fun i planned hplanned ↦ ?_)
          hlength fun case hcase ↦ houtcomes case (.inr ⟨result, hmem, hcase⟩)
        obtain ⟨case, hcase⟩ := getElem?_of_length_eq hlength hplanned
        exact ⟨case, mem_of_getElem? hcase, hchecked.descriptors i case planned hcase hplanned⟩
  · obtain ⟨index, hresult⟩ := List.getElem?_of_mem hmem
    obtain ⟨group, hgroup⟩ := getElem?_of_length_eq hreport.images_length.symm hresult
    rcases haccepted hgroup hresult with ⟨-, -, hcases⟩ | ⟨state, hstate⟩
    · simp [CasesReported, hcases]
    · exact hstate.casesReported (plan.consecutiveTests hgroup)

def exampleDigest (byte : UInt8) : Sha256Digest := .repeated byte

def exampleBuild : BuildIdentity where
  compiler := exampleDigest 1
  language := .design01
  target := ⟨"aarch64-qemu-virt", by decide⟩
  targetPackage := exampleDigest 2
  standardLibrary := exampleDigest 3
  sourceGraph := exampleDigest 4
  request := exampleDigest 5
  profile := exampleDigest 6

def exampleSpan : Span := ⟨⟨0⟩, ⟨10, 20⟩⟩

def unitDescriptor : TestDescriptor := ⟨⟨0⟩, "adds", .comptimeUnit, some exampleSpan, 5⟩

def imageDescriptor : TestDescriptor := ⟨⟨1⟩, "boots", .integrationImage, some exampleSpan, 10⟩

def exampleGroup : FullImageTestGroup where
  id := ⟨0⟩
  name := "harness"
  root := .generatedHarness "harness"
  tests := [⟨imageDescriptor, .generatedFunction ⟨exampleDigest 8⟩, []⟩]
  deterministicSeed := none
  bootTimeoutNs := 100
  shutdownTimeoutNs := 100
  maximumEvents := 5
  maximumOutputBytes := 4096

def examplePlan : ValidatedTestPlan where
  plan :=
    { schema := testPlanSchema
      build := exampleBuild
      target := exampleBuild.target
      scenarios := []
      unitTests := [⟨unitDescriptor, ⟨exampleDigest 9⟩⟩]
      imageGroups := [exampleGroup] }
  limits := .standard
  valid := by decide

def exampleEvidence : ImageExecutionEvidence where
  imageDigest := some (exampleDigest 10)
  targetDigest := exampleBuild.targetPackage
  emulatorDigest := some (exampleDigest 11)
  scenarioDigest := none
  commandDigest := some (exampleDigest 12)
  eventStreamDigest := some (exampleDigest 13)
  exitCode := some 0
  stderr := []

def passingResult : ImageGroupResult where
  group := ⟨0⟩
  cases := [⟨imageDescriptor, .passed, none⟩]
  events := [⟨3, 0, .runStarted 1⟩, ⟨3, 1, .testStarted ⟨1⟩⟩,
    ⟨3, 2, .testFinished ⟨1⟩ .passed⟩, ⟨3, 3, .runFinished 1 0⟩]
  evidence := exampleEvidence
  infrastructureFailure := none

def passingReport : TestReport where
  schema := testReportSchema
  build := exampleBuild
  startedUnixNs := none
  durationNs := none
  unit := [⟨unitDescriptor, .passed, none⟩]
  images := [passingResult]

theorem validateAgainst_backed_passingReport :
    passingReport.passed = true ∧ Backed exampleGroup passingResult ∧
      CasesReported passingResult := by
  have hpassed : passingReport.passed = true := by decide
  obtain ⟨hbacked, hcases⟩ := @validateAgainst_backed examplePlan passingReport (by decide)
  obtain ⟨result, hresult, -, hgroup⟩ := (hbacked hpassed).2 0 exampleGroup rfl
  cases hresult
  exact ⟨hpassed, hgroup, hcases passingResult mem_cons_self⟩

end Wrela.TestModel
