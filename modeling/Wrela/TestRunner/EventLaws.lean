import Wrela.TestModel.ReportLaws
import Wrela.TestProtocol.StreamLaws
import Wrela.TestRunner.Harness

/-!
# Accepted streams and accepted event lists

The stream verifier and the check of a report keep different states.  Both are determined by the
events before, so an event that the grammar of the protocol admits, and that names the tests of the
group, is one that the report's check accepts too.
-/

namespace Wrela.TestRunner

open List Wrela.Source Wrela.Checked Wrela.TestModel
open Wrela.TestProtocol (TestEvent TestEventKind GuestTestOutcome AssertionFailure ProtocolLimits
  Admits Grammar startedTests finishedTests heartbeats obligation validateEvent validateKind
  validateEvent_eq_ok)

theorem mem_startedTests {past : List TestEvent} {test : TestId} :
    test ∈ startedTests past ↔ .testStarted test ∈ lifecycle past test := by
  simp only [startedTests, lifecycle, mem_filterMap, mem_filter, mem_map,
    TestProtocol.TestEventKind.startedTest_eq_some, movesTest, beq_self_eq_true, and_true]

theorem mem_finishedTests {past : List TestEvent} {test : TestId} :
    test ∈ finishedTests past ↔ ∃ outcome, .testFinished test outcome ∈ lifecycle past test := by
  simp only [finishedTests, lifecycle, mem_filterMap, mem_filter, mem_map,
    TestProtocol.TestEventKind.finishedTest_eq_some, movesTest, beq_self_eq_true, and_true]
  constructor
  · rintro ⟨event, hmem, outcome, hkind⟩
    exact ⟨outcome, event, hmem, hkind⟩
  · rintro ⟨outcome, event, hmem, hkind⟩
    exact ⟨event, hmem, outcome, hkind⟩

section Step

variable {limits : ProtocolLimits} {maximum : ℕ} {group : FullImageTestGroup}
  {result : ImageGroupResult} {past : List TestEvent} {state : EventState} {event : TestEvent}
  {test : TestId}

section

variable (h : Tracks group past state)
  (hgroup : ConsecutiveTests group)
  (hplanned : (stateIndex group test).isSome)
include h hgroup hplanned

/-- The state of a planned test fits its life. -/
theorem stateOf_planned : ∃ testState, stateOf group state test = some testState ∧
      Lives test testState (lifecycle past test) ∧
      ∀ message, testState = .assertionFailed message → obligation past = some (test, message) := by
  obtain ⟨index, hindex⟩ := Option.isSome_iff_exists.1 hplanned
  obtain ⟨planned, htest, rfl⟩ := hgroup.stateIndex_eq_some.1 hindex
  obtain ⟨testState, hstate, hlives⟩ := h.lives index planned htest
  refine ⟨testState, by rw [stateOf, hindex, Option.bind_some, hstate], hlives, ?_⟩
  rintro message rfl
  exact (h.asserted index planned message htest).1 hstate

theorem stateOf_pending (hnew : test ∉ startedTests past) :
    stateOf group state test = some .pending := by
  obtain ⟨testState, hstate, hlives, -⟩ := stateOf_planned h hgroup hplanned
  rw [mem_startedTests] at hnew
  cases testState with
  | pending => exact hstate
  | active => exact absurd (by rw [show lifecycle past test = _ from hlives]; simp) hnew
  | assertionFailed message =>
    obtain ⟨failure, -, hlife⟩ := hlives
    exact absurd (by rw [hlife]; simp) hnew
  | finished outcome =>
    rcases hlives with hlife | ⟨failure, -, hlife⟩ <;> exact absurd (by rw [hlife]; simp) hnew

theorem stateOf_running (hstarted : test ∈ startedTests past)
    (hfinished : test ∉ finishedTests past) : stateOf group state test = some .active ∨ ∃ message,
      stateOf group state test = some (.assertionFailed message) ∧
        obligation past = some (test, message) := by
  obtain ⟨testState, hstate, hlives, hobliged⟩ := stateOf_planned h hgroup hplanned
  rw [mem_startedTests] at hstarted
  rw [mem_finishedTests] at hfinished
  cases testState with
  | pending =>
    rw [show lifecycle past test = [] from hlives] at hstarted
    cases hstarted
  | active => exact .inl hstate
  | assertionFailed message => exact .inr ⟨message, hstate, hobliged message rfl⟩
  | finished outcome =>
    refine absurd ⟨outcome, ?_⟩ hfinished
    rcases hlives with hlife | ⟨failure, -, hlife⟩ <;> rw [hlife] <;> simp

end

/-- What the runner and the stream verifier have made sure of an event, besides the grammar. -/
structure Checked (limits : ProtocolLimits) (group : FullImageTestGroup)
    (result : ImageGroupResult) (index : ℕ) (event : TestEvent) : Prop where
  valid : validateEvent event limits = .ok ()
  payload : eventPayloadBytes event ≤ TestProtocol.maxTestEventBytes
  bound : validateDecodedEvent group index event = .ok ()
  planned : ∀ test failure, event.kind = .assertionFailed test failure →
    plannedAssertionMatches group test failure = true
  last : event.kind.isRunFinished = true →
    index + 1 = result.events.length ∧ result.infrastructureFailure = none

theorem terminal_eq_none (h : Tracks group past state) (hadmits : Admits maximum past event) :
    state.terminal = none := by
  rw [h.terminal, terminalOf]
  cases hlast : past.getLast? with
  | none => rfl
  | some last =>
    have hopen := hadmits.notTerminal last (mem_of_getLast? hlast)
    obtain ⟨protocol, sequence, kind⟩ := last
    cases kind with
    | runFinished passed failed => cases hopen
    | _ => rfl

theorem inOrder_of_admits (hadmits : Admits maximum past event)
    (hchecked : Checked limits group result past.length event) : InOrder past event where
  protocol := (validateEvent_eq_ok.1 hchecked.valid).2.1
  sequence := hadmits.sequence
  payload := hchecked.payload
  fatal hany := hadmits.fatal (by simpa using hany)
  obliged := hadmits.obliged

/-- A running test that an event refers to is active, unless the event is the finish its failed
assertion obliges. -/
theorem stateOf_active (h : Tracks group past state) (hgroup : ConsecutiveTests group)
    (hadmits : Admits maximum past event) (hplanned : (stateIndex group test).isSome)
    (htest : event.kind.runningTest = some test)
    (hkind : ∀ outcome, event.kind ≠ .testFinished test outcome) :
    stateOf group state test = some .active := by
  obtain ⟨hstarted, hfinished⟩ := hadmits.running test htest
  rcases stateOf_running h hgroup hplanned hstarted hfinished with hactive | ⟨message, -, hobliged⟩
  · exact hactive
  · exact absurd (hadmits.obliged test message hobliged) (hkind _)

theorem textHasContent_eq (text : String) :
    textHasContent text = TestProtocol.containsNonWhitespace text := by
  simp [textHasContent, isBlank, TestProtocol.containsNonWhitespace, not_all_eq_any_not]

theorem validateAssertion_content {failure : AssertionFailure}
    (h : validateKind limits (.assertionFailed test failure) = .ok ()) :
    textHasContent failure.expression = true ∧ failure.message.all textHasContent = true ∧
      ∀ source ∈ failure.source, source.range.start ≤ source.range.stop := by
  have hfits := TestProtocol.validateKind_fits h
  obtain ⟨-, -, -, -, hsource⟩ := hfits
  simp only [validateKind, TestProtocol.validateAssertion, unit_bind_eq_ok, failIf_eq_ok,
    Bool.not_eq_false'] at h
  obtain ⟨-, hexpression, -, hmessage, -⟩ := h
  refine ⟨by rw [textHasContent_eq, hexpression], ?_, hsource⟩
  cases hsome : failure.message with
  | none => rfl
  | some message =>
    simp only [hsome, Option.any_some, Bool.not_eq_false'] at hmessage
    rw [Option.all_some, textHasContent_eq, TestProtocol.containsNonWhitespace, hmessage]

theorem validOutcome_of_validateKind (h : validateKind limits (.testFinished test outcome) = .ok ())
    :
    invalidGuestOutcome outcome = false := by
  cases outcome with
  | passed => rfl
  | failed message =>
    simp only [validateKind, unit_bind_eq_ok, failIf_eq_ok, Bool.not_eq_false'] at h
    rw [invalidGuestOutcome, textHasContent_eq, h.2]
    rfl
  | timedOut timeoutNs => simpa [validateKind, invalidGuestOutcome] using h
  | languageFatal cause => rfl

/-- A planned assertion names its source. -/
theorem plannedAssertion_source {failure : AssertionFailure} (hgenerated : group.isGenerated = true)
    (hplanned : plannedAssertionMatches group test failure = true)
    (hsource : ∀ source ∈ failure.source, source.range.start ≤ source.range.stop) :
    (failure.source.any fun source ↦ decide (source.range.start ≤ source.range.stop)) = true := by
  simp only [plannedAssertionMatches, hgenerated, Bool.not_true, Bool.false_or, Option.any_eq_true,
    Bool.and_eq_true] at hplanned
  obtain ⟨-, -, -, source, hsome, -⟩ := hplanned
  exact (Option.any_eq_true _ _).2 ⟨source, hsome, by simpa using hsource source hsome⟩

/-- The report's check accepts what the grammar admits. -/
theorem observeEvent_of_admits (h : Tracks group past state) (hgroup : ConsecutiveTests group)
    (hadmits : Admits maximum past event)
    (hchecked : Checked limits group result past.length event) :
    ∃ next, observeEvent group result past.length state event = some next := by
  have horder := (h.eventInOrder_iff hgroup).2 (inOrder_of_admits hadmits hchecked)
  have hterminal := terminal_eq_none h hadmits
  have hbegun : (∀ testCount, event.kind ≠ .runStarted testCount) → past.length ≠ 0 := by
    intro hkind hzero
    obtain ⟨testCount, hstart⟩ := hadmits.runStarted.2 (length_eq_zero_iff.1 hzero)
    exact hkind testCount hstart
  have hvalid := (validateEvent_eq_ok.1 hchecked.valid).2.2.2
  have hbound := hchecked.bound
  rw [observeEvent, if_pos horder]
  cases hkind : event.kind with
  | runStarted testCount =>
    have hfirst := hadmits.runStarted.1 ⟨testCount, hkind⟩
    rw [validateDecodedEvent, hkind] at hbound
    simp only [failIf_eq_ok, Bool.or_eq_false_iff, bne_eq_false_iff_eq] at hbound
    exact ⟨_, if_neg (by simp [hfirst, hbound.2])⟩
  | testStarted test =>
    rw [validateDecodedEvent, hkind] at hbound
    simp only [failIf_eq_ok, Option.isNone_eq_false_iff] at hbound
    have hpending := stateOf_pending h hgroup hbound (hadmits.started test hkind).1
    exact ⟨_, if_neg (by simp [hbegun (by simp [hkind]), hterminal, hpending])⟩
  | log test level message =>
    have hmessage : message.isEmpty = false := by
      rw [hkind, validateKind] at hvalid
      simpa using (unit_bind_eq_ok.1 hvalid).2
    cases test with
    | some test =>
      rw [validateDecodedEvent, hkind] at hbound
      simp only [failIf_eq_ok, Option.isNone_eq_false_iff] at hbound
      have hactive := stateOf_active h hgroup hadmits hbound (by rw [hkind]; rfl) (by simp [hkind])
      exact ⟨_, if_neg (by simp [hterminal, hactive, hmessage])⟩
    | none => exact ⟨_, if_neg (by simp [hbegun (by simp [hkind]), hterminal, hmessage])⟩
  | assertionFailed test failure =>
    rw [validateDecodedEvent, hkind] at hbound
    simp only [failIf_eq_ok, Option.isNone_eq_false_iff] at hbound
    have hactive := stateOf_active h hgroup hadmits hbound (by rw [hkind]; rfl) (by simp [hkind])
    have hplanned := hchecked.planned test failure hkind
    rw [hkind] at hvalid
    obtain ⟨hexpression, hmessage, hsource⟩ := validateAssertion_content hvalid
    refine ⟨_, if_neg ?_⟩
    simp only [hterminal, hactive, hexpression, hmessage, hplanned, Option.isSome_none,
      Bool.not_true, Bool.false_eq_true, ne_eq, not_true_eq_false, or_false, false_or]
    rintro ⟨hgenerated, hbad⟩
    exact absurd hbad (by simp [plannedAssertion_source hgenerated hplanned hsource])
  | testFinished test outcome =>
    rw [validateDecodedEvent, hkind] at hbound
    simp only [failIf_eq_ok, Option.isNone_eq_false_iff] at hbound
    obtain ⟨hstarted, hfinished⟩ := hadmits.running test (by rw [hkind]; rfl)
    have houtcome : invalidGuestOutcome outcome = false := by
      rw [hkind] at hvalid
      exact validOutcome_of_validateKind hvalid
    have hmay : mayFinish (stateOf group state test) outcome = true := by
      rw [mayFinish_eq_true]
      rcases stateOf_running h hgroup hbound hstarted hfinished with hactive | ⟨message, hstate, hobliged⟩
      · exact ⟨_, hactive, .inl rfl⟩
      · have hforced := hadmits.obliged test message hobliged
        rw [hkind, TestEventKind.testFinished.injEq] at hforced
        exact ⟨_, hstate, .inr ⟨message, rfl, hforced.2⟩⟩
    exact ⟨_, if_neg (by simp [hterminal, hmay, houtcome])⟩
  | heartbeat ticks =>
    have hlater : state.lastHeartbeat.any (fun previous ↦ decide (previous ≥ ticks)) = false := by
      rw [h.lastHeartbeat]
      cases hlast : (heartbeats past).getLast? with
      | none => rfl
      | some previous =>
        have hlt := hadmits.ticks ticks hkind previous (mem_of_getLast? hlast)
        simpa using hlt
    exact ⟨_, if_neg (by simp [hbegun (by simp [hkind]), hterminal, hlater])⟩
  | runFinished passed failed =>
    obtain ⟨hlength, hfailure⟩ := hchecked.last (by rw [hkind]; rfl)
    have hdone : state.activeCount = 0 := by
      have hne : past ≠ [] := fun hempty ↦ hbegun (by simp [hkind]) (by rw [hempty]; rfl)
      rcases h.begun hne with ⟨testCount, hdeclared, -⟩ | ⟨hsome, -⟩
      · have hsummary := hadmits.summary passed failed hkind testCount hdeclared
        have hcount := h.activeCount
        omega
      · rw [hterminal] at hsome
        cases hsome
    exact ⟨_, if_neg (by simp [hterminal, hlength, hfailure, hdone])⟩

/-- A list of events the grammar admits is one the report's check accepts. -/
theorem observeEvents_of_grammar (h : Tracks group past state) (hgroup : ConsecutiveTests group)
    (hgrammar : Grammar maximum (past ++ later))
    (hchecked : ∀ (i : ℕ) event, (past ++ later)[i]? = some event →
      Checked limits group result i event) :
    ∃ last, observeEvents group result past.length state later = some last := by
  induction later generalizing past state with
  | nil => exact ⟨state, rfl⟩
  | cons event later ih =>
    have hat : (past ++ event :: later)[past.length]? = some event := by simp
    have hadmits := hgrammar past.length event hat
    rw [take_left] at hadmits
    obtain ⟨next, hstep⟩ := observeEvent_of_admits h hgroup hadmits (hchecked _ _ hat)
    have hsplit : past ++ event :: later = past ++ [event] ++ later := by simp
    rw [hsplit] at hgrammar hchecked
    obtain ⟨last, hrun⟩ := ih (h.observeEvent hgroup hstep).2 hgrammar hchecked
    rw [length_append, length_singleton] at hrun
    exact ⟨last, Option.bind_eq_some_iff.2 ⟨next, hstep, hrun⟩⟩

def outcomeOf : EventTestState → Option GuestTestOutcome
  | .finished outcome => some outcome
  | _ => none

/-- What the harness has collected is what the report's check has recorded. -/
structure Collects (past : List TestEvent) (state : EventState) (collection : Collection) :
    Prop where
  finished : collection.finished = state.states.map outcomeOf
  terminal : collection.terminal = state.terminal
  passed : collection.finished.countP (· == some .passed) = TestProtocol.passedCount past

theorem collects_new (group : FullImageTestGroup) :
    Collects [] (.new group.tests.length) ⟨List.replicate group.tests.length none, none⟩ where
  finished := by simp [EventState.new, outcomeOf]
  terminal := rfl
  passed := by simp [countP_replicate, TestProtocol.passedCount]

/-- A test that does not finish changes nothing in what is collected. -/
theorem map_outcomeOf_withState {before next : EventTestState}
    (hbefore : stateOf group state test = some before) (hunfinished : outcomeOf before = none)
    (hnext : outcomeOf next = none) :
    (withState group state test next).map outcomeOf = state.states.map outcomeOf := by
  obtain ⟨index, hindex, hentry⟩ := Option.bind_eq_some_iff.1 hbefore
  obtain ⟨hlt, hget⟩ := List.getElem?_eq_some_iff.1 hentry
  have hbound : index < (state.states.map outcomeOf).length := by simpa using hlt
  have hsame : outcomeOf next = (state.states.map outcomeOf)[index] := by
    rw [getElem_map, hget, hunfinished, hnext]
  rw [withState, hindex, map_set, hsame, set_getElem_self]

theorem Collects.step {next : EventState} {collection collection' : Collection}
    (h : Collects past state collection)
    (hstep : observeEvent group result past.length state event = some next)
    (hcollect : collectEvent group collection event = .ok collection') :
    Collects (past ++ [event]) next collection' := by
  unfold TestModel.observeEvent at hstep
  split_ifs at hstep with horder
  unfold TestRunner.collectEvent at hcollect
  -- An event that changes neither the outcomes nor the end of the run is not collected.
  have hquiet (hsame : collection' = collection)
      (hstates : next.states.map outcomeOf = state.states.map outcomeOf)
      (hterminal : next.terminal = state.terminal) (hpassed : event.kind.isPassed = false) :
      Collects (past ++ [event]) next collection' := by
    subst hsame
    exact ⟨by rw [hstates, h.finished], by rw [hterminal, h.terminal], by simp [h.passed, hpassed]⟩
  cases hkind : event.kind with
  | runStarted testCount | heartbeat ticks =>
    rw [hkind, observeKind] at hstep
    rw [hkind] at hcollect
    split_ifs at hstep
    cases hstep
    exact hquiet (Except.ok.inj hcollect).symm rfl rfl (by rw [hkind]; rfl)
  | testStarted test =>
    rw [hkind, observeKind] at hstep
    rw [hkind] at hcollect
    split_ifs at hstep with hbad
    cases hstep
    simp only [not_or, not_not] at hbad
    exact hquiet (Except.ok.inj hcollect).symm (map_outcomeOf_withState hbad.2.2 rfl rfl) rfl
      (by rw [hkind]; rfl)
  | log test level message =>
    rw [hkind] at hstep hcollect
    have hsame : next = state := by
      cases test <;> rw [observeKind] at hstep <;> split_ifs at hstep <;>
        exact (Option.some.inj hstep).symm
    subst hsame
    exact hquiet (Except.ok.inj hcollect).symm rfl rfl (by rw [hkind]; rfl)
  | assertionFailed test failure =>
    rw [hkind, observeKind] at hstep
    rw [hkind] at hcollect
    split_ifs at hstep with hbad
    cases hstep
    simp only [not_or, not_not] at hbad
    exact hquiet (Except.ok.inj hcollect).symm (map_outcomeOf_withState hbad.2.1 rfl rfl) rfl
      (by rw [hkind]; rfl)
  | testFinished test outcome =>
    rw [hkind] at hstep hcollect
    simp only [observeKind] at hstep
    split_ifs at hstep with hbad
    cases hstep
    simp only at hcollect
    cases hindex : stateIndex group test with
    | none => simp [hindex] at hcollect
    | some index =>
      simp only [hindex] at hcollect
      split at hcollect
      · rename_i hnone
        cases hcollect
        obtain ⟨hlt, hget⟩ := List.getElem?_eq_some_iff.1 hnone
        refine ⟨?_, h.terminal, ?_⟩
        · rw [h.finished, withState, hindex, map_set]
          rfl
        · simp only [countP_set hlt, hget, h.passed, TestProtocol.passedCount_append, hkind]
          cases outcome <;> simp [TestEventKind.isPassed]
      · cases hcollect
  | runFinished passed failed =>
    rw [hkind, observeKind] at hstep
    rw [hkind] at hcollect
    split_ifs at hstep
    cases hstep
    simp only at hcollect
    split_ifs at hcollect
    cases hcollect
    exact ⟨h.finished, rfl, by simp [h.passed, hkind, TestEventKind.isPassed]⟩

theorem Collects.run {later : List TestEvent} {last : EventState}
    {collection collection' : Collection} (h : Collects past state collection)
    (hrun : observeEvents group result past.length state later = some last)
    (hcollect : later.foldlM (collectEvent group) collection = .ok collection') :
    Collects (past ++ later) last collection' := by
  induction later generalizing past state collection with
  | nil =>
    cases hrun
    cases hcollect
    rwa [append_nil]
  | cons event later ih =>
    obtain ⟨next, hstep, hrun⟩ := Option.bind_eq_some_iff.1 hrun
    obtain ⟨middle, hmiddle, hcollect⟩ := bind_eq_ok.1 hcollect
    have hnext := h.step hstep hmiddle
    have hlength : (past ++ [event]).length = past.length + 1 := by simp
    have hall := ih hnext (hlength ▸ hrun) hcollect
    rwa [append_assoc] at hall

end Step

end Wrela.TestRunner
