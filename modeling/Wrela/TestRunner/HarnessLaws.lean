import Wrela.TestRunner.EventLaws
import Wrela.TestRunner.FinalLaws

/-!
# What the harness reports

Whatever a guest writes and however it ends, a result that the harness sums up passes the checks of
the report for its group, as long as a generated harness reports planned assertions only.
-/

namespace Wrela.TestRunner

open List Wrela.Source Wrela.BuildModel Wrela.Checked Wrela.Slip Wrela.TestModel
open Wrela.TestProtocol (TestEvent TestEventKind GuestTestOutcome ProtocolLimits frameOf payloadOf
  Grammar Sendable)

theorem length_stringBytes (value : String) :
    (TestProtocol.stringBytes value).length = 4 + byteLength value := by
  simp [TestProtocol.stringBytes, byteLength]

theorem textBytes_le (text : Option String) :
    textBytes text ≤ (TestProtocol.optionalBytes TestProtocol.stringBytes text).length := by
  cases text with
  | none => exact Nat.zero_le _
  | some text =>
    simp only [textBytes, Option.elim, TestProtocol.optionalBytes, length_append,
      length_stringBytes]
    omega

/-- The texts of an event are part of its frame. -/
theorem eventPayloadBytes_le (event : TestEvent) :
    eventPayloadBytes event ≤ (frameOf event).length := by
  have hkind : eventPayloadBytes event ≤ (TestProtocol.kindBytes event.kind).length := by
    unfold eventPayloadBytes
    cases event.kind with
    | log test level message =>
      simp only [TestProtocol.kindBytes, length_append, length_stringBytes]
      omega
    | assertionFailed test failure =>
      have hmessage := textBytes_le failure.message
      have hexpected := textBytes_le failure.expected
      have hactual := textBytes_le failure.actual
      simp only [TestProtocol.kindBytes, length_append, length_stringBytes]
      omega
    | testFinished test outcome =>
      cases outcome with
      | failed message =>
        simp only [TestProtocol.kindBytes, TestProtocol.outcomeBytes, length_append,
          length_stringBytes]
        omega
      | _ => exact Nat.zero_le _
    | _ => exact Nat.zero_le _
  rw [TestProtocol.length_frameOf, payloadOf, length_append, length_append]
  omega

theorem sum_eventPayloadBytes_le (events : List TestEvent) :
    (events.map eventPayloadBytes).sum ≤ (events.flatMap frameOf).length := by
  induction events with
  | nil => exact Nat.zero_le _
  | cons event events ih =>
    have hevent := eventPayloadBytes_le event
    rw [map_cons, sum_cons, flatMap_cons, length_append]
    omega

theorem length_pushSegmentByte {state next : SlipState} {byte : UInt8} {limit : ℕ}
    (h : pushSegmentByte state byte limit = .ok next) :
    next.stream = state.stream ∧ next.frame.length ≤ state.frame.length + 1 := by
  unfold pushSegmentByte at h
  split_ifs at h
  · cases h
    exact ⟨rfl, Nat.zero_le _⟩
  · obtain ⟨frame, hframe, h⟩ := bind_eq_ok.1 h
    obtain ⟨-, hframe⟩ := unit_bind_eq_ok.1 hframe
    cases hframe
    cases h
    exact ⟨rfl, by simp⟩

/-- Every byte adds at most one to what the demultiplexer holds. -/
theorem length_decodeSlipByte {frameLimit streamLimit : ℕ} {state next : SlipState} {byte : UInt8}
    (h : decodeSlipByte frameLimit streamLimit state byte = .ok next) :
    next.stream.length + next.frame.length ≤ state.stream.length + state.frame.length + 1 := by
  unfold decodeSlipByte at h
  split_ifs at h with hstarted hraw hend hescaped hend hlong hescape
  · cases h
    exact Nat.le_succ _
  · cases h
    simp only [length_nil]
    omega
  · cases h
    exact Nat.le_succ _
  · split at h
    · obtain ⟨middle, hpush, h⟩ := bind_eq_ok.1 h
      obtain ⟨hstream, hframe⟩ := length_pushSegmentByte hpush
      cases h
      simp only [hstream]
      omega
    · obtain ⟨-, h⟩ := unit_bind_eq_ok.1 h
      cases h
      simp only [length_nil]
      omega
  · obtain ⟨-, h⟩ := unit_bind_eq_ok.1 h
    cases h
    simp only [length_append, length_nil]
    omega
  · cases h
    simp only [length_nil]
    omega
  · cases h
    exact Nat.le_succ _
  · obtain ⟨hstream, hframe⟩ := length_pushSegmentByte h
    rw [hstream]
    omega

theorem length_foldlM_decodeSlipByte {frameLimit streamLimit : ℕ} {bytes : List UInt8}
    {state last : SlipState}
    (h : bytes.foldlM (decodeSlipByte frameLimit streamLimit) state = .ok last) :
    last.stream.length + last.frame.length ≤
      state.stream.length + state.frame.length + bytes.length := by
  induction bytes generalizing state with
  | nil =>
    cases h
    exact Nat.le_refl _
  | cons byte bytes ih =>
    obtain ⟨next, hstep, hrest⟩ := bind_eq_ok.1 h
    have hfirst := length_decodeSlipByte hstep
    have hlast := ih hrest
    rw [length_cons]
    omega

/-- The frames of a serial stream are no longer than the stream. -/
theorem length_decodeSlip {bytes stream : List UInt8} {limits : ProtocolLimits} {preserve : Bool}
    (h : decodeSlip bytes limits preserve = .ok stream) : stream.length ≤ bytes.length := by
  obtain ⟨maximum, -, h⟩ := bind_eq_ok.1 h
  obtain ⟨last, hrun, h⟩ := bind_eq_ok.1 h
  obtain ⟨-, h⟩ := unit_bind_eq_ok.1 h
  cases h
  have hlength := length_foldlM_decodeSlipByte hrun
  simp only [SlipState.new, length_nil] at hlength
  omega

/-- What the decoding of an output guarantees about its events. -/
theorem decodeEvents_eq_ok (h : decodeEvents group output = .ok events) :
    (events.map eventPayloadBytes).sum + output.stderr.length ≤ group.maximumOutputBytes.toNat ∧
      (∀ event ∈ events, Sendable { ProtocolLimits.standard with events := group.maximumEvents }
        event) ∧
      Grammar group.maximumEvents.toNat events := by
  obtain ⟨policy, hpolicy, h⟩ := bind_eq_ok.1 h
  obtain ⟨maximum, -, hpolicy⟩ := bind_eq_ok.1 hpolicy
  obtain ⟨-, hpolicy⟩ := unit_bind_eq_ok.1 hpolicy
  cases hpolicy
  obtain ⟨houtput, h⟩ := unit_bind_eq_ok.1 h
  obtain ⟨stream, hslip, h⟩ := bind_eq_ok.1 h
  obtain ⟨-, rfl, hsendable, hgrammar⟩ :=
    TestProtocol.decodeAndVerifyStream_eq_ok.1 (mapError_eq_ok.1 h)
  refine ⟨?_, hsendable, hgrammar⟩
  have hstream := length_decodeSlip hslip
  have hpayload := sum_eventPayloadBytes_le events
  simp only [failIf_eq_ok, decide_eq_false_iff_not, not_lt, gt_iff_lt] at houtput
  have hcap := Nat.min_le_left group.maximumOutputBytes.toNat maximum
  omega

theorem casesOf_gap (h : casesOf true items = .ok cases) :
    cases = [] ∧ ∀ item ∈ items, item.2 = none := by
  induction items with
  | nil => exact ⟨(Except.ok.inj h).symm, by simp⟩
  | cons item items ih =>
    obtain ⟨planned, outcome⟩ := item
    cases outcome with
    | some outcome => cases h
    | none =>
      obtain ⟨hcases, hnone⟩ := ih h
      exact ⟨hcases, forall_mem_cons.2 ⟨rfl, hnone⟩⟩

/-- The cases are those of the tests that finished, in the order of the tests. -/
theorem casesOf_eq_ok (h : casesOf false items = .ok cases) :
    cases.length = items.countP (·.2.isSome) ∧
      cases.countP (fun case ↦ case.outcome == .passed) = items.countP (·.2 == some .passed) ∧
      ∀ (i : ℕ) case, cases[i]? = some case → ∃ planned outcome,
        items[i]? = some (planned, some outcome) ∧
          case = ⟨planned.descriptor, guestOutcome outcome, none⟩ := by
  induction items generalizing cases with
  | nil =>
    cases h
    simp
  | cons item items ih =>
    obtain ⟨planned, outcome⟩ := item
    cases outcome with
    | some outcome =>
      obtain ⟨later, hlater, h⟩ := bind_eq_ok.1 h
      cases h
      obtain ⟨hlength, hpassed, hat⟩ := ih hlater
      refine ⟨by simp [hlength], ?_, fun i case hcase ↦ ?_⟩
      · rw [countP_cons, countP_cons, hpassed]
        cases outcome <;> simp [guestOutcome]
      · cases i with
        | zero =>
          cases hcase
          exact ⟨planned, outcome, rfl, rfl⟩
        | succ i => simpa using hat i case (by simpa using hcase)
    | none =>
      obtain ⟨rfl, hnone⟩ := casesOf_gap h
      have hunfinished (p : Option GuestTestOutcome → Bool) (hp : p none = false) :
          ((planned, none) :: items).countP (p ·.2) = 0 := by
        rw [countP_eq_zero]
        rintro item hitem
        rcases mem_cons.1 hitem with rfl | hitem
        · simp [hp]
        · simp [hnone item hitem, hp]
      exact ⟨(hunfinished _ rfl).symm, (hunfinished (· == some .passed) rfl).symm, by simp⟩

theorem countP_zip_snd {α β : Type} {left : List α} {right : List β} {p : β → Bool}
    (h : right.length ≤ left.length) : (left.zip right).countP (p ·.2) = right.countP p := by
  conv_rhs => rw [← map_snd_zip h, countP_map]
  rfl

/-- A generated harness reports the assertions its plan lists. -/
def AssertionsPlanned (group : FullImageTestGroup) (events : List TestEvent) : Prop :=
  ∀ event ∈ events, ∀ test failure, event.kind = .assertionFailed test failure →
    plannedAssertionMatches group test failure = true

section Accepted

variable {group : FullImageTestGroup} {events : List TestEvent} {result : ImageGroupResult}

theorem terminalOf_isSome {maximum : ℕ} (hgrammar : Grammar maximum events) {i : ℕ}
    {event : TestEvent} (hevent : events[i]? = some event)
    (hfinished : event.kind.isRunFinished = true) :
    i + 1 = events.length ∧ (terminalOf events).isSome := by
  obtain ⟨passed, failed, hkind⟩ := TestProtocol.TestEventKind.isRunFinished_eq_true.1 hfinished
  have hlast := hgrammar.terminal_last (TestProtocol.kindAt_eq_some.2 ⟨event, hevent, hkind⟩)
  refine ⟨hlast, ?_⟩
  have hi : i = events.length - 1 := by omega
  obtain ⟨protocol, sequence, kind⟩ := event
  obtain rfl : kind = .runFinished passed failed := hkind
  rw [terminalOf, List.getLast?_eq_getElem?, ← hi, hevent]
  rfl

theorem validateDecodedGroupPrefix_eq_ok (h : validateDecodedGroupPrefix group events = .ok ())
    (hevent : events[i]? = some event) :
    validateDecodedEvent group i event = .ok () := by
  unfold validateDecodedGroupPrefix at h
  split_ifs at h with hempty
  · rw [List.isEmpty_iff.1 hempty] at hevent
    cases hevent
  · obtain ⟨-, h⟩ := unit_bind_eq_ok.1 h
    exact forAll_eq_ok.1 h (event, i) (mem_zipIdx_iff_getElem?.2 hevent)

/-- The report's check accepts the events of a stream that names the tests of the group. -/
theorem exists_observeEvents (hgroup : ConsecutiveTests group)
    (hsendable : ∀ event ∈ events,
      Sendable { ProtocolLimits.standard with events := group.maximumEvents } event)
    (hgrammar : Grammar group.maximumEvents.toNat events)
    (hstarts : validateDecodedGroupPrefix group events = .ok ())
    (hplanned : AssertionsPlanned group events) (hresult : result.events = events)
    (hterminal : (terminalOf events).isSome → result.infrastructureFailure = none) :
    ∃ state, observeEvents group result 0 (.new group.tests.length) events = some state := by
  have hchecked : ∀ (i : ℕ) event, ([] ++ events)[i]? = some event →
      Checked { ProtocolLimits.standard with events := group.maximumEvents } group result i event := by
    intro i event (hevent : events[i]? = some event)
    have hmem := mem_of_getElem? hevent
    refine ⟨(hsendable event hmem).1, ?_, validateDecodedGroupPrefix_eq_ok hstarts hevent,
      hplanned event hmem, fun hfinished ↦ ?_⟩
    · exact (eventPayloadBytes_le event).trans (hsendable event hmem).2
    · obtain ⟨hlast, hsome⟩ := terminalOf_isSome hgrammar hevent hfinished
      exact ⟨hresult ▸ hlast, hterminal hsome⟩
  exact observeEvents_of_grammar (tracks_new group) hgroup hgrammar hchecked

/-- Conversely the report's check lets planned assertions through only. -/
theorem assertionsPlanned_of_observeEvents
    (h : observeEvents group result index state events = some last) :
    AssertionsPlanned group events := by
  induction events generalizing index state with
  | nil => simp [AssertionsPlanned]
  | cons event events ih =>
    obtain ⟨next, hstep, hrest⟩ := Option.bind_eq_some_iff.1 h
    refine forall_mem_cons.2 ⟨fun test failure hkind ↦ ?_, ih hrest⟩
    unfold observeEvent at hstep
    split_ifs at hstep
    rw [hkind, observeKind] at hstep
    split_ifs at hstep with hbad
    simp only [not_or, Bool.not_eq_true', Bool.not_eq_false] at hbad
    exact hbad.2.2.2.2.2

theorem collected_terminal (h : events.foldlM (collectEvent group) collection = .ok collection')
    (hterminal : collection.terminal.isSome ∨ ∃ event ∈ events, event.kind.isRunFinished = true) :
    collection'.terminal.isSome := by
  induction events generalizing collection with
  | nil =>
    cases h
    simpa using hterminal
  | cons event events ih =>
    obtain ⟨middle, hstep, hrest⟩ := bind_eq_ok.1 h
    refine ih hrest ?_
    simp only [exists_mem_cons_iff] at hterminal
    unfold collectEvent at hstep
    cases hkind : event.kind with
    | runFinished passed failed =>
      rw [hkind] at hstep
      simp only at hstep
      split_ifs at hstep
      cases hstep
      exact .inl rfl
    | testFinished test outcome =>
      rw [hkind] at hstep
      simp only at hstep
      have hsame : middle.terminal = collection.terminal := by
        split at hstep
        · cases hstep
        · split at hstep
          · cases hstep
            rfl
          · cases hstep
      simpa [hkind, TestEventKind.isRunFinished, hsame] using hterminal
    | _ =>
      rw [hkind] at hstep
      cases hstep
      simpa [hkind, TestEventKind.isRunFinished] using hterminal

theorem exists_runFinished (h : (terminalOf events).isSome) :
    ∃ event ∈ events, event.kind.isRunFinished = true := by
  unfold terminalOf at h
  split at h
  · rename_i hlast
    exact ⟨_, mem_of_getLast? hlast, rfl⟩
  · cases h

end Accepted

/-- The runner asks for the summary of a group of its plan: the artifact is of the plan's build, the
scenario is the one the group names, and the command runs no longer than the plan allows. -/
structure RequestOf (plan : ValidatedTestPlan) (group : FullImageTestGroup)
    (request : ImageSummaryRequest) : Prop where
  requested : request.group = group
  build : request.artifactBuild = plan.plan.build
  scenario : request.scenario = plan.plan.scenarioOf group
  timeout : group.executionTimeout request.scenario = some request.commandTimeoutNs.toNat

/-- The ways a run ends: without its last event it has failed as a whole. -/
theorem infrastructureFailureOf_cases {request : ImageSummaryRequest}
    {terminal : Option (UInt32 × UInt32)} {failure : Option TestOutcome}
    (h : infrastructureFailureOf request terminal = .ok failure) :
    terminal = none ∧ (failure = some (.timedOut .boot request.commandTimeoutNs) ∨
        failure = some (.timedOut .runtime request.commandTimeoutNs) ∨
        failure = some (.crashed request.output.exitCode
          "QEMU exited before the guest emitted RunFinished") ∨
        failure = some (.failed .protocol "guest stream ended without RunFinished")) ∨
      terminal.isSome ∧ failure = none := by
  have hnone (hbad : terminal.isSome = false) : terminal = none := by
    simpa using hbad
  unfold infrastructureFailureOf at h
  cases htimed : request.output.timedOut with
  | true =>
    rw [htimed, if_pos rfl] at h
    obtain ⟨hbad, h⟩ := unit_bind_eq_ok.1 h
    cases h
    refine .inl ⟨hnone (failIf_eq_ok.1 hbad), ?_⟩
    cases request.events.isEmpty
    · exact .inr (.inl rfl)
    · exact .inl rfl
  | false =>
    rw [htimed, if_neg (by simp)] at h
    cases hcode : request.output.exitCode != some 0 with
    | true =>
      rw [hcode, if_pos rfl] at h
      obtain ⟨hbad, h⟩ := unit_bind_eq_ok.1 h
      cases h
      exact .inl ⟨hnone (failIf_eq_ok.1 hbad), .inr (.inr (.inl rfl))⟩
    | false =>
      rw [hcode, if_neg (by simp)] at h
      cases terminal with
      | none =>
        cases h
        exact .inl ⟨rfl, .inr (.inr (.inr rfl))⟩
      | some counts =>
        cases h
        exact .inr ⟨rfl, rfl⟩

/-- Every failure the harness reports of a run is a valid one. -/
theorem infrastructureFailureOf_valid {request : ImageSummaryRequest}
    {terminal : Option (UInt32 × UInt32)} {failure : Option TestOutcome}
    (h : infrastructureFailureOf request terminal = .ok failure)
    (htimeout : request.commandTimeoutNs ≠ 0) : infrastructureFailureValid failure = true := by
  rcases infrastructureFailureOf_cases h with ⟨-, rfl | rfl | rfl | rfl⟩ | ⟨-, rfl⟩
  · simpa [infrastructureFailureValid, invalidHostOutcome] using htimeout
  · simpa [infrastructureFailureValid, invalidHostOutcome] using htimeout
  · have htext : textHasContent "QEMU exited before the guest emitted RunFinished" = true := by
      decide
    simp [infrastructureFailureValid, invalidHostOutcome, htext]
  · have htext : textHasContent "guest stream ended without RunFinished" = true := by decide
    simp [infrastructureFailureValid, invalidHostOutcome, htext]
  · rfl

/-- With all its digests a result fits whatever phase the run reached. -/
theorem validateEvidencePhase_of_complete {request : ImageSummaryRequest}
    {terminal : Option (UInt32 × UInt32)} {result : ImageGroupResult} {group : FullImageTestGroup}
    (h : infrastructureFailureOf request terminal = .ok result.infrastructureFailure)
    (hcomplete : result.evidence.isComplete = true) :
    validateEvidencePhase result group = .ok () := by
  unfold validateEvidencePhase
  rcases infrastructureFailureOf_cases h with
    ⟨-, hfailure | hfailure | hfailure | hfailure⟩ | ⟨-, hfailure⟩ <;>
    simp [hfailure, evidencePhaseValid, hcomplete]

/-- A group of a sealed plan runs for some time. -/
theorem executionTimeout_pos (plan : ValidatedTestPlan) {index : ℕ} {group : FullImageTestGroup}
    (hgroup : plan.plan.imageGroups[index]? = some group) {scenario : Option ImageScenario}
    {timeout : ℕ} (h : group.executionTimeout scenario = some timeout) : 0 < timeout := by
  obtain ⟨-, hvalid⟩ := unit_bind_eq_ok.1 (plan.validateGroup hgroup)
  obtain ⟨hbinding, -⟩ := unit_bind_eq_ok.1 hvalid
  iterate 3 obtain ⟨-, hbinding⟩ := unit_bind_eq_ok.1 hbinding
  obtain ⟨hbudgets, -⟩ := unit_bind_eq_ok.1 hbinding
  simp only [failIf_eq_ok, Bool.not_eq_false', FullImageTestGroup.budgetsValid, Bool.and_eq_true,
    bne_iff_ne] at hbudgets
  obtain ⟨⟨⟨⟨⟨⟨⟨⟨-, -⟩, hboot⟩, -⟩, -⟩, -⟩, -⟩, -⟩, -⟩ := hbudgets
  have hpos : 0 < group.bootTimeoutNs.toNat :=
    Nat.pos_of_ne_zero fun hzero ↦ hboot (UInt64.toNat_inj.1 hzero)
  unfold FullImageTestGroup.executionTimeout at h
  split at h
  · obtain ⟨-, h⟩ := Option.ite_none_right_eq_some.1 h
    cases h
    rw [FullImageTestGroup.executionTimeoutNs]
    omega
  · obtain ⟨-, h⟩ := Option.ite_none_right_eq_some.1 h
    cases h
    omega
  · cases h

theorem length_tests_le (plan : ValidatedTestPlan) {index : ℕ} {group : FullImageTestGroup}
    (hgroup : plan.plan.imageGroups[index]? = some group) :
    group.tests.length ≤ plan.limits.tests.toNat := by
  obtain ⟨-, hvalid⟩ := unit_bind_eq_ok.1 (plan.validateGroup hgroup)
  obtain ⟨hbinding, -⟩ := unit_bind_eq_ok.1 hvalid
  obtain ⟨-, hbinding⟩ := unit_bind_eq_ok.1 hbinding
  obtain ⟨htests, -⟩ := unit_bind_eq_ok.1 hbinding
  simpa using htests

/-- A result the harness sums up, with what it was made of. -/
structure Summarized (plan : ValidatedTestPlan) (group : FullImageTestGroup)
    (request : ImageSummaryRequest) (result : ImageGroupResult) (collection : Collection) :
    Prop where
  group_eq : result.group = group.id
  events_eq : result.events = request.events
  target : result.evidence.targetDigest = plan.plan.build.targetPackage
  scenario : result.evidence.scenarioDigest = (plan.plan.scenarioOf group).map ImageScenario.digest
  stderr : result.evidence.stderr = request.output.stderr
  complete : result.evidence.isComplete = true
  collected : request.events.foldlM (collectEvent group)
    ⟨List.replicate group.tests.length none, none⟩ = .ok collection
  cases_eq : casesOf false (group.tests.zip collection.finished) = .ok result.cases
  failure : infrastructureFailureOf request collection.terminal = .ok result.infrastructureFailure

theorem summarized_of_summarize (hrequest : RequestOf plan group request)
    (h : summarize commandDigest eventStreamDigest request = .ok result) :
    ∃ collection, Summarized plan group request result collection := by
  obtain ⟨hgroup, hbuild, hscenario, -⟩ := hrequest
  obtain ⟨collected, hcollected, h⟩ := bind_eq_ok.1 h
  obtain ⟨failure, hfailure, h⟩ := bind_eq_ok.1 h
  obtain ⟨command, -, h⟩ := bind_eq_ok.1 h
  obtain ⟨stream, -, h⟩ := bind_eq_ok.1 h
  obtain ⟨collection, hcollection, hcollected⟩ := bind_eq_ok.1 hcollected
  obtain ⟨cases, hcases, hcollected⟩ := bind_eq_ok.1 hcollected
  cases hcollected
  cases h
  subst hgroup
  exact ⟨collection, rfl, rfl, by rw [hbuild], by rw [hscenario], rfl, rfl, hcollection, hcases,
    hfailure⟩

section Summarized

variable {plan : ValidatedTestPlan} {index : ℕ} {group : FullImageTestGroup}
  {request : ImageSummaryRequest} {result : ImageGroupResult} {collection : Collection}

section

variable (h : Summarized plan group request result collection)
include h

theorem Summarized.length_cases_le : result.cases.length ≤ group.tests.length := by
  obtain ⟨hlength, -, -⟩ := casesOf_eq_ok h.cases_eq
  have hcount := countP_le_length (p := fun item : ImageTest × Option GuestTestOutcome ↦
    item.2.isSome) (l := group.tests.zip collection.finished)
  rw [length_zip] at hcount
  omega

/-- A stream with its last event is no failed run. -/
theorem Summarized.failure_eq_none (hterminal : (terminalOf request.events).isSome) :
    result.infrastructureFailure = none := by
  have hsome := collected_terminal h.collected (.inr (exists_runFinished hterminal))
  rcases infrastructureFailureOf_cases h.failure with ⟨hnone, -⟩ | ⟨-, hfailure⟩
  · rw [hnone] at hsome
    cases hsome
  · exact hfailure

/-- The report's check and the harness agree on the whole list. -/
structure Observed (group : FullImageTestGroup) (result : ImageGroupResult)
    (collection : Collection) (state : EventState) : Prop where
  tracks : Tracks group result.events state
  collects : Collects result.events state collection
  run : observeEvents group result 0 (.new group.tests.length) result.events = some state

theorem Summarized.observed (hgroup : ConsecutiveTests group)
    (hrun : observeEvents group result 0 (.new group.tests.length) request.events = some state) :
    Observed group result collection state := by
  have htracks := (tracks_new group).observeEvents hgroup hrun
  have hcollects := (collects_new group).run hrun h.collected
  rw [nil_append, ← h.events_eq] at htracks hcollects
  exact ⟨htracks, hcollects, h.events_eq ▸ hrun⟩

end

/-- The number of cases and what they say, in terms of the final state. -/
theorem Observed.cases (ho : Observed group result collection state)
    (h : Summarized plan group request result collection) :
    result.cases.length = state.finishedCount ∧
      passedCases result = TestProtocol.passedCount result.events ∧
      ∀ (i : ℕ) case, result.cases[i]? = some case → ∃ planned outcome,
        group.tests[i]? = some planned ∧ state.states[i]? = some (.finished outcome) ∧
          case = ⟨planned.descriptor, guestOutcome outcome, none⟩ := by
  obtain ⟨hlength, hpassed, hat⟩ := casesOf_eq_ok h.cases_eq
  have hsame : collection.finished.length ≤ group.tests.length := by
    rw [ho.collects.finished, length_map, ho.tracks.length]
  rw [countP_zip_snd (p := Option.isSome) hsame] at hlength
  rw [countP_zip_snd (p := (· == some GuestTestOutcome.passed)) hsame, ho.collects.passed]
    at hpassed
  refine ⟨?_, hpassed, fun i case hcase ↦ ?_⟩
  · rw [hlength, ho.collects.finished, countP_map, ho.tracks.finishedStates]
    refine countP_congr fun testState _ ↦ ?_
    cases testState <;> simp [outcomeOf, isFinished]
  · obtain ⟨planned, outcome, hitem, rfl⟩ := hat i case hcase
    obtain ⟨hplanned, houtcome⟩ := List.getElem?_zip_eq_some.1 hitem
    refine ⟨planned, outcome, hplanned, ?_, rfl⟩
    rw [ho.collects.finished, List.getElem?_map, Option.map_eq_some_iff] at houtcome
    obtain ⟨testState, hstate, hsome⟩ := houtcome
    cases testState with
    | finished other =>
      cases hsome
      exact hstate
    | _ => cases hsome

theorem guestOutcome_eq_ofGuest (outcome : GuestTestOutcome) :
    guestOutcome outcome = .ofGuest outcome := by
  cases outcome <;> rfl

section

variable (ho : Observed group result collection state)
  (h : Summarized plan group request result collection)
include ho h

theorem Observed.caseMatches (hgroup : ConsecutiveTests group) :
    result.cases.all (caseMatches group state) = true := by
  obtain ⟨-, -, hat⟩ := ho.cases h
  rw [all_eq_true]
  intro case hcase
  obtain ⟨i, hi⟩ := mem_iff_getElem?.1 hcase
  obtain ⟨planned, outcome, hplanned, hstate, rfl⟩ := hat i case hi
  have hindex := hgroup.stateIndex_eq_some.2 ⟨planned, hplanned, rfl⟩
  rw [TestModel.caseMatches, stateOf, hindex, Option.bind_some, hstate]
  exact guestOutcomeMatchesCase_iff.2 (guestOutcome_eq_ofGuest outcome)

/-- A complete run ends with the numbers of its cases. -/
theorem Observed.complete {maximum : ℕ} (hgrammar : Grammar maximum result.events)
    (hstarts : validateDecodedGroupPrefix group result.events = .ok ()) {passed failed : UInt32}
    (hterminal : state.terminal = some (passed, failed)) :
    state.finishedCount = group.tests.length ∧ passed.toNat = passedCases result ∧
      failed.toNat = result.cases.length - passedCases result := by
  obtain ⟨hlength, hpassed, -⟩ := ho.cases h
  have hlast : (terminalOf result.events) = some (passed, failed) := ho.tracks.terminal ▸ hterminal
  unfold terminalOf at hlast
  split at hlast
  · rename_i protocol sequence passed' failed' hevent
    cases hlast
    have hkind : TestProtocol.kindAt result.events (result.events.length - 1) =
        some (.runFinished passed failed) := by
      rw [TestProtocol.kindAt, ← List.getLast?_eq_getElem?, hevent]
      rfl
    obtain ⟨declared, hfirst, -, hfinished, hpassedCount, -, htotal⟩ := hgrammar.summary hkind
    have hcount := ho.tracks.finishedCount
    have htests : declared.toNat = group.tests.length := by
      obtain ⟨first, hevent, hstart⟩ := TestProtocol.kindAt_eq_some.1 hfirst
      have hbound := validateDecodedGroupPrefix_eq_ok hstarts hevent
      rw [validateDecodedEvent, hstart] at hbound
      simp only [failIf_eq_ok, Bool.or_eq_false_iff, bne_eq_false_iff_eq] at hbound
      exact hbound.2
    omega
  · cases hlast

theorem Observed.summaryValid {maximum : ℕ} (hgrammar : Grammar maximum result.events)
    (hstarts : validateDecodedGroupPrefix group result.events = .ok ()) :
    summaryValid group result state = true ∧
      (result.infrastructureFailure = none → result.cases.length = group.tests.length) := by
  obtain ⟨hlength, -, -⟩ := ho.cases h
  unfold TestModel.summaryValid
  rcases infrastructureFailureOf_cases h.failure with ⟨hnone, hfailure⟩ | ⟨hsome, hfailure⟩
  · obtain ⟨failure, hfailure⟩ : ∃ failure, result.infrastructureFailure = some failure := by
      rcases hfailure with hfailure | hfailure | hfailure | hfailure <;> exact ⟨_, hfailure⟩
    rw [ho.collects.terminal] at hnone
    rw [hfailure]
    refine ⟨?_, nofun⟩
    simp [hnone, hlength]
  · obtain ⟨⟨passed, failed⟩, hterminal⟩ := Option.isSome_iff_exists.1 hsome
    rw [ho.collects.terminal] at hterminal
    obtain ⟨hfinished, hpassed, hfailed⟩ := ho.complete h hgrammar hstarts hterminal
    rw [hfailure]
    refine ⟨?_, fun _ ↦ hlength.trans hfinished⟩
    simp [hterminal, hpassed, hfailed, hfinished]

end

section

variable (h : Summarized plan group request result collection)
include h

theorem Summarized.validateImageEvents (hgroup : ConsecutiveTests group) {maximum : ℕ}
    (hgrammar : Grammar maximum request.events)
    (hstarts : validateDecodedGroupPrefix group request.events = .ok ()) {state : EventState}
    (hrun : observeEvents group result 0 (.new group.tests.length) request.events = some state)
    {maximumTests : UInt32} (htests : group.tests.length ≤ maximumTests.toNat) :
    validateImageEvents result group maximumTests = .ok () ∧
      (result.infrastructureFailure = none → result.cases.length = group.tests.length) := by
  have ho := h.observed hgroup hrun
  rw [← h.events_eq] at hgrammar hstarts
  obtain ⟨hsummary, hlength⟩ := ho.summaryValid h hgrammar hstarts
  refine ⟨?_, hlength⟩
  unfold TestModel.validateImageEvents
  split_ifs with hempty
  · -- Nothing was observed, so nothing was collected.
    have hnil := List.isEmpty_iff.1 hempty
    have hcases : result.cases = [] := by
      rw [← length_eq_zero_iff, (ho.cases h).1, ho.tracks.finishedCount, hnil]
      rfl
    have hfailure : result.infrastructureFailure.isSome := by
      have hterminal := ho.collects.terminal
      rw [ho.tracks.terminal, hnil] at hterminal
      rcases infrastructureFailureOf_cases h.failure with ⟨-, hfailure⟩ | ⟨hsome, -⟩
      · rcases hfailure with hfailure | hfailure | hfailure | hfailure <;> simp [hfailure]
      · simp [hterminal, terminalOf] at hsome
    simp [hcases, hfailure]
  · have hcases := ho.caseMatches h hgroup
    have hlarge : decide (group.tests.length > maximumTests.toNat) = false :=
      decide_eq_false (Nat.not_lt.2 htests)
    rw [← h.events_eq] at hrun
    simp [hlarge, hrun, hcases, hsummary, orFail]

theorem Summarized.descriptors : forAll (fun pair ↦ failIf (pair.1.descriptor != pair.2.descriptor)
      (TestModelError.resultSetMismatch group.name)) (result.cases.zip group.tests) = .ok () := by
  obtain ⟨-, -, hat⟩ := casesOf_eq_ok h.cases_eq
  refine forAll_eq_ok.2 fun pair hpair ↦ ?_
  obtain ⟨case, planned⟩ := pair
  obtain ⟨i, hi⟩ := mem_iff_getElem?.1 hpair
  obtain ⟨hcase, hplanned⟩ := List.getElem?_zip_eq_some.1 hi
  obtain ⟨other, outcome, hitem, rfl⟩ := hat i case hcase
  obtain ⟨hother, -⟩ := List.getElem?_zip_eq_some.1 hitem
  have hsame : planned = other := Option.some.inj (hplanned.symm.trans hother)
  simp [hsame]

/-- The checks of the report for a group, on a result the harness sums up. -/
theorem Summarized.validateGroupResult (hplan : plan.plan.imageGroups[index]? = some group)
    (hrequest : RequestOf plan group request)
    (hdecode : decodeEvents group request.output = .ok request.events)
    (hstarts : validateDecodedGroupPrefix group request.events = .ok ()) :
    validateSizes result group = .ok () ∧
      (validateGroupResult plan result group = .ok () ↔ AssertionsPlanned group request.events) := by
  obtain ⟨hbytes, hsendable, hgrammar⟩ := decodeEvents_eq_ok hdecode
  have hgroup := plan.consecutiveTests hplan
  have hcases := h.length_cases_le
  have hevents : result.events.length ≤ group.maximumEvents.toNat :=
    h.events_eq ▸ @Grammar.length_le
      { ProtocolLimits.standard with events := group.maximumEvents } _ hgrammar hsendable
  have hstderr : result.evidence.stderr.length ≤ group.maximumOutputBytes.toNat := by
    rw [h.stderr]
    omega
  refine ⟨?_, fun hvalid ↦ ?_, fun hplanned ↦ ?_⟩
  · simp [validateSizes, Nat.not_lt.2 hcases, Nat.not_lt.2 hevents, Nat.not_lt.2 hstderr]
  · unfold TestModel.validateGroupResult at hvalid
    iterate 6 obtain ⟨-, hvalid⟩ := unit_bind_eq_ok.1 hvalid
    unfold TestModel.validateImageEvents at hvalid
    split_ifs at hvalid with hempty
    · rw [h.events_eq] at hempty
      simp [AssertionsPlanned, List.isEmpty_iff.1 hempty]
    · obtain ⟨-, hvalid⟩ := unit_bind_eq_ok.1 hvalid
      obtain ⟨state, hrun, -⟩ := bind_eq_ok.1 hvalid
      rw [h.events_eq] at hrun
      exact assertionsPlanned_of_observeEvents (orFail_eq_ok.1 hrun)
  · obtain ⟨state, hrun⟩ := exists_observeEvents hgroup hsendable hgrammar hstarts hplanned
      h.events_eq h.failure_eq_none
    obtain ⟨hlist, hcomplete⟩ := h.validateImageEvents hgroup hgrammar hstarts hrun
      (length_tests_le plan hplan)
    have htimeout : request.commandTimeoutNs ≠ 0 := fun hzero ↦ by
      have hpos := executionTimeout_pos plan hplan hrequest.timeout
      rw [hzero] at hpos
      cases hpos
    have hfailure := infrastructureFailureOf_valid h.failure htimeout
    have hphase : validateEvidencePhase result group = .ok () :=
      validateEvidencePhase_of_complete h.failure h.complete
    have htransport : result.transportPayloadBytes ≤ group.maximumOutputBytes.toNat := by
      rw [ImageGroupResult.transportPayloadBytes, ImageGroupResult.eventBytes, h.stderr, h.events_eq]
      omega
    have hlength : (result.infrastructureFailure.isNone &&
        result.cases.length != group.tests.length) = false := by
      rcases hresult : result.infrastructureFailure with _ | failure
      · simp [hcomplete hresult]
      · rfl
    simp [TestModel.validateGroupResult, h.group_eq, Nat.not_lt.2 hcases, h.target, h.scenario,
      hlength, hfailure, Nat.not_lt.2 hevents, Nat.not_lt.2 hstderr, Nat.not_lt.2 htransport, hphase,
      h.descriptors, hlist]

end

end Summarized

/-- The harness never sums up a result the report rejects: whatever the output of a group of a sealed
plan, a result made of it passes the checks of the report for the group exactly when a generated
harness has reported planned assertions only.  Every stream the verifier accepts for the tests of the
group is then a list of events the report's check accepts. -/
theorem summarize_accepted (plan : ValidatedTestPlan) {index : ℕ} {group : FullImageTestGroup}
    (hplan : plan.plan.imageGroups[index]? = some group) :
    (∀ request commandDigest eventStreamDigest result, RequestOf plan group request →
      decodeEvents group request.output = .ok request.events →
      validateDecodedGroupPrefix group request.events = .ok () →
      summarize commandDigest eventStreamDigest request = .ok result →
      validateSizes result group = .ok () ∧
        (validateGroupResult plan result group = .ok () ↔ AssertionsPlanned group request.events)) ∧
    ∀ stream events, TestProtocol.decodeAndVerifyStream stream
        { ProtocolLimits.standard with events := group.maximumEvents } = .ok events →
      validateDecodedGroupPrefix group events = .ok () → AssertionsPlanned group events →
      ∀ result : ImageGroupResult, result.events = events →
        ((terminalOf events).isSome → result.infrastructureFailure = none) →
        (observeEvents group result 0 (.new group.tests.length) events).isSome := by
  refine ⟨fun request commandDigest eventStreamDigest result hrequest hdecode hstarts hsummary ↦ ?_,
    fun stream events hstream hstarts hplanned result hresult hfailure ↦ ?_⟩
  · obtain ⟨collection, h⟩ := summarized_of_summarize hrequest hsummary
    exact h.validateGroupResult hplan hrequest hdecode hstarts
  · obtain ⟨-, -, hsendable, hgrammar⟩ := TestProtocol.decodeAndVerifyStream_eq_ok.1 hstream
    obtain ⟨state, hrun⟩ := exists_observeEvents (plan.consecutiveTests hplan) hsendable hgrammar
      hstarts hplanned hresult hfailure
    rw [hrun]
    rfl

/-- The serial output of a run of one passing test. -/
def passingOutput : ProcessOutput where
  exitCode := some 0
  timedOut := false
  stdout := slipEnd :: join (passingResult.events.map fun event ↦ escape (frameOf event)) []
  stderr := []
  durationNs := 7

def passingRequest : ImageSummaryRequest where
  group := exampleGroup
  artifactDigest := exampleDigest 10
  artifactBuild := exampleBuild
  commandTimeoutNs := 210
  emulatorDigest := exampleDigest 11
  output := passingOutput
  events := passingResult.events
  scenario := none

theorem decodeEvents_passingOutput :
    decodeEvents exampleGroup passingOutput = .ok passingResult.events := by
  decide +kernel

theorem summarize_accepted_passingOutput :
    ∃ result, summarize (.ok (exampleDigest 12)) (fun _ ↦ .ok (exampleDigest 13)) passingRequest =
        .ok result ∧ validateGroupResult examplePlan result exampleGroup = .ok () := by
  have hrequest : RequestOf examplePlan exampleGroup passingRequest := ⟨rfl, rfl, rfl, by decide⟩
  have hstarts : validateDecodedGroupPrefix exampleGroup passingResult.events = .ok () := by rfl
  have hplanned : AssertionsPlanned exampleGroup passingResult.events := by
    intro event hmem
    fin_cases hmem <;> exact nofun
  have hsummary : summarize (.ok (exampleDigest 12)) (fun _ ↦ .ok (exampleDigest 13))
      passingRequest = .ok passingResult := by rfl
  have hgroup : examplePlan.plan.imageGroups[0]? = some exampleGroup := rfl
  have haccepted := (summarize_accepted examplePlan hgroup).1 passingRequest _ _ passingResult
    hrequest decodeEvents_passingOutput hstarts hsummary
  exact ⟨passingResult, hsummary, haccepted.2.2 hplanned⟩

end Wrela.TestRunner
