import Mathlib.Data.Finmap
import Mathlib.Data.Stream.Defs
import Wrela.TestProtocol.StateTable

/-!
# The table of test states under interruption

Every search of the table asks now and then whether it was cancelled, and growing it asks for
memory.  Here the table is run against a host that answers both kinds of question as it likes.
Whatever it answers, an operation either does what it does uninterrupted or stops and leaves the
entries as they were (`Answers`), so a sequence of operations follows a bounded finite map
(`run_follows`), step by step.
-/

namespace Wrela.TestProtocol.Interruptible

open Wrela.Checked Wrela.OpenAddressing

/-! ## Polling -/

/-- The errors of the protocol together with cancellation, which ends no operation elsewhere. -/
inductive TableError where
  | cancelled
  | protocol (error : ProtocolError)
deriving Repr

/-- What the caller's callback and the allocator answer, in the order in which they are asked. -/
structure Host where
  cancelled : Stream' Bool
  allocates : Stream' Bool

/-- A host that neither cancels nor runs out of memory. -/
def Host.quiet : Host := ⟨Stream'.const false, Stream'.const true⟩

abbrev Polling := EStateM TableError Host

def cancellationPollEntries : ℕ := 1024

def isCancelled : Polling Bool := fun host ↦
  .ok host.cancelled.head { host with cancelled := host.cancelled.tail }

/-- Ask for memory; the answer says whether it was granted. -/
def tryReserveExact : Polling Bool := fun host ↦
  .ok host.allocates.head { host with allocates := host.allocates.tail }

def pollEntries (index : ℕ) : Polling Unit :=
  if index &&& (cancellationPollEntries - 1) = 0 then do
    if ← isCancelled then throw .cancelled else pure ()
  else pure ()

/-- The probes of a search from `index` on, `fuel` of them left. -/
def findFrom (slots : List (Option TestStateSlot)) (test : TestId) :
    ℕ → ℕ → ℕ → Polling (Option ℕ)
  | 0, _, _ => pure none
  | fuel + 1, probe, index => do
    pollEntries probe
    match slots[index]? with
    | some (some slot) =>
      if slot.test = test then pure (some index)
      else findFrom slots test fuel (probe + 1) ((index + 1) &&& (slots.length - 1))
    | some none | none => pure none

def find (table : TestStateTable) (test : TestId) : Polling (Option ℕ) :=
  if table.slots.isEmpty then pure none
  else findFrom table.slots test table.slots.length 0
    (testSlotStart test &&& (table.slots.length - 1))

def placeFrom (slots : List (Option TestStateSlot)) (slot : TestStateSlot) :
    ℕ → ℕ → ℕ → Polling (Option (List (Option TestStateSlot)))
  | 0, _, _ => pure none
  | fuel + 1, probe, index => do
    pollEntries probe
    match slots[index]? with
    | some none => pure (some (slots.set index (some slot)))
    | some (some _) =>
      placeFrom slots slot fuel (probe + 1) ((index + 1) &&& (slots.length - 1))
    | none => pure none

/-- The slots with the entry in the first empty one on its path.  Nothing is written before the last
question is answered. -/
def placeTestSlot (slots : List (Option TestStateSlot)) (slot : TestStateSlot) :
    Polling (Option (List (Option TestStateSlot))) :=
  if slots.isEmpty then pure none
  else placeFrom slots slot slots.length 0 (testSlotStart slot.test &&& (slots.length - 1))

/-- Place the entries, of which `index` were placed before, into new slots. -/
def rehash : ℕ → List TestStateSlot → List (Option TestStateSlot) →
    Polling (List (Option TestStateSlot))
  | _, [], slots => pure slots
  | index, entry :: entries, slots => do
    pollEntries index
    match ← placeTestSlot slots entry with
    | some slots => rehash (index + 1) entries slots
    | none => throw (.protocol (.protocolContractMismatch "test-state table rehash failed"))

abbrev Updating := EStateM TableError (TestStateTable × Host)

def polling {α : Type} (run : Polling α) : Updating α := fun (table, host) ↦
  match run host with
  | .ok value host => .ok value (table, host)
  | .error error host => .error error (table, host)

def getTable : Updating TestStateTable := fun state ↦ .ok state.1 state

def setTable (table : TestStateTable) : Updating Unit := fun state ↦ .ok () (table, state.2)

def setMaximum (maximum : UInt32) : Updating Unit := do
  let table ← getTable
  setTable (table.setMaximum maximum)

def state (test : TestId) : Updating (Option TrackedTestState) := do
  let table ← getTable
  let index ← polling (find table test)
  pure do
    let index ← index
    let slot ← table.slots[index]?
    let slot ← slot
    pure slot.state

def ensureInsertCapacity : Updating Unit := do
  let table ← getTable
  let required := table.entries + 1
  let maximum := table.maximum.toNat
  if required > maximum then throw (.protocol (.resourceLimit "test-state entries" maximum))
  else if !table.slots.isEmpty && decide (required ≤ table.slots.length / 2) then pure ()
  else do
    let maximumCapacity := nextPowerOfTwo (maximum * 2)
    let proposed := if table.slots.isEmpty then 2 else table.slots.length * 2
    let capacity := min proposed maximumCapacity
    if capacity ≤ table.slots.length ∨ capacity < required then
      throw (.protocol (.resourceLimit "test-state table slots" maximum))
    else do
      if ← polling tryReserveExact then do
        let slots ← polling (rehash 0 (contents table.slots) (List.replicate capacity none))
        setTable { table with slots }
      else throw (.protocol (.resourceLimit "test-state table slots" maximum))

def insertActive (test : TestId) : Updating Bool := do
  let table ← getTable
  let index ← polling (find table test)
  if index.isSome then pure false
  else do
    ensureInsertCapacity
    let table ← getTable
    match ← polling (placeTestSlot table.slots ⟨test, .active⟩) with
    | some slots => do
      setTable { table with slots, entries := table.entries + 1 }
      pure true
    | none => throw (.protocol (.protocolContractMismatch "test-state table has no insertion slot"))

def markFinished (test : TestId) : Updating Bool := do
  let table ← getTable
  match ← polling (find table test) with
  | none => pure false
  | some index =>
    match table.slots[index]? with
    | some (some slot) =>
      if slot.state = .active then do
        setTable { table with
          slots := table.slots.set index (some { slot with state := .finished }) }
        pure true
      else pure false
    | some none | none => pure false

inductive TableOperation where
  | state (test : TestId)
  | insertActive (test : TestId)
  | markFinished (test : TestId)
  | setMaximum (maximum : UInt32)
deriving Repr

inductive TableAnswer where
  | state (state : Option TrackedTestState)
  | changed (changed : Bool)
  | done
deriving Repr

def perform : TableOperation → Updating TableAnswer
  | .state test => .state <$> state test
  | .insertActive test => .changed <$> insertActive test
  | .markFinished test => .changed <$> markFinished test
  | .setMaximum maximum => (fun _ ↦ .done) <$> setMaximum maximum

/-- What an operation answers, and what it leaves behind. -/
def outcome {α : Type} (operation : Updating α) (before : TestStateTable × Host) :
    Except TableError α × TestStateTable × Host :=
  match operation before with
  | .ok value after => (.ok value, after)
  | .error error after => (.error error, after)

/-- The answers of a sequence of operations, an interruption being one of them. -/
def run : List TableOperation → TestStateTable × Host →
    List (Except TableError TableAnswer) × TestStateTable × Host
  | [], before => ([], before)
  | operation :: operations, before =>
    let (answer, middle) := outcome (perform operation) before
    let (answers, after) := run operations middle
    (answer :: answers, after)

/-- A finite map from tests to states that takes in at most `maximum` tests. -/
structure BoundedMap where
  entries : Finmap fun _ : TestId ↦ TrackedTestState
  maximum : UInt32

def BoundedMap.perform (map : BoundedMap) :
    TableOperation → Except TableError TableAnswer × BoundedMap
  | .state test => (.ok (.state (map.entries.lookup test)), map)
  | .insertActive test =>
    if test ∈ map.entries then (.ok (.changed false), map)
    else if map.entries.keys.card < map.maximum.toNat then
      (.ok (.changed true), { map with entries := map.entries.insert test .active })
    else (.error (.protocol (.resourceLimit "test-state entries" map.maximum.toNat)), map)
  | .markFinished test =>
    if map.entries.lookup test = some .active then
      (.ok (.changed true), { map with entries := map.entries.insert test .finished })
    else (.ok (.changed false), map)
  | .setMaximum maximum => (.ok .done, { map with maximum })

def BoundedMap.run : List TableOperation → BoundedMap →
    List (Except TableError TableAnswer) × BoundedMap
  | [], before => ([], before)
  | operation :: operations, before =>
    let (answer, middle) := before.perform operation
    let (answers, after) := run operations middle
    (answer :: answers, after)

/-- The ways in which a host ends an operation early. -/
def Interruption (maximum : UInt32) (error : TableError) : Prop :=
  error = .cancelled ∨ error = .protocol (.resourceLimit "test-state table slots" maximum.toNat)

/-- Answers that are those of the map, except that an interrupted operation changes nothing. -/
inductive Follows : BoundedMap → List TableOperation →
    List (Except TableError TableAnswer) → BoundedMap → Prop
  | nil {map : BoundedMap} : Follows map [] [] map
  | answered {map middle after : BoundedMap} {operation : TableOperation}
      {operations : List TableOperation} {answer : Except TableError TableAnswer}
      {answers : List (Except TableError TableAnswer)}
      (performed : map.perform operation = (answer, middle))
      (rest : Follows middle operations answers after) :
      Follows map (operation :: operations) (answer :: answers) after
  | interrupted {map after : BoundedMap} {operation : TableOperation}
      {operations : List TableOperation} {error : TableError}
      {answers : List (Except TableError TableAnswer)}
      (interruption : Interruption map.maximum error) (rest : Follows map operations answers after) :
      Follows map (operation :: operations) (.error error :: answers) after

/-! ## Interrupted operations leave the table as it was -/

variable {α β ε σ : Type}

theorem bind_ok {run : EStateM ε σ α} {next : α → EStateM ε σ β} {before middle : σ} {value : α}
    (h : run before = .ok value middle) : (run >>= next) before = next value middle := by
  change EStateM.bind run next before = _
  unfold EStateM.bind
  rw [h]

theorem bind_error {run : EStateM ε σ α} {next : α → EStateM ε σ β} {before after : σ} {error : ε}
    (h : run before = .error error after) : (run >>= next) before = .error error after := by
  change EStateM.bind run next before = _
  unfold EStateM.bind
  rw [h]

theorem map_ok {run : EStateM ε σ α} (f : α → β) {before after : σ} {value : α}
    (h : run before = .ok value after) : (f <$> run) before = .ok (f value) after := by
  change EStateM.map f run before = _
  unfold EStateM.map
  rw [h]

theorem map_error {run : EStateM ε σ α} (f : α → β) {before after : σ} {error : ε}
    (h : run before = .error error after) : (f <$> run) before = .error error after := by
  change EStateM.map f run before = _
  unfold EStateM.map
  rw [h]

/-- The run ends with the value, unless it is cancelled; a quiet host does not cancel it. -/
structure Yields (run : Polling α) (value : α) : Prop where
  quiet : run .quiet = .ok value .quiet
  any : ∀ host, (∃ host', run host = .ok value host') ∨ ∃ host', run host = .error .cancelled host'

theorem yields_pure (value : α) : Yields (pure value) value := ⟨rfl, fun host ↦ .inl ⟨host, rfl⟩⟩

theorem Yields.bind {run : Polling α} {next : α → Polling β} {value : α} {result : β}
    (h : Yields run value) (hnext : Yields (next value) result) : Yields (run >>= next) result := by
  refine ⟨?_, fun host ↦ ?_⟩
  · rw [bind_ok h.quiet]
    exact hnext.quiet
  · rcases h.any host with ⟨host', hok⟩ | ⟨host', herror⟩
    · rw [bind_ok hok]
      exact hnext.any host'
    · exact .inr ⟨host', bind_error herror⟩

theorem yields_pollEntries (index : ℕ) : Yields (pollEntries index) () := by
  unfold pollEntries
  split
  · refine ⟨rfl, fun host ↦ ?_⟩
    have hrun : (isCancelled >>= fun cancelled ↦
          if cancelled then throw .cancelled else pure () : Polling Unit) host =
        (if host.cancelled.head then throw .cancelled else pure () : Polling Unit)
          { host with cancelled := host.cancelled.tail } := rfl
    rw [hrun]
    split
    · exact .inr ⟨_, rfl⟩
    · exact .inl ⟨_, rfl⟩
  · exact yields_pure ()

theorem yields_findFrom (slots : List (Option TestStateSlot)) (test : TestId)
    (fuel probe index : ℕ) : Yields (findFrom slots test fuel probe index)
      (OpenAddressing.findFrom TestStateSlot.test slots test fuel index) := by
  induction fuel generalizing probe index with
  | zero => exact yields_pure none
  | succ fuel ih =>
    rw [findFrom, OpenAddressing.findFrom]
    refine (yields_pollEntries probe).bind ?_
    rcases slots[index]? with _ | _ | slot
    · exact yields_pure none
    · exact yields_pure none
    · simp only
      split
      · exact yields_pure _
      · exact ih _ _

theorem yields_find (table : TestStateTable) (test : TestId) :
    Yields (find table test) (table.find test) := by
  rw [find, TestStateTable.find, OpenAddressing.find]
  split
  · exact yields_pure none
  · exact yields_findFrom ..

theorem yields_placeFrom (slots : List (Option TestStateSlot)) (slot : TestStateSlot)
    (fuel probe index : ℕ) : Yields (placeFrom slots slot fuel probe index)
      (OpenAddressing.placeFrom slots slot fuel index) := by
  induction fuel generalizing probe index with
  | zero => exact yields_pure none
  | succ fuel ih =>
    rw [placeFrom, OpenAddressing.placeFrom]
    refine (yields_pollEntries probe).bind ?_
    rcases slots[index]? with _ | _ | other
    · exact yields_pure none
    · exact yields_pure _
    · exact ih _ _

theorem yields_placeTestSlot (slots : List (Option TestStateSlot)) (slot : TestStateSlot) :
    Yields (placeTestSlot slots slot) (TestStateTable.placeTestSlot slots slot) := by
  rw [placeTestSlot, TestStateTable.placeTestSlot, OpenAddressing.place]
  split
  · exact yields_pure none
  · exact yields_placeFrom ..

theorem yields_rehash (h : placeAll TestStateSlot.test testSlotStart slots entries = some slots')
    (index : ℕ) :
    Yields (rehash index entries slots) slots' := by
  induction entries generalizing index slots with
  | nil =>
    cases h
    exact yields_pure _
  | cons entry entries ih =>
    obtain ⟨middle, hplace, hrest⟩ := Option.bind_eq_some_iff.1 h
    refine (yields_pollEntries index).bind ((yields_placeTestSlot slots entry).bind ?_)
    rw [show TestStateTable.placeTestSlot slots entry = some middle from hplace]
    exact ih hrest _

/-- The operation gives the answer and leaves the table behind, or it is interrupted and leaves one
that satisfies `kept`. -/
structure Answers (operation : Updating α) (before : TestStateTable)
    (answer : Except TableError α) (after : TestStateTable) (kept : TestStateTable → Prop) :
    Prop where
  quiet : outcome operation (before, .quiet) = (answer, after, .quiet)
  any : ∀ host, (∃ host', outcome operation (before, host) = (answer, after, host')) ∨
    ∃ error table host', outcome operation (before, host) = (.error error, table, host') ∧
      Interruption before.maximum error ∧ kept table

theorem Answers.mono (h : Answers operation before answer after kept)
    (himp : ∀ table, kept table → kept' table) :
    Answers operation before answer after kept' := by
  refine ⟨h.quiet, fun host ↦ (h.any host).imp_right ?_⟩
  rintro ⟨error, table, host', houtcome, herror, hkept⟩
  exact ⟨error, table, host', houtcome, herror, himp table hkept⟩

theorem answers_of_forall (h : ∀ host, outcome operation (before, host) = (answer, after, host)) :
    Answers operation before answer after kept := ⟨h .quiet, fun host ↦ .inl ⟨host, h host⟩⟩

theorem outcome_eq_ok :
    outcome operation before = (.ok value, after) ↔ operation before = .ok value after := by
  unfold outcome
  cases operation before <;> simp

theorem outcome_eq_error :
    outcome operation before = (.error error, after) ↔ operation before = .error error after := by
  unfold outcome
  cases operation before <;> simp

theorem outcome_bind_ok {operation : Updating α} {next : α → Updating β}
    {before middle : TestStateTable × Host} {value : α}
    (h : outcome operation before = (.ok value, middle)) :
    outcome (operation >>= next) before = outcome (next value) middle := by
  unfold outcome
  rw [bind_ok (outcome_eq_ok.1 h)]

theorem outcome_bind_error {operation : Updating α} {next : α → Updating β}
    {before after : TestStateTable × Host} {error : TableError}
    (h : outcome operation before = (.error error, after)) :
    outcome (operation >>= next) before = (.error error, after) :=
  outcome_eq_error.2 (bind_error (outcome_eq_error.1 h))

/-- An operation that always succeeds is followed by the next one. -/
theorem Answers.bind (h : Answers operation before (.ok value) middle kept)
    (hmaximum : middle.maximum = before.maximum)
    (hnext : Answers (next value) middle answer after kept) :
    Answers (operation >>= next) before answer after kept := by
  refine ⟨?_, fun host ↦ ?_⟩
  · rw [outcome_bind_ok h.quiet]
    exact hnext.quiet
  · rcases h.any host with ⟨host', hok⟩ | ⟨error, table, host', herror, hinterruption, hkept⟩
    · rw [outcome_bind_ok hok, ← hmaximum]
      exact hnext.any host'
    · exact .inr ⟨error, table, host', outcome_bind_error herror, hinterruption, hkept⟩

theorem Answers.bind_error (h : Answers operation before (.error error) after kept) :
    Answers (operation >>= next) before (.error error) after kept := by
  refine ⟨outcome_bind_error h.quiet, fun host ↦ ?_⟩
  rcases h.any host with ⟨host', hok⟩ | ⟨stop, table, host', herror, hinterruption, hkept⟩
  · exact .inl ⟨host', outcome_bind_error hok⟩
  · exact .inr ⟨stop, table, host', outcome_bind_error herror, hinterruption, hkept⟩

theorem Answers.map {operation : Updating α} (f : α → β) {before after : TestStateTable}
    {answer : Except TableError α} {kept : TestStateTable → Prop}
    (h : Answers operation before answer after kept) :
    Answers (f <$> operation) before (answer.map f) after kept := by
  have hmap {state after : TestStateTable × Host} {result : Except TableError α}
      (hresult : outcome operation state = (result, after)) :
      outcome (f <$> operation) state = (result.map f, after) := by
    cases result with
    | ok value => exact outcome_eq_ok.2 (map_ok f (outcome_eq_ok.1 hresult))
    | error error => exact outcome_eq_error.2 (map_error f (outcome_eq_error.1 hresult))
  refine ⟨hmap h.quiet, fun host ↦ ?_⟩
  rcases h.any host with ⟨host', hok⟩ | ⟨error, table, host', herror, hinterruption, hkept⟩
  · exact .inl ⟨host', hmap hok⟩
  · exact .inr ⟨error, table, host', hmap herror, hinterruption, hkept⟩

theorem answers_pure (table : TestStateTable) (value : α) (kept : TestStateTable → Prop) :
    Answers (pure value) table (.ok value) table kept := answers_of_forall fun _ ↦ rfl

theorem answers_getTable (table : TestStateTable) (kept : TestStateTable → Prop) :
    Answers getTable table (.ok table) table kept := answers_of_forall fun _ ↦ rfl

theorem answers_setTable (table after : TestStateTable) (kept : TestStateTable → Prop) :
    Answers (setTable after) table (.ok ()) after kept := answers_of_forall fun _ ↦ rfl

theorem answers_throw (table : TestStateTable) (error : TableError)
    (kept : TestStateTable → Prop) :
    Answers (throw error : Updating α) table (.error error) table kept :=
  answers_of_forall fun _ ↦ rfl

/-- A search does not touch the table. -/
theorem Yields.answers {run : Polling α} {value : α} (h : Yields run value)
    {table : TestStateTable} (kept : TestStateTable → Prop) (hkept : kept table) :
    Answers (polling run) table (.ok value) table kept := by
  refine ⟨?_, fun host ↦ ?_⟩
  · simp only [outcome, polling, h.quiet]
  · rcases h.any host with ⟨host', hok⟩ | ⟨host', herror⟩
    · exact .inl ⟨host', by simp only [outcome, polling, hok]⟩
    · exact .inr ⟨.cancelled, table, host', by simp only [outcome, polling, herror], .inl rfl, hkept⟩

theorem answers_tryReserveExact (hgranted : Answers granted table answer after kept)
    (hrefused : Interruption table.maximum refused) (hkept : kept table) :
    Answers (polling tryReserveExact >>= fun allocated ↦
      if allocated then granted else throw refused) table answer after kept := by
  have hask (host : Host) : outcome (polling tryReserveExact) (table, host) =
      (.ok host.allocates.head, table, { host with allocates := host.allocates.tail }) := rfl
  refine ⟨?_, fun host ↦ ?_⟩
  · rw [outcome_bind_ok (hask _)]
    exact hgranted.quiet
  · rw [outcome_bind_ok (hask _)]
    split
    · exact hgranted.any _
    · exact .inr ⟨refused, table, _, rfl, hrefused, hkept⟩

/-- Growing the table does what it does uninterrupted, or leaves it untouched. -/
theorem ensureInsertCapacity_answers {table grown : TestStateTable}
    (h : table.ensureInsertCapacity = .ok grown) :
    Answers ensureInsertCapacity table (.ok ()) grown (· = table) := by
  have hmaximum : grown.maximum = table.maximum := by
    simp only [TestStateTable.ensureInsertCapacity, bind_eq_ok, exists_unit, failIf_eq_ok] at h
    obtain ⟨-, h⟩ := h
    split at h
    · cases h
      rfl
    · obtain ⟨-, h⟩ := unit_bind_eq_ok.1 h
      obtain ⟨slots, -, h⟩ := bind_eq_ok.1 h
      cases h
      rfl
  simp only [TestStateTable.ensureInsertCapacity, unit_bind_eq_ok, failIf_eq_ok,
    decide_eq_false_iff_not] at h
  obtain ⟨hroom, h⟩ := h
  refine (answers_getTable table _).bind rfl ?_
  simp only [if_neg hroom]
  split at h
  · rename_i hfits
    cases h
    rw [if_pos hfits]
    exact answers_pure _ () _
  · rename_i hfull
    rw [if_neg hfull]
    obtain ⟨hcapacity, h⟩ := unit_bind_eq_ok.1 h
    obtain ⟨slots, hplace, h⟩ := bind_eq_ok.1 h
    cases h
    rw [failIf_eq_ok, Bool.or_eq_false_iff, decide_eq_false_iff_not,
      decide_eq_false_iff_not] at hcapacity
    rw [if_neg (not_or.2 hcapacity)]
    have hrehash : Answers (polling (rehash 0 (contents table.slots) _)) table (.ok slots) table
        (· = table) := (yields_rehash (orFail_eq_ok.1 hplace) 0).answers _ rfl
    have hgrow : Answers (polling (rehash 0 (contents table.slots) _) >>=
        fun slots ↦ setTable { table with slots }) table (.ok ()) { table with slots }
        (· = table) := hrehash.bind rfl (answers_setTable table _ _)
    exact answers_tryReserveExact hgrow (.inr rfl) rfl

/-! ## Insertion and completion -/

/-- The map a table stands for. -/
structure Denotes (table : TestStateTable) (map : BoundedMap) : Prop where
  invariant : table.Invariant
  state_eq : ∀ test, table.state test = map.entries.lookup test
  entries_eq : table.entries = map.entries.keys.card
  maximum_eq : table.maximum = map.maximum

variable {table : TestStateTable} {map : BoundedMap}

theorem denotes_new (maximum : UInt32) : Denotes (.new maximum) ⟨∅, maximum⟩ :=
  ⟨TestStateTable.invariant_new maximum, fun _ ↦ rfl, rfl, rfl⟩

theorem answers_state (test : TestId) (kept : TestStateTable → Prop) (hkept : kept table) :
    Answers (state test) table (.ok (table.state test)) table kept := by
  refine (answers_getTable table kept).bind rfl ?_
  exact ((yields_find table test).answers _ hkept).bind rfl (answers_pure table _ kept)

theorem answers_setMaximum (maximum : UInt32) (kept : TestStateTable → Prop) :
    Answers (setMaximum maximum) table (.ok ()) (table.setMaximum maximum) kept :=
  (answers_getTable table kept).bind rfl (answers_setTable table _ kept)

theorem answers_markFinished (test : TestId) (kept : TestStateTable → Prop) (hkept : kept table) :
    Answers (markFinished test) table (.ok (table.markFinished test).1)
      (table.markFinished test).2 kept := by
  refine (answers_getTable table kept).bind rfl
    (((yields_find table test).answers _ hkept).bind rfl ?_)
  rw [TestStateTable.markFinished]
  rcases table.find test with _ | index
  · exact answers_pure table false kept
  · simp only
    rcases table.slots[index]? with _ | _ | slot
    · exact answers_pure table false kept
    · exact answers_pure table false kept
    · simp only
      split
      · exact (answers_setTable table _ kept).bind rfl (answers_pure _ true kept)
      · exact answers_pure table false kept

theorem keys_insert (test : TestId) (state : TrackedTestState)
    (entries : Finmap fun _ : TestId ↦ TrackedTestState) :
    (entries.insert test state).keys = insert test entries.keys := by
  ext other
  rw [Finmap.mem_keys, Finmap.mem_insert, Finset.mem_insert, Finmap.mem_keys]

theorem lookup_insert (test other : TestId) (state : TrackedTestState)
    (entries : Finmap fun _ : TestId ↦ TrackedTestState) :
    (entries.insert test state).lookup other =
      if other = test then some state else entries.lookup other := by
  split
  · rename_i hsame
    rw [hsame, Finmap.lookup_insert]
  · rename_i hother
    exact Finmap.lookup_insert_of_ne _ hother

/-- A table with the same entries in other slots stands for the same map. -/
theorem Denotes.rearranged (h : Denotes table map) (hinvariant : grown.Invariant)
    (hentries : grown.entries = table.entries) (hmaximum : grown.maximum = table.maximum)
    (hperm : (contents grown.slots).Perm (contents table.slots)) : Denotes grown map :=
  ⟨hinvariant, fun test ↦ (h.invariant.state_congr hinvariant hperm test).trans (h.state_eq test),
    hentries.trans h.entries_eq, hmaximum.trans h.maximum_eq⟩

theorem Denotes.find_isSome (h : Denotes table map) (test : TestId) :
    (table.find test).isSome = decide (test ∈ map.entries) := by
  rw [h.invariant.find_isSome, h.state_eq, Bool.eq_iff_iff, Finmap.lookup_isSome,
    decide_eq_true_iff]

theorem answers_insertActive_known (h : Denotes table map) (hknown : test ∈ map.entries) :
    Answers (insertActive test) table (.ok false) table (Denotes · map) := by
  refine (answers_getTable table _).bind rfl
    (((yields_find table test).answers (Denotes · map) h).bind rfl ?_)
  rw [h.find_isSome, if_pos (decide_eq_true hknown)]
  exact answers_pure table false _

theorem answers_insertActive_new (h : Denotes table map) (hnew : test ∉ map.entries)
    (hroom : map.entries.keys.card < map.maximum.toNat) :
    ∃ after, Answers (insertActive test) table (.ok true) after (Denotes · map) ∧
      Denotes after { map with entries := map.entries.insert test .active } := by
  have hfind : ¬ (table.find test).isSome = true := by
    rw [h.find_isSome]
    simpa using hnew
  rw [← h.entries_eq, ← h.maximum_eq] at hroom
  have hnone : table.state test = none := by
    rw [h.state_eq]
    exact Finmap.lookup_eq_none.2 hnew
  obtain ⟨grown, hgrow, hinvariant, hentries, hmaximum, -, hperm⟩ :=
    h.invariant.ensureInsertCapacity hroom
  obtain ⟨after, hinsert, hafter, hcount, hlimit, hstates⟩ :=
    h.invariant.insertActive_new hnone hroom
  have hkept : Denotes grown map := h.rearranged hinvariant hentries hmaximum hperm
  rw [TestStateTable.insertActive, if_neg hfind, hgrow, ok_bind] at hinsert
  obtain ⟨slots, hplace, hresult⟩ := bind_eq_ok.1 hinsert
  cases hresult
  refine ⟨_, ?_, hafter, fun other ↦ ?_, ?_, hlimit.trans h.maximum_eq⟩
  · refine (answers_getTable table _).bind rfl
      (((yields_find table test).answers (Denotes · map) h).bind rfl ?_)
    rw [if_neg hfind]
    refine ((ensureInsertCapacity_answers hgrow).mono fun _ ↦ ?_).bind hmaximum ?_
    · rintro rfl
      exact h
    · refine (answers_getTable grown _).bind rfl
        (((yields_placeTestSlot _ _).answers (Denotes · map) hkept).bind rfl ?_)
      rw [orFail_eq_ok.1 hplace]
      exact (answers_setTable grown _ _).bind rfl (answers_pure _ true _)
  · rw [hstates, lookup_insert, h.state_eq]
  · rw [hcount, keys_insert, Finset.card_insert_of_notMem (mt Finmap.mem_keys.1 hnew), h.entries_eq]

theorem answers_insertActive_full (h : Denotes table map) (hnew : test ∉ map.entries)
    (hfull : map.maximum.toNat ≤ map.entries.keys.card) :
    Answers (insertActive test) table
      (.error (.protocol (.resourceLimit "test-state entries" map.maximum.toNat))) table
      (Denotes · map) := by
  have hfind : ¬ (table.find test).isSome = true := by
    rw [h.find_isSome]
    simpa using hnew
  rw [← h.entries_eq, ← h.maximum_eq] at hfull
  refine (answers_getTable table _).bind rfl
    (((yields_find table test).answers (Denotes · map) h).bind rfl ?_)
  rw [if_neg hfind, ← h.maximum_eq]
  refine Answers.bind_error ((answers_getTable table _).bind rfl ?_)
  simp only [if_pos (show table.entries + 1 > table.maximum.toNat by omega)]
  exact answers_throw table _ _

theorem denotes_markFinished (h : Denotes table map)
    (hactive : map.entries.lookup test = some .active) :
    (table.markFinished test).1 = true ∧ Denotes (table.markFinished test).2
      { map with entries := map.entries.insert test .finished } := by
  obtain ⟨hmarked, hinvariant, hentries, hmaximum, hstates⟩ :=
    h.invariant.markFinished_active ((h.state_eq test).trans hactive)
  refine ⟨hmarked, hinvariant, fun other ↦ ?_, ?_, hmaximum.trans h.maximum_eq⟩
  · rw [hstates, lookup_insert, h.state_eq]
  · rw [hentries, keys_insert, Finset.insert_eq_self.2, h.entries_eq]
    exact Finmap.mem_keys.2 (Finmap.mem_of_lookup_eq_some hactive)

/-- A test that is not running is not finished. -/
theorem markFinished_of_ne (h : Denotes table map) {test : TestId}
    (hidle : map.entries.lookup test ≠ some .active) : table.markFinished test = (false, table) := by
  rw [← h.state_eq] at hidle
  rw [TestStateTable.markFinished]
  cases hfind : table.find test with
  | none => rfl
  | some index =>
    obtain ⟨slot, hslot, -⟩ := h.invariant.find_eq_some.1 hfind
    have hstate : table.state test = some slot.state := by
      simp [TestStateTable.state, hfind, hslot]
    simp only [hslot]
    rw [if_neg fun hactive ↦ hidle (hstate.trans (congrArg some hactive))]

/-- Every operation answers as the map does, or it is interrupted and the map stays. -/
theorem perform_answers (h : Denotes table map) (operation : TableOperation) :
    ∃ after, Answers (perform operation) table (map.perform operation).1 after (Denotes · map) ∧
      Denotes after (map.perform operation).2 := by
  cases operation with
  | state test =>
    refine ⟨table, ?_, h⟩
    have hanswer := (answers_state test (Denotes · map) h).map TableAnswer.state
    rwa [h.state_eq] at hanswer
  | insertActive test =>
    simp only [BoundedMap.perform]
    split
    · rename_i hknown
      exact ⟨table, (answers_insertActive_known h hknown).map _, h⟩
    · rename_i hnew
      split
      · rename_i hroom
        obtain ⟨after, hanswer, hafter⟩ := answers_insertActive_new h hnew hroom
        exact ⟨after, hanswer.map _, hafter⟩
      · rename_i hfull
        exact ⟨table, (answers_insertActive_full h hnew (Nat.le_of_not_lt hfull)).map _, h⟩
  | markFinished test =>
    have hanswer := (answers_markFinished test (Denotes · map) h).map TableAnswer.changed
    simp only [BoundedMap.perform]
    split
    · rename_i hactive
      obtain ⟨hmarked, hafter⟩ := denotes_markFinished h hactive
      rw [hmarked] at hanswer
      exact ⟨_, hanswer, hafter⟩
    · rename_i hidle
      rw [markFinished_of_ne h hidle] at hanswer
      exact ⟨table, hanswer, h⟩
  | setMaximum maximum =>
    exact ⟨table.setMaximum maximum, (answers_setMaximum maximum _).map _,
      h.invariant.setMaximum maximum, h.state_eq, h.entries_eq, rfl⟩

theorem run_cons (operation : TableOperation) (operations : List TableOperation)
    (before : TestStateTable × Host) :
    run (operation :: operations) before =
      ((outcome (perform operation) before).1 ::
        (run operations (outcome (perform operation) before).2).1,
        (run operations (outcome (perform operation) before).2).2) := rfl

theorem run_follows_of_denotes (h : Denotes table map) (operations : List TableOperation)
    (host : Host) : ∃ after, Follows map operations (run operations (table, host)).1 after ∧
      Denotes (run operations (table, host)).2.1 after := by
  induction operations generalizing table map host with
  | nil => exact ⟨map, .nil, h⟩
  | cons operation operations ih =>
    obtain ⟨middle, hanswers, hmiddle⟩ := perform_answers h operation
    rw [run_cons]
    rcases hanswers.any host with ⟨host', hok⟩ | ⟨error, table', host', herror, hstop, hkept⟩
    · rw [hok]
      obtain ⟨after, hfollows, hafter⟩ := ih hmiddle host'
      exact ⟨after, .answered rfl hfollows, hafter⟩
    · rw [herror]
      obtain ⟨after, hfollows, hafter⟩ := ih hkept host'
      rw [h.maximum_eq] at hstop
      exact ⟨after, .interrupted hstop hfollows, hafter⟩

theorem run_quiet (h : Denotes table map) (operations : List TableOperation) :
    (run operations (table, .quiet)).1 = (map.run operations).1 := by
  induction operations generalizing table map with
  | nil => rfl
  | cons operation operations ih =>
    obtain ⟨middle, hanswers, hmiddle⟩ := perform_answers h operation
    rw [run_cons, hanswers.quiet, ih hmiddle]
    rfl

theorem bind_eq_error {operation : Updating α} {next : α → Updating β}
    {before after : TestStateTable × Host} {error : TableError} :
    (operation >>= next) before = .error error after ↔ operation before = .error error after ∨
      ∃ value middle, operation before = .ok value middle ∧
        next value middle = .error error after := by
  change EStateM.bind operation next before = _ ↔ _
  unfold EStateM.bind
  cases operation before with
  | ok value middle =>
    constructor
    · exact fun h ↦ .inr ⟨value, middle, rfl, h⟩
    · rintro (h | ⟨_, _, h, hnext⟩)
      · cases h
      · cases h
        exact hnext
  | error stop middle =>
    constructor
    · intro h
      cases h
      exact .inl rfl
    · rintro (h | ⟨_, _, h, -⟩)
      · cases h
        rfl
      · cases h

theorem polling_table {run : Polling α} {before after : TestStateTable × Host} {value : α}
    (h : polling run before = .ok value after) : after.1 = before.1 := by
  obtain ⟨table, host⟩ := before
  simp only [polling] at h
  cases hrun : run host <;> rw [hrun] at h <;> cases h
  rfl

theorem polling_error_table {run : Polling α} {before after : TestStateTable × Host}
    {error : TableError} (h : polling run before = .error error after) : after.1 = before.1 := by
  obtain ⟨table, host⟩ := before
  simp only [polling] at h
  cases hrun : run host <;> rw [hrun] at h <;> cases h
  rfl

/-- Growing the table is all or nothing: when it is cancelled or memory is refused, the table is as
it was. -/
theorem ensureInsertCapacity_error {before after : TestStateTable × Host} {error : TableError}
    (h : ensureInsertCapacity before = .error error after) : after.1 = before.1 := by
  obtain h | ⟨table, middle, hget, h⟩ := bind_eq_error.1 h
  · cases h
  cases hget
  simp only at h
  split at h
  · cases h
    rfl
  split at h
  · cases h
  generalize min _ (nextPowerOfTwo _) = capacity at h
  split at h
  · cases h
    rfl
  obtain h | ⟨allocated, asked, hask, h⟩ := bind_eq_error.1 h
  · exact polling_error_table h
  have hasked := polling_table hask
  split at h
  · obtain h | ⟨slots, rehashed, hrehash, h⟩ := bind_eq_error.1 h
    · exact (polling_error_table h).trans hasked
    · cases h
  · cases h
    exact hasked

theorem Follows.no_mismatch (h : Follows map operations answers after) (text : String) :
    .error (.protocol (.protocolContractMismatch text)) ∉ answers := by
  induction h with
  | nil => exact List.not_mem_nil
  | @answered map middle after operation operations answer answers performed rest ih =>
    rw [List.mem_cons, not_or]
    refine ⟨?_, ih⟩
    rintro rfl
    cases operation with
    | state test | setMaximum maximum => cases performed
    | insertActive test | markFinished test =>
      simp only [BoundedMap.perform] at performed
      split_ifs at performed <;> cases performed
  | @interrupted map after operation operations error answers interruption rest ih =>
    rw [List.mem_cons, not_or]
    refine ⟨?_, ih⟩
    intro heq
    cases heq
    rcases interruption with h | h <;> cases h

/-- The table is a finite map from tests to states.  Uninterrupted, every sequence of operations on
a new table gives the answers of the map.  Whatever the host answers, each operation answers as the
map does or is interrupted and leaves the map as it is, the table ends up as the map does, and no
answer is that there is no slot.  The slots, once there are any, are a power of two and at most half
of them are taken, and growing them is all or nothing. -/
theorem table_refines_map (maximum : UInt32) (operations : List TableOperation) :
    (run operations (.new maximum, .quiet)).1 = (BoundedMap.run operations ⟨∅, maximum⟩).1 ∧
      ∀ host, ∀ answers table host', run operations (.new maximum, host) = (answers, table, host') →
        (∃ map, Follows ⟨∅, maximum⟩ operations answers map ∧
          ∀ test, table.state test = map.entries.lookup test) ∧
        (∀ text, .error (.protocol (.protocolContractMismatch text)) ∉ answers) ∧
        (table.slots = [] ∨ ∃ e, table.slots.length = 2 ^ e) ∧
        2 * (contents table.slots).length ≤ table.slots.length ∧
        ∀ host error after, ensureInsertCapacity (table, host) = .error error after →
          after.1 = table := by
  refine ⟨run_quiet (denotes_new maximum) operations, ?_⟩
  intro host answers table host' hrun
  obtain ⟨map, hfollows, hdenotes⟩ := run_follows_of_denotes (denotes_new maximum) operations host
  rw [hrun] at hfollows hdenotes
  have hinvariant := hdenotes.invariant
  refine ⟨⟨map, hfollows, hdenotes.state_eq⟩, hfollows.no_mismatch, ?_, ?_, ?_⟩
  · rcases eq_or_ne table.slots [] with hempty | hne
    · exact .inl hempty
    · exact .inr (hinvariant.wellFormed hne).2.powerOfTwo
  · have hhalf := hinvariant.half
    rwa [hinvariant.entries_eq] at hhalf
  · intro host error after herror
    exact ensureInsertCapacity_error herror

/-- A new table has no slots at all, and no power of two is zero. -/
theorem slots_not_powerOfTwo :
    ¬ ∀ maximum operations host,
      ∃ e, (run operations (.new maximum, host)).2.1.slots.length = 2 ^ e := by
  intro h
  obtain ⟨e, he⟩ := h 1 [] .quiet
  exact (Nat.two_pow_pos e).ne he

end Wrela.TestProtocol.Interruptible
