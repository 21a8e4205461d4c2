import Wrela.LocalFormat.PublicationLaws

/-!
# The states of a commit

During the commit every publication is in one of four states, and every loop of the commit moves a
run of publications from one state to the next.  What a loop does to one publication leaves the
files of all others alone.
-/

namespace Wrela.LocalFormat

open List Wrela.Source Wrela.BuildModel
open scoped Classical

inductive Status where
  /-- The original is in place and both temporary files stand beside it. -/
  | staged
  /-- The formatted text is in place and the copy of the original still exists. -/
  | visible
  /-- The copy of the original was moved back. -/
  | restored
  /-- The formatted text is in place and the copy of the original is gone. -/
  | removed

def Status.destination (source : ChangedSource) : Status → List UInt8
  | .staged => source.original
  | .visible => source.formatted
  | .restored => source.original
  | .removed => source.formatted

def Status.copy (source : ChangedSource) : Status → Option (List UInt8)
  | .staged => some source.original
  | .visible => some source.original
  | .restored => none
  | .removed => none

/-- The files of one publication. -/
structure At (env : Environment) (files : FileSystem) (index : ℕ) (source : ChangedSource)
    (status : Status) : Prop where
  destination : contents files source.path = some (status.destination source)
  rollback : contents files (rollbackPath env source.path index) = status.copy source
  stage : status = .staged →
    contents files (stagePath env source.path index) = some source.formatted

def Arranged (env : Environment) (sources : List ChangedSource) (status : ℕ → Status)
    (files : FileSystem) : Prop :=
  ∀ index source, sources[index]? = some source → At env files index source (status index)

/-- Sources whose publications share no file. -/
structure Separate (env : Environment) (sources : List ChangedSource) : Prop where
  letter : ∀ (index : ℕ) (source : ChangedSource), sources[index]? = some source →
    lastLetter source.path = some 'r'
  bounded : ∀ (index : ℕ) (source : ChangedSource), sources[index]? = some source →
    source.formatted.length ≤ env.maximumBytes
  distinct : ∀ (i : ℕ) (source : ChangedSource) (j : ℕ) (source' : ChangedSource),
    sources[i]? = some source → sources[j]? = some source' → i ≠ j →
    stagePath env source.path i ≠ stagePath env source'.path j ∧
    rollbackPath env source.path i ≠ rollbackPath env source'.path j ∧
    source.path ≠ source'.path

variable {env : Environment} {files files' : FileSystem} {sources : List ChangedSource}
  {status : ℕ → Status}

/-- One publication changes its state and no file of another one is touched. -/
def Advances (env : Environment) (index : ℕ) (source : ChangedSource) (files files' : FileSystem)
    (next : Status) : Prop :=
  At env files' index source next ∧ ∀ path, path ≠ source.path →
    path ≠ stagePath env source.path index → path ≠ rollbackPath env source.path index →
      files' path = files path

theorem Arranged.update (hseparate : Separate env sources) (h : Arranged env sources status files)
    {index : ℕ} {source : ChangedSource} (hsource : sources[index]? = some source) {next : Status}
    (hadvances : Advances env index source files files' next) :
    Arranged env sources (Function.update status index next) files' := by
  obtain ⟨hnext, hframe⟩ := hadvances
  intro i other hother
  by_cases hindex : i = index
  · subst hindex
    obtain rfl := Option.some.inj (hsource.symm.trans hother)
    simpa using hnext
  · obtain ⟨hstages, hrollbacks, hpaths⟩ :=
      hseparate.distinct i other index source hother hsource hindex
    have hletter := hseparate.letter i other hother
    have hletter' := hseparate.letter index source hsource
    have hat := h i other hother
    rw [Function.update_of_ne hindex]
    refine ⟨?_, ?_, fun hstaged ↦ ?_⟩
    · rw [contents_congr (hframe _ hpaths
        (ne_of_lastLetter hletter (lastLetter_stagePath _ _) (by decide))
        (ne_of_lastLetter hletter (lastLetter_rollbackPath _ _) (by decide))), hat.destination]
    · rw [contents_congr (hframe _
        (ne_of_lastLetter (lastLetter_rollbackPath _ _) hletter' (by decide))
        (ne_of_lastLetter (lastLetter_rollbackPath _ _) (lastLetter_stagePath _ _) (by decide))
        hrollbacks), hat.rollback]
    · rw [contents_congr (hframe _
        (ne_of_lastLetter (lastLetter_stagePath _ _) hletter' (by decide)) hstages
        (ne_of_lastLetter (lastLetter_stagePath _ _) (lastLetter_rollbackPath _ _) (by decide))),
        hat.stage hstaged]

theorem Arranged.congr (h : Arranged env sources status files)
    (hstatus : ∀ i, i < sources.length → status' i = status i) :
    Arranged env sources status' files := by
  intro i other hother
  rw [hstatus i (List.getElem?_eq_some_iff.1 hother).1]
  exact h i other hother

/-- No operation of one kind fails from one position up to another. -/
def Clear (env : Environment) (operation : ℕ → Operation) (first index : ℕ) : Prop :=
  first ≤ index ∧ ∀ j, first ≤ j → j ≤ index → env.fails (operation j) = false

theorem clear_step (h : env.fails (operation first) = false) :
    Clear env operation first index ↔ index = first ∨ Clear env operation (first + 1) index := by
  constructor
  · rintro ⟨hle, hall⟩
    rcases Nat.eq_or_lt_of_le hle with rfl | hlt
    · exact .inl rfl
    · exact .inr ⟨hlt, fun j hj ↦ hall j (by omega)⟩
  · rintro (rfl | ⟨hle, hall⟩)
    · refine ⟨le_rfl, fun j hj hj' ↦ ?_⟩
      rwa [le_antisymm hj' hj]
    · refine ⟨by omega, fun j hj hj' ↦ ?_⟩
      rcases Nat.eq_or_lt_of_le hj with rfl | hlt
      · exact h
      · exact hall j hlt hj'

/-- The states after a step and the loop over what follows are those after the whole loop. -/
theorem advance_status {operation : ℕ → Operation} {first : ℕ} {next : Status}
    (h : env.fails (operation first) = false) (i : ℕ) :
    (if Clear env operation first i then next else status i) =
      if Clear env operation (first + 1) i then next
      else Function.update status first next i := by
  rw [clear_step h]
  by_cases hi : i = first
  · rw [if_pos (.inl hi), hi, Function.update_self, ite_self]
  · rw [Function.update_of_ne hi]
    simp only [hi, false_or]

theorem not_clear_of_fails (h : env.fails (operation first) = true) :
    ¬ Clear env operation first index := by
  rintro ⟨hle, hall⟩
  simp [hall first le_rfl hle] at h

theorem exists_of_contents (h : contents files path = some bytes) :
    ∃ record, files path = some record ∧ record.bytes = bytes :=
  Option.map_eq_some_iff.1 h

/-- A file that differs from the two a rename is about. -/
theorem renamed_of_ne (hsource : path ≠ source) (htarget : path ≠ target) :
    Function.update (Function.update files source none) target (some record) path = files path := by
  rw [Function.update_of_ne htarget, Function.update_of_ne hsource]

variable {index : ℕ} {source : ChangedSource}

theorem At.renameStage (hletter : lastLetter source.path = some 'r')
    (h : At env files index source .staged) :
    ∃ files', env.rename (.renameStage index) (stagePath env source.path index) source.path files =
        (if env.fails (.renameStage index) then .error (.failed (.renameStage index))
          else .ok files') ∧
      Advances env index source files files' .visible := by
  obtain ⟨record, hrecord, hbytes⟩ := exists_of_contents (h.stage rfl)
  have hrollback : rollbackPath env source.path index ≠ source.path :=
    ne_of_lastLetter (lastLetter_rollbackPath _ _) hletter (by decide)
  have hstage : rollbackPath env source.path index ≠ stagePath env source.path index :=
    ne_of_lastLetter (lastLetter_rollbackPath _ _) (lastLetter_stagePath _ _) (by decide)
  refine ⟨_, rename_eq hrecord, ⟨?_, ?_, by simp⟩, fun path hpath hother _ ↦
    renamed_of_ne hother hpath⟩
  · rw [contents, Function.update_self, Option.map_some, hbytes]
    rfl
  · rw [contents_congr (renamed_of_ne hstage hrollback), h.rollback]
    rfl

theorem At.renameRollback (hletter : lastLetter source.path = some 'r')
    (h : At env files index source .visible) :
    ∃ files', env.rename (.renameRollback index) (rollbackPath env source.path index) source.path
        files =
        (if env.fails (.renameRollback index) then .error (.failed (.renameRollback index))
          else .ok files') ∧
      Advances env index source files files' .restored := by
  obtain ⟨record, hrecord, hbytes⟩ := exists_of_contents h.rollback
  have hrollback : rollbackPath env source.path index ≠ source.path :=
    ne_of_lastLetter (lastLetter_rollbackPath _ _) hletter (by decide)
  refine ⟨_, rename_eq hrecord, ⟨?_, ?_, by simp⟩, fun path hpath _ hother ↦
    renamed_of_ne hother hpath⟩
  · rw [contents, Function.update_self, Option.map_some, hbytes]
    rfl
  · rw [contents, Function.update_of_ne hrollback, Function.update_self]
    rfl

theorem At.removeRollback (hletter : lastLetter source.path = some 'r')
    (h : At env files index source .visible) :
    ∃ files', env.removeFile (.removeRollback index) (rollbackPath env source.path index) files =
        (if env.fails (.removeRollback index) then .error (.failed (.removeRollback index))
          else .ok files') ∧
      Advances env index source files files' .removed := by
  obtain ⟨record, hrecord, hbytes⟩ := exists_of_contents h.rollback
  have hrollback : source.path ≠ rollbackPath env source.path index :=
    ne_of_lastLetter hletter (lastLetter_rollbackPath _ _) (by decide)
  refine ⟨_, removeFile_eq hrecord, ⟨?_, ?_, by simp⟩, fun path _ _ hother ↦
    Function.update_of_ne hother _ _⟩
  · rw [contents_congr (Function.update_of_ne hrollback _ _), h.destination]
    rfl
  · rw [contents, Function.update_self]
    rfl

theorem At.readDestination (h : At env files index source .visible)
    (hbounded : source.formatted.length ≤ env.maximumBytes) (operation : Operation) :
    ∃ record, record.bytes = source.formatted ∧ env.readStableFile operation source.path files =
      if env.fails operation then .error (.failed operation) else .ok record := by
  obtain ⟨record, hrecord, hbytes⟩ := exists_of_contents h.destination
  exact ⟨record, hbytes, readStableFile_eq hrecord (by rw [hbytes]; exact hbounded)⟩

theorem getElem?_length_of_append (h : sources = before ++ source :: rest) :
    sources[before.length]? = some source := by
  rw [h, List.getElem?_append_right le_rfl, Nat.sub_self, List.getElem?_cons_zero]

/-- The stages become visible up to the first rename that fails. -/
theorem renameStages_eq (hseparate : Separate env sources) {before rest : List ChangedSource}
    (hsources : sources = before ++ rest) (h : Arranged env sources status files)
    (hstaged : ∀ i, before.length ≤ i → status i = .staged) (preserve : ℕ → Bool) :
    ∃ outcome files',
      renameStages env (publicationsFrom env (fun _ ↦ false) preserve before.length rest) files =
        (outcome, publicationsFrom env
          (fun i ↦ decide (Clear env .renameStage before.length i)) preserve before.length rest,
          files') ∧
      Arranged env sources
        (fun i ↦ if Clear env .renameStage before.length i then .visible else status i) files' ∧
      (outcome = .ok () ↔ ∀ i, before.length ≤ i → i < before.length + rest.length →
        env.fails (.renameStage i) = false) := by
  induction rest generalizing before status files with
  | nil =>
    rw [append_nil] at hsources
    subst hsources
    exact ⟨.ok (), files, rfl, h.congr fun i hi ↦ if_neg fun hclear ↦ hi.not_ge hclear.1,
      iff_of_true rfl fun i hle hlt ↦ absurd hle hlt.not_ge⟩
  | cons source rest ih =>
    have hsource := getElem?_length_of_append hsources
    have hletter := hseparate.letter _ _ hsource
    have hat := h _ _ hsource
    rw [hstaged _ le_rfl] at hat
    obtain ⟨renamed, hrename, hadvances⟩ := hat.renameStage hletter
    rw [length_cons, forall_fails_iff]
    unfold publicationsFrom renameStages
    cases hfails : env.fails (.renameStage before.length) with
    | true =>
      have hnone (i : ℕ) : ¬ Clear env .renameStage before.length i := not_clear_of_fails hfails
      rw [hfails, if_pos rfl] at hrename
      refine ⟨.error (.publication source.path.text "" (some (.failed (.renameStage before.length)))),
        files, ?_, ?_, by simp⟩
      · simp only [flagged, preparedPublication, hrename, decide_eq_false (hnone _)]
      · simpa only [if_neg (hnone _)] using h
    | false =>
      rw [hfails, if_neg (by simp)] at hrename
      have hlength : (before ++ [source]).length = before.length + 1 := by simp
      obtain ⟨outcome, files', hloop, harranged, hok⟩ := @ih _ _ (before ++ [source])
        (by simpa using hsources) (h.update hseparate hsource hadvances) fun i hi ↦ by
          rw [Function.update_of_ne (by omega), hstaged i (by omega)]
      rw [hlength] at hloop harranged hok
      refine ⟨outcome, files', ?_, harranged.congr fun i _ ↦ advance_status hfails i,
        by simpa using hok⟩
      have hself : Clear env .renameStage before.length before.length :=
        (clear_step hfails).2 (.inl rfl)
      have htail := @publicationsFrom_congr env rest
        (fun i ↦ decide (Clear env .renameStage (before.length + 1) i))
        (fun i ↦ decide (Clear env .renameStage before.length i)) preserve preserve
        (before.length + 1) (fun i hle _ ↦ by
          rw [decide_eq_decide, clear_step hfails]
          exact ⟨.inr, fun hi ↦ hi.resolve_left (by omega)⟩) fun _ _ _ ↦ rfl
      simp only [flagged, preparedPublication, hrename, hloop, htail, decide_eq_true hself]

/-- The copies are removed up to the first removal that fails. -/
theorem removeRollbacks_eq (hseparate : Separate env sources) {before rest : List ChangedSource}
    (hsources : sources = before ++ rest) (h : Arranged env sources status files)
    (hvisible : ∀ i, before.length ≤ i → status i = .visible) (committed preserve : ℕ → Bool) :
    ∃ outcome committed' files',
      removeRollbacks env (publicationsFrom env committed preserve before.length rest) files =
        (outcome, publicationsFrom env committed' preserve before.length rest, files') ∧
      Arranged env sources
        (fun i ↦ if Clear env .removeRollback before.length i then .removed else status i) files' ∧
      (outcome = .ok () ↔ ∀ i, before.length ≤ i → i < before.length + rest.length →
        env.fails (.removeRollback i) = false) := by
  induction rest generalizing before status files with
  | nil =>
    rw [append_nil] at hsources
    subst hsources
    exact ⟨.ok (), committed, files, rfl, h.congr fun i hi ↦ if_neg fun hclear ↦ hi.not_ge hclear.1,
      iff_of_true rfl fun i hle hlt ↦ absurd hle hlt.not_ge⟩
  | cons source rest ih =>
    have hsource := getElem?_length_of_append hsources
    have hletter := hseparate.letter _ _ hsource
    have hat := h _ _ hsource
    rw [hvisible _ le_rfl] at hat
    obtain ⟨removed, hremove, hadvances⟩ := hat.removeRollback hletter
    rw [length_cons, forall_fails_iff]
    simp only [publicationsFrom]
    unfold removeRollbacks
    cases hfails : env.fails (.removeRollback before.length) with
    | true =>
      have hnone (i : ℕ) : ¬ Clear env .removeRollback before.length i := not_clear_of_fails hfails
      rw [hfails, if_pos rfl] at hremove
      refine ⟨.error (.publication source.path.text ""
        (some (.failed (.removeRollback before.length)))), committed, files, ?_, ?_, by simp⟩
      · simp only [flagged, preparedPublication, hremove]
      · simpa only [if_neg (hnone _)] using h
    | false =>
      rw [hfails, if_neg (by simp)] at hremove
      have hlength : (before ++ [source]).length = before.length + 1 := by simp
      obtain ⟨outcome, committed', files', hloop, harranged, hok⟩ := @ih _ _ (before ++ [source])
        (by simpa using hsources) (h.update hseparate hsource hadvances) fun i hi ↦ by
          rw [Function.update_of_ne (by omega), hvisible i (by omega)]
      rw [hlength] at hloop harranged hok
      refine ⟨outcome, Function.update committed' before.length false, files', ?_,
        harranged.congr fun i _ ↦ advance_status hfails i, by simpa using hok⟩
      have htail := @publicationsFrom_congr env rest committed'
        (Function.update committed' before.length false) preserve preserve (before.length + 1)
        (fun i hle _ ↦ (Function.update_of_ne (by omega) _ _).symm) fun _ _ _ ↦ rfl
      simp only [flagged, preparedPublication, hremove, hloop, htail, Function.update_self]

theorem syncDirectories_eq_ok {operation : ℕ → Operation} {committed preserve : ℕ → Bool}
    {first : ℕ} :
    syncDirectories env operation (publicationsFrom env committed preserve first sources) = .ok () ↔
      ∀ i, first ≤ i → i < first + sources.length → env.fails (operation i) = false := by
  induction sources generalizing first with
  | nil =>
    refine iff_of_true rfl fun i hle hlt ↦ ?_
    rw [length_nil] at hlt
    omega
  | cons source sources ih =>
    rw [publicationsFrom, syncDirectories, Environment.syncDirectory, length_cons,
      forall_fails_iff, ← ih]
    simp only [flagged, preparedPublication]
    by_cases hfails : env.fails (operation first) = true
    · simp [hfails]
    · simp [hfails]

/-- Once every publication is visible, only a failed read keeps the sources unconfirmed. -/
theorem verifyPublished_eq (hseparate : Separate env sources) {before rest : List ChangedSource}
    (hsources : sources = before ++ rest) (h : Arranged env sources status files)
    (hvisible : ∀ i, before.length ≤ i → status i = .visible) (committed preserve : ℕ → Bool) :
    (verifyPublished env files (publicationsFrom env committed preserve before.length rest) =
        .ok () ∧ ∀ i, before.length ≤ i → i < before.length + rest.length →
          env.fails (.readPublished i) = false) ∨
      ∃ error, verifyPublished env files
          (publicationsFrom env committed preserve before.length rest) =
            .error (.unreadable error) ∧
        ∃ i, before.length ≤ i ∧ i < before.length + rest.length ∧
          env.fails (.readPublished i) = true := by
  induction rest generalizing before with
  | nil =>
    refine .inl ⟨rfl, fun i hle hlt ↦ ?_⟩
    rw [length_nil] at hlt
    omega
  | cons source rest ih =>
    have hsource := getElem?_length_of_append hsources
    have hat := h _ _ hsource
    rw [hvisible _ le_rfl] at hat
    obtain ⟨record, hbytes, hread⟩ := hat.readDestination (hseparate.bounded _ _ hsource)
      (.readPublished before.length)
    rw [length_cons, forall_fails_iff]
    simp only [publicationsFrom]
    unfold verifyPublished
    cases hfails : env.fails (.readPublished before.length) with
    | true =>
      rw [hfails, if_pos rfl] at hread
      simp only [flagged, preparedPublication, hread]
      exact .inr ⟨_, rfl, before.length, le_rfl, by omega, hfails⟩
    | false =>
      rw [hfails, if_neg (by simp)] at hread
      have hlength : (before ++ [source]).length = before.length + 1 := by simp
      have hrest := @ih (before ++ [source]) (by simpa using hsources)
        fun i hi ↦ hvisible i (by omega)
      rw [hlength] at hrest
      simp only [flagged, preparedPublication, hread, hbytes, bne_self_eq_false, Bool.or_self,
        Bool.false_eq_true, if_false]
      rcases hrest with ⟨hok, hall⟩ | ⟨error, herror, i, hle, hlt, hi⟩
      · exact .inl ⟨hok, trivial, hall⟩
      · exact .inr ⟨error, herror, i, by omega, by omega, hi⟩

/-- The rollback of a publication fails. -/
def Stops (env : Environment) (committed : ℕ → Bool) (index : ℕ) : Prop :=
  committed index = true ∧
    (env.fails (.readFailed index) = true ∨ env.fails (.renameRollback index) = true)

/-- The publications below a bound that were restored before the rollback stopped, from the top. -/
def Restored (env : Environment) (committed : ℕ → Bool) (bound index : ℕ) : Prop :=
  index < bound ∧ committed index = true ∧ ∀ j, index ≤ j → j < bound → ¬ Stops env committed j

/-- The publication at which the rollback stopped. -/
def StopsAt (env : Environment) (committed : ℕ → Bool) (bound index : ℕ) : Prop :=
  index < bound ∧ Stops env committed index ∧ ∀ j, index < j → j < bound → ¬ Stops env committed j

theorem restored_succ (h : ¬ Stops env committed bound) (i : ℕ) :
    Restored env committed (bound + 1) i ↔
      i = bound ∧ committed bound = true ∨ Restored env committed bound i := by
  constructor
  · rintro ⟨hlt, hcommitted, hall⟩
    rcases Nat.lt_succ_iff_lt_or_eq.1 hlt with hlt | rfl
    · exact .inr ⟨hlt, hcommitted, fun j hle hj ↦ hall j hle (by omega)⟩
    · exact .inl ⟨rfl, hcommitted⟩
  · rintro (⟨rfl, hcommitted⟩ | ⟨hlt, hcommitted, hall⟩)
    · refine ⟨by omega, hcommitted, fun j hle hj ↦ ?_⟩
      rwa [show j = i by omega]
    · refine ⟨by omega, hcommitted, fun j hle hj ↦ ?_⟩
      rcases Nat.lt_succ_iff_lt_or_eq.1 hj with hj | rfl
      · exact hall j hle hj
      · exact h

theorem not_restored_of_stops (h : Stops env committed bound) (i : ℕ) :
    ¬ Restored env committed (bound + 1) i := by
  rintro ⟨hlt, -, hall⟩
  exact hall bound (by omega) (by omega) h

theorem stopsAt_succ (h : ¬ Stops env committed bound) (i : ℕ) :
    StopsAt env committed (bound + 1) i ↔ StopsAt env committed bound i := by
  constructor
  · rintro ⟨hlt, hstops, hall⟩
    rcases Nat.lt_succ_iff_lt_or_eq.1 hlt with hlt | rfl
    · exact ⟨hlt, hstops, fun j hle hj ↦ hall j hle (by omega)⟩
    · exact absurd hstops h
  · rintro ⟨hlt, hstops, hall⟩
    refine ⟨by omega, hstops, fun j hle hj ↦ ?_⟩
    rcases Nat.lt_succ_iff_lt_or_eq.1 hj with hj | rfl
    · exact hall j hle hj
    · exact h

theorem stopsAt_of_stops (h : Stops env committed bound) (i : ℕ) :
    StopsAt env committed (bound + 1) i ↔ i = bound := by
  constructor
  · rintro ⟨hlt, -, hall⟩
    by_contra hne
    exact hall bound (by omega) (by omega) h
  · rintro rfl
    exact ⟨by omega, h, fun j hle hj ↦ by omega⟩

section Steps

variable {committed : ℕ → Bool} (rest : List PreparedPublication)

theorem restoreOriginals_skip (h : committed index = false) :
    restoreOriginals env (flagged env committed (fun _ ↦ false) index source :: rest) files =
      ((restoreOriginals env rest files).1,
        flagged env committed (fun _ ↦ false) index source :: (restoreOriginals env rest files).2.1,
        (restoreOriginals env rest files).2.2) := by
  rw [restoreOriginals]
  simp only [flagged, h]
  rfl

theorem restoreOriginals_stop (hletter : lastLetter source.path = some 'r')
    (hbounded : source.formatted.length ≤ env.maximumBytes)
    (hat : At env files index source .visible) (h : Stops env committed index) :
    ∃ error, restoreOriginals env (flagged env committed (fun _ ↦ false) index source :: rest)
        files = (.error error, flagged env committed (fun _ ↦ true) index source :: rest, files) := by
  obtain ⟨record, hbytes, hread⟩ := hat.readDestination hbounded (.readFailed index)
  obtain ⟨renamed, hrename, -⟩ := hat.renameRollback hletter
  rw [restoreOriginals]
  simp only [flagged, preparedPublication, h.1, Bool.not_true, Bool.false_eq_true, if_false, hread]
  by_cases hfails : env.fails (.readFailed index) = true
  · rw [if_pos hfails]
    exact ⟨_, rfl⟩
  · rw [if_neg hfails]
    rw [if_pos (h.2.resolve_left hfails)] at hrename
    simp only [hbytes, bne_self_eq_false, Bool.false_eq_true, if_false, hrename]
    exact ⟨_, rfl⟩

theorem restoreOriginals_step (hletter : lastLetter source.path = some 'r')
    (hbounded : source.formatted.length ≤ env.maximumBytes)
    (hat : At env files index source .visible) (hcommitted : committed index = true)
    (h : ¬ Stops env committed index) :
    ∃ renamed, restoreOriginals env (flagged env committed (fun _ ↦ false) index source :: rest)
        files = ((restoreOriginals env rest renamed).1,
          flagged env (fun _ ↦ false) (fun _ ↦ false) index source ::
            (restoreOriginals env rest renamed).2.1, (restoreOriginals env rest renamed).2.2) ∧
      Advances env index source files renamed .restored := by
  obtain ⟨record, hbytes, hread⟩ := hat.readDestination hbounded (.readFailed index)
  obtain ⟨renamed, hrename, hadvances⟩ := hat.renameRollback hletter
  rw [if_neg fun hfails ↦ h ⟨hcommitted, .inl hfails⟩] at hread
  rw [if_neg fun hfails ↦ h ⟨hcommitted, .inr hfails⟩] at hrename
  refine ⟨renamed, ?_, hadvances⟩
  rw [restoreOriginals]
  simp only [flagged, preparedPublication, hcommitted, Bool.not_true, Bool.false_eq_true, if_false,
    hread, hbytes, bne_self_eq_false, hrename]

end Steps

/-- The originals come back from the last publication on, until one cannot be restored; the copy of
that one is kept. -/
theorem restoreOriginals_eq (hseparate : Separate env sources) {before rest : List ChangedSource}
    (hsources : sources = before ++ rest) (h : Arranged env sources status files)
    {committed : ℕ → Bool}
    (hvisible : ∀ i, i < before.length → committed i = true → status i = .visible) :
    ∃ outcome committed' files',
      restoreOriginals env (publicationsFrom env committed (fun _ ↦ false) 0 before).reverse files =
        (outcome, (publicationsFrom env committed'
          (fun i ↦ decide (StopsAt env committed before.length i)) 0 before).reverse, files') ∧
      Arranged env sources
        (fun i ↦ if Restored env committed before.length i then .restored else status i) files' := by
  induction before using List.reverseRecOn generalizing status files rest with
  | nil =>
    refine ⟨.ok (), committed, files, rfl, h.congr fun i hi ↦ ?_⟩
    rw [if_neg]
    rintro ⟨hlt, -⟩
    simp at hlt
  | append_singleton before source ih =>
    have hsource : sources[before.length]? = some source :=
      getElem?_length_of_append (by simpa using hsources)
    have hrest : sources = before ++ source :: rest := by simpa using hsources
    have hlength : (before ++ [source]).length = before.length + 1 := by simp
    rw [hlength] at hvisible ⊢
    rw [publicationsFrom_concat, zero_add, reverse_append, reverse_singleton, singleton_append]
    simp only [publicationsFrom_concat, zero_add, reverse_append, reverse_singleton,
      singleton_append]
    -- The loop goes on below this publication.
    have hbelow {status : ℕ → Status} {files : FileSystem} (flag : Bool)
        (hgoes : ¬ Stops env committed before.length) (h : Arranged env sources status files)
        (hvisible : ∀ i, i < before.length → committed i = true → status i = .visible) :
        ∃ outcome committed' files',
          restoreOriginals env (publicationsFrom env committed (fun _ ↦ false) 0 before).reverse
              files =
            (outcome, (publicationsFrom env committed'
              (fun i ↦ decide (StopsAt env committed (before.length + 1) i)) 0 before).reverse,
              files') ∧
          flagged env (fun _ ↦ flag) (fun _ ↦ false) before.length source =
            flagged env committed'
              (fun i ↦ decide (StopsAt env committed (before.length + 1) i)) before.length source ∧
          Arranged env sources
            (fun i ↦ if Restored env committed before.length i then .restored else status i)
            files' := by
      obtain ⟨outcome, committed', files', hloop, harranged⟩ := ih hrest h hvisible
      have hnot : ¬ StopsAt env committed (before.length + 1) before.length :=
        fun hstops ↦ hgoes hstops.2.1
      refine ⟨outcome, Function.update committed' before.length flag, files', ?_, ?_, harranged⟩
      · rw [hloop]
        congr 3
        refine publicationsFrom_congr (fun i _ hlt ↦ ?_) fun i _ _ ↦ ?_
        · rw [Function.update_of_ne (by omega)]
        · rw [decide_eq_decide, stopsAt_succ hgoes]
      · simp only [flagged, Function.update_self, decide_eq_false hnot]
    by_cases hcommitted : committed before.length = true
    · have hat := h _ _ hsource
      rw [hvisible _ (by omega) hcommitted] at hat
      have hletter := hseparate.letter _ _ hsource
      have hbounded := hseparate.bounded _ _ hsource
      by_cases hstops : Stops env committed before.length
      · obtain ⟨error, hloop⟩ := restoreOriginals_stop
          (publicationsFrom env committed (fun _ ↦ false) 0 before).reverse hletter hbounded hat
          hstops
        refine ⟨.error error, committed, files, ?_, ?_⟩
        · rw [hloop]
          congr 3
          · simp only [flagged, decide_eq_true ((stopsAt_of_stops hstops _).2 rfl)]
          · congr 1
            refine publicationsFrom_congr (fun _ _ _ ↦ rfl) fun i _ hlt ↦ ?_
            rw [eq_comm, decide_eq_false_iff_not, stopsAt_of_stops hstops]
            omega
        · simpa only [if_neg (not_restored_of_stops hstops _)] using h
      · obtain ⟨renamed, hstep, hadvances⟩ := restoreOriginals_step
          (publicationsFrom env committed (fun _ ↦ false) 0 before).reverse hletter hbounded hat
          hcommitted hstops
        obtain ⟨outcome, committed', files', hloop, hflag, harranged⟩ := hbelow false hstops
          (h.update hseparate hsource hadvances) fun i hi hcommitted ↦ by
            rw [Function.update_of_ne (by omega), hvisible i (by omega) hcommitted]
        refine ⟨outcome, committed', files', ?_, harranged.congr fun i _ ↦ ?_⟩
        · rw [hstep, hloop, ← hflag]
        · simp only [restored_succ hstops]
          by_cases hi : i = before.length
          · rw [if_pos (.inl ⟨hi, hcommitted⟩), hi, Function.update_self, ite_self]
          · simp only [hi, false_and, false_or, Function.update_of_ne hi]
    · have hgoes : ¬ Stops env committed before.length := fun hstops ↦ hcommitted hstops.1
      rw [Bool.not_eq_true] at hcommitted
      obtain ⟨outcome, committed', files', hloop, hflag, harranged⟩ := hbelow
        (committed before.length) hgoes h fun i hi ↦ hvisible i (by omega)
      refine ⟨outcome, committed', files', ?_, harranged.congr fun i _ ↦ ?_⟩
      · rw [restoreOriginals_skip _ hcommitted, hloop, ← hflag]
        rfl
      · simp only [restored_succ hgoes, hcommitted, Bool.false_eq_true, and_false, false_or]

end Wrela.LocalFormat
