import Wrela.LocalFormat.CommitLaws

/-!
# All or nothing

What a run leaves is decided by the operations that fail.  A run that fails before its commit leaves
every source alone; a run that fails later keeps the original of a source either in place or in the
copy beside it, unless the copy is dropped while the formatted text is still in place.
-/

namespace Wrela.LocalFormat

open List Wrela.Source Wrela.BuildModel

variable {env : Environment} {files files' : FileSystem} {sources : List ChangedSource}
  {status : ℕ → Status} {committed preserve : ℕ → Bool}

theorem drop_rollback (publication : PreparedPublication) (h : Beside publication) :
    publication.drop env files publication.rollback =
      if publication.preserveRollback = false ∧
          env.fails (.dropRollback publication.index) = false then none
      else files publication.rollback := by
  have hstage : publication.rollback ≠ publication.stage :=
    ne_of_lastLetter h.rollback h.stage (by decide)
  have hlock : publication.rollback ≠ publication.lockPath :=
    ne_of_lastLetter h.rollback h.lockPath (by decide)
  unfold PreparedPublication.drop
  cases publication.preserveRollback with
  | true => simp [tryRemoveFile_of_ne hlock, tryRemoveFile_of_ne hstage]
  | false =>
    rw [tryRemoveFile_of_ne hlock]
    simp only [Bool.false_eq_true, if_false, true_and]
    rw [tryRemoveFile_self, tryRemoveFile_of_ne hstage]
    cases env.fails (.dropRollback publication.index) <;> rfl

theorem beside_flagged (index : ℕ) (source : ChangedSource) :
    Beside (flagged env committed preserve index source) :=
  ⟨lastLetter_stagePath _ _, lastLetter_rollbackPath _ _, lastLetter_publicationLockPath _⟩

theorem beside_publicationsFrom (index : ℕ) :
    ∀ publication ∈ publicationsFrom env committed preserve index sources, Beside publication := by
  induction sources generalizing index with
  | nil => simp [publicationsFrom]
  | cons source sources ih =>
    rw [publicationsFrom, forall_mem_cons]
    exact ⟨beside_flagged _ _, ih _⟩

/-- A copy goes away with its publication unless it is preserved or cannot be removed. -/
theorem dropAll_rollbackPath (hseparate : Separate env sources) {before rest : List ChangedSource}
    (hsources : sources = before ++ rest) {i : ℕ} {source : ChangedSource}
    (hsource : sources[i]? = some source) :
    PreparedPublication.dropAll env (publicationsFrom env committed preserve before.length rest)
        files (rollbackPath env source.path i) =
      if before.length ≤ i ∧ preserve i = false ∧ env.fails (.dropRollback i) = false then none
      else files (rollbackPath env source.path i) := by
  induction rest generalizing before files with
  | nil =>
    rw [if_neg]
    · rfl
    · rintro ⟨hle, -⟩
      have hlt := (List.getElem?_eq_some_iff.1 hsource).1
      rw [hsources, append_nil] at hlt
      omega
  | cons first rest ih =>
    have hfirst := getElem?_length_of_append hsources
    have hlength : (before ++ [first]).length = before.length + 1 := by simp
    have hrest := @ih ((flagged env committed preserve before.length first).drop env files)
      (before ++ [first]) (by simpa using hsources)
    rw [hlength] at hrest
    refine hrest.trans ?_
    by_cases hi : i = before.length
    · subst hi
      obtain rfl := Option.some.inj (hfirst.symm.trans hsource)
      have hdrop := @drop_rollback env files (flagged env committed preserve before.length first)
        (beside_flagged _ _)
      rw [if_neg (by omega)]
      by_cases hgone : preserve before.length = false ∧
          env.fails (.dropRollback before.length) = false
      · rw [if_pos ⟨le_rfl, hgone⟩]
        exact hdrop.trans (if_pos hgone)
      · rw [if_neg fun h ↦ hgone h.2]
        exact hdrop.trans (if_neg hgone)
    · have hother := hseparate.distinct i source before.length first hsource hfirst hi
      rw [drop_of_ne (stagePath_ne_rollbackPath _ _ _ _).symm hother.2.1
        (rollbackPath_ne_publicationLockPath _ _ _)]
      have hle : before.length + 1 ≤ i ↔ before.length ≤ i := by omega
      simp only [hle]

open scoped Classical

/-- An operation of one kind fails for one of the first publications. -/
def Fails (env : Environment) (operation : ℕ → Operation) (count : ℕ) : Prop :=
  ∃ i, i < count ∧ env.fails (operation i) = true

theorem not_fails_iff {operation : ℕ → Operation} {count : ℕ} :
    ¬ Fails env operation count ↔ ∀ i, 0 ≤ i → i < 0 + count → env.fails (operation i) = false := by
  simp [Fails]

/-- The commit rolls its renames back. -/
def RollsBack (env : Environment) (count : ℕ) : Prop :=
  Fails env .renameStage count ∨ Fails env .syncPublished count

/-- The stage of a publication was renamed over its source. -/
noncomputable def becomesVisible (env : Environment) (index : ℕ) : Bool :=
  decide (Clear env .renameStage 0 index)

/-- The ways a commit ends, with the states of the publications and the copies it preserves. -/
inductive CommitOutcome (env : Environment) (count : ℕ) :
    Except DriverError Unit → (ℕ → Status) → (ℕ → Bool) → Prop where
  | rolledBack (h : RollsBack env count) (error : DriverError) :
    CommitOutcome env count (.error error)
      (fun i ↦ if Restored env (becomesVisible env) count i then .restored
        else if Clear env .renameStage 0 i then .visible else .staged)
      (fun i ↦ decide (StopsAt env (becomesVisible env) count i))
  | unreadable (h : ¬ RollsBack env count) (hread : Fails env .readPublished count)
      (error : DriverError) :
    CommitOutcome env count (.error error) (fun _ ↦ .visible) (fun _ ↦ false)
  | uncleaned (h : ¬ RollsBack env count) (hread : ¬ Fails env .readPublished count)
      (hremove : Fails env .removeRollback count) (error : DriverError) :
    CommitOutcome env count (.error error)
      (fun i ↦ if Clear env .removeRollback 0 i then .removed else .visible) (fun _ ↦ false)
  | unsynced (h : ¬ RollsBack env count) (hread : ¬ Fails env .readPublished count)
      (hremove : ¬ Fails env .removeRollback count) (hsync : Fails env .syncCommitted count)
      (error : DriverError) :
    CommitOutcome env count (.error error) (fun _ ↦ .removed) (fun _ ↦ false)
  | published (h : ¬ RollsBack env count) (hread : ¬ Fails env .readPublished count)
      (hremove : ¬ Fails env .removeRollback count) (hsync : ¬ Fails env .syncCommitted count) :
    CommitOutcome env count (.ok ()) (fun _ ↦ .removed) (fun _ ↦ false)

theorem failAfterRollback_eq (hseparate : Separate env sources)
    (h : Arranged env sources
      (fun i ↦ if Clear env .renameStage 0 i then .visible else .staged) files)
    (hcommitted : ∀ i, i < sources.length → committed i = becomesVisible env i)
    (failure : DriverError) :
    ∃ error committed' files',
      failAfterRollback env failure
          (publicationsFrom env committed (fun _ ↦ false) 0 sources) files =
        (.error error, publicationsFrom env committed'
          (fun i ↦ decide (StopsAt env (becomesVisible env) sources.length i)) 0 sources, files') ∧
      Arranged env sources
        (fun i ↦ if Restored env (becomesVisible env) sources.length i then .restored
          else if Clear env .renameStage 0 i then .visible else .staged) files' := by
  have hflags : publicationsFrom env committed (fun _ ↦ false) 0 sources =
      publicationsFrom env (becomesVisible env) (fun _ ↦ false) 0 sources :=
    publicationsFrom_congr (fun i _ hlt ↦ hcommitted i (by omega)) fun _ _ _ ↦ rfl
  obtain ⟨outcome, committed', files', hloop, harranged⟩ := @restoreOriginals_eq env files sources _
    hseparate sources [] (by simp) h (becomesVisible env) fun i _ hi ↦ if_pos (of_decide_eq_true hi)
  rw [hflags]
  unfold failAfterRollback rollbackPublications
  simp only [hloop, reverse_reverse]
  cases outcome with
  | error error => exact ⟨error, committed', files', rfl, harranged⟩
  | ok =>
    simp only
    cases syncDirectories env .syncRestored (publicationsFrom env committed'
        (fun i ↦ decide (StopsAt env (becomesVisible env) sources.length i)) 0 sources) with
    | error error => exact ⟨error, committed', files', rfl, harranged⟩
    | ok => exact ⟨failure, committed', files', rfl, harranged⟩

theorem commitPublications_eq (hseparate : Separate env sources)
    (h : Arranged env sources (fun _ ↦ .staged) files) :
    ∃ outcome status committed preserve files',
      commitPublications env
          (publicationsFrom env (fun _ ↦ false) (fun _ ↦ false) 0 sources) files =
        (outcome, publicationsFrom env committed preserve 0 sources, files') ∧
      Arranged env sources status files' ∧
      CommitOutcome env sources.length outcome status preserve := by
  obtain ⟨renamed, visible, hrename, harranged, hok⟩ := @renameStages_eq env files sources _
    hseparate [] sources rfl h (fun _ _ ↦ rfl) fun _ ↦ false
  rw [length_nil, ← not_fails_iff] at hok
  rw [length_nil] at hrename harranged
  unfold commitPublications
  rw [hrename]
  cases renamed with
  | error failure =>
    obtain ⟨error, committed, files', hback, hrestored⟩ := failAfterRollback_eq hseparate harranged
      (fun _ _ ↦ rfl) failure
    have hfails : Fails env .renameStage sources.length := by
      by_contra hnone
      cases hok.2 hnone
    exact ⟨_, _, _, _, _, hback, hrestored, .rolledBack (.inl hfails) error⟩
  | ok =>
    have hrenamed : ¬ Fails env .renameStage sources.length := hok.1 rfl
    have hclear (i : ℕ) (hi : i < sources.length) : Clear env .renameStage 0 i :=
      ⟨by omega, fun j _ hj ↦ not_fails_iff.1 hrenamed j (by omega) (by omega)⟩
    have hvisible : Arranged env sources (fun _ ↦ .visible) visible :=
      harranged.congr fun i hi ↦ (if_pos (hclear i hi)).symm
    have hsynced := @syncDirectories_eq_ok env sources .syncPublished
      (fun i ↦ decide (Clear env .renameStage 0 i)) (fun _ ↦ false) 0
    rw [← not_fails_iff] at hsynced
    simp only
    cases hsync : syncDirectories env .syncPublished (publicationsFrom env
        (fun i ↦ decide (Clear env .renameStage 0 i)) (fun _ ↦ false) 0 sources) with
    | error failure =>
      obtain ⟨error, committed, files', hback, hrestored⟩ := failAfterRollback_eq hseparate
        harranged (fun _ _ ↦ rfl) failure
      have hfails : Fails env .syncPublished sources.length := by
        by_contra hnone
        cases hsync.symm.trans (hsynced.2 hnone)
      exact ⟨_, _, _, _, _, hback, hrestored, .rolledBack (.inr hfails) error⟩
    | ok =>
      have hnot : ¬ RollsBack env sources.length := not_or.2 ⟨hrenamed, hsynced.1 hsync⟩
      simp only
      rcases @verifyPublished_eq env visible sources _ hseparate [] sources rfl hvisible
        (fun _ _ ↦ rfl) (fun i ↦ decide (Clear env .renameStage 0 i)) (fun _ ↦ false) with
        ⟨hverify, hread⟩ | ⟨error, hverify, i, -, hlt, hi⟩
      · rw [length_nil] at hverify hread
        rw [hverify]
        have hread : ¬ Fails env .readPublished sources.length := not_fails_iff.2 hread
        obtain ⟨removed, committed, files', hremove, hcleaned, hall⟩ := @removeRollbacks_eq env
          visible sources _ hseparate [] sources rfl hvisible (fun _ _ ↦ rfl)
          (fun i ↦ decide (Clear env .renameStage 0 i)) fun _ ↦ false
        rw [length_nil, ← not_fails_iff] at hall
        rw [length_nil] at hremove hcleaned
        rw [hremove]
        cases removed with
        | error error =>
          have hfails : Fails env .removeRollback sources.length := by
            by_contra hnone
            cases hall.2 hnone
          exact ⟨_, _, _, _, _, rfl, hcleaned, .uncleaned hnot hread hfails error⟩
        | ok =>
          have hremoved : ¬ Fails env .removeRollback sources.length := hall.1 rfl
          have hgone : Arranged env sources (fun _ ↦ .removed) files' :=
            hcleaned.congr fun i hi ↦ (if_pos ⟨by omega, fun j _ hj ↦
              not_fails_iff.1 hremoved j (by omega) (by omega)⟩).symm
          have hfinal := @syncDirectories_eq_ok env sources .syncCommitted committed
            (fun _ ↦ false) 0
          rw [← not_fails_iff] at hfinal
          refine ⟨_, _, _, _, _, rfl, hgone, ?_⟩
          cases hlast : syncDirectories env .syncCommitted
              (publicationsFrom env committed (fun _ ↦ false) 0 sources) with
          | error error =>
            refine .unsynced hnot hread hremoved ?_ error
            by_contra hnone
            cases hlast.symm.trans (hfinal.2 hnone)
          | ok => exact .published hnot hread hremoved (hfinal.1 hlast)
      · rw [length_nil] at hverify hlt
        rw [hverify]
        exact ⟨_, _, _, _, _, rfl, hvisible, .unreadable hnot ⟨i, by omega, hi⟩ error⟩

/-- Nothing that comes before the commit fails. -/
structure ReachesCommit (env : Environment) (files : FileSystem) (sources : List ChangedSource) :
    Prop where
  prepares : PreparesFrom env files 0 sources
  again : ¬ Fails env .readAgain sources.length
  poll : env.fails .pollCommit = false

/-- A rollback that reaches a publication fails at it. -/
def RestoreFails (env : Environment) (index : ℕ) : Prop :=
  (∀ i, i ≤ index → env.fails (.renameStage i) = false) ∧
    (env.fails (.readFailed index) = true ∨ env.fails (.renameRollback index) = true)

/-- The failures that take both the original of a source and its copy away. -/
inductive Lost (env : Environment) (count index : ℕ) : Prop where
  /-- The rollback stopped at a later publication and the copy was dropped. -/
  | rolledBack (h : RollsBack env count) {later : ℕ} (hlater : index < later)
    (hcount : later < count) (hfails : RestoreFails env later)
    (hdrop : env.fails (.dropRollback index) = false)
  /-- A published source could not be read back and the copy was dropped. -/
  | unreadable (h : ¬ RollsBack env count) (hread : Fails env .readPublished count)
    (hdrop : env.fails (.dropRollback index) = false)
  /-- A copy could not be removed; this one was, or it was dropped. -/
  | uncleaned (h : ¬ RollsBack env count) (hread : ¬ Fails env .readPublished count)
    (hremove : Fails env .removeRollback count)
    (hdrop : (∀ i, i ≤ index → env.fails (.removeRollback i) = false) ∨
      env.fails (.dropRollback index) = false)
  /-- The last sync failed, when all copies were gone. -/
  | unsynced (h : ¬ RollsBack env count) (hread : ¬ Fails env .readPublished count)
    (hremove : ¬ Fails env .removeRollback count) (hsync : Fails env .syncCommitted count)

/-- A run that fails keeps every original, in place or in its copy; a run that succeeds has
published every source. -/
def AllOrNothing (env : Environment) (sources : List ChangedSource) (files : FileSystem) : Prop :=
  ∀ (index : ℕ) (source : ChangedSource), sources[index]? = some source →
    match publishChangedSources env sources files with
    | (.error _, left) => contents left source.path = some source.original ∨
        contents left (rollbackPath env source.path index) = some source.original
    | (.ok (), left) => contents left source.path = some source.formatted

section

variable (hunchanged : Unchanged files sources)
include hunchanged

theorem PreparesFrom.separate (h : PreparesFrom env files 0 sources) : Separate env sources := by
  refine ⟨fun i source hsource ↦ hunchanged.letter source (mem_of_getElem? hsource),
    fun i source hsource ↦ (h.each i source hsource).bounded,
    fun i source j source' hsource hsource' hne ↦ ?_⟩
  rcases Nat.lt_or_gt_of_ne hne with hlt | hlt
  · have hapart := h.apart i source j source' hsource hsource' hlt
    simp only [zero_add] at hapart
    exact hapart
  · have hapart := h.apart j source' i source hsource' hsource hlt
    simp only [zero_add] at hapart
    exact ⟨hapart.1.symm, hapart.2.1.symm, hapart.2.2.symm⟩

theorem PreparedFrom.arranged (h : PreparedFrom env files files' 0 sources) :
    Arranged env sources (fun _ ↦ .staged) files' := by
  intro i source hsource
  have horiginal := hunchanged.original source (mem_of_getElem? hsource)
  have hstage := h.stage i source hsource
  have hrollback := h.rollback i source hsource
  rw [zero_add] at hstage hrollback
  exact ⟨(contents_congr (h.kept _ (isSome_of_contents horiginal))).trans horiginal, hrollback,
    fun _ ↦ hstage⟩

/-- The second look at the sources succeeds exactly if every file can be read again. -/
theorem revalidatePublications_prepared (h : PreparesFrom env files 0 sources)
    (hprepared : PreparedFrom env files files' 0 sources) : revalidatePublications env files'
        (publicationsFrom env (fun _ ↦ false) (fun _ ↦ false) 0 sources) = .ok () ↔
      ¬ Fails env .readAgain sources.length := by
  rw [not_fails_iff]
  have hkept (source : ChangedSource) (hsource : source ∈ sources) :
      files' source.path = files source.path :=
    hprepared.kept _ (isSome_of_contents (hunchanged.original source hsource))
  refine revalidatePublications_eq_ok ⟨hunchanged.letter, fun source hsource ↦ ?_⟩
    fun i source hsource ↦ ?_
  · rw [contents_congr (hkept source hsource), hunchanged.original source hsource]
  · have hone := h.each i source hsource
    refine ⟨hone.original_bounded, hone.digest, ?_⟩
    rw [hkept source (mem_of_getElem? hsource)]
    exact hone.metadata

/-- A run that fails before its commit leaves the sources alone. -/
theorem publishChangedSources_of_not_reaches (h : ¬ ReachesCommit env files sources) :
    ∃ error left, publishChangedSources env sources files = (.error error, left) ∧
      ∀ path, lastLetter path = some 'r' → left path = files path := by
  have hsource {path : Path} (hpath : lastLetter path = some 'r') :=
    @preparePublications_source env files 0 sources path hpath
  have hdropped {path : Path} (hpath : lastLetter path = some 'r') :
      PreparedPublication.dropAll env (preparePublications env 0 sources files).2.1
        (preparePublications env 0 sources files).2.2 path = files path :=
    (dropAll_source (hsource hpath).2 hpath).trans (hsource hpath).1
  unfold publishChangedSources
  rcases hprepare : preparePublications env 0 sources files with ⟨outcome, publications, prepared⟩
  rw [hprepare] at hdropped
  cases outcome with
  | error error => exact ⟨error, _, rfl, fun path ↦ hdropped⟩
  | ok =>
    obtain ⟨hprepares, rfl, hfrom⟩ := preparePublications_eq_ok hunchanged hprepare
    have hagain := revalidatePublications_prepared hunchanged hprepares hfrom
    simp only
    cases hrevalidate : revalidatePublications env prepared
        (publicationsFrom env (fun _ ↦ false) (fun _ ↦ false) 0 sources) with
    | error error => exact ⟨error, _, rfl, fun path ↦ hdropped⟩
    | ok =>
      cases hpoll : env.fails .pollCommit with
      | true => exact ⟨.cancelled, _, rfl, fun path ↦ hdropped⟩
      | false => exact absurd ⟨hprepares, hagain.1 hrevalidate, hpoll⟩ h

theorem publishChangedSources_of_reaches (h : ReachesCommit env files sources) :
    ∃ outcome status committed preserve left,
      publishChangedSources env sources files = (outcome, PreparedPublication.dropAll env
        (publicationsFrom env committed preserve 0 sources) left) ∧
      Arranged env sources status left ∧
      CommitOutcome env sources.length outcome status preserve := by
  obtain ⟨publications, prepared, hprepare⟩ := preparePublications_of_prepares hunchanged h.prepares
  obtain ⟨-, rfl, hfrom⟩ := preparePublications_eq_ok hunchanged hprepare
  have hrevalidate := (revalidatePublications_prepared hunchanged h.prepares hfrom).2 h.again
  obtain ⟨outcome, status, committed, preserve, left, hcommit, harranged, hcases⟩ :=
    commitPublications_eq (h.prepares.separate hunchanged) (hfrom.arranged hunchanged)
  refine ⟨outcome, status, committed, preserve, left, ?_, harranged, hcases⟩
  unfold publishChangedSources
  simp only [hprepare, hrevalidate, h.poll, Bool.false_eq_true, if_false, hcommit]

end

/-- The original of a source is in place, or its copy outlives the publication. -/
def KeptAt (env : Environment) (preserve : ℕ → Bool) (index : ℕ) : Status → Prop
  | .staged | .restored => True
  | .visible => preserve index = true ∨ env.fails (.dropRollback index) = true
  | .removed => False

theorem clear_zero_iff :
    Clear env operation 0 index ↔ ∀ i, i ≤ index → env.fails (operation i) = false :=
  ⟨fun h i hi ↦ h.2 i (by omega) hi, fun h ↦ ⟨by omega, fun i _ hi ↦ h i hi⟩⟩

theorem stops_iff_restoreFails : Stops env (becomesVisible env) index ↔ RestoreFails env index := by
  rw [Stops, RestoreFails, becomesVisible, decide_eq_true_iff, clear_zero_iff]

/-- The original is lost exactly in the listed cases. -/
theorem CommitOutcome.keptAt_iff {count : ℕ} {error : DriverError}
    (h : CommitOutcome env count (.error error) status preserve) {index : ℕ}
    (hindex : index < count) :
    KeptAt env preserve index (status index) ↔ ¬ Lost env count index := by
  cases h with
  | rolledBack h =>
    have hlost : Lost env count index ↔
        (∃ later, index < later ∧ later < count ∧ RestoreFails env later) ∧
          env.fails (.dropRollback index) = false := by
      constructor
      · rintro (⟨-, hlater, hcount, hfails, hdrop⟩ | ⟨hnot, -, -⟩ | ⟨hnot, -, -, -⟩ |
          ⟨hnot, -, -, -⟩)
        · exact ⟨⟨_, hlater, hcount, hfails⟩, hdrop⟩
        · exact absurd h hnot
        · exact absurd h hnot
        · exact absurd h hnot
      · rintro ⟨⟨later, hlater, hcount, hfails⟩, hdrop⟩
        exact .rolledBack h hlater hcount hfails hdrop
    rw [hlost]
    beta_reduce
    by_cases hrestored : Restored env (becomesVisible env) count index
    · rw [if_pos hrestored]
      refine iff_of_true trivial ?_
      rintro ⟨⟨later, hlater, hcount, hfails⟩, -⟩
      exact hrestored.2.2 later hlater.le hcount (stops_iff_restoreFails.2 hfails)
    · rw [if_neg hrestored]
      by_cases hclear : Clear env .renameStage 0 index
      · rw [if_pos hclear]
        obtain ⟨stop, hle, hcount, hstop⟩ : ∃ stop, index ≤ stop ∧ stop < count ∧
            Stops env (becomesVisible env) stop := by
          by_contra hnone
          exact hrestored ⟨hindex, decide_eq_true hclear, fun j hle hlt hstops ↦
            hnone ⟨j, hle, hlt, hstops⟩⟩
        have hpreserve : StopsAt env (becomesVisible env) count index ↔
            ¬ ∃ later, index < later ∧ later < count ∧ RestoreFails env later := by
          constructor
          · rintro ⟨-, -, hall⟩ ⟨later, hlater, hlt, hfails⟩
            exact hall later hlater hlt (stops_iff_restoreFails.2 hfails)
          · intro hnone
            have hsame : stop = index := by
              by_contra hne
              exact hnone ⟨stop, by omega, hcount, stops_iff_restoreFails.1 hstop⟩
            exact ⟨hindex, hsame ▸ hstop, fun j hlt hj hstops ↦
              hnone ⟨j, hlt, hj, stops_iff_restoreFails.1 hstops⟩⟩
        rw [KeptAt, decide_eq_true_iff, hpreserve, not_and_or, Bool.not_eq_false]
      · rw [if_neg hclear]
        refine iff_of_true trivial ?_
        rintro ⟨⟨later, hlater, -, hfails⟩, -⟩
        exact hclear (clear_zero_iff.2 fun i hi ↦ hfails.1 i (by omega))
  | unreadable h hread =>
    rw [KeptAt, or_iff_right Bool.false_ne_true, ← Bool.not_eq_false, not_iff_not]
    exact ⟨fun hdrop ↦ .unreadable h hread hdrop, fun hlost ↦ by
      rcases hlost with ⟨hback, -, -, -, -⟩ | ⟨-, -, hdrop⟩ | ⟨-, hnot, -, -⟩ | ⟨-, hnot, -, -⟩
      · exact absurd hback h
      · exact hdrop
      · exact absurd hread hnot
      · exact absurd hread hnot⟩
  | uncleaned h hread hremove =>
    have hlost : Lost env count index ↔ Clear env .removeRollback 0 index ∨
        env.fails (.dropRollback index) = false := by
      rw [clear_zero_iff]
      constructor
      · rintro (⟨hback, -, -, -, -⟩ | ⟨-, hnot, -⟩ | ⟨-, -, -, hdrop⟩ | ⟨-, -, hnot, -⟩)
        · exact absurd hback h
        · exact absurd hnot hread
        · exact hdrop
        · exact absurd hremove hnot
      · exact fun hdrop ↦ .uncleaned h hread hremove hdrop
    rw [hlost]
    beta_reduce
    by_cases hclear : Clear env .removeRollback 0 index
    · rw [if_pos hclear]
      exact iff_of_false id fun hnot ↦ hnot (.inl hclear)
    · rw [if_neg hclear, KeptAt, or_iff_right Bool.false_ne_true, or_iff_right hclear,
        Bool.not_eq_false]
  | unsynced h hread hremove hsync =>
    exact iff_of_false id fun hnot ↦ hnot (.unsynced h hread hremove hsync)

theorem CommitOutcome.not_lost {count : ℕ}
    (h : CommitOutcome env count (.ok ()) status preserve) (index : ℕ) :
    ¬ Lost env count index := by
  cases h with
  | published h hread hremove hsync =>
    rintro (⟨hback, -, -, -, -⟩ | ⟨-, hfails, -⟩ | ⟨-, -, hfails, -⟩ | ⟨-, -, -, hfails⟩)
    · exact h hback
    · exact hread hfails
    · exact hremove hfails
    · exact hsync hfails

/-- What is kept of a source is decided by the state of its publication and the copy's fate. -/
theorem keptAt_iff
    (hdestination : contents left source.path = some ((status index).destination source))
    (hcopy : contents left (rollbackPath env source.path index) =
      if preserve index = false ∧ env.fails (.dropRollback index) = false then none
      else (status index).copy source) :
    KeptAt env preserve index (status index) ↔
      contents left source.path = some source.original ∨
        contents left (rollbackPath env source.path index) = some source.original := by
  rw [hdestination, hcopy]
  have hchanged : some source.formatted ≠ some source.original :=
    fun h ↦ source.changed (Option.some.inj h)
  cases status index with
  | staged => exact iff_of_true trivial (.inl rfl)
  | restored => exact iff_of_true trivial (.inl rfl)
  | visible =>
    simp only [KeptAt, Status.destination, Status.copy, hchanged, false_or]
    split_ifs with hgone
    · simp [hgone.1, hgone.2]
    · rw [not_and_or, Bool.not_eq_false, Bool.not_eq_false] at hgone
      exact iff_of_true hgone rfl
  | removed =>
    simp only [KeptAt, Status.destination, Status.copy, hchanged, false_or]
    split_ifs <;> simp

/-- A run is all or nothing exactly if no original is lost once the commit is reached. -/
theorem publishChangedSources_allOrNothing_iff (hunchanged : Unchanged files sources) :
    AllOrNothing env sources files ↔
      (ReachesCommit env files sources →
        ∀ index, index < sources.length → ¬ Lost env sources.length index) := by
  by_cases hreaches : ReachesCommit env files sources
  · obtain ⟨outcome, status, committed, preserve, left, hrun, harranged, hcases⟩ :=
      publishChangedSources_of_reaches hunchanged hreaches
    have hseparate := hreaches.prepares.separate hunchanged
    have hdestination {index : ℕ} {source : ChangedSource} (hsource : sources[index]? = some source) :
        contents (PreparedPublication.dropAll env
          (publicationsFrom env committed preserve 0 sources) left) source.path =
          some ((status index).destination source) := by
      rw [contents_congr (dropAll_source (beside_publicationsFrom 0)
        (hseparate.letter index source hsource)), (harranged index source hsource).destination]
    have hcopy {index : ℕ} {source : ChangedSource} (hsource : sources[index]? = some source) :
        contents (PreparedPublication.dropAll env
          (publicationsFrom env committed preserve 0 sources) left)
            (rollbackPath env source.path index) =
          if preserve index = false ∧ env.fails (.dropRollback index) = false then none
          else (status index).copy source := by
      have hdropped := @dropAll_rollbackPath env left sources committed preserve hseparate []
        sources rfl index source hsource
      rw [length_nil] at hdropped
      rw [contents, hdropped]
      split_ifs with hgone hgone' hgone'
      · rfl
      · exact absurd hgone.2 hgone'
      · exact absurd ⟨Nat.zero_le _, hgone'⟩ hgone
      · exact (harranged index source hsource).rollback
    rw [AllOrNothing, hrun]
    cases outcome with
    | error error =>
      constructor
      · intro hall _ index hindex
        have hsource : sources[index]? = some sources[index] := List.getElem?_eq_getElem hindex
        exact (hcases.keptAt_iff hindex).1 ((keptAt_iff (hdestination hsource) (hcopy hsource)).2
          (hall index _ hsource))
      · intro hnone index source hsource
        have hindex := (List.getElem?_eq_some_iff.1 hsource).1
        exact (keptAt_iff (hdestination hsource) (hcopy hsource)).1
          ((hcases.keptAt_iff hindex).2 (hnone hreaches index hindex))
    | ok =>
      refine iff_of_true (fun index source hsource ↦ ?_) fun _ index _ ↦ hcases.not_lost index
      have hplace := hdestination hsource
      cases hcases
      exact hplace
  · obtain ⟨error, left, hrun, hkept⟩ := publishChangedSources_of_not_reaches hunchanged hreaches
    refine iff_of_true (fun index source hsource ↦ ?_) fun h ↦ absurd h hreaches
    rw [hrun]
    have hmember := mem_of_getElem? hsource
    left
    rw [contents_congr (hkept _ (hunchanged.letter source hmember)),
      hunchanged.original source hmember]

/-- Whatever fails, a source file is left with its original or its formatted text as a whole. -/
theorem publishChangedSources_whole (hunchanged : Unchanged files sources)
    (hsource : source ∈ sources) :
    contents (publishChangedSources env sources files).2 source.path = some source.original ∨
      contents (publishChangedSources env sources files).2 source.path = some source.formatted := by
  obtain ⟨index, hindex⟩ := List.mem_iff_getElem?.1 hsource
  by_cases hreaches : ReachesCommit env files sources
  · obtain ⟨outcome, status, committed, preserve, left, hrun, harranged, -⟩ :=
      publishChangedSources_of_reaches hunchanged hreaches
    have hletter := (hreaches.prepares.separate hunchanged).letter index source hindex
    rw [hrun, contents_congr (dropAll_source (beside_publicationsFrom 0) hletter),
      (harranged index source hindex).destination]
    cases status index with
    | staged | restored => exact .inl rfl
    | visible | removed => exact .inr rfl
  · obtain ⟨error, left, hrun, hkept⟩ := publishChangedSources_of_not_reaches hunchanged hreaches
    rw [hrun, contents_congr (hkept _ (hunchanged.letter source hsource))]
    exact .inl (hunchanged.original source hsource)

/-- A digest that tells short texts apart. -/
def paddedDigest (bytes : List UInt8) : Sha256Digest :=
  ⟨(bytes ++ List.replicate 32 0).take 32, by simp⟩

def mainMetadata : MetadataSnapshot where
  device := 1
  inode := 7
  length := 14
  mode := 0o644
  modifiedSeconds := 0
  modifiedNanoseconds := 0
  changedSeconds := 0
  changedNanoseconds := 0

/-- The source `module   main` with two spaces too many. -/
def mainSource : ChangedSource where
  path := ⟨"/project/src", "main.wr"⟩
  digest := paddedDigest (Wire.utf8Bytes "module   main\n")
  metadata := mainMetadata
  original := Wire.utf8Bytes "module   main\n"
  formatted := Wire.utf8Bytes "module main\n"
  changed := by decide

def mainFiles : FileSystem :=
  Function.update (fun _ ↦ none) mainSource.path (some ⟨mainSource.original, mainMetadata⟩)

def failing (operations : List Operation) : Environment where
  processId := 4242
  sequence := 1
  maximumBytes := 1024
  sha256 := paddedDigest
  metadata := fun _ ↦ mainMetadata
  fails := fun operation ↦ operations.contains operation
  written := fun _ ↦ 0

theorem unchanged_mainFiles : Unchanged mainFiles [mainSource] := by
  constructor
  · simp only [forall_mem_singleton]
    decide
  · simp only [forall_mem_singleton]
    decide

theorem publishChangedSources_whole_readPublished :
    contents (publishChangedSources (failing [.readPublished 0]) [mainSource] mainFiles).2
        mainSource.path = some mainSource.original ∨
      contents (publishChangedSources (failing [.readPublished 0]) [mainSource] mainFiles).2
        mainSource.path = some mainSource.formatted :=
  publishChangedSources_whole unchanged_mainFiles mem_cons_self

/-- A published source that cannot be read back: the run fails, the formatted text stays in place
and the copy of the original is dropped. -/
theorem not_allOrNothing_readPublished :
    Unchanged mainFiles [mainSource] ∧
      ¬ AllOrNothing (failing [.readPublished 0]) [mainSource] mainFiles := by
  refine ⟨unchanged_mainFiles, fun h ↦ ?_⟩
  have hresult : (publishChangedSources (failing [.readPublished 0]) [mainSource] mainFiles).1 =
      .error (.publication "/project/src/main.wr" ""
        (some (.failed (.readPublished 0)))) := by decide
  have hplace : contents (publishChangedSources (failing [.readPublished 0]) [mainSource]
      mainFiles).2 mainSource.path = some mainSource.formatted := by decide
  have hcopy : contents (publishChangedSources (failing [.readPublished 0]) [mainSource]
      mainFiles).2 (rollbackPath (failing [.readPublished 0]) mainSource.path 0) = none := by
    decide
  have hsource := h 0 mainSource rfl
  rcases hrun : publishChangedSources (failing [.readPublished 0]) [mainSource] mainFiles with
    ⟨outcome, left⟩
  rw [hrun] at hresult hplace hcopy hsource
  subst hresult
  rcases hsource with horiginal | horiginal
  · exact mainSource.changed (Option.some.inj (hplace.symm.trans horiginal))
  · cases hcopy.symm.trans horiginal

/-- A rename that fails is rolled back. -/
theorem allOrNothing_renameStage :
    AllOrNothing (failing [.renameStage 0]) [mainSource] mainFiles := by
  have hfails : (failing [.renameStage 0]).fails (.renameStage 0) = true := by decide
  have hback : RollsBack (failing [.renameStage 0]) [mainSource].length :=
    .inl ⟨0, by rw [length_singleton]; omega, hfails⟩
  have hnone (index : ℕ) : ¬ Lost (failing [.renameStage 0]) [mainSource].length index := by
    rintro (⟨-, hlater, hcount, -, -⟩ | ⟨hnot, -, -⟩ | ⟨hnot, -, -, -⟩ | ⟨hnot, -, -, -⟩)
    · rw [length_singleton] at hcount
      omega
    · exact hnot hback
    · exact hnot hback
    · exact hnot hback
  have hiff := @publishChangedSources_allOrNothing_iff (failing [.renameStage 0]) mainFiles
    [mainSource] unchanged_mainFiles
  exact hiff.2 fun _ index _ ↦ hnone index

end Wrela.LocalFormat
