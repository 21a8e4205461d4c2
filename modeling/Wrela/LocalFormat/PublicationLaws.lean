import Wrela.LocalFormat.Publication

/-!
# What a publication leaves behind

Preparation only creates files of its own beside the sources, so a run that ends before the commit
leaves every source alone.  From there the commit moves each publication through a few states, one
publication at a time, and the states at the end of a run are computed from the operations that
fail.
-/

namespace Wrela.LocalFormat

open List Wrela.Source Wrela.BuildModel

variable {env : Environment} {files files' : FileSystem}

theorem contents_congr (h : files' path = files path) :
    contents files' path = contents files path := by
  rw [contents, contents, h]

theorem createNew_eq_ok :
    env.createNew operation path files = .ok files' ↔
      env.fails operation = false ∧ files path = none ∧
        files' = Function.update files path (some ⟨[], env.metadata path⟩) := by
  unfold Environment.createNew
  split_ifs with hfails hexists
  · simp [hfails]
  · simp [Option.isSome_iff_ne_none.1 hexists]
  · simp only [Except.ok.injEq, hfails, Option.not_isSome_iff_eq_none.1 hexists, true_and]
    exact eq_comm

theorem rename_eq (h : files source = some record) :
    env.rename operation source target files =
      if env.fails operation then .error (.failed operation)
      else .ok (Function.update (Function.update files source none) target (some record)) := by
  rw [Environment.rename, h]

theorem removeFile_eq (h : files path = some record) :
    env.removeFile operation path files =
      if env.fails operation then .error (.failed operation)
      else .ok (Function.update files path none) := by
  rw [Environment.removeFile, h]
  rfl

theorem readStableFile_eq (h : files path = some record)
    (hlength : record.bytes.length ≤ env.maximumBytes) :
    env.readStableFile operation path files =
      if env.fails operation then .error (.failed operation) else .ok record := by
  rw [Environment.readStableFile, h]
  simp only [gt_iff_lt, if_neg (not_lt.2 hlength)]

theorem tryRemoveFile_of_ne (h : other ≠ path) :
    env.tryRemoveFile operation path files other = files other := by
  unfold Environment.tryRemoveFile Environment.removeFile
  split_ifs
  · rfl
  · rfl
  · exact Function.update_of_ne h _ _

theorem tryRemoveFile_self (operation : Operation) (path : Path) :
    env.tryRemoveFile operation path files path =
      if env.fails operation then files path else none := by
  unfold Environment.tryRemoveFile Environment.removeFile
  split_ifs with hfails hnone
  · rfl
  · simpa using hnone
  · exact Function.update_self _ _ _

theorem writeTemporaryFile_of_ne (h : other ≠ path) :
    (env.writeTemporaryFile kind index path bytes files).2 other = files other := by
  unfold Environment.writeTemporaryFile
  split
  · rfl
  · rename_i created hcreated
    obtain ⟨-, -, rfl⟩ := createNew_eq_ok.1 hcreated
    split_ifs
    · simp [tryRemoveFile_of_ne h, h]
    · simp [h]
    · simp [h]
    · simp [h]

theorem writeTemporaryFile_eq_ok {kind : Temporary} {index : ℕ} {path : Path}
    {bytes : List UInt8} :
    env.writeTemporaryFile kind index path bytes files = (.ok (), files') ↔
      (∀ operation ∈ [.createTemporary kind index, .writeTemporary kind index,
        .setPermissions kind index, .syncTemporary kind index], env.fails operation = false) ∧
      files path = none ∧
      files' = Function.update files path (some ⟨bytes, env.metadata path⟩) := by
  simp only [forall_mem_cons, not_mem_nil, false_implies, implies_true, and_true]
  unfold Environment.writeTemporaryFile
  split
  · rename_i error hcreated
    refine iff_of_false (by simp) ?_
    rintro ⟨⟨hcreate, -⟩, hnew, -⟩
    have hok := createNew_eq_ok.2 ⟨hcreate, hnew, rfl⟩
    rw [hcreated] at hok
    cases hok
  · rename_i created hcreated
    obtain ⟨hcreate, hnew, rfl⟩ := createNew_eq_ok.1 hcreated
    simp only [Function.update_idem]
    split_ifs with hwrite hpermissions hsync
    · simp [hwrite]
    · simp [hpermissions]
    · simp [hsync]
    · rw [Bool.not_eq_true] at hwrite hpermissions hsync
      simp only [Prod.mk.injEq, true_and, hcreate, hwrite, hpermissions, hsync, hnew]
      exact eq_comm

theorem revalidatePublication_eq_ok {operation : Operation} {publication : PreparedPublication}
    {record : FileRecord} (h : files publication.destination = some record) :
    revalidatePublication env operation publication files = .ok () ↔
      env.fails operation = false ∧ record.bytes.length ≤ env.maximumBytes ∧
        env.sha256 record.bytes = publication.expectedDigest ∧
        record.metadata = publication.expectedMetadata := by
  unfold revalidatePublication
  by_cases hlength : record.bytes.length ≤ env.maximumBytes
  · rw [readStableFile_eq h hlength]
    by_cases hfails : env.fails operation = true
    · simp [hfails]
    · by_cases hsame : env.sha256 record.bytes = publication.expectedDigest ∧
          record.metadata = publication.expectedMetadata
      · simp [hfails, hlength, hsame.1, hsame.2]
      · have hdiffers : (env.sha256 record.bytes != publication.expectedDigest ||
            record.metadata != publication.expectedMetadata) = true := by
          rw [Bool.or_eq_true, bne_iff_ne, bne_iff_ne]
          exact not_and_or.1 hsame
        simp [hfails, hsame, hdiffers]
  · rw [Environment.readStableFile, h]
    by_cases hfails : env.fails operation = true
    · simp [hfails]
    · simp [hfails, hlength, not_le.1 hlength]

def lastLetter (path : Path) : Option Char := path.name.toList.getLast?

theorem lastLetter_append (directory text suffix : String) (h : suffix ≠ "") :
    lastLetter ⟨directory, text ++ suffix⟩ = suffix.toList.getLast? := by
  have hsuffix : suffix.toList ≠ [] := by simpa using h
  rw [lastLetter, String.toList_append, List.getLast?_append_of_ne_nil _ hsuffix]

theorem lastLetter_stagePath (destination : Path) (index : ℕ) :
    lastLetter (stagePath env destination index) = some 'w' :=
  lastLetter_append _ _ ".new" (by decide)

theorem lastLetter_rollbackPath (destination : Path) (index : ℕ) :
    lastLetter (rollbackPath env destination index) = some 'd' :=
  lastLetter_append _ _ ".old" (by decide)

theorem lastLetter_publicationLockPath (destination : Path) :
    lastLetter (publicationLockPath destination) = some 'k' :=
  lastLetter_append _ _ ".wrela-format.lock" (by decide)

theorem ne_of_lastLetter (h : lastLetter path = some letter) (h' : lastLetter path' = some letter')
    (hne : letter ≠ letter') : path ≠ path' := by
  rintro rfl
  exact hne (Option.some.inj (h.symm.trans h'))

/-- The files a publication makes for itself. -/
structure Beside (publication : PreparedPublication) : Prop where
  stage : lastLetter publication.stage = some 'w'
  rollback : lastLetter publication.rollback = some 'd'
  lockPath : lastLetter publication.lockPath = some 'k'

theorem beside_preparedPublication (index : ℕ) (source : ChangedSource) :
    Beside (preparedPublication env index source) :=
  ⟨lastLetter_stagePath _ _, lastLetter_rollbackPath _ _, lastLetter_publicationLockPath _⟩

theorem drop_of_ne {publication : PreparedPublication} {path : Path}
    (hstage : path ≠ publication.stage) (hrollback : path ≠ publication.rollback)
    (hlock : path ≠ publication.lockPath) : publication.drop env files path = files path := by
  unfold PreparedPublication.drop
  split_ifs
  · rw [tryRemoveFile_of_ne hlock, tryRemoveFile_of_ne hstage]
  · rw [tryRemoveFile_of_ne hlock, tryRemoveFile_of_ne hrollback, tryRemoveFile_of_ne hstage]

theorem drop_source {publication : PreparedPublication} (h : Beside publication) {path : Path}
    (hpath : lastLetter path = some 'r') : publication.drop env files path = files path :=
  drop_of_ne (ne_of_lastLetter hpath h.stage (by decide))
    (ne_of_lastLetter hpath h.rollback (by decide)) (ne_of_lastLetter hpath h.lockPath (by decide))

theorem dropAll_source (h : ∀ publication ∈ publications, Beside publication)
    (hpath : lastLetter path = some 'r') :
    PreparedPublication.dropAll env publications files path = files path := by
  induction publications generalizing files with
  | nil => rfl
  | cons publication publications ih =>
    have hrest := @ih (publication.drop env files) fun other hother ↦
      h other (mem_cons_of_mem _ hother)
    exact hrest.trans (drop_source (h publication mem_cons_self) hpath)

theorem writeTemporaries_of_ne {source : ChangedSource} {publication : PreparedPublication}
    {path : Path} (hstage : path ≠ publication.stage) (hrollback : path ≠ publication.rollback) :
    (writeTemporaries env source publication files).2 path = files path := by
  have hkept {kind : Temporary} {index : ℕ} {temporary : Path} {bytes : List UInt8}
      {before after : FileSystem} {outcome : Except IoError Unit} (hne : path ≠ temporary)
      (hwrite : env.writeTemporaryFile kind index temporary bytes before = (outcome, after)) :
      after path = before path :=
    (congrArg (fun written ↦ written.2 path) hwrite).symm.trans (writeTemporaryFile_of_ne hne)
  unfold writeTemporaries
  simp only
  split
  · rename_i hwrite
    exact hkept hstage hwrite
  · rename_i hwrite
    split
    · rename_i hcopy
      exact (hkept hrollback hcopy).trans (hkept hstage hwrite)
    · rename_i hcopy
      split <;> exact (hkept hrollback hcopy).trans (hkept hstage hwrite)

theorem preparePublication_of_ne {index : ℕ} {source : ChangedSource} {path : Path}
    (hstage : path ≠ stagePath env source.path index)
    (hrollback : path ≠ rollbackPath env source.path index)
    (hlock : path ≠ publicationLockPath source.path) :
    (preparePublication env index source files).2 path = files path := by
  unfold preparePublication
  simp only
  split_ifs
  · rfl
  · rfl
  · rfl
  · rfl
  · split
    · rfl
    · rfl
    · rename_i locked hlocked
      obtain ⟨-, -, rfl⟩ := createNew_eq_ok.1 hlocked
      have hwritten := @writeTemporaries_of_ne env
        (Function.update files (publicationLockPath source.path)
          (some ⟨[], env.metadata (publicationLockPath source.path)⟩)) source
        (preparedPublication env index source) path hstage hrollback
      rw [Function.update_of_ne hlock] at hwritten
      split
      · rename_i hwrite
        rw [hwrite] at hwritten
        exact (drop_of_ne hstage hrollback hlock).trans hwritten
      · rename_i hwrite
        rw [hwrite] at hwritten
        exact hwritten

theorem preparePublication_publication
    (h : preparePublication env index source files = (.ok publication, files')) :
    publication = preparedPublication env index source := by
  unfold preparePublication at h
  simp only at h
  split_ifs at h
  iterate 4 cases h
  split at h
  · cases h
  · cases h
  · split at h
    · cases h
    · exact (Except.ok.inj (congrArg Prod.fst h)).symm

theorem preparePublications_source {index : ℕ} {sources : List ChangedSource} {path : Path}
    (hpath : lastLetter path = some 'r') :
    (preparePublications env index sources files).2.2 path = files path ∧
      ∀ publication ∈ (preparePublications env index sources files).2.1, Beside publication := by
  induction sources generalizing index files with
  | nil => exact ⟨rfl, by simp [preparePublications]⟩
  | cons source sources ih =>
    have hone := @preparePublication_of_ne env files index source path
      (ne_of_lastLetter hpath (lastLetter_stagePath _ _) (by decide))
      (ne_of_lastLetter hpath (lastLetter_rollbackPath _ _) (by decide))
      (ne_of_lastLetter hpath (lastLetter_publicationLockPath _) (by decide))
    unfold preparePublications
    split_ifs
    · exact ⟨rfl, by simp⟩
    · split
      · rename_i hprepare
        rw [hprepare] at hone
        exact ⟨hone, by simp⟩
      · rename_i publication prepared hprepare
        rw [hprepare] at hone
        obtain ⟨hrest, hbeside⟩ := @ih prepared (index + 1)
        refine ⟨hrest.trans hone, ?_⟩
        rw [forall_mem_cons]
        exact ⟨preparePublication_publication hprepare ▸ beside_preparedPublication _ _, hbeside⟩

/-! ## Prepared publications -/

def temporaryOperations (kind : Temporary) (index : ℕ) : List Operation :=
  [.createTemporary kind index, .writeTemporary kind index, .setPermissions kind index,
    .syncTemporary kind index]

/-- The operations of the preparation of one publication. -/
def preparation (index : ℕ) : List Operation :=
  [.pollPrepare index, .validateDirectory index, .createLock index] ++
    temporaryOperations .stage index ++ temporaryOperations .rollback index ++
    [.syncParent index, .readPrepared index]

/-- What a source needs for its publication to be prepared. -/
structure Prepares (env : Environment) (files : FileSystem) (index : ℕ) (source : ChangedSource) :
    Prop where
  operations : ∀ operation ∈ preparation index, env.fails operation = false
  nonempty : source.formatted ≠ []
  bounded : source.formatted.length ≤ env.maximumBytes
  original_bounded : source.original.length ≤ env.maximumBytes
  digest : env.sha256 source.original = source.digest
  metadata : (files source.path).map FileRecord.metadata = some source.metadata
  lock_length : byteLength (publicationLockPath source.path).text ≤ maxCommandPathBytes
  lock_new : files (publicationLockPath source.path) = none
  stage_new : files (stagePath env source.path index) = none
  rollback_new : files (rollbackPath env source.path index) = none

def withTemporaries (env : Environment) (index : ℕ) (source : ChangedSource) (files : FileSystem) :
    FileSystem :=
  Function.update
    (Function.update files (stagePath env source.path index)
      (some ⟨source.formatted, env.metadata (stagePath env source.path index)⟩))
    (rollbackPath env source.path index)
    (some ⟨source.original, env.metadata (rollbackPath env source.path index)⟩)

def withLock (env : Environment) (source : ChangedSource) (files : FileSystem) : FileSystem :=
  Function.update files (publicationLockPath source.path)
    (some ⟨[], env.metadata (publicationLockPath source.path)⟩)

section Paths

variable {index : ℕ} {source : ChangedSource}

theorem stagePath_ne_rollbackPath (path path' : Path) (i j : ℕ) :
    stagePath env path i ≠ rollbackPath env path' j :=
  ne_of_lastLetter (lastLetter_stagePath _ _) (lastLetter_rollbackPath _ _) (by decide)

theorem stagePath_ne_publicationLockPath (path path' : Path) (i : ℕ) :
    stagePath env path i ≠ publicationLockPath path' :=
  ne_of_lastLetter (lastLetter_stagePath _ _) (lastLetter_publicationLockPath _) (by decide)

theorem rollbackPath_ne_publicationLockPath (path path' : Path) (i : ℕ) :
    rollbackPath env path i ≠ publicationLockPath path' :=
  ne_of_lastLetter (lastLetter_rollbackPath _ _) (lastLetter_publicationLockPath _) (by decide)

theorem source_ne_stagePath (h : lastLetter path = some 'r') (path' : Path) (i : ℕ) :
    path ≠ stagePath env path' i :=
  ne_of_lastLetter h (lastLetter_stagePath _ _) (by decide)

theorem source_ne_rollbackPath (h : lastLetter path = some 'r') (path' : Path) (i : ℕ) :
    path ≠ rollbackPath env path' i :=
  ne_of_lastLetter h (lastLetter_rollbackPath _ _) (by decide)

theorem source_ne_publicationLockPath (h : lastLetter path = some 'r') (path' : Path) :
    path ≠ publicationLockPath path' :=
  ne_of_lastLetter h (lastLetter_publicationLockPath _) (by decide)

theorem withTemporaries_of_ne (hstage : path ≠ stagePath env source.path index)
    (hrollback : path ≠ rollbackPath env source.path index) :
    withTemporaries env index source files path = files path := by
  rw [withTemporaries, Function.update_of_ne hrollback, Function.update_of_ne hstage]

theorem withTemporaries_stagePath :
    withTemporaries env index source files (stagePath env source.path index) =
      some ⟨source.formatted, env.metadata (stagePath env source.path index)⟩ := by
  rw [withTemporaries, Function.update_of_ne (stagePath_ne_rollbackPath _ _ _ _),
    Function.update_self]

theorem withTemporaries_rollbackPath :
    withTemporaries env index source files (rollbackPath env source.path index) =
      some ⟨source.original, env.metadata (rollbackPath env source.path index)⟩ :=
  Function.update_self _ _ _

end Paths

theorem writeTemporaries_eq_ok {index : ℕ} {source : ChangedSource} {record : FileRecord}
    (hletter : lastLetter source.path = some 'r') (hrecord : files source.path = some record) :
    writeTemporaries env source (preparedPublication env index source) files = (.ok (), files') ↔
      (∀ operation ∈ temporaryOperations .stage index, env.fails operation = false) ∧
      (∀ operation ∈ temporaryOperations .rollback index, env.fails operation = false) ∧
      env.fails (.syncParent index) = false ∧
      (env.fails (.readPrepared index) = false ∧ record.bytes.length ≤ env.maximumBytes ∧
        env.sha256 record.bytes = source.digest ∧ record.metadata = source.metadata) ∧
      files (stagePath env source.path index) = none ∧
      files (rollbackPath env source.path index) = none ∧
      files' = withTemporaries env index source files := by
  have hpair := (@stagePath_ne_rollbackPath env source.path source.path index index).symm
  have hdestination : withTemporaries env index source files source.path = some record := by
    rw [withTemporaries_of_ne (source_ne_stagePath hletter _ _)
      (source_ne_rollbackPath hletter _ _), hrecord]
  have hvalid := @revalidatePublication_eq_ok env (withTemporaries env index source files)
    (.readPrepared index) (preparedPublication env index source) record hdestination
  unfold writeTemporaries
  constructor
  · intro h
    simp only at h
    split at h
    · cases h
    · rename_i staged hwrite
      obtain ⟨hstageOperations, hstage, rfl⟩ := writeTemporaryFile_eq_ok.1 hwrite
      split at h
      · cases h
      · rename_i copied hcopy
        obtain ⟨hcopyOperations, hrollback, rfl⟩ := writeTemporaryFile_eq_ok.1 hcopy
        simp only [preparedPublication, Function.update_of_ne hpair] at hrollback
        unfold Environment.syncDirectory at h
        split_ifs at h with hsync
        · cases h
        · obtain ⟨hchecked, rfl⟩ := Prod.mk.inj h
          exact ⟨hstageOperations, hcopyOperations, Bool.eq_false_iff.2 hsync, hvalid.1 hchecked,
            hstage, hrollback, rfl⟩
  · rintro ⟨hstageOperations, hcopyOperations, hsync, hchecked, hstage, hrollback, rfl⟩
    have hwrite := (@writeTemporaryFile_eq_ok env files _ .stage index _ source.formatted).2
      ⟨hstageOperations, hstage, rfl⟩
    have hcopy := (@writeTemporaryFile_eq_ok env
      (Function.update files (stagePath env source.path index)
        (some ⟨source.formatted, env.metadata (stagePath env source.path index)⟩)) _ .rollback index
      _ source.original).2
      ⟨hcopyOperations, (Function.update_of_ne hpair _ _).trans hrollback, rfl⟩
    simp only [preparedPublication, hwrite, hcopy, Environment.syncDirectory, hsync,
      Bool.false_eq_true, if_false]
    exact congrArg (·, _) (hvalid.2 hchecked)

/-- A publication is prepared exactly if its source has what it needs. -/
theorem preparePublication_eq_ok (hletter : lastLetter source.path = some 'r')
    (horiginal : contents files source.path = some source.original) :
    preparePublication env index source files = (.ok publication, files') ↔
      Prepares env files index source ∧ publication = preparedPublication env index source ∧
        files' = withTemporaries env index source (withLock env source files) := by
  obtain ⟨record, hrecord, hbytes⟩ := Option.map_eq_some_iff.1 horiginal
  have hlocked : withLock env source files source.path = some record := by
    rw [withLock, Function.update_of_ne (source_ne_publicationLockPath hletter _), hrecord]
  have hwritten := @writeTemporaries_eq_ok env (withLock env source files) files' index source
    record hletter hlocked
  have hstage : withLock env source files (stagePath env source.path index) =
      files (stagePath env source.path index) :=
    Function.update_of_ne (stagePath_ne_publicationLockPath _ _ _) _ _
  have hrollback : withLock env source files (rollbackPath env source.path index) =
      files (rollbackPath env source.path index) :=
    Function.update_of_ne (rollbackPath_ne_publicationLockPath _ _ _) _ _
  rw [hbytes, hstage, hrollback] at hwritten
  unfold preparePublication
  constructor
  · intro h
    simp only at h
    split_ifs at h with hpoll hseal hdirectory hlong
    iterate 4 cases h
    simp only [Bool.or_eq_true, not_or, decide_eq_true_eq, not_lt, List.isEmpty_iff,
      bne_iff_ne, not_not] at hseal
    split at h
    · cases h
    · cases h
    · rename_i locked hlock
      obtain ⟨hcreate, hnew, rfl⟩ := createNew_eq_ok.1 hlock
      split at h
      · cases h
      · rename_i written hwrite
        obtain ⟨hpublication, rfl⟩ := Prod.mk.inj h
        obtain ⟨hstages, hcopies, hsync, ⟨hread, hbounded, -, hmetadata⟩, hstageNew, hrollbackNew,
          hfiles⟩ := hwritten.1 hwrite
        refine ⟨⟨?_, hseal.1.1, hseal.1.2, hbounded, hseal.2, ?_, not_lt.1 hlong, hnew, hstageNew,
          hrollbackNew⟩, (Except.ok.inj hpublication).symm, hfiles⟩
        · simp only [preparation, forall_mem_append, forall_mem_cons]
          refine ⟨⟨⟨⟨?_, ?_, hcreate, by simp⟩, hstages⟩, hcopies⟩, hsync, hread, by simp⟩
          · simpa using hpoll
          · simpa using hdirectory
        · rw [hrecord, Option.map_some, hmetadata]
  · rintro ⟨h, rfl, hfiles⟩
    have hoperations := h.operations
    simp only [preparation, forall_mem_append, forall_mem_cons] at hoperations
    obtain ⟨⟨⟨⟨hpoll, hdirectory, hcreate, -⟩, hstages⟩, hcopies⟩, hsync, hread, -⟩ := hoperations
    have hmetadata := h.metadata
    rw [hrecord, Option.map_some, Option.some_inj] at hmetadata
    have hwrite := hwritten.2 ⟨hstages, hcopies, hsync, ⟨hread, h.original_bounded, h.digest,
      hmetadata⟩, h.stage_new, h.rollback_new, hfiles⟩
    have hlock := createNew_eq_ok.2 ⟨hcreate, h.lock_new, rfl⟩
    rw [withLock] at hwrite
    have hseal : (source.formatted.isEmpty || decide (source.formatted.length > env.maximumBytes) ||
        env.sha256 source.original != source.digest) = false := by
      simp [h.nonempty, h.bounded, h.digest]
    simp only [hpoll, hdirectory, hseal, Bool.false_eq_true, if_false,
      if_neg (not_lt.2 h.lock_length), gt_iff_lt, hlock, hwrite]

def flagged (env : Environment) (committed preserve : ℕ → Bool) (index : ℕ)
    (source : ChangedSource) : PreparedPublication :=
  { preparedPublication env index source with
    committed := committed index
    preserveRollback := preserve index }

def publicationsFrom (env : Environment) (committed preserve : ℕ → Bool) :
    ℕ → List ChangedSource → List PreparedPublication
  | _, [] => []
  | index, source :: sources =>
    flagged env committed preserve index source ::
      publicationsFrom env committed preserve (index + 1) sources

theorem publicationsFrom_congr {committed committed' preserve preserve' : ℕ → Bool} {index : ℕ}
    (hcommitted : ∀ i, index ≤ i → i < index + sources.length → committed i = committed' i)
    (hpreserve : ∀ i, index ≤ i → i < index + sources.length → preserve i = preserve' i) :
    publicationsFrom env committed preserve index sources =
      publicationsFrom env committed' preserve' index sources := by
  induction sources generalizing index with
  | nil => rfl
  | cons source sources ih =>
    rw [length_cons] at hcommitted hpreserve
    have hrest := @ih (index + 1) (fun i hle hlt ↦ hcommitted i (by omega) (by omega))
      fun i hle hlt ↦ hpreserve i (by omega) (by omega)
    rw [publicationsFrom, publicationsFrom, hrest, flagged, flagged,
      hcommitted index le_rfl (by omega), hpreserve index le_rfl (by omega)]

theorem publicationsFrom_concat (committed preserve : ℕ → Bool) (index : ℕ)
    (source : ChangedSource) :
    publicationsFrom env committed preserve index (sources ++ [source]) =
      publicationsFrom env committed preserve index sources ++
        [flagged env committed preserve (index + sources.length) source] := by
  induction sources generalizing index with
  | nil => rfl
  | cons first sources ih =>
    rw [cons_append, publicationsFrom, ih, publicationsFrom, length_cons,
      cons_append, add_assoc, add_comm 1]

theorem forall_fails_iff {operation : ℕ → Operation} {first count : ℕ} :
    (∀ i, first ≤ i → i < first + (count + 1) → env.fails (operation i) = false) ↔
      env.fails (operation first) = false ∧
        ∀ i, first + 1 ≤ i → i < first + 1 + count → env.fails (operation i) = false := by
  constructor
  · intro hall
    exact ⟨hall first le_rfl (by omega), fun i hle hlt ↦ hall i (by omega) (by omega)⟩
  · rintro ⟨hfirst, hall⟩ i hle hlt
    rcases Nat.eq_or_lt_of_le hle with rfl | hlt'
    · exact hfirst
    · exact hall i hlt' (by omega)

theorem publicationLockPath_inj (h : publicationLockPath path = publicationLockPath path') :
    path = path' := by
  obtain ⟨hdirectory, hname⟩ := Path.mk.inj h
  have hletters := congrArg String.toList hname
  simp only [String.toList_append, append_assoc, append_cancel_left_eq,
    append_cancel_right_eq] at hletters
  cases path
  cases path'
  simp only [Path.mk.injEq]
  exact ⟨hdirectory, String.toList_inj.1 hletters⟩

/-- The publications of two positions share no path. -/
def Apart (env : Environment) (i : ℕ) (source : ChangedSource) (j : ℕ) (source' : ChangedSource) :
    Prop :=
  stagePath env source.path i ≠ stagePath env source'.path j ∧
    rollbackPath env source.path i ≠ rollbackPath env source'.path j ∧ source.path ≠ source'.path

/-- What a list of sources needs for its publications to be prepared from one position on. -/
structure PreparesFrom (env : Environment) (files : FileSystem) (index : ℕ)
    (sources : List ChangedSource) : Prop where
  polls : ∀ i, i < sources.length → env.fails (.pollSource (index + i)) = false
  each : ∀ (i : ℕ) (source : ChangedSource), sources[i]? = some source →
    Prepares env files (index + i) source
  apart : ∀ (i : ℕ) (source : ChangedSource) (j : ℕ) (source' : ChangedSource),
    sources[i]? = some source → sources[j]? = some source' → i < j →
    Apart env (index + i) source (index + j) source'

/-- Preparing one publication takes its paths away from the others, and nothing else. -/
theorem prepares_after (hletter : lastLetter other.path = some 'r') :
    Prepares env (withTemporaries env index source (withLock env source files)) j other ↔
      Prepares env files j other ∧ Apart env index source j other := by
  have hmetadata : withTemporaries env index source (withLock env source files) other.path =
      files other.path := by
    rw [withTemporaries_of_ne (source_ne_stagePath hletter _ _)
      (source_ne_rollbackPath hletter _ _), withLock,
      Function.update_of_ne (source_ne_publicationLockPath hletter _)]
  have hstage : withTemporaries env index source (withLock env source files)
      (stagePath env other.path j) = none ↔ files (stagePath env other.path j) = none ∧
        stagePath env source.path index ≠ stagePath env other.path j := by
    by_cases hpath : stagePath env other.path j = stagePath env source.path index
    · simp [hpath, withTemporaries_stagePath]
    · rw [withTemporaries_of_ne hpath (stagePath_ne_rollbackPath _ _ _ _), withLock,
        Function.update_of_ne (stagePath_ne_publicationLockPath _ _ _)]
      exact ⟨fun hnone ↦ ⟨hnone, Ne.symm hpath⟩, And.left⟩
  have hrollback : withTemporaries env index source (withLock env source files)
      (rollbackPath env other.path j) = none ↔ files (rollbackPath env other.path j) = none ∧
        rollbackPath env source.path index ≠ rollbackPath env other.path j := by
    by_cases hpath : rollbackPath env other.path j = rollbackPath env source.path index
    · simp [hpath, withTemporaries_rollbackPath]
    · rw [withTemporaries_of_ne (stagePath_ne_rollbackPath _ _ _ _).symm hpath, withLock,
        Function.update_of_ne (rollbackPath_ne_publicationLockPath _ _ _)]
      exact ⟨fun hnone ↦ ⟨hnone, Ne.symm hpath⟩, And.left⟩
  have hlock : withTemporaries env index source (withLock env source files)
      (publicationLockPath other.path) = none ↔ files (publicationLockPath other.path) = none ∧
        source.path ≠ other.path := by
    rw [withTemporaries_of_ne (stagePath_ne_publicationLockPath _ _ _).symm
      (rollbackPath_ne_publicationLockPath _ _ _).symm, withLock]
    by_cases hpath : other.path = source.path
    · simp [hpath]
    · rw [Function.update_of_ne fun hsame ↦ hpath (publicationLockPath_inj hsame)]
      exact ⟨fun hnone ↦ ⟨hnone, Ne.symm hpath⟩, And.left⟩
  constructor
  · intro h
    obtain ⟨hlockNew, hpaths⟩ := hlock.1 h.lock_new
    obtain ⟨hstageNew, hstages⟩ := hstage.1 h.stage_new
    obtain ⟨hrollbackNew, hrollbacks⟩ := hrollback.1 h.rollback_new
    exact ⟨{ h with
      metadata := hmetadata ▸ h.metadata
      lock_new := hlockNew
      stage_new := hstageNew
      rollback_new := hrollbackNew }, hstages, hrollbacks, hpaths⟩
  · rintro ⟨h, hstages, hrollbacks, hpaths⟩
    exact { h with
      metadata := hmetadata.symm ▸ h.metadata
      lock_new := hlock.2 ⟨h.lock_new, hpaths⟩
      stage_new := hstage.2 ⟨h.stage_new, hstages⟩
      rollback_new := hrollback.2 ⟨h.rollback_new, hrollbacks⟩ }

theorem preparesFrom_cons (hletter : ∀ other ∈ sources, lastLetter other.path = some 'r') :
    PreparesFrom env files index (source :: sources) ↔
      env.fails (.pollSource index) = false ∧ Prepares env files index source ∧
        PreparesFrom env (withTemporaries env index source (withLock env source files)) (index + 1)
          sources := by
  have hshift (i : ℕ) : index + 1 + i = index + (i + 1) := by omega
  constructor
  · intro h
    refine ⟨h.polls 0 (by simp), h.each 0 source rfl, fun i hi ↦ ?_, fun i other hother ↦ ?_,
      fun i other j other' hother hother' hlt ↦ ?_⟩
    · rw [hshift]
      exact h.polls (i + 1) (by simpa using hi)
    · rw [hshift, prepares_after (hletter other (mem_of_getElem? hother))]
      exact ⟨h.each (i + 1) other (by simpa using hother),
        h.apart 0 source (i + 1) other rfl (by simpa using hother) (by omega)⟩
    · rw [hshift, hshift]
      exact h.apart (i + 1) other (j + 1) other' (by simpa using hother) (by simpa using hother')
        (by omega)
  · rintro ⟨hpoll, hone, h⟩
    have heach (i : ℕ) (other : ChangedSource) (hother : sources[i]? = some other) :=
      (prepares_after (hletter other (mem_of_getElem? hother))).1 (h.each i other hother)
    refine ⟨fun i hi ↦ ?_, fun i other hother ↦ ?_, fun i other j other' hother hother' hlt ↦ ?_⟩
    · cases i with
      | zero => exact hpoll
      | succ i => exact hshift i ▸ h.polls i (by simpa using hi)
    · cases i with
      | zero => exact Option.some.inj hother ▸ hone
      | succ i => exact hshift i ▸ (heach i other (by simpa using hother)).1
    · obtain ⟨j, rfl⟩ : ∃ k, j = k + 1 := ⟨j - 1, by omega⟩
      rw [List.getElem?_cons_succ] at hother'
      cases i with
      | zero => exact Option.some.inj hother ▸ hshift j ▸ (heach j other' hother').2
      | succ i =>
        have hpair := h.apart i other j other' (by simpa using hother) hother' (by omega)
        rwa [hshift, hshift] at hpair

/-- The files once every publication is prepared. -/
structure PreparedFrom (env : Environment) (files files' : FileSystem) (index : ℕ)
    (sources : List ChangedSource) : Prop where
  kept : ∀ path, (files path).isSome → files' path = files path
  stage : ∀ (i : ℕ) (source : ChangedSource), sources[i]? = some source →
    contents files' (stagePath env source.path (index + i)) = some source.formatted
  rollback : ∀ (i : ℕ) (source : ChangedSource), sources[i]? = some source →
    contents files' (rollbackPath env source.path (index + i)) = some source.original

theorem isSome_of_contents (h : contents files path = some bytes) : (files path).isSome := by
  obtain ⟨record, hrecord, -⟩ := Option.map_eq_some_iff.1 h
  exact Option.isSome_iff_exists.2 ⟨record, hrecord⟩

theorem withTemporaries_kept (h : Prepares env files index source) (hpath : (files path).isSome) :
    withTemporaries env index source (withLock env source files) path = files path := by
  have hdiffers {other : Path} (hnew : files other = none) : path ≠ other := by
    rintro rfl
    simp [hnew] at hpath
  rw [withTemporaries_of_ne (hdiffers h.stage_new) (hdiffers h.rollback_new), withLock,
    Function.update_of_ne (hdiffers h.lock_new)]

theorem PreparedFrom.cons {index : ℕ} {source : ChangedSource} {sources : List ChangedSource}
    (hone : Prepares env files index source)
    (h : PreparedFrom env (withTemporaries env index source (withLock env source files)) files'
      (index + 1) sources) :
    PreparedFrom env files files' index (source :: sources) := by
  have hlater {path : Path} {record : FileRecord}
      (hrecord : withTemporaries env index source (withLock env source files) path = some record) :
      contents files' path = some record.bytes := by
    rw [contents, h.kept path (Option.isSome_iff_exists.2 ⟨record, hrecord⟩), hrecord,
      Option.map_some]
  have hshift (i : ℕ) : index + 1 + i = index + (i + 1) := by omega
  refine ⟨fun path hpath ↦ ?_, fun i other hother ↦ ?_, fun i other hother ↦ ?_⟩
  · have hkept := withTemporaries_kept hone hpath
    rw [h.kept path (hkept ▸ hpath), hkept]
  · cases i with
    | zero =>
      cases hother
      exact hlater withTemporaries_stagePath
    | succ i => exact hshift i ▸ h.stage i other (by simpa using hother)
  · cases i with
    | zero =>
      cases hother
      exact hlater withTemporaries_rollbackPath
    | succ i => exact hshift i ▸ h.rollback i other (by simpa using hother)

/-- Sources that are as they were read. -/
structure Unchanged (files : FileSystem) (sources : List ChangedSource) : Prop where
  letter : ∀ source ∈ sources, lastLetter source.path = some 'r'
  original : ∀ source ∈ sources, contents files source.path = some source.original

theorem Unchanged.after (h : Unchanged files (source :: sources))
    (hone : Prepares env files index source) :
    Unchanged (withTemporaries env index source (withLock env source files)) sources := by
  refine ⟨fun other hother ↦ h.letter other (mem_cons_of_mem _ hother), fun other hother ↦ ?_⟩
  have horiginal := h.original other (mem_cons_of_mem _ hother)
  rw [contents_congr (withTemporaries_kept hone (isSome_of_contents horiginal)), horiginal]

theorem preparePublications_eq_ok (hunchanged : Unchanged files sources)
    (h : preparePublications env index sources files = (.ok (), publications, files')) :
    PreparesFrom env files index sources ∧
      publications = publicationsFrom env (fun _ ↦ false) (fun _ ↦ false) index sources ∧
      PreparedFrom env files files' index sources := by
  induction sources generalizing index files publications with
  | nil =>
    cases h
    exact ⟨⟨by simp, by simp, by simp⟩, rfl, fun _ _ ↦ rfl, by simp, by simp⟩
  | cons source sources ih =>
    unfold preparePublications at h
    split_ifs at h with hpoll
    · cases h
    · split at h
      · cases h
      · rename_i publication middle hprepare
        obtain ⟨hone, rfl, rfl⟩ := (preparePublication_eq_ok
          (hunchanged.letter source mem_cons_self)
          (hunchanged.original source mem_cons_self)).1 hprepare
        obtain ⟨hrest, hlists⟩ := Prod.mk.inj h
        obtain ⟨rfl, rfl⟩ := Prod.mk.inj hlists
        obtain ⟨hall, hpublications, hprepared⟩ := ih (hunchanged.after hone)
          (Prod.ext hrest (Prod.ext rfl rfl))
        refine ⟨(preparesFrom_cons fun other hother ↦ hunchanged.letter other
          (mem_cons_of_mem _ hother)).2 ⟨by simpa using hpoll, hone, hall⟩, ?_,
          hprepared.cons hone⟩
        rw [hpublications]
        rfl

theorem preparePublications_of_prepares (hunchanged : Unchanged files sources)
    (h : PreparesFrom env files index sources) :
    ∃ publications files',
      preparePublications env index sources files = (.ok (), publications, files') := by
  induction sources generalizing index files with
  | nil => exact ⟨[], files, rfl⟩
  | cons source sources ih =>
    obtain ⟨hpoll, hone, hrest⟩ := (preparesFrom_cons fun other hother ↦
      hunchanged.letter other (mem_cons_of_mem _ hother)).1 h
    obtain ⟨publications, files', hloop⟩ := ih (hunchanged.after hone) hrest
    have hprepare := (preparePublication_eq_ok (hunchanged.letter source mem_cons_self)
      (hunchanged.original source mem_cons_self)).2 ⟨hone, rfl, rfl⟩
    refine ⟨preparedPublication env index source :: publications, files', ?_⟩
    simp only [preparePublications, hpoll, Bool.false_eq_true, if_false, hprepare, hloop]

/-- The second look at the sources, once all locks are held. -/
theorem revalidatePublications_eq_ok {index : ℕ} {sources : List ChangedSource}
    {committed preserve : ℕ → Bool} (hunchanged : Unchanged files sources)
    (h : ∀ (i : ℕ) (source : ChangedSource), sources[i]? = some source →
      source.original.length ≤ env.maximumBytes ∧ env.sha256 source.original = source.digest ∧
        (files source.path).map FileRecord.metadata = some source.metadata) :
    revalidatePublications env files (publicationsFrom env committed preserve index sources) =
        .ok () ↔
      ∀ i, index ≤ i → i < index + sources.length → env.fails (.readAgain i) = false := by
  induction sources generalizing index with
  | nil =>
    refine iff_of_true rfl fun i hle hlt ↦ ?_
    rw [length_nil] at hlt
    omega
  | cons source sources ih =>
    obtain ⟨hbounded, hdigest, hmetadata⟩ := h 0 source rfl
    obtain ⟨record, hrecord, hbytes⟩ := Option.map_eq_some_iff.1
      (hunchanged.original source mem_cons_self)
    rw [hrecord, Option.map_some, Option.some_inj] at hmetadata
    have hone := @revalidatePublication_eq_ok env files (.readAgain index)
      (flagged env committed preserve index source) record hrecord
    have hrest := @ih (index + 1) ⟨fun other hother ↦ hunchanged.letter other
      (mem_cons_of_mem _ hother), fun other hother ↦ hunchanged.original other
      (mem_cons_of_mem _ hother)⟩ fun i other hother ↦ h (i + 1) other (by simpa using hother)
    rw [length_cons, forall_fails_iff, ← hrest]
    have hfirst : revalidatePublication env (.readAgain index)
        (flagged env committed preserve index source) files = .ok () ↔
          env.fails (.readAgain index) = false := by
      rw [hone]
      exact and_iff_left ⟨hbytes ▸ hbounded, hbytes ▸ hdigest, hmetadata⟩
    rw [← hfirst, publicationsFrom, revalidatePublications]
    rw [show (flagged env committed preserve index source).index = index from rfl]
    cases revalidatePublication env (.readAgain index)
      (flagged env committed preserve index source) files with
    | error error => simp
    | ok => simp

end Wrela.LocalFormat
