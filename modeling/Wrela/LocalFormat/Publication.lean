import Mathlib.Logic.Function.Basic
import Wrela.BuildModel.Profile

/-!
# Publication of formatted sources

The formatter replaces changed sources in place: every new text is first staged beside its source,
together with a copy of the original to roll back to, then all stages are renamed over their
sources, and what was published is read back before the copies are removed.

The file system is a map from paths to files.  Every operation of a run has a name, and a run is
given the set of operations that fail; a failed operation changes nothing, except that a failed
write leaves a part of its bytes.
-/

namespace Wrela.LocalFormat

open Wrela.Source Wrela.BuildModel

/-- A normalized absolute path: the directory and the last component. -/
structure Path where
  directory : String
  name : String
deriving DecidableEq

def Path.text (path : Path) : String := path.directory ++ "/" ++ path.name

/-- What the host says about a file besides its bytes. -/
structure MetadataSnapshot where
  device : UInt64
  inode : UInt64
  length : UInt64
  mode : UInt32
  modifiedSeconds : Int64
  modifiedNanoseconds : Int64
  changedSeconds : Int64
  changedNanoseconds : Int64
deriving DecidableEq

structure FileRecord where
  bytes : List UInt8
  metadata : MetadataSnapshot

abbrev FileSystem := Path → Option FileRecord

/-- The bytes of a file, if there is one. -/
def contents (files : FileSystem) (path : Path) : Option (List UInt8) :=
  (files path).map FileRecord.bytes

/-! ## Operations -/

inductive Temporary where
  | stage | rollback
deriving DecidableEq

/-- The operations of one run, in the order of the source; the number is that of the publication.
The polls are the places where a cancellation is observed. -/
inductive Operation where
  | pollSource (index : ℕ)
  | pollPrepare (index : ℕ)
  | validateDirectory (index : ℕ)
  | createLock (index : ℕ)
  | createTemporary (kind : Temporary) (index : ℕ)
  | writeTemporary (kind : Temporary) (index : ℕ)
  | removeTemporary (kind : Temporary) (index : ℕ)
  | setPermissions (kind : Temporary) (index : ℕ)
  | syncTemporary (kind : Temporary) (index : ℕ)
  | syncParent (index : ℕ)
  | readPrepared (index : ℕ)
  | readAgain (index : ℕ)
  | pollCommit
  | renameStage (index : ℕ)
  | syncPublished (index : ℕ)
  | readPublished (index : ℕ)
  | removeRollback (index : ℕ)
  | syncCommitted (index : ℕ)
  | readFailed (index : ℕ)
  | renameRollback (index : ℕ)
  | syncRestored (index : ℕ)
  | dropStage (index : ℕ)
  | dropRollback (index : ℕ)
  | dropLock (index : ℕ)
deriving DecidableEq

/-- Everything a run depends on besides its sources and the files. -/
structure Environment where
  processId : ℕ
  sequence : ℕ
  maximumBytes : ℕ
  sha256 : List UInt8 → Sha256Digest
  /-- The metadata of a temporary file once it is written. -/
  metadata : Path → MetadataSnapshot
  fails : Operation → Bool
  /-- How many bytes a failed write had written. -/
  written : Operation → ℕ

inductive IoError where
  | failed (operation : Operation)
  | notFound
  | alreadyExists
  | tooLarge (limit : ℕ)
deriving DecidableEq

/-- What a publication reports about a path; an operating system error is kept beside the message it
is printed in. -/
inductive DriverError where
  | cancelled
  | publication (path : String) (message : String) (error : Option IoError)
deriving DecidableEq

namespace Environment

variable (env : Environment)

/-- Create a file that must not exist yet. -/
def createNew (operation : Operation) (path : Path) (files : FileSystem) :
    Except IoError FileSystem :=
  if env.fails operation then .error (.failed operation)
  else if (files path).isSome then .error .alreadyExists
  else .ok (Function.update files path (some ⟨[], env.metadata path⟩))

/-- Replace the target, if there is one, by the source. -/
def rename (operation : Operation) (source target : Path) (files : FileSystem) :
    Except IoError FileSystem :=
  if env.fails operation then .error (.failed operation)
  else
    match files source with
    | none => .error .notFound
    | some record =>
      .ok (Function.update (Function.update files source none) target (some record))

def removeFile (operation : Operation) (path : Path) (files : FileSystem) :
    Except IoError FileSystem :=
  if env.fails operation then .error (.failed operation)
  else if (files path).isNone then .error .notFound
  else .ok (Function.update files path none)

/-- Remove a file if that is possible. -/
def tryRemoveFile (operation : Operation) (path : Path) (files : FileSystem) : FileSystem :=
  match env.removeFile operation path files with
  | .ok files => files
  | .error _ => files

/-- Read a file that does not change meanwhile. -/
def readStableFile (operation : Operation) (path : Path) (files : FileSystem) :
    Except IoError FileRecord :=
  if env.fails operation then .error (.failed operation)
  else
    match files path with
    | none => .error .notFound
    | some record =>
      if record.bytes.length > env.maximumBytes then .error (.tooLarge env.maximumBytes)
      else .ok record

def syncDirectory (operation : Operation) : Except IoError Unit :=
  if env.fails operation then .error (.failed operation) else .ok ()

def writeTemporaryFile (kind : Temporary) (index : ℕ) (path : Path) (bytes : List UInt8)
    (files : FileSystem) : Except IoError Unit × FileSystem :=
  match env.createNew (.createTemporary kind index) path files with
  | .error error => (.error error, files)
  | .ok created =>
    let holding (bytes : List UInt8) : FileSystem :=
      Function.update created path (some ⟨bytes, env.metadata path⟩)
    if env.fails (.writeTemporary kind index) then
      (.error (.failed (.writeTemporary kind index)),
        env.tryRemoveFile (.removeTemporary kind index) path
          (holding (bytes.take (env.written (.writeTemporary kind index)))))
    else if env.fails (.setPermissions kind index) then
      (.error (.failed (.setPermissions kind index)), holding bytes)
    else if env.fails (.syncTemporary kind index) then
      (.error (.failed (.syncTemporary kind index)), holding bytes)
    else (.ok (), holding bytes)

end Environment

/-- A source whose formatted text differs from what was read. -/
structure ChangedSource where
  path : Path
  digest : Sha256Digest
  metadata : MetadataSnapshot
  original : List UInt8
  formatted : List UInt8
  changed : formatted ≠ original

structure PreparedPublication where
  index : ℕ
  destination : Path
  stage : Path
  rollback : Path
  lockPath : Path
  expectedDigest : Sha256Digest
  expectedMetadata : MetadataSnapshot
  publishedDigest : Sha256Digest
  publishedBytes : ℕ
  committed : Bool
  preserveRollback : Bool

def maxCommandPathBytes : ℕ := 64 * 1024

/-- Sixteen hexadecimal digits. -/
def hexText (value : ℕ) : String :=
  String.ofList ((List.range 16).map fun place ↦
    "0123456789abcdef".toList.getD (value / 16 ^ (15 - place) % 16) '0')

def temporaryPath (env : Environment) (destination : Path) (index : ℕ) (suffix : String) : Path :=
  ⟨destination.directory, ".wrela-format-" ++ toString env.processId ++ "-" ++
    hexText ((env.sequence + index) % 2 ^ 64) ++ suffix⟩

def stagePath (env : Environment) (destination : Path) (index : ℕ) : Path :=
  temporaryPath env destination index ".new"

def rollbackPath (env : Environment) (destination : Path) (index : ℕ) : Path :=
  temporaryPath env destination index ".old"

def publicationLockPath (destination : Path) : Path :=
  ⟨destination.directory, "." ++ destination.name ++ ".wrela-format.lock"⟩

namespace PreparedPublication

variable (env : Environment)

/-- What happens when a publication goes out of scope. -/
def drop (publication : PreparedPublication) (files : FileSystem) : FileSystem :=
  let files := env.tryRemoveFile (.dropStage publication.index) publication.stage files
  let files :=
    if publication.preserveRollback then files
    else env.tryRemoveFile (.dropRollback publication.index) publication.rollback files
  env.tryRemoveFile (.dropLock publication.index) publication.lockPath files

def dropAll (publications : List PreparedPublication) (files : FileSystem) : FileSystem :=
  publications.foldl (fun files publication ↦ publication.drop env files) files

end PreparedPublication

def revalidatePublication (env : Environment) (operation : Operation)
    (publication : PreparedPublication) (files : FileSystem) : Except DriverError Unit :=
  match env.readStableFile operation publication.destination files with
  | .error error => .error (.publication publication.destination.text "" (some error))
  | .ok current =>
    if env.sha256 current.bytes != publication.expectedDigest ||
        current.metadata != publication.expectedMetadata then
      .error (.publication publication.destination.text
        "source changed after it was parsed; no replacement was published" none)
    else .ok ()

/-- The stage, the copy of the original, and a last look at the source. -/
def writeTemporaries (env : Environment) (source : ChangedSource)
    (publication : PreparedPublication) (files : FileSystem) :
    Except DriverError Unit × FileSystem :=
  let index := publication.index
  match env.writeTemporaryFile .stage index publication.stage source.formatted files with
  | (.error error, files) =>
    (.error (.publication publication.destination.text "" (some error)), files)
  | (.ok (), files) =>
    match env.writeTemporaryFile .rollback index publication.rollback source.original files with
    | (.error error, files) =>
      (.error (.publication publication.destination.text "" (some error)), files)
    | (.ok (), files) =>
      match env.syncDirectory (.syncParent index) with
      | .error error => (.error (.publication publication.destination.text "" (some error)), files)
      | .ok () => (revalidatePublication env (.readPrepared index) publication files, files)

def preparedPublication (env : Environment) (index : ℕ) (source : ChangedSource) :
    PreparedPublication where
  index := index
  destination := source.path
  stage := stagePath env source.path index
  rollback := rollbackPath env source.path index
  lockPath := publicationLockPath source.path
  expectedDigest := source.digest
  expectedMetadata := source.metadata
  publishedDigest := env.sha256 source.formatted
  publishedBytes := source.formatted.length
  committed := false
  preserveRollback := false

def preparePublication (env : Environment) (index : ℕ) (source : ChangedSource)
    (files : FileSystem) : Except DriverError PreparedPublication × FileSystem :=
  let refuse (message : String) (error : Option IoError) :
      Except DriverError PreparedPublication := .error (.publication source.path.text message error)
  if env.fails (.pollPrepare index) then (.error .cancelled, files)
  else if source.formatted.isEmpty || decide (source.formatted.length > env.maximumBytes) ||
      env.sha256 source.original != source.digest then
    (refuse "publication bytes exceed their seal or original digest" none, files)
  else if env.fails (.validateDirectory index) then
    (.error (.publication source.path.directory "" (some (.failed (.validateDirectory index)))),
      files)
  else if byteLength (publicationLockPath source.path).text > maxCommandPathBytes then
    (refuse "source replacement lock path is too long" none, files)
  else
    match env.createNew (.createLock index) (publicationLockPath source.path) files with
    | .error .alreadyExists =>
      (refuse "another formatter owns the source replacement lock" none, files)
    | .error error => (refuse "cannot acquire source replacement lock: " (some error), files)
    | .ok locked =>
      let publication := preparedPublication env index source
      match writeTemporaries env source publication locked with
      | (.error error, files) => (.error error, publication.drop env files)
      | (.ok (), files) => (.ok publication, files)

/-- The publications prepared until all are, or one fails. -/
def preparePublications (env : Environment) : ℕ → List ChangedSource → FileSystem →
    Except DriverError Unit × List PreparedPublication × FileSystem
  | _, [], files => (.ok (), [], files)
  | index, source :: sources, files =>
    if env.fails (.pollSource index) then (.error .cancelled, [], files)
    else
      match preparePublication env index source files with
      | (.error error, files) => (.error error, [], files)
      | (.ok publication, files) =>
        let rest := preparePublications env (index + 1) sources files
        (rest.1, publication :: rest.2.1, rest.2.2)

def revalidatePublications (env : Environment) (files : FileSystem) :
    List PreparedPublication → Except DriverError Unit
  | [] => .ok ()
  | publication :: publications =>
    match revalidatePublication env (.readAgain publication.index) publication files with
    | .error error => .error error
    | .ok () => revalidatePublications env files publications

/-- The loop that makes the stages visible.  It stops at the first failure. -/
def renameStages (env : Environment) : List PreparedPublication → FileSystem →
    Except DriverError Unit × List PreparedPublication × FileSystem
  | [], files => (.ok (), [], files)
  | publication :: publications, files =>
    match env.rename (.renameStage publication.index) publication.stage publication.destination
        files with
    | .error error =>
      (.error (.publication publication.destination.text "" (some error)),
        publication :: publications, files)
    | .ok files =>
      let rest := renameStages env publications files
      (rest.1, { publication with committed := true } :: rest.2.1, rest.2.2)

/-- A directory sync for every publication. -/
def syncDirectories (env : Environment) (operation : ℕ → Operation) :
    List PreparedPublication → Except DriverError Unit
  | [] => .ok ()
  | publication :: publications =>
    match env.syncDirectory (operation publication.index) with
    | .error error => .error (.publication publication.destination.text "" (some error))
    | .ok () => syncDirectories env operation publications

/-- Why the published sources could not be confirmed. -/
inductive VerifyFailure where
  | unreadable (error : DriverError)
  | mismatch (error : DriverError)

def verifyPublished (env : Environment) (files : FileSystem) :
    List PreparedPublication → Except VerifyFailure Unit
  | [] => .ok ()
  | publication :: publications =>
    match env.readStableFile (.readPublished publication.index) publication.destination files with
    | .error error => .error (.unreadable (.publication publication.destination.text "" (some error)))
    | .ok observed =>
      if env.sha256 observed.bytes != publication.publishedDigest ||
          observed.bytes.length != publication.publishedBytes then
        .error (.mismatch (.publication publication.destination.text
          "published source bytes do not match the sealed formatter output" none))
      else verifyPublished env files publications

def removeRollbacks (env : Environment) : List PreparedPublication → FileSystem →
    Except DriverError Unit × List PreparedPublication × FileSystem
  | [], files => (.ok (), [], files)
  | publication :: publications, files =>
    match env.removeFile (.removeRollback publication.index) publication.rollback files with
    | .error error =>
      (.error (.publication publication.destination.text "" (some error)),
        publication :: publications, files)
    | .ok files =>
      let rest := removeRollbacks env publications files
      (rest.1, { publication with committed := false } :: rest.2.1, rest.2.2)

/-- The loop that restores originals, over the publications in the order it visits them. -/
def restoreOriginals (env : Environment) : List PreparedPublication → FileSystem →
    Except DriverError Unit × List PreparedPublication × FileSystem
  | [], files => (.ok (), [], files)
  | publication :: publications, files =>
    let stop (message : String) (error : Option IoError) :
        Except DriverError Unit × List PreparedPublication × FileSystem :=
      (.error (.publication publication.destination.text
          (message ++ "; original bytes remain at " ++ publication.rollback.text) error),
        { publication with preserveRollback := true } :: publications, files)
    if !publication.committed then
      let rest := restoreOriginals env publications files
      (rest.1, publication :: rest.2.1, rest.2.2)
    else
      match env.readStableFile (.readFailed publication.index) publication.destination files with
      | .error error => stop "cannot verify failed publication for rollback" (some error)
      | .ok current =>
        if env.sha256 current.bytes != publication.publishedDigest then
          stop "source changed after publication failure" none
        else
          match env.rename (.renameRollback publication.index) publication.rollback
              publication.destination files with
          | .error error => stop "cannot restore original source" (some error)
          | .ok files =>
            let rest := restoreOriginals env publications files
            (rest.1, { publication with committed := false } :: rest.2.1, rest.2.2)

def rollbackPublications (env : Environment) (publications : List PreparedPublication)
    (files : FileSystem) : Except DriverError Unit × List PreparedPublication × FileSystem :=
  let restored := restoreOriginals env publications.reverse files
  let publications := restored.2.1.reverse
  match restored.1 with
  | .error error => (.error error, publications, restored.2.2)
  | .ok () => (syncDirectories env .syncRestored publications, publications, restored.2.2)

/-- A rollback after a failure: its own failure, if any, is what is reported. -/
def failAfterRollback (env : Environment) (failure : DriverError)
    (publications : List PreparedPublication) (files : FileSystem) :
    Except DriverError Unit × List PreparedPublication × FileSystem :=
  match rollbackPublications env publications files with
  | (.error error, publications, files) => (.error error, publications, files)
  | (.ok (), publications, files) => (.error failure, publications, files)

def commitPublications (env : Environment) (publications : List PreparedPublication)
    (files : FileSystem) : Except DriverError Unit × List PreparedPublication × FileSystem :=
  match renameStages env publications files with
  | (.error failure, publications, files) => failAfterRollback env failure publications files
  | (.ok (), publications, files) =>
    match syncDirectories env .syncPublished publications with
    | .error failure => failAfterRollback env failure publications files
    | .ok () =>
      match verifyPublished env files publications with
      | .error (.unreadable error) => (.error error, publications, files)
      | .error (.mismatch failure) => failAfterRollback env failure publications files
      | .ok () =>
        match removeRollbacks env publications files with
        | (.error error, publications, files) => (.error error, publications, files)
        | (.ok (), publications, files) =>
          (syncDirectories env .syncCommitted publications, publications, files)

/-- The result of a run and the files it leaves once its publications are dropped. -/
def publishChangedSources (env : Environment) (sources : List ChangedSource) (files : FileSystem) :
    Except DriverError Unit × FileSystem :=
  match preparePublications env 0 sources files with
  | (.error error, publications, files) =>
    (.error error, PreparedPublication.dropAll env publications files)
  | (.ok (), publications, files) =>
    match revalidatePublications env files publications with
    | .error error => (.error error, PreparedPublication.dropAll env publications files)
    | .ok () =>
      if env.fails .pollCommit then
        (.error .cancelled, PreparedPublication.dropAll env publications files)
      else
        let committed := commitPublications env publications files
        (committed.1, PreparedPublication.dropAll env committed.2.1 committed.2.2)

end Wrela.LocalFormat
