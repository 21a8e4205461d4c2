import Wrela.Package.Manifest
import Wrela.Wire.Number

/-!
# Load requests

The limits, bundles and capabilities of one workspace load, and everything it can report.
-/

namespace Wrela.PackageLoader

open Wrela.Source Wrela.BuildModel Wrela.Package

structure LoadLimits where
  packages : UInt32
  sources : UInt32
  manifestBytesPerPackage : UInt64
  manifestBytes : UInt64
  sourceBytes : UInt64
  scenarios : UInt32
  scenarioBytes : UInt64
  bytesPerPackage : UInt64

structure ManifestCodecLimits where
  bytes : UInt64
  stringBytes : UInt64
  modules : UInt32
  dependencies : UInt32
  profiles : UInt32
  images : UInt32
  imageTests : UInt32

structure ScenarioInput where
  package : PackageIdentity
  path : String
  bytes : List UInt8
  digest : Sha256Digest
deriving DecidableEq

/-- The exact bytes a provider supplied for one package. -/
structure PackageBundle where
  identity : PackageIdentity
  locator : PackageLocator
  manifestBytes : List UInt8
  sources : List SourceInput
  scenarios : List ScenarioInput
deriving DecidableEq

inductive ProviderError where
  | unavailable (message : String)
  | accessDenied (message : String)
  | tooLarge (limit : UInt64)
  | identityMismatch
  | corrupt (message : String)
deriving DecidableEq

inductive DecodeError where
  | invalidLimits
  | invalidUtf8
  | malformed (byteOffset : ℕ) (message : String)
  | duplicateKey (key : String)
  | unknownField (field : String)
  | missingField (field : String)
  | unsupportedValue (field expected : String)
  | resourceLimit (resource : String) (limit : ℕ)
  | nonCanonical (message : String)
  | unsupportedSchema (schema : UInt32)
deriving DecidableEq

/-- What a load reports.  Where the source prints one error inside the message of another, the
inner error is kept as it is. -/
inductive LoadError where
  | invalidLimits
  | rootManifest (error : DecodeError)
  | packageManifest (package : PackageIdentity) (error : DecodeError)
  | provider (package : PackageIdentity) (error : ProviderError)
  | manifest (message : String)
  | manifestCheck (context : String) (error : ManifestError)
  | modulePath (path : String) (error : ModulePathError)
  | digestMismatch (subject : String) (expected actual : Sha256Digest)
  | undeclaredSource (path : String)
  | duplicateSource (path : String)
  | undeclaredScenario (path : String)
  | missingScenario (path : String)
  | duplicateScenario (path : String)
  | source (error : SourceError)
  | graph (error : GraphError)
  | invalidOutput (message : String)
  | resourceLimit (resource : String) (limit : ℕ)
deriving DecidableEq

def LoadLimits.validate (limits : LoadLimits) : Except LoadError Unit :=
  if limits.packages == 0 || limits.sources == 0 || limits.manifestBytesPerPackage == 0 ||
      limits.manifestBytes == 0 || limits.sourceBytes == 0 || limits.scenarios == 0 ||
      limits.scenarioBytes == 0 || limits.bytesPerPackage == 0 ||
      decide (limits.manifestBytesPerPackage > limits.bytesPerPackage) then
    .error .invalidLimits
  else .ok ()

/-- The manifest codec a load is given. -/
structure PackageCodec where
  decodeManifest : List UInt8 → ManifestCodecLimits → Except DecodeError PackageManifest
  canonicalManifest : PackageManifest → ManifestCodecLimits → Except DecodeError (List UInt8)

structure LoadRequest where
  rootLocator : PackageLocator
  rootManifestBytes : List UInt8
  coreLocator : PackageLocator
  provider : PackageLocator → PackageName → PackageVersion → UInt64 → UInt64 →
    Except ProviderError PackageBundle
  sha256 : List UInt8 → Sha256Digest
  codec : PackageCodec
  limits : LoadLimits

structure LoadedManifestInput where
  identity : PackageIdentity
  locator : PackageLocator
  manifestDigest : Sha256Digest
  manifest : PackageManifest
  canonicalManifest : List UInt8

structure LoadedManifest where
  identity : PackageIdentity
  locator : PackageLocator
  manifestDigest : Sha256Digest
  manifest : PackageManifest
deriving DecidableEq

structure LoadedWorkspace where
  graph : PackageGraph
  sources : SourceDatabase
  manifests : List LoadedManifest
  scenarios : List ScenarioInput
  sourceGraphDigest : Sha256Digest
deriving DecidableEq

structure LoadedWorkspaceCandidate where
  graph : PackageGraph
  sources : SourceDatabase
  manifests : List LoadedManifestInput
  scenarios : List ScenarioInput

open Wrela.Wire

/-- A length-prefixed text. -/
def updateString (value : String) : List UInt8 := countedBytes (utf8Bytes value)

def digestVersion : List UInt8 := leBytes 4 1

inductive PackageContentKind where
  | source | scenario
deriving DecidableEq

structure PackageContentRecord where
  kind : PackageContentKind
  path : String
  digest : Sha256Digest
deriving DecidableEq

inductive PackageContentDigestError where
  | nonCanonicalInput

def PackageContentKind.byte : PackageContentKind → UInt8
  | .source => 0
  | .scenario => 1

def PackageContentRecord.key (record : PackageContentRecord) : UInt8 ×ₗ List UInt8 :=
  toLex (record.kind.byte, utf8Bytes record.path)

/-- Records are named and strictly ordered, each against the one before it. -/
def canonicalContentRecords : Option (UInt8 ×ₗ List UInt8) → List PackageContentRecord → Bool
  | _, [] => true
  | previous, record :: records =>
    !(record.path.isEmpty || previous.any fun previous ↦ decide (record.key ≤ previous)) &&
      canonicalContentRecords (some record.key) records

def packageContentMagic : List UInt8 := utf8Bytes "WRELPKG\x00"

def updateContentRecord (record : PackageContentRecord) : List UInt8 :=
  record.kind.byte :: (updateString record.path ++ record.digest.bytes)

def packageContentStream (canonicalManifest : List UInt8) (records : List PackageContentRecord) :
    Except PackageContentDigestError (List UInt8) :=
  if canonicalManifest.isEmpty then .error .nonCanonicalInput
  else if !canonicalContentRecords none records then .error .nonCanonicalInput
  else if 2 ^ 64 ≤ records.length then .error .nonCanonicalInput
  else
    .ok (packageContentMagic ++ digestVersion ++ countedBytes canonicalManifest ++
      countedItems updateContentRecord records)

def packageContentDigest (sha256 : List UInt8 → Sha256Digest) (canonicalManifest : List UInt8)
    (records : List PackageContentRecord) : Except PackageContentDigestError Sha256Digest :=
  (packageContentStream canonicalManifest records).map sha256

/-! ## Toolchain trees -/

structure CanonicalTreeLimits where
  records : UInt32
  pathBytes : UInt64
  contentBytes : UInt64
  metadataBytes : UInt64

def CanonicalTreeLimits.standard : CanonicalTreeLimits where
  records := 1000000
  pathBytes := 256 * 1024 * 1024
  contentBytes := 64 * 1024 * 1024 * 1024
  metadataBytes := 1024 * 1024 * 1024

inductive CanonicalTreeDigestError where
  | invalidLimits
  | nonCanonicalInput
  | resourceLimit (resource : String) (limit : ℕ)

def CanonicalTreeLimits.validate (limits : CanonicalTreeLimits) :
    Except CanonicalTreeDigestError Unit :=
  let hard := CanonicalTreeLimits.standard
  if limits.records == 0 || limits.pathBytes == 0 || limits.contentBytes == 0 ||
      limits.metadataBytes == 0 || decide (limits.records > hard.records) ||
      decide (limits.pathBytes > hard.pathBytes) ||
      decide (limits.contentBytes > hard.contentBytes) ||
      decide (limits.metadataBytes > hard.metadataBytes) then
    .error .invalidLimits
  else .ok ()

structure CanonicalTreeRecord where
  path : String
  bytes : UInt64
  digest : Sha256Digest
deriving DecidableEq

structure CanonicalTreeMeasurement where
  digest : Sha256Digest
  contentBytes : ℕ
  records : ℕ

def windowsReserved : List String := [
  "con", "prn", "aux", "nul", "com1", "com2", "com3", "com4", "com5", "com6", "com7", "com8",
  "com9", "lpt1", "lpt2", "lpt3", "lpt4", "lpt5", "lpt6", "lpt7", "lpt8", "lpt9"]

/-- Reserved device names are compared without regard to ASCII case. -/
def windowsReservedTreeComponent (component : String) : Bool :=
  windowsReserved.contains (toAsciiLowercase ((splitText '.' component).headD component))

def canonicalTreePath (path : String) : Bool :=
  !path.isEmpty && decide (byteLength path ≤ maxSourcePathBytes) &&
    (path.toList.all fun character ↦ decide (character.toNat < 128)) &&
    !startsWith path '/' && !(path.toList.getLast? == some '/') &&
    (splitText '/' path).all fun component ↦
      !component.isEmpty && !(component == "." || component == "..") &&
        !(component.toList.getLast? == some '.') &&
        (component.toList.all fun character ↦
          character.isAlphanum || character == '.' || character == '_' || character == '-') &&
        !windowsReservedTreeComponent component

def addTreeLimit (total amount : ℕ) (resource : String) (limit : UInt64) :
    Except CanonicalTreeDigestError ℕ :=
  if total + amount > limit.toNat then .error (.resourceLimit resource limit.toNat)
  else .ok (total + amount)

/-- The running totals of the record check. -/
structure TreeTotals where
  pathBytes : ℕ
  contentBytes : ℕ
  metadataBytes : ℕ

def checkTreeRecords (limits : CanonicalTreeLimits) :
    Option (List UInt8) → TreeTotals → List CanonicalTreeRecord →
      Except CanonicalTreeDigestError TreeTotals
  | _, totals, [] => .ok totals
  | previous, totals, record :: records => do
    if !canonicalTreePath record.path ||
        (previous.any fun previous ↦ decide (utf8Bytes record.path ≤ previous)) ||
        record.digest.bytes.all (· == 0) then
      .error .nonCanonicalInput
    else
      let length := byteLength record.path
      let pathBytes ← addTreeLimit totals.pathBytes length "canonical tree path bytes"
        limits.pathBytes
      let contentBytes ← addTreeLimit totals.contentBytes record.bytes.toNat
        "canonical tree content bytes" limits.contentBytes
      let metadataBytes ← addTreeLimit totals.metadataBytes (8 + length + (8 + 32))
        "canonical tree metadata bytes" limits.metadataBytes
      checkTreeRecords limits (some (utf8Bytes record.path))
        ⟨pathBytes, contentBytes, metadataBytes⟩ records

def canonicalTreeMagic : List UInt8 := utf8Bytes "WRELTRE\x00"

def updateTreeRecord (record : CanonicalTreeRecord) : List UInt8 :=
  updateString record.path ++ countBytes record.bytes.toNat ++ record.digest.bytes

/-- The stream of a tree together with the content bytes it declares. -/
def canonicalTreeStream (limits : CanonicalTreeLimits) (records : List CanonicalTreeRecord) :
    Except CanonicalTreeDigestError (List UInt8 × ℕ) := do
  limits.validate
  if records.isEmpty then .error .nonCanonicalInput
  else if records.length > limits.records.toNat then
    .error (.resourceLimit "canonical tree records" limits.records.toNat)
  else
    let totals ← checkTreeRecords limits none ⟨0, 0, 20⟩ records
    if totals.contentBytes = 0 then .error .nonCanonicalInput
    else
      .ok (canonicalTreeMagic ++ digestVersion ++ countedItems updateTreeRecord records,
        totals.contentBytes)

def canonicalTreeDigest (sha256 : List UInt8 → Sha256Digest) (limits : CanonicalTreeLimits)
    (records : List CanonicalTreeRecord) :
    Except CanonicalTreeDigestError CanonicalTreeMeasurement :=
  (canonicalTreeStream limits records).map fun measured ↦
    ⟨sha256 measured.1, measured.2, records.length⟩

def hexDigits : List Char := "0123456789abcdef".toList

/-- Two digits for each byte, high half first. -/
def hexBytes (bytes : List UInt8) : List Char :=
  bytes.flatMap fun byte ↦
    [hexDigits.getD (byte.toNat / 16) '0', hexDigits.getD (byte.toNat % 16) '0']

/-- The path of a source in the session database: its package identity in hexadecimal, the source
root of the package and the path beneath it. -/
def qualifiedSourcePath (package : PackageIdentity) (sourceRoot sourcePath : String) :
    Except LoadError String :=
  let length := 9 + byteLength package.name.text * 2 + 1 + byteLength package.version.text * 2 +
    (1 + 64 + 1) + byteLength sourceRoot + 1 + byteLength sourcePath
  if length > maxSourcePathBytes then
    .error (.resourceLimit "qualified source path bytes" maxSourcePathBytes)
  else
    .ok (String.ofList ("packages/".toList ++ hexBytes (utf8Bytes package.name.text) ++ ['/'] ++
      hexBytes (utf8Bytes package.version.text) ++ ['/'] ++ hexBytes package.sourceDigest.bytes ++
      ['/'] ++ sourceRoot.toList ++ ['/'] ++ sourcePath.toList))

structure SourceGraphHashInput where
  graph : PackageGraph
  sources : SourceDatabase
  manifests : List LoadedManifest
  scenarios : List ScenarioInput

def updateIdentity (identity : PackageIdentity) : List UInt8 :=
  updateString identity.name.text ++ updateString identity.version.text ++
    identity.sourceDigest.bytes

def updateLocator : PackageLocator → List UInt8
  | .workspace path => 0 :: updateString path
  | .archive provider key => 1 :: (updateString provider ++ updateString key)
  | .toolchain component => 2 :: updateString component

def updateManifest (manifest : LoadedManifest) : List UInt8 :=
  updateIdentity manifest.identity ++ updateLocator manifest.locator ++
    manifest.manifestDigest.bytes

def updateScenario (scenario : ScenarioInput) : List UInt8 :=
  updateIdentity scenario.package ++ updateString scenario.path ++ scenario.digest.bytes

/-- The first module past the run of modules of one package that starts at `cursor`. -/
def moduleCursor (modules : List ModuleRecord) (package cursor : ℕ) : ℕ :=
  cursor + ((modules.drop cursor).takeWhile fun module ↦ module.package.val == package).length

/-- Where the modules of each package start, followed by where the last run ends. -/
def moduleStarts (modules : List ModuleRecord) : List ℕ → ℕ → List ℕ
  | [], cursor => [cursor]
  | package :: packages, cursor =>
    cursor :: moduleStarts modules packages (moduleCursor modules package cursor)

def updateModule (sources : SourceDatabase) (identity : PackageIdentity) (module : ModuleRecord) :
    Except LoadError (List UInt8) :=
  match sources.get module.source with
  | none => .error (.invalidOutput "source graph hashing encountered a missing source")
  | some source =>
    .ok (updateIdentity identity ++ updateString source.path ++ source.digest.bytes)

/-- The modules of one package, by the range its starts give. -/
def updatePackageModules (input : SourceGraphHashInput) (starts : List ℕ)
    (entry : PackageRecord × ℕ) : Except LoadError (List UInt8) := do
  match starts[entry.2]?, starts[entry.2 + 1]? with
  | some start, some stop =>
    let parts ← ((input.graph.modules.drop start).take (stop - start)).mapM
      (updateModule input.sources entry.1.identity)
    .ok parts.flatten
  | _, _ => .error (.invalidOutput "source graph module range is missing")

def sourceGraphMagic : List UInt8 := utf8Bytes "WRELSRC\x00"

def sourceGraphStream (input : SourceGraphHashInput) : Except LoadError (List UInt8) := do
  let modules := input.graph.modules
  let packages := input.graph.packages
  let starts := moduleStarts modules (List.range packages.length) 0
  if starts.getLastD 0 ≠ modules.length then
    .error (.invalidOutput "module records are not grouped by dense package ID")
  else
    let parts ← packages.zipIdx.mapM (updatePackageModules input starts)
    .ok (sourceGraphMagic ++ digestVersion ++ countedItems updateManifest input.manifests ++
      (countBytes modules.length ++ parts.flatten) ++
      countedItems updateScenario input.scenarios)

def hashSourceGraph (sha256 : List UInt8 → Sha256Digest) (input : SourceGraphHashInput) :
    Except LoadError Sha256Digest :=
  (sourceGraphStream input).map sha256

open Wrela.Checked

def manifestCodecLimits (limits : LoadLimits) : ManifestCodecLimits :=
  let entryLimit : UInt32 :=
    if limits.manifestBytesPerPackage.toNat < 2 ^ 32 then limits.manifestBytesPerPackage.toUInt32
    else 0xffffffff
  { bytes := limits.manifestBytesPerPackage
    stringBytes := limits.manifestBytesPerPackage
    modules := min limits.sources entryLimit
    dependencies := entryLimit
    profiles := entryLimit
    images := entryLimit
    imageTests := min limits.scenarios entryLimit }

/-- Limit errors of the codec are limit errors of the load. -/
def mapRootDecodeError : DecodeError → LoadError
  | .invalidLimits => .invalidLimits
  | .resourceLimit resource limit => .resourceLimit resource limit
  | error => .rootManifest error

def mapCandidateManifestError : DecodeError → LoadError
  | .invalidLimits => .invalidLimits
  | .resourceLimit resource limit => .resourceLimit resource limit
  | _ => .invalidOutput "candidate manifest cannot be canonically encoded"

def checkCount (resource : String) (count limit : ℕ) : Except LoadError Unit :=
  failIf (decide (count > limit)) (.resourceLimit resource limit)

/-- Add to a running total that must stay within its limit. -/
def addBytes (limit : ℕ) (resource : String) (total bytes : ℕ) : Except LoadError ℕ :=
  if total + bytes > limit then .error (.resourceLimit resource limit) else .ok (total + bytes)

def validateCandidateManifestShape (manifest : PackageManifest) (limits : ManifestCodecLimits) :
    Except LoadError Unit := do
  checkCount "manifest dependencies" manifest.dependencies.length limits.dependencies.toNat
  checkCount "manifest profiles" manifest.profiles.length limits.profiles.toNat
  checkCount "manifest images" manifest.images.length limits.images.toNat
  checkCount "manifest image tests" manifest.imageTests.length limits.imageTests.toNat
  failIf (decide (byteLength manifest.sourceRoot > 4096))
    (.invalidOutput "candidate source root exceeds the semantic limit")
  failIf (manifest.dependencies.any fun dependency ↦ decide (byteLength dependency.requirement > 256))
    (.invalidOutput "candidate dependency requirement exceeds the semantic limit")
  failIf (manifest.profiles.any fun profile ↦ decide (byteLength profile.name > 4096))
    (.invalidOutput "candidate manifest name exceeds the semantic limit")
  failIf (manifest.images.any fun image ↦
      [image.name, image.entry, image.profile].any fun value ↦ decide (byteLength value > 4096))
    (.invalidOutput "candidate image text exceeds the semantic limit")
  failIf (manifest.imageTests.any fun test ↦
      [test.name, test.image, test.scenario].any fun value ↦ decide (byteLength value > 4096))
    (.invalidOutput "candidate image-test text exceeds the semantic limit")

/-- Shape and running size of one candidate manifest. -/
def checkCandidateManifest (limits : LoadLimits) (total : ℕ) (manifest : LoadedManifestInput) :
    Except LoadError ℕ := do
  validateCandidateManifestShape manifest.manifest (manifestCodecLimits limits)
  checkCount "candidate canonical manifest bytes" manifest.canonicalManifest.length
    limits.manifestBytesPerPackage.toNat
  addBytes limits.manifestBytes.toNat "candidate aggregate manifest bytes" total
    manifest.canonicalManifest.length

/-- The graph edges of a package are the dependencies its manifest declares. -/
def candidateDependenciesMatch (U : Unicode) (graph : PackageGraph) (package : PackageRecord)
    (manifest : PackageManifest) : Bool :=
  package.dependencies.length == manifest.dependencies.length &&
    (package.dependencies.zip manifest.dependencies).all fun entry ↦
      match graph.package entry.1.package with
      | none => false
      | some dependency =>
        entry.1.name == entry.2.name && entry.2.package == dependency.identity.name &&
          exactRequirementVersion U entry.2.requirement == some dependency.identity.version

/-- One manifest against the graph, its canonical bytes, its digest and its locator.  The result
keeps the canonical bytes and the running size. -/
def sealManifest (U : Unicode) (request : LoadRequest) (graph : PackageGraph) (total : ℕ)
    (package : PackageRecord) (candidate : LoadedManifestInput) :
    Except LoadError (ℕ × LoadedManifest × List UInt8) := do
  let limits := request.limits
  let canonical ← (request.codec.canonicalManifest candidate.manifest
    (manifestCodecLimits limits)).mapError mapCandidateManifestError
  checkCount "encoded canonical manifest bytes" canonical.length
    limits.manifestBytesPerPackage.toNat
  (candidate.manifest.validate U).mapError (.manifestCheck "invalid manifest")
  let expectedLocator :=
    if package.id = graph.root then request.rootLocator else request.coreLocator
  failIf (package.identity != candidate.identity ||
      candidate.identity.name != candidate.manifest.name ||
      candidate.identity.version != candidate.manifest.version ||
      canonical != candidate.canonicalManifest ||
      decide (total + canonical.length > limits.manifestBytes.toNat) ||
      request.sha256 canonical != candidate.manifestDigest ||
      !candidateDependenciesMatch U graph package candidate.manifest ||
      candidate.locator != expectedLocator)
    (.invalidOutput "manifest differs from graph, canonical bytes, digest, or locator")
  .ok (total + canonical.length,
    ⟨candidate.identity, candidate.locator, candidate.manifestDigest, candidate.manifest⟩, canonical)

def sealManifests (U : Unicode) (request : LoadRequest) (graph : PackageGraph) :
    ℕ → List (PackageRecord × LoadedManifestInput) →
      Except LoadError (List (LoadedManifest × List UInt8))
  | _, [] => .ok []
  | total, entry :: entries => do
    let sealed ← sealManifest U request graph total entry.1 entry.2
    let rest ← sealManifests U request graph sealed.1 entries
    .ok (sealed.2 :: rest)

/-- Every module has a source of its own. -/
def coverSources : List Bool → List ModuleRecord → Except LoadError Unit
  | _, [] => .ok ()
  | covered, module :: modules =>
    match covered[module.source.val.toNat]? with
    | none => .error (.invalidOutput "module source ID is outside the source database")
    | some true => .error (.invalidOutput "module graph uses one source more than once")
    | some false => coverSources (covered.set module.source.val.toNat true) modules

/-- What one record adds to the content of its package. -/
structure SealedContent where
  package : ℕ
  record : PackageContentRecord
  bytes : ℕ
deriving DecidableEq

def sealModule (request : LoadRequest) (candidate : LoadedWorkspaceCandidate)
    (manifests : List LoadedManifest) (module : ModuleRecord) : Except LoadError SealedContent := do
  let _ ← orFail (candidate.graph.package module.package)
    (.invalidOutput "module refers to an unknown package")
  let loaded ← orFail manifests[module.package.val]? (.invalidOutput "module manifest is missing")
  let source ← orFail (candidate.sources.get module.source)
    (.invalidOutput "module source ID is missing")
  let relativePath := module.path.expectedSourcePath
  let expectedPath ← qualifiedSourcePath loaded.identity loaded.manifest.sourceRoot relativePath
  failIf (source.path != expectedPath ||
      request.sha256 (Wire.utf8Bytes source.text) != source.digest)
    (.invalidOutput "source differs from its declaration or digest")
  .ok ⟨module.package.val, ⟨.source, relativePath, source.digest⟩, byteLength source.text⟩

/-- The scenario files the manifests declare, each once. -/
def declaredScenarios (manifests : List LoadedManifest) : Finset (PackageIdentity × String) :=
  (manifests.flatMap fun loaded ↦ loaded.manifest.imageTests.map fun test ↦
    (loaded.identity, test.scenario)).toFinset

def ScenarioInput.key (scenario : ScenarioInput) :
    (List UInt8 ×ₗ List UInt8 ×ₗ List UInt8) ×ₗ List UInt8 :=
  toLex (scenario.package.key, Wire.utf8Bytes scenario.path)

/-- One scenario takes its declaration; the declarations left and what it adds are returned. -/
def sealScenario (request : LoadRequest) (manifests : List LoadedManifest)
    (declared : Finset (PackageIdentity × String)) (scenario : ScenarioInput) :
    Except LoadError (Finset (PackageIdentity × String) × SealedContent) := do
  let package ← orFail (manifests.findIdx? fun loaded ↦ loaded.identity == scenario.package)
    (.invalidOutput "scenario belongs to an unknown package")
  failIf (decide ((scenario.package, scenario.path) ∉ declared))
    (.invalidOutput "scenario is duplicated or was not declared by its package")
  failIf (isBlank scenario.path || (Wire.fromUtf8 scenario.bytes).isNone)
    (.invalidOutput "scenario path is empty or its bytes are not UTF-8")
  failIf (request.sha256 scenario.bytes != scenario.digest)
    (.invalidOutput "scenario bytes differ from their digest")
  .ok (declared.erase (scenario.package, scenario.path),
    ⟨package, ⟨.scenario, scenario.path, scenario.digest⟩, scenario.bytes.length⟩)

def sealScenarios (request : LoadRequest) (manifests : List LoadedManifest) :
    Finset (PackageIdentity × String) → List ScenarioInput →
      Except LoadError (Finset (PackageIdentity × String) × List SealedContent)
  | declared, [] => .ok (declared, [])
  | declared, scenario :: scenarios => do
    let sealed ← sealScenario request manifests declared scenario
    let rest ← sealScenarios request manifests sealed.1 scenarios
    .ok (rest.1, sealed.2 :: rest.2)

/-- The content digest of one package, recomputed. -/
def sealPackage (request : LoadRequest) (contents : List SealedContent) (index : ℕ)
    (sealed : LoadedManifest × List UInt8) : Except LoadError Unit := do
  let records := (contents.filter (·.package == index)).map SealedContent.record
  let actual ← (packageContentDigest request.sha256 sealed.2 records).mapError fun _ ↦
    .invalidOutput "package content records are not canonical"
  failIf (actual != sealed.1.identity.sourceDigest)
    (.digestMismatch "package content" sealed.1.identity.sourceDigest actual)

def packageBytes (contents : List SealedContent) (index : ℕ) (canonical : List UInt8) : ℕ :=
  canonical.length + ((contents.filter (·.package == index)).map SealedContent.bytes).sum

/-- The checks on the request and on the sizes of the candidate. -/
def sealInputs (U : Unicode) (request : LoadRequest) (candidate : LoadedWorkspaceCandidate) :
    Except LoadError PackageManifest := do
  let limits := request.limits
  limits.validate
  checkCount "root manifest bytes" request.rootManifestBytes.length
    limits.manifestBytesPerPackage.toNat
  (validateLocator U request.rootLocator).mapError (.manifestCheck "invalid root locator")
  (validateLocator U request.coreLocator).mapError (.manifestCheck "invalid core locator")
  let requestedManifest ← (request.codec.decodeManifest request.rootManifestBytes
    (manifestCodecLimits limits)).mapError mapRootDecodeError
  checkCount "graph packages" candidate.graph.packages.length limits.packages.toNat
  checkCount "graph modules" candidate.graph.modules.length limits.sources.toNat
  checkCount "source records" candidate.sources.files.length limits.sources.toNat
  checkCount "manifest records" candidate.manifests.length limits.packages.toNat
  checkCount "scenario records" candidate.scenarios.length limits.scenarios.toNat
  let _ ← (candidate.sources.files.map fun source ↦ byteLength source.text).foldlM
    (addBytes limits.sourceBytes.toNat "candidate source bytes") 0
  let _ ← (candidate.scenarios.map fun scenario ↦ scenario.bytes.length).foldlM
    (addBytes limits.scenarioBytes.toNat "candidate scenario bytes") 0
  let _ ← candidate.manifests.foldlM (checkCandidateManifest limits) 0
  let root := candidate.manifests[candidate.graph.root.val]?
  failIf (candidate.graph.packages.isEmpty ||
      candidate.manifests.length != candidate.graph.packages.length ||
      !root.any fun root ↦
        root.locator == request.rootLocator && root.manifest == requestedManifest)
    (.invalidOutput "package, source, manifest, or root set differs")
  .ok requestedManifest

/-- The only constructor of a loaded workspace. -/
def sealLoadedWorkspace (U : Unicode) (request : LoadRequest)
    (candidate : LoadedWorkspaceCandidate) : Except LoadError LoadedWorkspace := do
  let limits := request.limits
  let graph := candidate.graph
  let _ ← sealInputs U request candidate
  let sealed ← sealManifests U request graph 0 (graph.packages.zip candidate.manifests)
  let manifests := sealed.map Prod.fst
  failIf (graph.modules.length != candidate.sources.files.length)
    (.invalidOutput "module graph does not cover each source exactly once")
  coverSources (List.replicate candidate.sources.files.length false) graph.modules
  let sources ← graph.modules.mapM (sealModule request candidate manifests)
  checkCount "source graph bytes" (sources.map SealedContent.bytes).sum limits.sourceBytes.toNat
  failIf (decide (¬ (manifests.map LoadedManifest.identity).Nodup))
    (.invalidOutput "loaded manifest identities are duplicated")
  checkCount "declared image tests" (manifests.map (·.manifest.imageTests.length)).sum
    limits.scenarios.toNat
  failIf (decide (¬ (candidate.scenarios.map ScenarioInput.key).IsChain (· < ·)))
    (.invalidOutput "scenario inputs are duplicated or not canonical")
  let scenarios ← sealScenarios request manifests (declaredScenarios manifests) candidate.scenarios
  failIf (decide (scenarios.1 ≠ ∅) ||
      decide ((scenarios.2.map SealedContent.bytes).sum > limits.scenarioBytes.toNat))
    (.invalidOutput "scenario set, order, size, declaration, or digest differs")
  let contents := sources ++ scenarios.2
  forAll (fun entry ↦ checkCount "package bytes" (packageBytes contents entry.2 entry.1.2)
    limits.bytesPerPackage.toNat) sealed.zipIdx
  forAll (fun entry ↦ sealPackage request contents entry.2 entry.1) sealed.zipIdx
  let digest ← hashSourceGraph request.sha256
    ⟨graph, candidate.sources, manifests, candidate.scenarios⟩
  .ok ⟨graph, candidate.sources, manifests, candidate.scenarios, digest⟩

end Wrela.PackageLoader
