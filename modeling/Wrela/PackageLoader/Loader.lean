import Wrela.PackageLoader.Digest

/-!
# Loading a workspace

The root package and the one core package it depends on are acquired, checked each on its own and
then put together, root first, into one graph and one source database for the seal.
-/

namespace Wrela.PackageLoader

open Wrela.Source Wrela.BuildModel Wrela.Package Wrela.Checked

/-- The only alias a root manifest may declare. -/
def coreAlias : String := "core"

def oneCoreDependency (manifest : PackageManifest) : Except LoadError ManifestDependency :=
  match manifest.dependencies with
  | [dependency] =>
    if dependency.name.text == coreAlias then .ok dependency
    else .error (.manifest ("root manifest's sole dependency must use the reserved alias core, not " ++
      dependency.name.text))
  | _ => .error (.manifest
      "root manifest must declare exactly one dependency, the reserved core alias")

/-- The identity shown for a package whose content is not known yet. -/
def pendingIdentity (name : PackageName) (version : PackageVersion) : PackageIdentity :=
  ⟨name, version, .repeated 0⟩

def acquirePackage (request : LoadRequest) (locator : PackageLocator) (name : PackageName)
    (version : PackageVersion) : Except LoadError PackageBundle := do
  let bundle ← (request.provider locator name version request.limits.bytesPerPackage
    request.limits.manifestBytesPerPackage).mapError (.provider (pendingIdentity name version))
  failIf (bundle.identity.name != name || bundle.identity.version != version)
    (.provider (pendingIdentity name version) .identityMismatch)
  failIf (bundle.locator != locator)
    (.provider bundle.identity (.corrupt "provider substituted the package locator"))
  .ok bundle

structure ValidatedSource where
  module : ModulePath
  relativePath : String
  text : String
  digest : Sha256Digest
deriving DecidableEq

/-- The text before a suffix. -/
def stripSuffix (suffix value : String) : Option String :=
  if suffix.toList.isSuffixOf value.toList then
    some (String.ofList (value.toList.take (value.toList.length - suffix.toList.length)))
  else none

/-- Refuse over-long and repeated paths. -/
def provideSources : List String → List SourceInput → Except LoadError Unit
  | _, [] => .ok ()
  | seen, source :: sources => do
    failIf (decide (byteLength source.path > maxSourcePathBytes))
      (.undeclaredSource (boundedErrorValue source.path))
    failIf (seen.contains source.path) (.duplicateSource (boundedErrorValue source.path))
    provideSources (source.path :: seen) sources

/-- The sources in the order of their paths. -/
def sortSources (sources : List SourceInput) : List SourceInput :=
  sources.insertionSort fun left right ↦ Wire.utf8Bytes left.path ≤ Wire.utf8Bytes right.path

def deriveModule (U : Unicode) (sha256 : List UInt8 → Sha256Digest) (portablePaths : List String)
    (source : SourceInput) : Except LoadError ValidatedSource := do
  (validateManifestPath U source.path).mapError (.manifestCheck "source path")
  let moduleText ← orFail (stripSuffix ".wr" source.path)
    (.manifest "source under source_root is not a .wr module file")
  failIf (portablePaths.contains (toAsciiLowercase source.path))
    (.manifest "module source path collides portably")
  let module ← (ModulePath.new U (splitText '/' moduleText)).mapError (.modulePath source.path)
  failIf (sha256 (Wire.utf8Bytes source.text) != source.digest)
    (.digestMismatch "source" source.digest (sha256 (Wire.utf8Bytes source.text)))
  .ok ⟨module, source.path, source.text, source.digest⟩

def deriveEach (U : Unicode) (sha256 : List UInt8 → Sha256Digest) :
    List String → List SourceInput → Except LoadError (List ValidatedSource)
  | _, [] => .ok []
  | portablePaths, source :: sources => do
    let validated ← deriveModule U sha256 portablePaths source
    let rest ← deriveEach U sha256 (toAsciiLowercase source.path :: portablePaths) sources
    .ok (validated :: rest)

/-- The modules of a package: every source is a module file, named by its path. -/
def deriveModules (U : Unicode) (sha256 : List UInt8 → Sha256Digest) (sources : List SourceInput) :
    Except LoadError (List ValidatedSource) := do
  provideSources [] sources
  failIf (decide (sources.length > maxModules)) (.resourceLimit "package modules" maxModules)
  let validated ← deriveEach U sha256 [] (sortSources sources)
  failIf (decide (¬ (validated.map fun source ↦ Wire.utf8Bytes source.relativePath).IsChain (· < ·)))
    (.manifest "derived module source paths are not canonical")
  .ok validated

def rejectUnknownImageModules (manifest : PackageManifest) (modules : List ValidatedSource) :
    Except LoadError Unit :=
  failIf (manifest.images.any fun image ↦
      !(modules.map ValidatedSource.module).contains image.module)
    (.manifest "image refers to an undeclared module")

/-- Refuse scenarios of another package and over-long or repeated paths. -/
def provideScenarios (package : PackageIdentity) :
    List String → List ScenarioInput → Except LoadError Unit
  | _, [] => .ok ()
  | seen, scenario :: scenarios => do
    failIf (scenario.package != package)
      (.provider package (.corrupt "provider substituted a scenario package identity"))
    failIf (decide (byteLength scenario.path > maxSourcePathBytes))
      (.undeclaredScenario (boundedErrorValue scenario.path))
    failIf (seen.contains scenario.path) (.duplicateScenario (boundedErrorValue scenario.path))
    provideScenarios package (scenario.path :: seen) scenarios

/-- The scenario paths a manifest declares, in order and each once. -/
def expectedScenarios (manifest : PackageManifest) : List String :=
  ((manifest.imageTests.map ImageTestDeclaration.scenario).dedup).insertionSort
    fun left right ↦ Wire.utf8Bytes left ≤ Wire.utf8Bytes right

def validateScenario (package : PackageIdentity) (sha256 : List UInt8 → Sha256Digest)
    (provided : List ScenarioInput) (path : String) : Except LoadError ScenarioInput := do
  let scenario ← orFail (provided.find? fun scenario ↦ scenario.path == path)
    (.missingScenario (boundedErrorValue path))
  failIf (Wire.fromUtf8 scenario.bytes).isNone
    (.provider package (.corrupt "scenario is not UTF-8"))
  failIf (sha256 scenario.bytes != scenario.digest)
    (.digestMismatch "scenario" scenario.digest (sha256 scenario.bytes))
  .ok ⟨package, scenario.path, scenario.bytes, scenario.digest⟩

def validateScenarios (package : PackageIdentity) (manifest : PackageManifest)
    (sha256 : List UInt8 → Sha256Digest) (scenarios : List ScenarioInput) :
    Except LoadError (List ScenarioInput) := do
  provideScenarios package [] scenarios
  let expected := expectedScenarios manifest
  let validated ← expected.mapM (validateScenario package sha256 scenarios)
  match (scenarios.filter fun scenario ↦ !expected.contains scenario.path).insertionSort
      fun left right ↦ Wire.utf8Bytes left.path ≤ Wire.utf8Bytes right.path with
  | scenario :: _ => .error (.undeclaredScenario (boundedErrorValue scenario.path))
  | [] => .ok validated

/-- Everything acquired and checked for one package. -/
structure AcquiredManifest where
  manifest : PackageManifest
  canonicalManifest : List UInt8
  sources : List ValidatedSource
  scenarios : List ScenarioInput
deriving DecidableEq

def preflightPackageBytes (limit : ℕ) (bundle : PackageBundle) : Except LoadError Unit := do
  let sourceBytes ← (bundle.sources.map fun source ↦ byteLength source.text).foldlM
    (addBytes limit "package bytes") 0
  let scenarioBytes ← (bundle.scenarios.map fun scenario ↦ scenario.bytes.length).foldlM
    (addBytes limit "package bytes") 0
  checkCount "package bytes" (bundle.manifestBytes.length + sourceBytes + scenarioBytes) limit

def mapPackageManifestError (package : PackageIdentity) : DecodeError → LoadError
  | .invalidLimits => .invalidLimits
  | .resourceLimit resource limit => .resourceLimit resource limit
  | error => .packageManifest package error

def acquireManifestContent (U : Unicode) (request : LoadRequest) (bundle : PackageBundle) :
    Except LoadError AcquiredManifest := do
  let limits := request.limits
  checkCount "package manifest bytes" bundle.manifestBytes.length
    limits.manifestBytesPerPackage.toNat
  preflightPackageBytes limits.bytesPerPackage.toNat bundle
  let manifest ← (request.codec.decodeManifest bundle.manifestBytes
    (manifestCodecLimits limits)).mapError (mapPackageManifestError bundle.identity)
  (manifest.validate U).mapError (.manifestCheck "invalid manifest")
  let canonical ← (request.codec.canonicalManifest manifest
    (manifestCodecLimits limits)).mapError (mapPackageManifestError bundle.identity)
  failIf (manifest.name != bundle.identity.name || manifest.version != bundle.identity.version)
    (.manifest "manifest identity differs from the acquired package")
  let sources ← deriveModules U request.sha256 bundle.sources
  rejectUnknownImageModules manifest sources
  let scenarios ← validateScenarios bundle.identity manifest request.sha256 bundle.scenarios
  .ok ⟨manifest, canonical, sources, scenarios⟩

/-- The content records of one package: its sources, then its scenarios. -/
def contentRecords (sources : List ValidatedSource) (scenarios : List ScenarioInput) :
    List PackageContentRecord :=
  (sources.map fun source ↦ ⟨.source, source.relativePath, source.digest⟩) ++
    scenarios.map fun scenario ↦ ⟨.scenario, scenario.path, scenario.digest⟩

def verifyPackageIdentity (request : LoadRequest) (bundle : PackageBundle)
    (acquired : AcquiredManifest) : Except LoadError Unit := do
  checkCount "package content records" (acquired.sources.length + acquired.scenarios.length)
    (request.limits.sources.toNat + request.limits.scenarios.toNat)
  let actual ← (packageContentDigest request.sha256 acquired.canonicalManifest
    (contentRecords acquired.sources acquired.scenarios)).mapError fun _ ↦
      .manifest "package content records are not canonical"
  failIf (actual != bundle.identity.sourceDigest)
    (.digestMismatch "package content" bundle.identity.sourceDigest actual)

/-- What the loop over the two packages accumulates. -/
structure LoadState where
  builder : PackageGraphBuilder
  sources : SourceDatabase
  scenarios : List ScenarioInput
  manifests : List LoadedManifestInput
  providedScenarioCount : ℕ

def graphOutcome {α : Type} (outcome : PackageGraphBuilder.Outcome α) :
    Except LoadError (α × PackageGraphBuilder) :=
  (outcome.1.mapError .graph).map fun value ↦ (value, outcome.2)

/-- One source enters the database and becomes a module. -/
def loadSource (U : Unicode) (identity : PackageIdentity) (sourceRoot : String)
    (handle : PackageHandle) (state : SourceDatabase × PackageGraphBuilder)
    (source : ValidatedSource) : Except LoadError (SourceDatabase × PackageGraphBuilder) := do
  let path ← qualifiedSourcePath identity sourceRoot source.relativePath
  let added ← (state.1.add U ⟨path, source.text, source.digest⟩).mapError .source
  let outcome ← graphOutcome (state.2.addModule handle source.module added.1)
  .ok (added.2, outcome.2)

def loadPackage (U : Unicode) (request : LoadRequest) (root : PackageIdentity)
    (rootHandle coreHandle : PackageHandle) (state : LoadState)
    (entry : PackageBundle × AcquiredManifest) : Except LoadError LoadState := do
  let bundle := entry.1
  let acquired := entry.2
  let manifestDigest := request.sha256 acquired.canonicalManifest
  let count ← addBytes request.limits.scenarios.toNat "provided scenario files"
    state.providedScenarioCount acquired.scenarios.length
  let handle := if bundle.identity = root then rootHandle else coreHandle
  let loaded ← acquired.sources.foldlM
    (loadSource U bundle.identity acquired.manifest.sourceRoot handle) (state.sources, state.builder)
  .ok {
    builder := loaded.2
    sources := loaded.1
    scenarios := state.scenarios ++ acquired.scenarios
    manifests := state.manifests ++ [⟨bundle.identity, bundle.locator, manifestDigest,
      acquired.manifest, acquired.canonicalManifest⟩]
    providedScenarioCount := count }

/-- The checks on the request and on each of the two packages alone. -/
def acquireBoth (U : Unicode) (request : LoadRequest) :
    Except LoadError ((PackageBundle × AcquiredManifest) × (PackageBundle × AcquiredManifest) ×
      ManifestDependency) := do
  let limits := request.limits
  limits.validate
  (validateLocator U request.rootLocator).mapError (.manifestCheck "invalid root locator")
  (validateLocator U request.coreLocator).mapError (.manifestCheck "invalid core locator")
  checkCount "root manifest bytes" request.rootManifestBytes.length
    limits.manifestBytesPerPackage.toNat
  let requestedRoot ← (request.codec.decodeManifest request.rootManifestBytes
    (manifestCodecLimits limits)).mapError mapRootDecodeError
  (requestedRoot.validate U).mapError (.manifestCheck "invalid root manifest")
  let coreDependency ← oneCoreDependency requestedRoot
  let coreVersion ← orFail (exactRequirementVersion U coreDependency.requirement)
    (.manifest "core dependency requirement must be one exact revision 0.1 requirement")
  let rootBundle ← acquirePackage request request.rootLocator requestedRoot.name
    requestedRoot.version
  let coreBundle ← acquirePackage request request.coreLocator coreDependency.package coreVersion
  let root ← acquireManifestContent U request rootBundle
  failIf (root.manifest != requestedRoot)
    (.manifest "provider substituted a different root manifest")
  let core ← acquireManifestContent U request coreBundle
  failIf (core.manifest.name != coreDependency.package || core.manifest.version != coreVersion)
    (.manifest "acquired core package does not match the declared core dependency")
  verifyPackageIdentity request rootBundle root
  verifyPackageIdentity request coreBundle core
  .ok ((rootBundle, root), (coreBundle, core), coreDependency)

/-- The two packages put together for the seal. -/
def assembleCandidate (U : Unicode) (request : LoadRequest)
    (root core : PackageBundle × AcquiredManifest) (coreDependency : ManifestDependency) :
    Except LoadError LoadedWorkspaceCandidate := do
  let builder := PackageGraphBuilder.new root.1.identity
  let withCore ← graphOutcome (builder.addPackage core.1.identity)
  let withEdge ← graphOutcome
    (withCore.2.addDependency builder.root coreDependency.name withCore.1)
  checkCount "loaded manifest records" 2 request.limits.packages.toNat
  let state ← [root, core].foldlM
    (loadPackage U request root.1.identity builder.root withCore.1)
    ⟨withEdge.2, .empty, [], [], 0⟩
  failIf (state.scenarios.length != state.providedScenarioCount)
    (.manifest "validated and provided scenario file counts differ")
  let graph ← state.builder.finish.mapError .graph
  .ok ⟨graph, state.sources, state.manifests, state.scenarios⟩

def load (U : Unicode) (request : LoadRequest) : Except LoadError LoadedWorkspace := do
  let (root, core, coreDependency) ← acquireBoth U request
  let candidate ← assembleCandidate U request root core coreDependency
  sealLoadedWorkspace U request candidate

end Wrela.PackageLoader
