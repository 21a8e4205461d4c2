import Wrela.PackageLoader.DigestLaws
import Wrela.PackageLoader.SealLaws

/-!
# When a load succeeds

Two packages that are acceptable on their own load together exactly when the root comes first in
canonical order: the loop visits the root first, while the source database and the seal ask for
increasing paths and scenarios.
-/

namespace Wrela.PackageLoader

open List Wrela.Source Wrela.BuildModel Wrela.Package Wrela.Checked

variable {U : Unicode} {request : LoadRequest} {root core : PackageBundle × AcquiredManifest}
  {dependency : ManifestDependency}

theorem sealLoadedWorkspace_candidateOf (h : Acquisition U request root core dependency)
    (hroot : PackageReady U request.limits root) (hcore : PackageReady U request.limits core)
    (hdependencies : core.2.manifest.dependencies = [])
    (hfits : FitsLimits request.limits root.2 core.2)
    (hname : root.1.identity.name ≠ core.1.identity.name) :
    (∃ workspace, sealLoadedWorkspace U request (candidateOf request root core dependency) =
      .ok workspace) ↔ ScenariosInOrder root core := by
  set candidate := candidateOf request root core dependency with hcandidate
  have hmanifests := sealManifests_candidateOf h hroot hcore hfits hdependencies
  have hscenarios : candidate.scenarios = root.2.scenarios ++ core.2.scenarios := rfl
  constructor
  · rintro ⟨workspace, hsealed⟩
    unfold sealLoadedWorkspace at hsealed
    obtain ⟨-, -, hsealed⟩ := bind_eq_ok.1 hsealed
    obtain ⟨sealed, -, hsealed⟩ := bind_eq_ok.1 hsealed
    iterate 2 obtain ⟨-, hsealed⟩ := unit_bind_eq_ok.1 hsealed
    obtain ⟨sources, -, hsealed⟩ := bind_eq_ok.1 hsealed
    iterate 3 obtain ⟨-, hsealed⟩ := unit_bind_eq_ok.1 hsealed
    obtain ⟨hchain, -⟩ := unit_bind_eq_ok.1 hsealed
    rw [← isChain_scenarios h hname, ← hscenarios]
    simpa using hchain
  · intro horder
    have hlength : candidate.graph.modules.length = candidate.sources.files.length := by
      simp [hcandidate, candidateOf, graphOf, databaseOf]
    have hcover : coverSources (List.replicate candidate.sources.files.length false)
        candidate.graph.modules = .ok () := by
      have hitems : candidate.sources.files.length = (workspaceItems root core).length :=
        length_databaseOf _
      rw [hitems]
      exact coverSources_graphOf (length_workspaceItems_lt hfits)
    have hidentity : root.1.identity ≠ core.1.identity := fun heq ↦ hname (by rw [heq])
    have hrootContents := filter_workspaceContents root core 0
    have hcoreContents := filter_workspaceContents root core 1
    rw [if_pos rfl, if_neg Nat.one_ne_zero, append_nil] at hrootContents
    rw [if_neg Nat.zero_ne_one, if_pos rfl, nil_append] at hcoreContents
    obtain ⟨digest, hdigest⟩ := @hashSourceGraph_candidateOf request root core dependency hfits
      [loadedManifest request root, loadedManifest request core]
    unfold sealLoadedWorkspace
    refine ⟨⟨candidate.graph, candidate.sources,
      [loadedManifest request root, loadedManifest request core], candidate.scenarios, digest⟩, ?_⟩
    refine bind_eq_ok.2 ⟨_, sealInputs_candidateOf h hroot hcore hfits, ?_⟩
    refine bind_eq_ok.2 ⟨_, hmanifests, ?_⟩
    refine unit_bind_eq_ok.2 ⟨failIf_eq_ok.2 (by simpa using hlength), ?_⟩
    refine unit_bind_eq_ok.2 ⟨hcover, ?_⟩
    refine bind_eq_ok.2 ⟨_, sealModules_candidateOf h hroot hcore hfits, ?_⟩
    refine unit_bind_eq_ok.2 ⟨checkCount_eq_ok.2 ?_, ?_⟩
    · have htexts := congrArg List.sum (texts_workspaceItems root core)
      rw [sum_append] at htexts
      rw [map_map]
      exact htexts.trans_le hfits.source_bytes
    refine unit_bind_eq_ok.2 ⟨failIf_eq_ok.2 (by simpa [loadedManifest] using hidentity), ?_⟩
    refine unit_bind_eq_ok.2 ⟨checkCount_eq_ok.2 (by
      simpa [loadedManifest] using hfits.image_tests), ?_⟩
    refine unit_bind_eq_ok.2 ⟨failIf_eq_ok.2 (by
      simpa [hscenarios] using (isChain_scenarios h hname).2 horder), ?_⟩
    refine bind_eq_ok.2 ⟨_, sealScenarios_candidateOf h hroot hcore hname, ?_⟩
    refine unit_bind_eq_ok.2 ⟨failIf_eq_ok.2 ?_, ?_⟩
    · simpa [scenarioContent, Function.comp_def] using hfits.scenario_bytes
    refine unit_bind_eq_ok.2 ⟨forAll_eq_ok.2 ?_, unit_bind_eq_ok.2 ⟨forAll_eq_ok.2 ?_, ?_⟩⟩
    · rintro entry hentry
      refine checkCount_eq_ok.2 ?_
      rcases mem_pair.1 hentry with rfl | rfl
      · exact (packageBytes_eq hrootContents).trans_le hroot.package_bytes
      · exact (packageBytes_eq hcoreContents).trans_le hcore.package_bytes
    · rintro entry hentry
      rcases mem_pair.1 hentry with rfl | rfl
      · exact sealPackage_eq_ok h.root_acquired hrootContents
      · exact sealPackage_eq_ok h.core_acquired hcoreContents
    exact bind_eq_ok.2 ⟨digest, hdigest, rfl⟩

/-- A request whose two packages are acceptable on their own: both are acquired, each passes the
checks made on it alone, the core package depends on nothing, and together they fit the limits of
the request. -/
structure IndividuallyValid (U : Unicode) (request : LoadRequest)
    (root core : PackageBundle × AcquiredManifest) : Prop where
  acquired : ∃ dependency, acquireBoth U request = .ok (root, core, dependency)
  root_ready : PackageReady U request.limits root
  core_ready : PackageReady U request.limits core
  core_dependencies : core.2.manifest.dependencies = []
  fits : FitsLimits request.limits root.2 core.2

theorem load_eq_ok_iff (hU : U.Standard) (h : IndividuallyValid U request root core)
    (hname : root.1.identity.name ≠ core.1.identity.name) :
    (∃ workspace, load U request = .ok workspace) ↔
      SourcesInOrder root core ∧ ScenariosInOrder root core := by
  obtain ⟨dependency, hacquired⟩ := h.acquired
  have hacquisition := acquisition_of_eq_ok hacquired
  rw [← sealLoadedWorkspace_candidateOf hacquisition h.root_ready h.core_ready h.core_dependencies
    h.fits hname]
  have hload : load U request = (assembleCandidate U request root core dependency >>=
      sealLoadedWorkspace U request) := by
    rw [load, hacquired]
    rfl
  simp only [hload, bind_eq_ok,
    assembleCandidate_eq_ok hU hacquisition h.root_ready h.core_ready h.fits hname]
  constructor
  · rintro ⟨workspace, candidate, ⟨horder, rfl⟩, hsealed⟩
    exact ⟨horder, workspace, hsealed⟩
  · rintro ⟨horder, workspace, hsealed⟩
    exact ⟨workspace, _, ⟨horder, rfl⟩, hsealed⟩

/-! ## Two workspaces

The root package is called `app` in one and `zeta` in the other; the core package and everything
else is the same.  The hasher is given by its values on the streams of the two loads. -/

section Workspaces

def mainDigest : Sha256Digest where
  bytes := [
    17, 99, 6, 219, 219, 35, 15, 218, 1, 44, 61, 226, 244, 13, 245, 184, 91, 58, 117, 52,
    143, 52, 73, 180, 140, 87, 165, 16, 233, 213, 254, 109]
  length_eq := rfl

def opsDigest : Sha256Digest where
  bytes := [
    36, 28, 109, 20, 98, 169, 142, 249, 30, 7, 236, 156, 227, 170, 130, 184, 75, 213, 0,
    176, 57, 214, 104, 35, 191, 231, 48, 110, 173, 67, 81, 120]
  length_eq := rfl

def coreManifestDigest : Sha256Digest where
  bytes := [
    255, 74, 167, 146, 200, 65, 97, 188, 186, 47, 211, 28, 217, 227, 130, 241, 203, 128,
    45, 117, 213, 165, 2, 73, 101, 233, 39, 179, 132, 241, 249, 212]
  length_eq := rfl

def coreContentDigest : Sha256Digest where
  bytes := [
    13, 173, 19, 197, 164, 149, 123, 146, 190, 179, 61, 169, 66, 255, 130, 65, 29, 122,
    63, 122, 46, 89, 115, 93, 104, 189, 13, 204, 11, 13, 202, 247]
  length_eq := rfl

def appManifestDigest : Sha256Digest where
  bytes := [
    130, 211, 181, 173, 194, 3, 175, 81, 125, 57, 154, 57, 161, 231, 246, 106, 206, 240,
    84, 86, 201, 126, 149, 62, 139, 241, 124, 182, 225, 157, 55, 131]
  length_eq := rfl

def appContentDigest : Sha256Digest where
  bytes := [
    63, 130, 206, 86, 96, 9, 211, 63, 122, 159, 80, 245, 155, 24, 115, 80, 175, 159, 112,
    228, 90, 245, 135, 243, 187, 231, 15, 95, 37, 55, 120, 255]
  length_eq := rfl

def zetaManifestDigest : Sha256Digest where
  bytes := [
    109, 216, 185, 76, 83, 129, 122, 46, 27, 150, 123, 67, 32, 122, 77, 164, 230, 174,
    136, 122, 151, 250, 68, 113, 93, 150, 165, 145, 144, 212, 59, 208]
  length_eq := rfl

def zetaContentDigest : Sha256Digest where
  bytes := [
    103, 187, 100, 186, 167, 170, 31, 63, 119, 30, 220, 52, 119, 63, 188, 253, 202, 84,
    72, 127, 171, 125, 86, 126, 104, 223, 99, 216, 194, 165, 83, 108]
  length_eq := rfl

def appGraphDigest : Sha256Digest where
  bytes := [
    234, 39, 250, 68, 27, 28, 58, 209, 196, 194, 198, 136, 181, 87, 76, 144, 144, 77,
    169, 181, 6, 96, 183, 106, 0, 96, 158, 96, 161, 182, 26, 156]
  length_eq := rfl

def dependencyText : String :=
  "\n[[dependency]]\nalias = \"core\"\npackage = \"wrela-core\"\nrequirement = \"=0.1.0\"\n"

def manifestText (name dependency : String) : String :=
  "schema = 1\nlanguage = \"0.1-design\"\n\n[package]\nname = \"" ++ name ++
    "\"\nversion = \"0.1.0\"\nsource_root = \"src\"\n" ++ dependency ++
    "\n[[profile]]\nname = \"development\"\nmode = \"development\"\ncomptime_steps = 10000000\n" ++
    "comptime_memory_bytes = 67108864\ncomptime_call_depth = 256\nstatic_bytes = 268435456\n" ++
    "peak_bytes = 536870912\nevent_log_bytes = 0\ndma_coherent = false\nrequire_iommu = false\n" ++
    "reset_timeout_ns = 5000000000\nquarantine_bytes = 16777216\nrecording = \"disabled\"\n" ++
    "optimization = \"development\"\nsealed_deployment = false\nwarnings_as_errors = false\n" ++
    "watchdogs = true\n"

def exampleDependency : ManifestDependency := ⟨⟨"core"⟩, ⟨"wrela-core"⟩, "=0.1.0"⟩

def exampleManifestOf (name : String) (dependencies : List ManifestDependency) : PackageManifest where
  schema := 1
  language := .design01
  name := ⟨name⟩
  version := ⟨"0.1.0"⟩
  sourceRoot := "src"
  dependencies := dependencies
  profiles := [.development]
  images := []
  imageTests := []

/-- A package with one source, and what acquisition makes of it. -/
def examplePackage (name text file module source : String) (dependencies : List ManifestDependency)
    (locator : PackageLocator) (content digest : Sha256Digest) : PackageBundle × AcquiredManifest :=
  (⟨⟨⟨name⟩, ⟨"0.1.0"⟩, content⟩, locator, Wire.utf8Bytes text, [⟨file, source, digest⟩], []⟩,
    ⟨exampleManifestOf name dependencies, Wire.utf8Bytes text, [⟨⟨[module]⟩, file, source, digest⟩],
      []⟩)

def exampleRoot (name : String) (content : Sha256Digest) : PackageBundle × AcquiredManifest :=
  examplePackage name (manifestText name dependencyText) "main.wr" "main" "module main\n"
    [exampleDependency] (.workspace ".") content mainDigest

def exampleCore : PackageBundle × AcquiredManifest :=
  examplePackage "wrela-core" (manifestText "wrela-core" "") "ops.wr" "ops" "module ops\n" []
    (.workspace "std/wrela-core") coreContentDigest opsDigest

def contentStream (package : PackageBundle × AcquiredManifest) : List UInt8 :=
  (packageContentStream package.2.canonicalManifest
    (contentRecords package.2.sources package.2.scenarios)).toOption.getD []

def exampleSha256 (root : PackageBundle × AcquiredManifest) (manifest content graph : Sha256Digest)
    (bytes : List UInt8) : Sha256Digest :=
  if bytes = Wire.utf8Bytes "module main\n" then mainDigest
  else if bytes = Wire.utf8Bytes "module ops\n" then opsDigest
  else if bytes = root.2.canonicalManifest then manifest
  else if bytes = exampleCore.2.canonicalManifest then coreManifestDigest
  else if bytes = contentStream root then content
  else if bytes = contentStream exampleCore then coreContentDigest
  else graph

def exampleCodec (root : PackageBundle × AcquiredManifest) : PackageCodec where
  decodeManifest bytes _ :=
    if bytes = root.2.canonicalManifest then .ok root.2.manifest
    else if bytes = exampleCore.2.canonicalManifest then .ok exampleCore.2.manifest
    else .error (.malformed 0 "not a manifest of the example")
  canonicalManifest manifest _ :=
    if manifest = root.2.manifest then .ok root.2.canonicalManifest
    else if manifest = exampleCore.2.manifest then .ok exampleCore.2.canonicalManifest
    else .error (.nonCanonical "not a manifest of the example")

def exampleRequest (root : PackageBundle × AcquiredManifest)
    (manifest content graph : Sha256Digest) : LoadRequest where
  rootLocator := .workspace "."
  rootManifestBytes := root.2.canonicalManifest
  coreLocator := .workspace "std/wrela-core"
  provider locator _ _ _ _ := if locator = .workspace "." then .ok root.1 else .ok exampleCore.1
  sha256 := exampleSha256 root manifest content graph
  codec := exampleCodec root
  limits := ⟨16, 1024, 65536, 1048576, 1048576, 1024, 1048576, 1048576⟩

def appRoot : PackageBundle × AcquiredManifest := exampleRoot "app" appContentDigest

def zetaRoot : PackageBundle × AcquiredManifest := exampleRoot "zeta" zetaContentDigest

def appRequest : LoadRequest :=
  exampleRequest appRoot appManifestDigest appContentDigest appGraphDigest

/-- The load of this request ends before a source graph is hashed. -/
def zetaRequest : LoadRequest :=
  exampleRequest zetaRoot zetaManifestDigest zetaContentDigest zetaContentDigest

/-- A package with one source and no scenario is acceptable when that source and its sizes are. -/
theorem packageReady_of_single (path : String) (hsources : package.2.sources = [source])
    (hscenarios : package.2.scenarios = [])
    (hpath : qualifiedSourcePath package.1.identity package.2.manifest.sourceRoot
      source.relativePath = .ok path) (hvalid : validateSourcePath U path = .ok ())
    (hsizes : byteLength source.text < 2 ^ 32 ∧ (lineStarts source.text).length < 2 ^ 32 ∧
      package.2.canonicalManifest.length ≤ limits.manifestBytesPerPackage.toNat ∧
      package.2.canonicalManifest.length + byteLength source.text ≤ limits.bytesPerPackage.toNat)
    (hshape : validateCandidateManifestShape package.2.manifest (manifestCodecLimits limits) =
      .ok ()) :
    PackageReady U limits package where
  source_path := by
    rw [hsources, forall_mem_singleton]
    exact ⟨path, hpath, hvalid⟩
  source_text := by
    rw [hsources, forall_mem_singleton]
    exact ⟨hsizes.1, hsizes.2.1⟩
  manifest_shape := hshape
  manifest_bytes := hsizes.2.2.1
  package_bytes := by
    simpa [hsources, hscenarios] using hsizes.2.2.2
  scenario_path := by simp [hscenarios]

theorem exampleCore_ready : PackageReady .ascii appRequest.limits exampleCore :=
  packageReady_of_single (qualifiedPathText exampleCore.1.identity "src" "ops.wr") rfl rfl
    (by decide +kernel) (by decide +kernel) (by decide +kernel) (by decide +kernel)

theorem individuallyValid_appRequest : IndividuallyValid .ascii appRequest appRoot exampleCore where
  acquired := ⟨exampleDependency, by decide +kernel⟩
  root_ready := packageReady_of_single (qualifiedPathText appRoot.1.identity "src" "main.wr") rfl
    rfl (by decide +kernel) (by decide +kernel) (by decide +kernel) (by decide +kernel)
  core_ready := exampleCore_ready
  core_dependencies := rfl
  fits := by constructor <;> decide +kernel

theorem individuallyValid_zetaRequest :
    IndividuallyValid .ascii zetaRequest zetaRoot exampleCore where
  acquired := ⟨exampleDependency, by decide +kernel⟩
  root_ready := packageReady_of_single (qualifiedPathText zetaRoot.1.identity "src" "main.wr") rfl
    rfl (by decide +kernel) (by decide +kernel) (by decide +kernel) (by decide +kernel)
  core_ready := exampleCore_ready
  core_dependencies := rfl
  fits := by constructor <;> decide +kernel

/-- A root that sorts before the core package loads. -/
theorem load_appRequest : IndividuallyValid .ascii appRequest appRoot exampleCore ∧
    ∃ workspace, load .ascii appRequest = .ok workspace := by
  refine ⟨individuallyValid_appRequest,
    (load_eq_ok_iff Unicode.ascii_standard individuallyValid_appRequest (by decide)).2 ⟨?_, ?_⟩⟩
  · exact .inr (.inr (by decide))
  · exact .inl rfl

/-- The same root under a name that sorts after the core package does not: the source database
refuses a path that does not follow the last one. -/
theorem load_zetaRequest : IndividuallyValid .ascii zetaRequest zetaRoot exampleCore ∧
    zetaRoot.1.identity.name ≠ exampleCore.1.identity.name ∧
    load .ascii zetaRequest = .error (.source (.nonCanonicalPathOrder
      (qualifiedPathText zetaRoot.1.identity "src" "main.wr")
      (qualifiedPathText exampleCore.1.identity "src" "ops.wr"))) :=
  ⟨individuallyValid_zetaRequest, by decide, by decide +kernel⟩

end Workspaces

end Wrela.PackageLoader
