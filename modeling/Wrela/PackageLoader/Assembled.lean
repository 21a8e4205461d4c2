import Wrela.PackageLoader.LoaderLaws

/-!
# What acquisition establishes

Both packages are checked on their own before anything is put together.  Here is everything those
checks leave behind, package by package.
-/

namespace Wrela.PackageLoader

open List Wrela.Source Wrela.BuildModel Wrela.Package Wrela.Checked

variable {U : Unicode}

/-- One scenario that was declared, provided and hashed. -/
structure ScenarioInput.Validated (package : PackageIdentity) (sha256 : List UInt8 → Sha256Digest)
    (scenario : ScenarioInput) : Prop where
  package_eq : scenario.package = package
  utf8 : (Wire.fromUtf8 scenario.bytes).isNone = false
  digest_eq : sha256 scenario.bytes = scenario.digest

theorem validateScenario_eq_ok (h : validateScenario package sha256 provided path = .ok scenario) :
    scenario.Validated package sha256 ∧ scenario.path = path ∧
      path ∈ provided.map ScenarioInput.path := by
  unfold validateScenario at h
  obtain ⟨found, hfound, h⟩ := bind_eq_ok.1 h
  obtain ⟨hutf8, h⟩ := unit_bind_eq_ok.1 h
  obtain ⟨hdigest, h⟩ := unit_bind_eq_ok.1 h
  cases h
  have hfound := orFail_eq_ok.1 hfound
  have hpath : found.path = path := by simpa using List.find?_some hfound
  exact ⟨⟨rfl, failIf_eq_ok.1 hutf8, by simpa using hdigest⟩, hpath,
    mem_map.2 ⟨found, List.mem_of_find?_eq_some hfound, hpath⟩⟩

variable {manifest : PackageManifest} {request : LoadRequest}

theorem mem_expectedScenarios :
    path ∈ expectedScenarios manifest ↔ ∃ test ∈ manifest.imageTests, test.scenario = path := by
  simp [expectedScenarios]

/-- The expected scenarios strictly increase. -/
theorem expectedScenarios_sorted (manifest : PackageManifest) :
    (expectedScenarios manifest).Pairwise fun left right ↦
      Wire.utf8Bytes left < Wire.utf8Bytes right := by
  have hsorted := pairwise_insertionSort
    (fun left right : String ↦ Wire.utf8Bytes left ≤ Wire.utf8Bytes right)
    (manifest.imageTests.map ImageTestDeclaration.scenario).dedup
  have hnodup : (expectedScenarios manifest).Nodup :=
    (perm_insertionSort _ _).nodup_iff.2 (nodup_dedup _)
  exact hsorted.imp₂ (fun _ _ hle hne ↦ lt_of_le_of_ne hle fun h ↦ hne (Wire.utf8Bytes_injective h))
    hnodup

theorem validateScenarios_eq_ok
    (h : validateScenarios package manifest sha256 scenarios = .ok validated) :
    (∀ scenario ∈ validated, scenario.Validated package sha256) ∧
      validated.map ScenarioInput.path = expectedScenarios manifest ∧
      (validated = [] ↔ scenarios = []) := by
  unfold validateScenarios at h
  obtain ⟨-, h⟩ := unit_bind_eq_ok.1 h
  obtain ⟨found, hfound, h⟩ := bind_eq_ok.1 h
  split at h
  · cases h
  rename_i hextra
  cases h
  have hpaths : validated.map ScenarioInput.path = expectedScenarios manifest := by
    rw [eq_comm, ← List.forall₂_eq_eq_eq, List.forall₂_map_right_iff]
    exact (mapM_eq_ok.1 hfound).imp fun path scenario hpath ↦ (validateScenario_eq_ok hpath).2.1.symm
  refine ⟨fun scenario hscenario ↦ ?_, hpaths, ?_, ?_⟩
  · obtain ⟨path, -, hpath⟩ := exists_of_mem_mapM hfound hscenario
    exact (validateScenario_eq_ok hpath).1
  · rintro rfl
    have hlength := congrArg List.length hextra
    rw [length_insertionSort] at hlength
    have hnone := filter_eq_nil_iff.1 (eq_nil_of_length_eq_zero hlength)
    refine eq_nil_iff_forall_not_mem.2 fun scenario hscenario ↦ hnone scenario hscenario ?_
    simp [← hpaths]
  · rintro rfl
    refine eq_nil_iff_forall_not_mem.2 fun scenario hscenario ↦ ?_
    obtain ⟨path, -, hpath⟩ := exists_of_mem_mapM hfound hscenario
    exact absurd (validateScenario_eq_ok hpath).2.2 (by simp)

/-- What the checks on one package establish about its content. -/
structure AcquiredPackage (U : Unicode) (request : LoadRequest) (locator : PackageLocator)
    (package : PackageBundle × AcquiredManifest) : Prop where
  locator_eq : package.1.locator = locator
  manifest_valid : package.2.manifest.validate U = .ok ()
  canonical_eq : request.codec.canonicalManifest package.2.manifest
    (manifestCodecLimits request.limits) = .ok package.2.canonicalManifest
  name_eq : package.2.manifest.name = package.1.identity.name
  version_eq : package.2.manifest.version = package.1.identity.version
  sources : DerivedSources U request.sha256 package.2.sources
  sources_length : package.2.sources.length = package.1.sources.length
  scenarios : ∀ scenario ∈ package.2.scenarios, scenario.Validated package.1.identity request.sha256
  scenario_paths : package.2.scenarios.map ScenarioInput.path = expectedScenarios package.2.manifest
  scenarios_nil : package.2.scenarios = [] ↔ package.1.scenarios = []
  content_digest : packageContentDigest request.sha256 package.2.canonicalManifest
    (contentRecords package.2.sources package.2.scenarios) = .ok package.1.identity.sourceDigest

theorem acquirePackage_eq_ok (h : acquirePackage request locator name version = .ok bundle) :
    bundle.identity.name = name ∧ bundle.identity.version = version ∧ bundle.locator = locator := by
  unfold acquirePackage at h
  obtain ⟨acquired, -, h⟩ := bind_eq_ok.1 h
  obtain ⟨hidentity, h⟩ := unit_bind_eq_ok.1 h
  obtain ⟨hlocator, h⟩ := unit_bind_eq_ok.1 h
  cases h
  simp only [failIf_eq_ok, Bool.or_eq_false_iff, bne_eq_false_iff_eq] at hidentity hlocator
  exact ⟨hidentity.1, hidentity.2, hlocator⟩

theorem acquiredPackage_of_eq_ok (h : acquireManifestContent U request bundle = .ok acquired)
    (hidentity : verifyPackageIdentity request bundle acquired = .ok ()) :
    AcquiredPackage U request bundle.locator (bundle, acquired) := by
  unfold acquireManifestContent at h
  iterate 2 obtain ⟨-, h⟩ := unit_bind_eq_ok.1 h
  obtain ⟨manifest, -, h⟩ := bind_eq_ok.1 h
  obtain ⟨hvalid, h⟩ := unit_bind_eq_ok.1 h
  obtain ⟨canonical, hcanonical, h⟩ := bind_eq_ok.1 h
  obtain ⟨hnames, h⟩ := unit_bind_eq_ok.1 h
  obtain ⟨sources, hsources, h⟩ := bind_eq_ok.1 h
  obtain ⟨-, h⟩ := unit_bind_eq_ok.1 h
  obtain ⟨scenarios, hscenarios, h⟩ := bind_eq_ok.1 h
  cases h
  unfold verifyPackageIdentity at hidentity
  obtain ⟨-, hidentity⟩ := unit_bind_eq_ok.1 hidentity
  obtain ⟨actual, hactual, hidentity⟩ := bind_eq_ok.1 hidentity
  simp only [failIf_eq_ok, Bool.or_eq_false_iff, bne_eq_false_iff_eq] at hnames hidentity
  obtain ⟨hderived, hlength⟩ := deriveModules_eq_ok hsources
  obtain ⟨hvalidated, hpaths, hnil⟩ := validateScenarios_eq_ok hscenarios
  exact {
    locator_eq := rfl
    manifest_valid := mapError_eq_ok.1 hvalid
    canonical_eq := mapError_eq_ok.1 hcanonical
    name_eq := hnames.1
    version_eq := hnames.2
    sources := hderived
    sources_length := hlength
    scenarios := hvalidated
    scenario_paths := hpaths
    scenarios_nil := hnil
    content_digest := hidentity ▸ mapError_eq_ok.1 hactual }

/-- What acquisition establishes about the request and both packages. -/
structure Acquisition (U : Unicode) (request : LoadRequest)
    (root core : PackageBundle × AcquiredManifest) (dependency : ManifestDependency) : Prop where
  limits_valid : request.limits.validate = .ok ()
  rootLocator_valid : validateLocator U request.rootLocator = .ok ()
  coreLocator_valid : validateLocator U request.coreLocator = .ok ()
  rootManifest_bytes :
    request.rootManifestBytes.length ≤ request.limits.manifestBytesPerPackage.toNat
  rootManifest_eq : request.codec.decodeManifest request.rootManifestBytes
    (manifestCodecLimits request.limits) = .ok root.2.manifest
  dependencies_eq : root.2.manifest.dependencies = [dependency]
  dependency_package : dependency.package = core.1.identity.name
  dependency_version :
    exactRequirementVersion U dependency.requirement = some core.1.identity.version
  root_acquired : AcquiredPackage U request request.rootLocator root
  core_acquired : AcquiredPackage U request request.coreLocator core

theorem checkCount_eq_ok {resource : String} {count limit : ℕ} :
    checkCount resource count limit = .ok () ↔ count ≤ limit := by
  simp [checkCount]

theorem oneCoreDependency_eq_ok (h : oneCoreDependency manifest = .ok dependency) :
    manifest.dependencies = [dependency] := by
  unfold oneCoreDependency at h
  split at h
  · rename_i hdependencies
    split_ifs at h
    cases h
    exact hdependencies
  · cases h

theorem acquisition_of_eq_ok {root core : PackageBundle × AcquiredManifest}
    {dependency : ManifestDependency} (h : acquireBoth U request = .ok (root, core, dependency)) :
    Acquisition U request root core dependency := by
  unfold acquireBoth at h
  obtain ⟨hlimits, h⟩ := unit_bind_eq_ok.1 h
  obtain ⟨hrootLocator, h⟩ := unit_bind_eq_ok.1 h
  obtain ⟨hcoreLocator, h⟩ := unit_bind_eq_ok.1 h
  obtain ⟨hbytes, h⟩ := unit_bind_eq_ok.1 h
  obtain ⟨requested, hrequested, h⟩ := bind_eq_ok.1 h
  obtain ⟨-, h⟩ := unit_bind_eq_ok.1 h
  obtain ⟨coreDependency, hdependency, h⟩ := bind_eq_ok.1 h
  obtain ⟨coreVersion, hversion, h⟩ := bind_eq_ok.1 h
  obtain ⟨rootBundle, hrootBundle, h⟩ := bind_eq_ok.1 h
  obtain ⟨coreBundle, hcoreBundle, h⟩ := bind_eq_ok.1 h
  obtain ⟨rootAcquired, hroot, h⟩ := bind_eq_ok.1 h
  obtain ⟨hsame, h⟩ := unit_bind_eq_ok.1 h
  obtain ⟨coreAcquired, hcore, h⟩ := bind_eq_ok.1 h
  obtain ⟨-, h⟩ := unit_bind_eq_ok.1 h
  obtain ⟨hrootIdentity, h⟩ := unit_bind_eq_ok.1 h
  obtain ⟨hcoreIdentity, h⟩ := unit_bind_eq_ok.1 h
  cases h
  have hsame : rootAcquired.manifest = requested := by simpa using hsame
  obtain ⟨-, -, hrootPlace⟩ := acquirePackage_eq_ok hrootBundle
  obtain ⟨hname, hcoreVersion, hcorePlace⟩ := acquirePackage_eq_ok hcoreBundle
  exact {
    limits_valid := hlimits
    rootLocator_valid := mapError_eq_ok.1 hrootLocator
    coreLocator_valid := mapError_eq_ok.1 hcoreLocator
    rootManifest_bytes := checkCount_eq_ok.1 hbytes
    rootManifest_eq := hsame ▸ mapError_eq_ok.1 hrequested
    dependencies_eq := hsame ▸ oneCoreDependency_eq_ok hdependency
    dependency_package := hname.symm
    dependency_version := hcoreVersion ▸ orFail_eq_ok.1 hversion
    root_acquired := hrootPlace ▸ acquiredPackage_of_eq_ok hroot hrootIdentity
    core_acquired := hcorePlace ▸ acquiredPackage_of_eq_ok hcore hcoreIdentity }

variable {U : Unicode}

/-- The checks on one package that are made after acquisition: its source paths and texts fit the
database, its manifest and its bytes the limits of a package, and its scenario paths are not
blank. -/
structure PackageReady (U : Unicode) (limits : LoadLimits)
    (package : PackageBundle × AcquiredManifest) : Prop where
  source_path : ∀ source ∈ package.2.sources, ∃ path,
    qualifiedSourcePath package.1.identity package.2.manifest.sourceRoot source.relativePath =
      .ok path ∧ validateSourcePath U path = .ok ()
  source_text : ∀ source ∈ package.2.sources, byteLength source.text < 2 ^ 32 ∧
    (lineStarts source.text).length < 2 ^ 32
  manifest_shape :
    validateCandidateManifestShape package.2.manifest (manifestCodecLimits limits) = .ok ()
  manifest_bytes : package.2.canonicalManifest.length ≤ limits.manifestBytesPerPackage.toNat
  package_bytes : package.2.canonicalManifest.length +
    ((package.2.sources.map fun source ↦ byteLength source.text).sum +
      (package.2.scenarios.map fun scenario ↦ scenario.bytes.length).sum) ≤
    limits.bytesPerPackage.toNat
  scenario_path : ∀ scenario ∈ package.2.scenarios, isBlank scenario.path = false

/-- Both packages together stay within the limits of the request. -/
structure FitsLimits (limits : LoadLimits) (root core : AcquiredManifest) : Prop where
  packages : 2 ≤ limits.packages.toNat
  sources : root.sources.length + core.sources.length ≤ limits.sources.toNat
  modules : root.sources.length + core.sources.length ≤ maxModules
  manifest_bytes : root.canonicalManifest.length + core.canonicalManifest.length ≤
    limits.manifestBytes.toNat
  source_bytes : (root.sources.map fun source ↦ byteLength source.text).sum +
    (core.sources.map fun source ↦ byteLength source.text).sum ≤ limits.sourceBytes.toNat
  scenarios : root.scenarios.length + core.scenarios.length ≤ limits.scenarios.toNat
  image_tests : root.manifest.imageTests.length + core.manifest.imageTests.length ≤
    limits.scenarios.toNat
  scenario_bytes : (root.scenarios.map fun scenario ↦ scenario.bytes.length).sum +
    (core.scenarios.map fun scenario ↦ scenario.bytes.length).sum ≤ limits.scenarioBytes.toNat

def packageItems (handle : PackageHandle) (package : PackageBundle × AcquiredManifest) :
    List LoadItem :=
  package.2.sources.map fun source ↦ ⟨handle, qualifiedPathText package.1.identity
    package.2.manifest.sourceRoot source.relativePath, source⟩

/-- The sources of the root, then those of the core package. -/
def workspaceItems (root core : PackageBundle × AcquiredManifest) : List LoadItem :=
  packageItems ⟨0⟩ root ++ packageItems ⟨1⟩ core

theorem foldlM_loadSource (hready : PackageReady U limits package) (handle : PackageHandle)
    (state : SourceDatabase × PackageGraphBuilder) :
    package.2.sources.foldlM
        (loadSource U package.1.identity package.2.manifest.sourceRoot handle) state =
      (packageItems handle package).foldlM (loadItem U) state := by
  have hpath := hready.source_path
  unfold packageItems
  generalize package.2.sources = sources at hpath
  induction sources generalizing state with
  | nil => rfl
  | cons source sources ih =>
    obtain ⟨path, hsource, -⟩ := hpath source mem_cons_self
    have hstep : loadSource U package.1.identity package.2.manifest.sourceRoot handle state source =
        loadItem U state ⟨handle, path, source⟩ := by
      rw [loadSource, hsource]
      rfl
    rw [foldlM_cons, map_cons, foldlM_cons, hstep, qualifiedSourcePath_eq_text hsource]
    congr 1
    funext next
    exact ih next fun source' hsource' ↦ hpath source' (mem_cons_of_mem _ hsource')

/-- Keys stay distinct when a coarser key is. -/
theorem nodup_map_of_imp {α β γ : Type} {f : α → β} {g : α → γ} {as : List α}
    (h : (as.map g).Nodup) (himp : ∀ a ∈ as, ∀ b ∈ as, f a = f b → g a = g b) :
    (as.map f).Nodup := by
  rw [List.Nodup, pairwise_map] at h ⊢
  exact h.imp_of_mem fun ha hb hne heq ↦ hne (himp _ ha _ hb heq)

theorem mem_packageItems (h : item ∈ packageItems handle package) :
    item.source ∈ package.2.sources ∧ item.handle = handle ∧
      item.path = qualifiedPathText package.1.identity package.2.manifest.sourceRoot
        item.source.relativePath := by
  obtain ⟨source, hsource, rfl⟩ := mem_map.1 h
  exact ⟨hsource, rfl, rfl⟩

section OnePackage

variable {request : LoadRequest} {locator : PackageLocator}
  {package : PackageBundle × AcquiredManifest} {handle : PackageHandle}

theorem portable_packageItems (h : AcquiredPackage U request locator package) :
    ((packageItems handle package).map fun item ↦ toAsciiLowercase item.path).Nodup := by
  unfold packageItems
  rw [map_map]
  exact nodup_map_of_imp h.sources.portable fun _ _ _ _ heq ↦
    toAsciiLowercase_qualifiedPathText_eq_iff.1 heq

theorem modules_packageItems (h : AcquiredPackage U request locator package) :
    ((packageItems handle package).map fun item ↦
      (item.handle, item.source.module.portableKey)).Nodup := by
  unfold packageItems
  rw [map_map]
  refine nodup_map_of_imp h.sources.portable fun source hsource source' hsource' heq ↦ ?_
  rw [(h.sources.derived source hsource).relativePath_eq,
    (h.sources.derived source' hsource').relativePath_eq,
    ModulePath.toAsciiLowercase_expectedSourcePath, ModulePath.toAsciiLowercase_expectedSourcePath,
    (Prod.mk.inj heq).2]

theorem pathBytes_packageItems (h : AcquiredPackage U request locator package) :
    ((packageItems handle package).map pathBytes).Pairwise (· < ·) := by
  unfold packageItems
  rw [map_map, pairwise_map]
  exact h.sources.sorted.imp fun hlt ↦ qualifiedPathText_lt_iff.2 hlt

theorem itemKey_packageItems (hU : U.Standard) (h : AcquiredPackage U request locator package) :
    ((packageItems handle package).map itemKey).Pairwise (· ≤ ·) := by
  unfold packageItems
  rw [map_map, pairwise_map]
  refine h.sources.sorted.imp_of_mem fun {left right} hleft hright hlt ↦ ?_
  have hderived := h.sources.derived left hleft
  have hderived' := h.sources.derived right hright
  rw [hderived.relativePath_eq, hderived'.relativePath_eq,
    ModulePath.expectedSourcePath_lt_iff hU hderived.module_valid hderived'.module_valid] at hlt
  have hkey : toLex (handle.index, left.module.key) < toLex (handle.index, right.module.key) :=
    Prod.Lex.toLex_lt_toLex.2 (.inr ⟨rfl, hlt⟩)
  exact hkey.le

end OnePackage

/-- The paths of the root come before those of the core package. -/
def SourcesInOrder (root core : PackageBundle × AcquiredManifest) : Prop :=
  root.1.sources = [] ∨ core.1.sources = [] ∨
    Wire.utf8Bytes root.1.identity.name.text < Wire.utf8Bytes core.1.identity.name.text

section BothPackages

variable {request : LoadRequest} {root core : PackageBundle × AcquiredManifest}
  {dependency : ManifestDependency}

theorem loadable_workspaceItems (h : Acquisition U request root core dependency)
    (hroot : PackageReady U request.limits root) (hcore : PackageReady U request.limits core)
    (hfits : FitsLimits request.limits root.2 core.2)
    (hname : root.1.identity.name ≠ core.1.identity.name) :
    Loadable U 2 (workspaceItems root core) := by
  have hready {handle : PackageHandle} {package : PackageBundle × AcquiredManifest} {item : LoadItem}
      (hpackage : PackageReady U request.limits package)
      (hitem : item ∈ packageItems handle package) :
      validateSourcePath U item.path = .ok () ∧ byteLength item.source.text < 2 ^ 32 ∧
        (lineStarts item.source.text).length < 2 ^ 32 := by
    obtain ⟨hsource, -, hpath⟩ := mem_packageItems hitem
    obtain ⟨path, hqualified, hvalid⟩ := hpackage.source_path item.source hsource
    rw [hpath, ← qualifiedSourcePath_eq_text hqualified]
    exact ⟨hvalid, hpackage.source_text item.source hsource⟩
  have hcases {item : LoadItem} (hitem : item ∈ workspaceItems root core) := mem_append.1 hitem
  refine ⟨fun item hitem ↦ ?_, fun item hitem ↦ ?_, fun item hitem ↦ ?_, ?_, ?_, ?_⟩
  · rcases hcases hitem with hitem | hitem
    · exact (hready hroot hitem).1
    · exact (hready hcore hitem).1
  · rcases hcases hitem with hitem | hitem
    · exact (hready hroot hitem).2
    · exact (hready hcore hitem).2
  · rcases hcases hitem with hitem | hitem
    · simp [(mem_packageItems hitem).2.1]
    · simp [(mem_packageItems hitem).2.1]
  · rw [workspaceItems, map_append, nodup_append]
    refine ⟨portable_packageItems h.root_acquired, portable_packageItems h.core_acquired, ?_⟩
    intro path hpath path' hpath' heq
    obtain ⟨item, hitem, rfl⟩ := mem_map.1 hpath
    obtain ⟨item', hitem', rfl⟩ := mem_map.1 hpath'
    rw [(mem_packageItems hitem).2.2, (mem_packageItems hitem').2.2] at heq
    exact hname (name_eq_of_toAsciiLowercase_eq heq)
  · rw [workspaceItems, map_append, nodup_append]
    refine ⟨modules_packageItems h.root_acquired, modules_packageItems h.core_acquired, ?_⟩
    intro path hpath path' hpath' heq
    obtain ⟨item, hitem, rfl⟩ := mem_map.1 hpath
    obtain ⟨item', hitem', rfl⟩ := mem_map.1 hpath'
    have hhandle := (Prod.mk.inj heq).1
    rw [(mem_packageItems hitem).2.1, (mem_packageItems hitem').2.1] at hhandle
    cases hhandle
  · simpa [workspaceItems, packageItems] using hfits.modules

theorem itemKey_workspaceItems (hU : U.Standard) (h : Acquisition U request root core dependency) :
    ((workspaceItems root core).map itemKey).Pairwise (· ≤ ·) := by
  rw [workspaceItems, map_append, pairwise_append]
  refine ⟨itemKey_packageItems hU h.root_acquired, itemKey_packageItems hU h.core_acquired, ?_⟩
  intro key hkey key' hkey'
  obtain ⟨item, hitem, rfl⟩ := mem_map.1 hkey
  obtain ⟨item', hitem', rfl⟩ := mem_map.1 hkey'
  refine (Prod.Lex.toLex_lt_toLex.2 (.inl ?_)).le
  rw [(mem_packageItems hitem).2.1, (mem_packageItems hitem').2.1]
  exact Nat.zero_lt_one

/-- With distinct names, the paths increase exactly when the packages are in order. -/
theorem isChain_workspaceItems (h : Acquisition U request root core dependency)
    (hname : root.1.identity.name ≠ core.1.identity.name) :
    ((workspaceItems root core).map pathBytes).IsChain (· < ·) ↔ SourcesInOrder root core := by
  have hempty {package : PackageBundle × AcquiredManifest} {locator : PackageLocator}
      (hpackage : AcquiredPackage U request locator package) :
      package.2.sources = [] ↔ package.1.sources = [] := by
    rw [← length_eq_zero_iff, hpackage.sources_length, length_eq_zero_iff]
  rw [isChain_iff_pairwise, workspaceItems, map_append, pairwise_append,
    SourcesInOrder, ← hempty h.root_acquired, ← hempty h.core_acquired]
  simp only [pathBytes_packageItems h.root_acquired, pathBytes_packageItems h.core_acquired,
    true_and]
  constructor
  · intro hbefore
    by_contra hnot
    obtain ⟨hroot, hcore, hlt⟩ : root.2.sources ≠ [] ∧ core.2.sources ≠ [] ∧
        ¬ Wire.utf8Bytes root.1.identity.name.text < Wire.utf8Bytes core.1.identity.name.text := by
      simpa only [not_or] using hnot
    obtain ⟨source, rest, hsource⟩ := exists_cons_of_ne_nil hroot
    obtain ⟨source', rest', hsource'⟩ := exists_cons_of_ne_nil hcore
    have hpath := hbefore _ (mem_map_of_mem (mem_map_of_mem
      (hsource ▸ mem_cons_self))) _ (mem_map_of_mem (mem_map_of_mem
      (hsource' ▸ mem_cons_self)))
    have hne : Wire.utf8Bytes core.1.identity.name.text ≠
        Wire.utf8Bytes root.1.identity.name.text := fun heq ↦ hname (by
      have htext := Wire.utf8Bytes_injective heq
      cases hroot : root.1.identity.name
      cases hcore : core.1.identity.name
      simp_all)
    exact absurd (lt_trans hpath (qualifiedPathText_lt_of_name_lt
      (lt_of_le_of_ne (not_lt.1 hlt) hne))) (lt_irrefl _)
  · rintro (hroot | hcore | hlt) path hpath path' hpath'
    · simp [packageItems, hroot] at hpath
    · simp [packageItems, hcore] at hpath'
    · obtain ⟨item, hitem, rfl⟩ := mem_map.1 hpath
      obtain ⟨item', hitem', rfl⟩ := mem_map.1 hpath'
      rw [pathBytes, pathBytes, (mem_packageItems hitem).2.2, (mem_packageItems hitem').2.2]
      exact qualifiedPathText_lt_of_name_lt hlt

def manifestInput (request : LoadRequest) (package : PackageBundle × AcquiredManifest) :
    LoadedManifestInput :=
  ⟨package.1.identity, package.1.locator, request.sha256 package.2.canonicalManifest,
    package.2.manifest, package.2.canonicalManifest⟩

/-- The candidate made from both packages. -/
def candidateOf (request : LoadRequest) (root core : PackageBundle × AcquiredManifest)
    (dependency : ManifestDependency) : LoadedWorkspaceCandidate where
  graph := graphOf root.1.identity core.1.identity dependency.name (workspaceItems root core)
  sources := databaseOf (workspaceItems root core)
  manifests := [manifestInput request root, manifestInput request core]
  scenarios := root.2.scenarios ++ core.2.scenarios

theorem loadPackage_eq (hready : PackageReady U request.limits package)
    (hhandle : (if package.1.identity = rootIdentity then rootHandle else coreHandle) = handle)
    (hcount : state.providedScenarioCount + package.2.scenarios.length ≤
      request.limits.scenarios.toNat) :
    loadPackage U request rootIdentity rootHandle coreHandle state package =
      ((packageItems handle package).foldlM (loadItem U) (state.sources, state.builder)).map
        fun loaded ↦ {
          builder := loaded.2
          sources := loaded.1
          scenarios := state.scenarios ++ package.2.scenarios
          manifests := state.manifests ++ [manifestInput request package]
          providedScenarioCount := state.providedScenarioCount + package.2.scenarios.length } := by
  have hadd : addBytes request.limits.scenarios.toNat "provided scenario files"
      state.providedScenarioCount package.2.scenarios.length =
        .ok (state.providedScenarioCount + package.2.scenarios.length) :=
    if_neg (by omega)
  unfold loadPackage
  simp only [hadd, ok_bind, hhandle, foldlM_loadSource hready]
  cases (packageItems handle package).foldlM (loadItem U) (state.sources, state.builder) <;> rfl

/-- The loop over both packages. -/
theorem loadBoth_eq_ok (h : Acquisition U request root core dependency)
    (hroot : PackageReady U request.limits root) (hcore : PackageReady U request.limits core)
    (hfits : FitsLimits request.limits root.2 core.2)
    (hname : root.1.identity.name ≠ core.1.identity.name)
    (hbase : base = twoPackages root.1.identity core.1.identity dependency.name) :
    [root, core].foldlM (loadPackage U request root.1.identity ⟨0⟩ ⟨1⟩)
        ⟨base, .empty, [], [], 0⟩ = .ok state ↔
      SourcesInOrder root core ∧ state = {
        builder := builderOf base (workspaceItems root core)
        sources := databaseOf (workspaceItems root core)
        scenarios := root.2.scenarios ++ core.2.scenarios
        manifests := [manifestInput request root, manifestInput request core]
        providedScenarioCount := root.2.scenarios.length + core.2.scenarios.length } := by
  have hidentity : core.1.identity ≠ root.1.identity := fun heq ↦ hname (by rw [heq])
  have hloadable : Loadable U base.packages.length (workspaceItems root core) :=
    hbase ▸ loadable_workspaceItems h hroot hcore hfits hname
  have hempty : (SourceDatabase.empty, base) = (databaseOf [], builderOf base []) := by
    rw [hbase]
    rfl
  have hrootChain : ((packageItems ⟨0⟩ root).map pathBytes).IsChain (· < ·) :=
    isChain_iff_pairwise.2 (pathBytes_packageItems h.root_acquired)
  have hrootRun : (packageItems ⟨0⟩ root).foldlM (loadItem U) (SourceDatabase.empty, base) =
      .ok (databaseOf (packageItems ⟨0⟩ root), builderOf base (packageItems ⟨0⟩ root)) := by
    rw [hempty]
    exact (@foldlM_loadItem_eq_ok U base [] _ _ hloadable.left .nil).2 ⟨hrootChain, rfl⟩
  have hscenarios := hfits.scenarios
  rw [foldlM_cons, loadPackage_eq hroot (if_pos rfl) (by simp only; omega), hrootRun]
  simp only [Except.map, ok_bind, nil_append, zero_add]
  rw [foldlM_cons, loadPackage_eq hcore (if_neg hidentity) (by simp only; omega)]
  simp only [foldlM_nil, bind_pure]
  rw [map_eq_ok, ← isChain_workspaceItems h hname]
  simp only [foldlM_loadItem_eq_ok hloadable hrootChain]
  constructor
  · rintro ⟨loaded, ⟨hchain, rfl⟩, rfl⟩
    exact ⟨hchain, rfl⟩
  · rintro ⟨hchain, rfl⟩
    exact ⟨_, ⟨hchain, rfl⟩, rfl⟩

theorem graphOutcome_ok {α : Type} (value : α) (builder : PackageGraphBuilder) :
    graphOutcome (.ok value, builder) = .ok (value, builder) := rfl

theorem assembleCandidate_eq_ok (hU : U.Standard) (h : Acquisition U request root core dependency)
    (hroot : PackageReady U request.limits root) (hcore : PackageReady U request.limits core)
    (hfits : FitsLimits request.limits root.2 core.2)
    (hname : root.1.identity.name ≠ core.1.identity.name) :
    assembleCandidate U request root core dependency = .ok candidate ↔
      SourcesInOrder root core ∧ candidate = candidateOf request root core dependency := by
  have hidentity : core.1.identity ≠ root.1.identity := fun heq ↦ hname (by rw [heq])
  have hnew : (PackageGraphBuilder.new root.1.identity).root = ⟨0⟩ := rfl
  have hfinish := @finish_builderOf root.1.identity core.1.identity dependency.name
    (workspaceItems root core) (loadable_workspaceItems h hroot hcore hfits hname).handle_lt
    (itemKey_workspaceItems hU h)
  unfold assembleCandidate
  simp only [addPackage_new hidentity, graphOutcome_ok, ok_bind, hnew,
    addDependency_unrelatedPackages, checkCount_eq_ok.2 hfits.packages]
  rw [bind_eq_ok]
  simp only [loadBoth_eq_ok h hroot hcore hfits hname rfl]
  constructor
  · rintro ⟨state, ⟨horder, rfl⟩, hrun⟩
    obtain ⟨-, hrun⟩ := unit_bind_eq_ok.1 hrun
    rw [hfinish] at hrun
    exact ⟨horder, (Except.ok.inj hrun).symm⟩
  · rintro ⟨horder, rfl⟩
    refine ⟨_, ⟨horder, rfl⟩, unit_bind_eq_ok.2 ⟨by simp, ?_⟩⟩
    rw [hfinish]
    rfl

end BothPackages

end Wrela.PackageLoader
