import Wrela.PackageLoader.Assembled

/-!
# The seal on two assembled packages

The seal derives everything in the candidate again.  For a candidate put together from two
acceptable packages every comparison holds, and the one check that can still fail is that on the
order of the scenarios.
-/

namespace Wrela.PackageLoader

open List Wrela.Source Wrela.BuildModel Wrela.Package Wrela.Checked

variable {U : Unicode} {request : LoadRequest} {root core : PackageBundle × AcquiredManifest}
  {dependency : ManifestDependency}

theorem foldlM_addBytes (resource : String) (total : ℕ) (sizes : List ℕ)
    (h : total + sizes.sum ≤ limit) :
    sizes.foldlM (addBytes limit resource) total = .ok (total + sizes.sum) := by
  induction sizes generalizing total with
  | nil => rfl
  | cons size sizes ih =>
    rw [sum_cons, ← add_assoc] at h ⊢
    have hstep : addBytes limit resource total size = .ok (total + size) := if_neg (by omega)
    rw [foldlM_cons, hstep, ok_bind, ih _ h]

theorem texts_databaseOf (items : List LoadItem) :
    ((databaseOf items).files.map fun source ↦ byteLength source.text) =
      items.map fun item ↦ byteLength item.source.text :=
  map_mapIdx (fun _ _ ↦ by rfl) items

theorem texts_workspaceItems (root core : PackageBundle × AcquiredManifest) :
    ((workspaceItems root core).map fun item ↦ byteLength item.source.text) =
      (root.2.sources.map fun source ↦ byteLength source.text) ++
        core.2.sources.map fun source ↦ byteLength source.text := by
  simp [workspaceItems, packageItems, Function.comp_def]

theorem length_workspaceItems (root core : PackageBundle × AcquiredManifest) :
    (workspaceItems root core).length = root.2.sources.length + core.2.sources.length := by
  simp [workspaceItems, packageItems]

theorem checkCandidateManifest_eq_ok (hready : PackageReady U request.limits package)
    (htotal : total + package.2.canonicalManifest.length ≤ request.limits.manifestBytes.toNat) :
    checkCandidateManifest request.limits total (manifestInput request package) =
      .ok (total + package.2.canonicalManifest.length) := by
  unfold checkCandidateManifest
  simp only [manifestInput, hready.manifest_shape, ok_bind, checkCount_eq_ok.2 hready.manifest_bytes]
  exact if_neg (by omega)

variable (h : Acquisition U request root core dependency)
  (hroot : PackageReady U request.limits root) (hcore : PackageReady U request.limits core)
  (hfits : FitsLimits request.limits root.2 core.2)

include h hroot hcore hfits in
/-- The checks on the request and on the sizes of the candidate succeed. -/
theorem sealInputs_candidateOf :
    sealInputs U request (candidateOf request root core dependency) = .ok root.2.manifest := by
  have hmanifests : [manifestInput request root, manifestInput request core].foldlM
      (checkCandidateManifest request.limits) 0 =
        .ok (root.2.canonicalManifest.length + core.2.canonicalManifest.length) := by
    have htotal := hfits.manifest_bytes
    rw [foldlM_cons, checkCandidateManifest_eq_ok hroot (by omega), ok_bind, zero_add,
      foldlM_cons, checkCandidateManifest_eq_ok hcore htotal, ok_bind, foldlM_nil]
    rfl
  have hmodules : (graphOf root.1.identity core.1.identity dependency.name
      (workspaceItems root core)).modules.length ≤ request.limits.sources.toNat := by
    simpa [graphOf, length_workspaceItems] using hfits.sources
  have hfiles : (databaseOf (workspaceItems root core)).files.length ≤
      request.limits.sources.toNat := by
    rw [length_databaseOf, length_workspaceItems]
    exact hfits.sources
  have hsourceBytes : 0 + ((databaseOf (workspaceItems root core)).files.map
      fun source ↦ byteLength source.text).sum ≤ request.limits.sourceBytes.toNat := by
    rw [texts_databaseOf, texts_workspaceItems, sum_append, zero_add]
    exact hfits.source_bytes
  have hscenarioBytes : 0 + ((root.2.scenarios ++ core.2.scenarios).map
      fun scenario ↦ scenario.bytes.length).sum ≤ request.limits.scenarioBytes.toNat := by
    rw [map_append, sum_append, zero_add]
    exact hfits.scenario_bytes
  have hsources := foldlM_addBytes "candidate source bytes" 0 _ hsourceBytes
  have hscenarios := foldlM_addBytes "candidate scenario bytes" 0 _ hscenarioBytes
  unfold sealInputs
  refine unit_bind_eq_ok.2 ⟨h.limits_valid, ?_⟩
  refine unit_bind_eq_ok.2 ⟨checkCount_eq_ok.2 h.rootManifest_bytes, ?_⟩
  refine unit_bind_eq_ok.2 ⟨mapError_eq_ok.2 h.rootLocator_valid, ?_⟩
  refine unit_bind_eq_ok.2 ⟨mapError_eq_ok.2 h.coreLocator_valid, ?_⟩
  refine bind_eq_ok.2 ⟨_, mapError_eq_ok.2 h.rootManifest_eq, ?_⟩
  refine unit_bind_eq_ok.2 ⟨checkCount_eq_ok.2 hfits.packages, ?_⟩
  refine unit_bind_eq_ok.2 ⟨checkCount_eq_ok.2 hmodules, ?_⟩
  refine unit_bind_eq_ok.2 ⟨checkCount_eq_ok.2 hfiles, ?_⟩
  refine unit_bind_eq_ok.2 ⟨checkCount_eq_ok.2 hfits.packages, ?_⟩
  refine unit_bind_eq_ok.2 ⟨checkCount_eq_ok.2
    (by simpa [candidateOf] using hfits.scenarios), ?_⟩
  refine bind_eq_ok.2 ⟨_, hsources, bind_eq_ok.2 ⟨_, hscenarios, bind_eq_ok.2 ⟨_, hmanifests, ?_⟩⟩⟩
  refine unit_bind_eq_ok.2 ⟨failIf_eq_ok.2 ?_, rfl⟩
  simp [candidateOf, graphOf, manifestInput, h.root_acquired.locator_eq]

def loadedManifest (request : LoadRequest) (package : PackageBundle × AcquiredManifest) :
    LoadedManifest :=
  ⟨package.1.identity, package.1.locator, request.sha256 package.2.canonicalManifest,
    package.2.manifest⟩

theorem sealManifest_eq_ok (total : ℕ) (h : AcquiredPackage U request locator package)
    (hready : PackageReady U request.limits package)
    (htotal : total + package.2.canonicalManifest.length ≤ request.limits.manifestBytes.toNat)
    (hidentity : record.identity = package.1.identity) (hlocator : locator =
      if record.id = graph.root then request.rootLocator else request.coreLocator) (hdependencies :
      candidateDependenciesMatch U graph record package.2.manifest = true) :
    sealManifest U request graph total record (manifestInput request package) =
      .ok (total + package.2.canonicalManifest.length, loadedManifest request package,
        package.2.canonicalManifest) := by
  unfold sealManifest
  refine bind_eq_ok.2 ⟨_, mapError_eq_ok.2 h.canonical_eq, ?_⟩
  refine unit_bind_eq_ok.2 ⟨checkCount_eq_ok.2 hready.manifest_bytes, ?_⟩
  refine unit_bind_eq_ok.2 ⟨mapError_eq_ok.2 h.manifest_valid, ?_⟩
  refine unit_bind_eq_ok.2 ⟨failIf_eq_ok.2 ?_, rfl⟩
  simp [manifestInput, hidentity, h.name_eq, h.version_eq, htotal, hdependencies, ← hlocator,
    h.locator_eq]

include h hroot hcore hfits in
theorem sealManifests_candidateOf (hdependencies : core.2.manifest.dependencies = []) :
    sealManifests U request (candidateOf request root core dependency).graph 0
        ((candidateOf request root core dependency).graph.packages.zip
          (candidateOf request root core dependency).manifests) =
      .ok [(loadedManifest request root, root.2.canonicalManifest),
        (loadedManifest request core, core.2.canonicalManifest)] := by
  have htotal := hfits.manifest_bytes
  have hrootMatch : candidateDependenciesMatch U (candidateOf request root core dependency).graph
      ⟨⟨0⟩, root.1.identity, [⟨dependency.name, ⟨1⟩⟩]⟩ root.2.manifest = true := by
    simp [candidateDependenciesMatch, h.dependencies_eq, candidateOf, graphOf,
      PackageGraph.package, h.dependency_package, h.dependency_version]
  have hcoreMatch : candidateDependenciesMatch U (candidateOf request root core dependency).graph
      ⟨⟨1⟩, core.1.identity, []⟩ core.2.manifest = true := by
    simp [candidateDependenciesMatch, hdependencies]
  have hrootSealed := sealManifest_eq_ok 0 h.root_acquired hroot (by omega) rfl rfl hrootMatch
  have hcoreSealed := sealManifest_eq_ok (0 + root.2.canonicalManifest.length) h.core_acquired hcore
    (by omega) rfl rfl hcoreMatch
  refine bind_eq_ok.2 ⟨_, hrootSealed, bind_eq_ok.2 ⟨_, ?_, rfl⟩⟩
  exact bind_eq_ok.2 ⟨_, hcoreSealed, rfl⟩

theorem coverSources_eq_ok
    (hnew : ∀ module ∈ modules, covered[module.source.val.toNat]? = some false)
    (hnodup : (modules.map fun module ↦ module.source.val.toNat).Nodup) :
    coverSources covered modules = .ok () := by
  induction modules generalizing covered with
  | nil => rfl
  | cons module modules ih =>
    rw [map_cons, nodup_cons] at hnodup
    rw [coverSources, hnew module mem_cons_self]
    refine ih (fun other hother ↦ ?_) hnodup.2
    have hne : module.source.val.toNat ≠ other.source.val.toNat :=
      fun heq ↦ hnodup.1 (heq ▸ mem_map_of_mem hother)
    rw [List.getElem?_set_ne hne]
    exact hnew other (mem_cons_of_mem _ hother)

/-- What one source adds to the content of its package. -/
def sourceContent (item : LoadItem) : SealedContent :=
  ⟨item.handle.index, ⟨.source, item.source.relativePath, item.source.digest⟩,
    byteLength item.source.text⟩

theorem get_databaseOf {items : List LoadItem} {index : ℕ} {item : LoadItem}
    (hnarrow : items.length ≤ 2 ^ 32) (hitem : items[index]? = some item) :
    (databaseOf items).get ⟨UInt32.ofNat index⟩ = some ⟨⟨UInt32.ofNat index⟩, item.path,
      item.source.text, item.source.digest, lineStarts item.source.text⟩ := by
  have hlt := (List.getElem?_eq_some_iff.1 hitem).1
  rw [SourceDatabase.get, UInt32.toNat_ofNat_of_lt' (lt_of_lt_of_le hlt hnarrow), databaseOf,
    List.getElem?_mapIdx, hitem]
  rfl

theorem length_workspaceItems_lt (hfits : FitsLimits request.limits root.2 core.2) :
    (workspaceItems root core).length < 2 ^ 32 := by
  rw [length_workspaceItems]
  exact lt_of_le_of_lt hfits.modules (by decide)

theorem coverSources_graphOf (hnarrow : items.length < 2 ^ 32) :
    coverSources (List.replicate items.length false)
      (graphOf identity identity' name items).modules = .ok () := by
  have hindices : (graphOf identity identity' name items).modules.map
      (fun module ↦ module.source.val.toNat) = List.range items.length := by
    refine ext_getElem? fun index ↦ ?_
    simp only [graphOf, List.getElem?_map, List.getElem?_mapIdx, Option.map_map]
    rcases Nat.lt_or_ge index items.length with hlt | hge
    · rw [List.getElem?_range hlt, List.getElem?_eq_getElem hlt]
      exact congrArg some (UInt32.toNat_ofNat_of_lt' (lt_trans hlt hnarrow))
    · rw [List.getElem?_eq_none hge, List.getElem?_eq_none (by simpa using hge)]
      rfl
  refine coverSources_eq_ok (fun module hmodule ↦ ?_) (hindices ▸ nodup_range)
  have hmem := mem_map_of_mem (f := fun module : ModuleRecord ↦ module.source.val.toNat) hmodule
  rw [hindices, mem_range] at hmem
  rw [List.getElem?_replicate, if_pos hmem]

include h hroot hcore in
/-- The manifest and the expected path of an item. -/
theorem item_path_eq {item : LoadItem} (hitem : item ∈ workspaceItems root core) :
    item.source.Derived U request.sha256 ∧ item.handle.index < 2 ∧
    ∃ loaded, [loadedManifest request root, loadedManifest request core][item.handle.index]? =
      some loaded ∧ qualifiedSourcePath loaded.identity loaded.manifest.sourceRoot
        item.source.module.expectedSourcePath = .ok item.path := by
  have hpackage {handle : PackageHandle} {package : PackageBundle × AcquiredManifest}
      {locator : PackageLocator} (hacquired : AcquiredPackage U request locator package)
      (hready : PackageReady U request.limits package)
      (hmem : item ∈ packageItems handle package) :
      item.source.Derived U request.sha256 ∧
        qualifiedSourcePath package.1.identity package.2.manifest.sourceRoot
          item.source.module.expectedSourcePath = .ok item.path := by
    obtain ⟨hsource, -, hpath⟩ := mem_packageItems hmem
    have hderived := hacquired.sources.derived item.source hsource
    obtain ⟨path, hqualified, -⟩ := hready.source_path item.source hsource
    refine ⟨hderived, ?_⟩
    rw [hpath, ← qualifiedSourcePath_eq_text hqualified, ← hderived.relativePath_eq]
    exact hqualified
  rcases mem_append.1 hitem with hmem | hmem
  · obtain ⟨hderived, hpath⟩ := hpackage h.root_acquired hroot hmem
    rw [(mem_packageItems hmem).2.1]
    exact ⟨hderived, by simp, loadedManifest request root, rfl, hpath⟩
  · obtain ⟨hderived, hpath⟩ := hpackage h.core_acquired hcore hmem
    rw [(mem_packageItems hmem).2.1]
    exact ⟨hderived, by simp, loadedManifest request core, rfl, hpath⟩

include h hroot hcore hfits in
theorem sealModules_candidateOf :
    (candidateOf request root core dependency).graph.modules.mapM
        (sealModule request (candidateOf request root core dependency)
          [loadedManifest request root, loadedManifest request core]) =
      .ok ((workspaceItems root core).map sourceContent) := by
  refine mapM_mapIdx_eq_ok fun index item hitem ↦ ?_
  obtain ⟨hderived, hhandle, loaded, hloaded, hpath⟩ :=
    item_path_eq h hroot hcore (mem_of_getElem? hitem)
  obtain ⟨record, hrecord⟩ : ∃ record, (candidateOf request root core dependency).graph.package
      ⟨item.handle.index⟩ = some record := ⟨_, List.getElem?_eq_getElem hhandle⟩
  unfold sealModule
  refine bind_eq_ok.2 ⟨record, orFail_eq_ok.2 hrecord, ?_⟩
  refine bind_eq_ok.2 ⟨loaded, orFail_eq_ok.2 hloaded, ?_⟩
  refine bind_eq_ok.2 ⟨_, orFail_eq_ok.2
    (get_databaseOf (length_workspaceItems_lt hfits).le hitem), ?_⟩
  refine bind_eq_ok.2 ⟨item.path, hpath, unit_bind_eq_ok.2 ⟨failIf_eq_ok.2 ?_, ?_⟩⟩
  · simp [hderived.digest_eq]
  · rw [sourceContent, hderived.relativePath_eq]

/-! ## Scenarios -/

/-- The scenarios of the root come before those of the core package. -/
def ScenariosInOrder (root core : PackageBundle × AcquiredManifest) : Prop :=
  root.1.scenarios = [] ∨ core.1.scenarios = [] ∨
    Wire.utf8Bytes root.1.identity.name.text < Wire.utf8Bytes core.1.identity.name.text

theorem scenarios_sorted (h : AcquiredPackage U request locator package) :
    (package.2.scenarios.map ScenarioInput.key).Pairwise (· < ·) := by
  have hsorted := expectedScenarios_sorted package.2.manifest
  rw [← h.scenario_paths, pairwise_map] at hsorted
  rw [pairwise_map]
  refine hsorted.imp_of_mem fun {left right} hleft hright hlt ↦ ?_
  unfold ScenarioInput.key
  rw [(h.scenarios left hleft).package_eq, (h.scenarios right hright).package_eq]
  exact Prod.Lex.toLex_lt_toLex.2 (.inr ⟨rfl, hlt⟩)

theorem identity_key_lt_iff {identity identity' : PackageIdentity}
    (hname : identity.name ≠ identity'.name) :
    identity.key < identity'.key ↔
      Wire.utf8Bytes identity.name.text < Wire.utf8Bytes identity'.name.text := by
  unfold PackageIdentity.key
  rw [Prod.Lex.toLex_lt_toLex]
  refine ⟨?_, .inl⟩
  rintro (hlt | ⟨heq, -⟩)
  · exact hlt
  · refine absurd ?_ hname
    obtain ⟨⟨name⟩, version, digest⟩ := identity
    obtain ⟨⟨name'⟩, version', digest'⟩ := identity'
    exact congrArg PackageName.mk (Wire.utf8Bytes_injective heq)

/-- With distinct names, the scenarios are canonical exactly when the packages are in order. -/
theorem isChain_scenarios (h : Acquisition U request root core dependency)
    (hname : root.1.identity.name ≠ core.1.identity.name) :
    ((root.2.scenarios ++ core.2.scenarios).map ScenarioInput.key).IsChain (· < ·) ↔
      ScenariosInOrder root core := by
  have hkeys {scenario scenario' : ScenarioInput} (hscenario : scenario ∈ root.2.scenarios)
      (hscenario' : scenario' ∈ core.2.scenarios) : scenario.key < scenario'.key ↔
        Wire.utf8Bytes root.1.identity.name.text < Wire.utf8Bytes core.1.identity.name.text := by
    unfold ScenarioInput.key
    rw [(h.root_acquired.scenarios scenario hscenario).package_eq,
      (h.core_acquired.scenarios scenario' hscenario').package_eq, Prod.Lex.toLex_lt_toLex,
      ← identity_key_lt_iff hname]
    refine ⟨?_, .inl⟩
    rintro (hlt | ⟨heq, -⟩)
    · exact hlt
    · exact absurd (congrArg PackageIdentity.name (PackageIdentity.key_injective heq)) hname
  rw [isChain_iff_pairwise, map_append, pairwise_append, ScenariosInOrder,
    ← h.root_acquired.scenarios_nil, ← h.core_acquired.scenarios_nil]
  simp only [scenarios_sorted h.root_acquired, scenarios_sorted h.core_acquired, true_and]
  constructor
  · intro hbefore
    cases hroot : root.2.scenarios with
    | nil => exact .inl rfl
    | cons scenario rest =>
      cases hcore : core.2.scenarios with
      | nil => exact .inr (.inl rfl)
      | cons scenario' rest' =>
        have hmem : scenario ∈ root.2.scenarios := hroot ▸ mem_cons_self
        have hmem' : scenario' ∈ core.2.scenarios := hcore ▸ mem_cons_self
        exact .inr (.inr ((hkeys hmem hmem').1
          (hbefore _ (mem_map_of_mem hmem) _ (mem_map_of_mem hmem'))))
  · rintro (hroot | hcore | hlt) key hkey key' hkey'
    · simp [hroot] at hkey
    · simp [hcore] at hkey'
    · obtain ⟨scenario, hscenario, rfl⟩ := mem_map.1 hkey
      obtain ⟨scenario', hscenario', rfl⟩ := mem_map.1 hkey'
      exact (hkeys hscenario hscenario').2 hlt

/-- What one scenario adds to the content of a package. -/
def scenarioContent (package : ℕ) (scenario : ScenarioInput) : SealedContent :=
  ⟨package, ⟨.scenario, scenario.path, scenario.digest⟩, scenario.bytes.length⟩

/-- A scenario that is declared and belongs to the package at one position. -/
structure ScenarioSealable (request : LoadRequest) (manifests : List LoadedManifest) (package : ℕ)
    (scenario : ScenarioInput) : Prop where
  package_eq : manifests.findIdx? (fun loaded ↦ loaded.identity == scenario.package) = some package
  path_text : isBlank scenario.path = false
  utf8 : (Wire.fromUtf8 scenario.bytes).isNone = false
  digest_eq : request.sha256 scenario.bytes = scenario.digest

def scenarioName (scenario : ScenarioInput) : PackageIdentity × String :=
  (scenario.package, scenario.path)

/-- A run of declared scenarios of one package takes their declarations away. -/
theorem sealScenarios_append {manifests : List LoadedManifest} {package : ℕ}
    {scenarios rest : List ScenarioInput} {declared : Finset (PackageIdentity × String)}
    (hsealable : ∀ scenario ∈ scenarios, ScenarioSealable request manifests package scenario)
    (hdeclared : ∀ scenario ∈ scenarios, scenarioName scenario ∈ declared)
    (hnodup : (scenarios.map scenarioName).Nodup) :
    sealScenarios request manifests declared (scenarios ++ rest) =
      (sealScenarios request manifests (declared \ (scenarios.map scenarioName).toFinset) rest).map
        fun sealed ↦ (sealed.1, scenarios.map (scenarioContent package) ++ sealed.2) := by
  induction scenarios generalizing declared with
  | nil =>
    simp only [nil_append, map_nil, toFinset_nil, Finset.sdiff_empty]
    cases sealScenarios request manifests declared rest <;> rfl
  | cons scenario scenarios ih =>
    rw [map_cons, nodup_cons] at hnodup
    have hscenario := hsealable scenario mem_cons_self
    have hname := hdeclared scenario mem_cons_self
    have hstep : sealScenario request manifests declared scenario =
        .ok (declared.erase (scenarioName scenario), scenarioContent package scenario) := by
      unfold sealScenario
      refine bind_eq_ok.2 ⟨package, orFail_eq_ok.2 hscenario.package_eq, ?_⟩
      refine unit_bind_eq_ok.2 ⟨failIf_eq_ok.2 (by simpa [scenarioName] using hname), ?_⟩
      refine unit_bind_eq_ok.2 ⟨failIf_eq_ok.2 (by simp [hscenario.path_text, hscenario.utf8]), ?_⟩
      exact unit_bind_eq_ok.2 ⟨failIf_eq_ok.2 (by simp [hscenario.digest_eq]), rfl⟩
    have hrest := @ih (declared.erase (scenarioName scenario))
      (fun other hother ↦ hsealable other (mem_cons_of_mem _ hother))
      (fun other hother ↦ Finset.mem_erase.2 ⟨fun heq ↦ hnodup.1
        (heq ▸ mem_map_of_mem hother), hdeclared other (mem_cons_of_mem _ hother)⟩)
      hnodup.2
    have hset : declared.erase (scenarioName scenario) \ (scenarios.map scenarioName).toFinset =
        declared \ ((scenario :: scenarios).map scenarioName).toFinset := by
      rw [map_cons, toFinset_cons, Finset.sdiff_insert, Finset.erase_sdiff_comm]
    rw [cons_append, sealScenarios, hstep, ok_bind, hrest, hset]
    cases sealScenarios request manifests
      (declared \ ((scenario :: scenarios).map scenarioName).toFinset) rest <;> rfl

theorem mem_declaredScenarios (h : AcquiredPackage U request locator package)
    (hmanifest : loadedManifest request package ∈ manifests)
    (hscenario : scenario ∈ package.2.scenarios) :
    scenarioName scenario ∈ declaredScenarios manifests := by
  have hpath : scenario.path ∈ expectedScenarios package.2.manifest :=
    h.scenario_paths ▸ mem_map_of_mem hscenario
  obtain ⟨test, htest, heq⟩ := mem_expectedScenarios.1 hpath
  rw [declaredScenarios, mem_toFinset, mem_flatMap]
  refine ⟨_, hmanifest, mem_map.2 ⟨test, htest, ?_⟩⟩
  rw [scenarioName, (h.scenarios scenario hscenario).package_eq, heq]
  rfl

theorem exists_scenario_of_declared (h : AcquiredPackage U request locator package)
    (htest : test ∈ package.2.manifest.imageTests) :
    (package.1.identity, test.scenario) ∈ package.2.scenarios.map scenarioName := by
  have hpath : test.scenario ∈ package.2.scenarios.map ScenarioInput.path :=
    h.scenario_paths ▸ mem_expectedScenarios.2 ⟨test, htest, rfl⟩
  obtain ⟨scenario, hscenario, heq⟩ := mem_map.1 hpath
  refine mem_map.2 ⟨scenario, hscenario, ?_⟩
  rw [scenarioName, (h.scenarios scenario hscenario).package_eq, heq]

theorem scenarioNames_nodup (h : AcquiredPackage U request locator package) :
    (package.2.scenarios.map scenarioName).Nodup := by
  refine nodup_map_of_imp (g := ScenarioInput.key) ((scenarios_sorted h).imp fun hlt ↦ hlt.ne)
    fun scenario _ scenario' _ heq ↦ ?_
  simp only [scenarioName, Prod.mk.injEq] at heq
  rw [ScenarioInput.key, ScenarioInput.key, heq.1, heq.2]

include h hroot hcore in
theorem sealScenarios_candidateOf (hname : root.1.identity.name ≠ core.1.identity.name) :
    sealScenarios request [loadedManifest request root, loadedManifest request core]
        (declaredScenarios [loadedManifest request root, loadedManifest request core])
        (root.2.scenarios ++ core.2.scenarios) =
      .ok (∅, root.2.scenarios.map (scenarioContent 0) ++
        core.2.scenarios.map (scenarioContent 1)) := by
  have hidentity : root.1.identity ≠ core.1.identity := fun heq ↦ hname (by rw [heq])
  have hrootSealable : ∀ scenario ∈ root.2.scenarios, ScenarioSealable request
      [loadedManifest request root, loadedManifest request core] 0 scenario := by
    intro scenario hscenario
    have hvalid := h.root_acquired.scenarios scenario hscenario
    exact ⟨by simp [loadedManifest, hvalid.package_eq, List.findIdx?_cons],
      hroot.scenario_path scenario hscenario,
      hvalid.utf8, hvalid.digest_eq⟩
  have hcoreSealable : ∀ scenario ∈ core.2.scenarios, ScenarioSealable request
      [loadedManifest request root, loadedManifest request core] 1 scenario := by
    intro scenario hscenario
    have hvalid := h.core_acquired.scenarios scenario hscenario
    exact ⟨by simp [loadedManifest, hvalid.package_eq, hidentity, List.findIdx?_cons],
      hcore.scenario_path scenario hscenario, hvalid.utf8, hvalid.digest_eq⟩
  have hcoreDeclared : ∀ scenario ∈ core.2.scenarios, scenarioName scenario ∈
      declaredScenarios [loadedManifest request root, loadedManifest request core] \
        (root.2.scenarios.map scenarioName).toFinset := by
    intro scenario hscenario
    rw [Finset.mem_sdiff, mem_toFinset, mem_map]
    refine ⟨mem_declaredScenarios h.core_acquired (by simp) hscenario, ?_⟩
    rintro ⟨scenario', hscenario', heq⟩
    have hpackage := congrArg Prod.fst heq
    simp only [scenarioName, (h.root_acquired.scenarios scenario' hscenario').package_eq,
      (h.core_acquired.scenarios scenario hscenario).package_eq] at hpackage
    exact hidentity hpackage
  have hall : (declaredScenarios [loadedManifest request root, loadedManifest request core] \
      (root.2.scenarios.map scenarioName).toFinset) \
        (core.2.scenarios.map scenarioName).toFinset = ∅ := by
    rw [sdiff_sdiff, Finset.sdiff_eq_empty_iff_subset]
    intro name hdeclared
    rw [declaredScenarios, mem_toFinset, mem_flatMap] at hdeclared
    obtain ⟨loaded, hloaded, hname⟩ := hdeclared
    obtain ⟨test, htest, rfl⟩ := mem_map.1 hname
    rw [Finset.sup_eq_union, Finset.mem_union, mem_toFinset, mem_toFinset]
    rcases mem_pair.1 hloaded with rfl | rfl
    · exact .inl (exists_scenario_of_declared h.root_acquired htest)
    · exact .inr (exists_scenario_of_declared h.core_acquired htest)
  have hcoreSealed := @sealScenarios_append request _ 1 core.2.scenarios [] _ hcoreSealable
    hcoreDeclared (scenarioNames_nodup h.core_acquired)
  rw [sealScenarios_append hrootSealable
    (fun scenario hscenario ↦ mem_declaredScenarios h.root_acquired (by simp) hscenario)
    (scenarioNames_nodup h.root_acquired), ← append_nil core.2.scenarios, hcoreSealed, hall]
  simp [sealScenarios, Except.map]

/-- Everything both packages contribute, as the seal lists it. -/
def workspaceContents (root core : PackageBundle × AcquiredManifest) : List SealedContent :=
  (workspaceItems root core).map sourceContent ++
    (root.2.scenarios.map (scenarioContent 0) ++ core.2.scenarios.map (scenarioContent 1))

/-- The contents of one package. -/
def packageContents (handle : PackageHandle) (package : PackageBundle × AcquiredManifest) :
    List SealedContent :=
  (packageItems handle package).map sourceContent ++
    package.2.scenarios.map (scenarioContent handle.index)

theorem filter_package {contents : List SealedContent} {index index' : ℕ}
    (h : ∀ content ∈ contents, content.package = index') :
    contents.filter (·.package == index) = if index' = index then contents else [] := by
  split_ifs with heq
  · exact filter_eq_self.2 fun content hcontent ↦ by simp [h content hcontent, heq]
  · exact filter_eq_nil_iff.2 fun content hcontent ↦ by simp [h content hcontent, heq]

theorem filter_workspaceContents (root core : PackageBundle × AcquiredManifest) (index : ℕ) :
    (workspaceContents root core).filter (·.package == index) =
      (if 0 = index then packageContents ⟨0⟩ root else []) ++
        if 1 = index then packageContents ⟨1⟩ core else [] := by
  have hsources (handle : PackageHandle) (package : PackageBundle × AcquiredManifest) :
      ∀ content ∈ (packageItems handle package).map sourceContent,
        content.package = handle.index := by
    rw [forall_mem_map]
    exact fun item hitem ↦ congrArg PackageHandle.index (mem_packageItems hitem).2.1
  have hscenarios (package : ℕ) (scenarios : List ScenarioInput) :
      ∀ content ∈ scenarios.map (scenarioContent package), content.package = package := by
    rw [forall_mem_map]
    exact fun _ _ ↦ rfl
  rw [workspaceContents, workspaceItems, map_append, filter_append, filter_append,
    filter_append, filter_package (hsources ⟨0⟩ root), filter_package (hsources ⟨1⟩ core),
    filter_package (hscenarios 0 _), filter_package (hscenarios 1 _)]
  dsimp only
  split_ifs with hzero hone hone
  · omega
  · simp [packageContents]
  · simp [packageContents]
  · simp

theorem records_packageContents (handle : PackageHandle)
    (package : PackageBundle × AcquiredManifest) :
    (packageContents handle package).map SealedContent.record =
      contentRecords package.2.sources package.2.scenarios := by
  simp [packageContents, packageItems, contentRecords, sourceContent, scenarioContent,
    Function.comp_def]

theorem bytes_packageContents (handle : PackageHandle)
    (package : PackageBundle × AcquiredManifest) :
    ((packageContents handle package).map SealedContent.bytes).sum =
      (package.2.sources.map fun source ↦ byteLength source.text).sum +
        (package.2.scenarios.map fun scenario ↦ scenario.bytes.length).sum := by
  simp [packageContents, packageItems, sourceContent, scenarioContent, Function.comp_def]

theorem packageBytes_eq
    (hcontents : contents.filter (·.package == index) = packageContents handle package) :
    packageBytes contents index canonical = canonical.length +
      ((package.2.sources.map fun source ↦ byteLength source.text).sum +
        (package.2.scenarios.map fun scenario ↦ scenario.bytes.length).sum) := by
  rw [packageBytes, hcontents, bytes_packageContents]

theorem sealPackage_eq_ok (h : AcquiredPackage U request locator package)
    (hcontents : contents.filter (·.package == index) = packageContents handle package) :
    sealPackage request contents index
      (loadedManifest request package, package.2.canonicalManifest) = .ok () := by
  unfold sealPackage
  simp only [hcontents, records_packageContents]
  exact bind_eq_ok.2 ⟨_, mapError_eq_ok.2 h.content_digest, failIf_eq_ok.2 (by simp [loadedManifest])⟩

theorem moduleCursor_of_forall {before run after : List ModuleRecord} {package : ℕ}
    (hrun : ∀ module ∈ run, module.package.val = package)
    (hafter : ∀ module ∈ after, module.package.val ≠ package) :
    moduleCursor (before ++ (run ++ after)) package before.length = before.length + run.length := by
  unfold moduleCursor
  rw [drop_left, takeWhile_append_of_pos (fun module hmodule ↦ by simp [hrun module hmodule]),
    length_append]
  cases after with
  | nil => simp
  | cons module after => simp [hafter module mem_cons_self]

theorem updateModules_ok {items : List LoadItem} {identity : PackageIdentity}
    {modules : List ModuleRecord} (hnarrow : items.length < 2 ^ 32)
    (hmodules : ∀ module ∈ modules, ∃ index, ∃ item, items[index]? = some item ∧
      module.source = ⟨UInt32.ofNat index⟩) :
    ∃ parts, modules.mapM (updateModule (databaseOf items) identity) = .ok parts := by
  induction modules with
  | nil => exact ⟨[], rfl⟩
  | cons module modules ih =>
    obtain ⟨index, item, hitem, hsource⟩ := hmodules module mem_cons_self
    obtain ⟨parts, hparts⟩ := ih fun other hother ↦ hmodules other (mem_cons_of_mem _ hother)
    have hget := get_databaseOf hnarrow.le hitem
    rw [← hsource] at hget
    rw [mapM_cons, updateModule, hget, hparts]
    exact ⟨_, rfl⟩

theorem mem_modules_graphOf (h : module ∈ (graphOf identity identity' name items).modules) :
    ∃ index, ∃ item, items[index]? = some item ∧ module.source = ⟨UInt32.ofNat index⟩ := by
  obtain ⟨index, hindex, rfl⟩ := mem_mapIdx.1 h
  exact ⟨index, items[index], List.getElem?_eq_getElem hindex, rfl⟩

theorem updatePackageModules_ok {input : SourceGraphHashInput} {items : List LoadItem}
    {identity identity' : PackageIdentity} {name : DependencyAlias} {starts : List ℕ}
    {entry : PackageRecord × ℕ} (hnarrow : items.length < 2 ^ 32)
    (hgraph : input.graph = graphOf identity identity' name items)
    (hsources : input.sources = databaseOf items) (hstarts : entry.2 + 1 < starts.length) :
    ∃ bytes, updatePackageModules input starts entry = .ok bytes := by
  have hstart := List.getElem?_eq_getElem (l := starts) (i := entry.2) (by omega)
  have hstop := List.getElem?_eq_getElem hstarts
  unfold updatePackageModules
  rw [hstart, hstop, hgraph, hsources]
  obtain ⟨parts, hparts⟩ := @updateModules_ok items entry.1.identity
    (((graphOf identity identity' name items).modules.drop starts[entry.2]).take
      (starts[entry.2 + 1] - starts[entry.2])) hnarrow fun module hmodule ↦
        mem_modules_graphOf (mem_of_mem_drop (mem_of_mem_take hmodule))
  simp only [hparts]
  exact ⟨_, rfl⟩

/-- The modules of both packages stand in two runs. -/
theorem modules_graphOf (identity identity' : PackageIdentity) (name : DependencyAlias)
    (root core : PackageBundle × AcquiredManifest) :
    ∃ first second, (graphOf identity identity' name (workspaceItems root core)).modules =
        first ++ second ∧ (∀ module ∈ first, module.package.val = 0) ∧
      ∀ module ∈ second, module.package.val = 1 := by
  refine ⟨_, _, mapIdx_append, fun module hmodule ↦ ?_, fun module hmodule ↦ ?_⟩
  · obtain ⟨index, hindex, rfl⟩ := mem_mapIdx.1 hmodule
    exact congrArg PackageHandle.index (mem_packageItems (getElem_mem hindex)).2.1
  · obtain ⟨index, hindex, rfl⟩ := mem_mapIdx.1 hmodule
    exact congrArg PackageHandle.index (mem_packageItems (getElem_mem hindex)).2.1

theorem hashSourceGraph_candidateOf (hfits : FitsLimits request.limits root.2 core.2)
    (manifests : List LoadedManifest) :
    ∃ digest, hashSourceGraph request.sha256
      ⟨(candidateOf request root core dependency).graph,
        (candidateOf request root core dependency).sources, manifests,
        (candidateOf request root core dependency).scenarios⟩ = .ok digest := by
  obtain ⟨first, second, hmodules, hfirst, hsecond⟩ :=
    modules_graphOf root.1.identity core.1.identity dependency.name root core
  have hnarrow := length_workspaceItems_lt hfits
  have hstarts : moduleStarts (first ++ second) (List.range 2) 0 =
      [0, first.length, first.length + second.length] := by
    have hcursor := @moduleCursor_of_forall [] first second 0 hfirst
      fun module hmodule ↦ by simp [hsecond module hmodule]
    have hcursor' := @moduleCursor_of_forall first second [] 1 hsecond (by simp)
    simp only [nil_append, length_nil, zero_add] at hcursor
    rw [append_nil] at hcursor'
    simp only [range_succ, range_zero, nil_append, cons_append, moduleStarts, hcursor, hcursor']
  set input : SourceGraphHashInput := ⟨(candidateOf request root core dependency).graph,
    (candidateOf request root core dependency).sources, manifests,
    (candidateOf request root core dependency).scenarios⟩ with hinput
  have hgraph : input.graph.modules = first ++ second := hmodules
  obtain ⟨bytes, hbytes⟩ := @updatePackageModules_ok input (workspaceItems root core) root.1.identity
    core.1.identity dependency.name [0, first.length, first.length + second.length]
    (⟨⟨0⟩, root.1.identity, [⟨dependency.name, ⟨1⟩⟩]⟩, 0) hnarrow rfl rfl (by simp)
  obtain ⟨bytes', hbytes'⟩ := @updatePackageModules_ok input (workspaceItems root core)
    root.1.identity core.1.identity dependency.name
    [0, first.length, first.length + second.length] (⟨⟨1⟩, core.1.identity, []⟩, 1) hnarrow rfl rfl
    (by simp)
  have hparts : input.graph.packages.zipIdx.mapM (updatePackageModules input
      [0, first.length, first.length + second.length]) = .ok [bytes, bytes'] := by
    refine mapM_eq_ok.2 ?_
    exact .cons hbytes (.cons hbytes' .nil)
  have hpackages : input.graph.packages.length = 2 := rfl
  unfold hashSourceGraph sourceGraphStream
  simp only [hgraph, hpackages, hstarts, hparts]
  rw [if_neg (by simp)]
  exact ⟨_, rfl⟩

end Wrela.PackageLoader
