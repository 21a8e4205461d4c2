import Wrela.PackageLoader.LoadLaws

/-!
# The two content digests

The loader hashes the sources of a package in the order of their paths, the seal in the order of the
modules of the graph.  The separator and the dot of a path come before every character of a name, so
the two orders are one, and what the seal computes again is what the loader computed.
-/

namespace Wrela.PackageLoader

open List Wrela.Source Wrela.BuildModel Wrela.Package Wrela.Checked

variable {U : Unicode} {request : LoadRequest} {root core : PackageBundle × AcquiredManifest}
  {dependency : ManifestDependency}

theorem loadSource_result
    (h : loadSource U identity sourceRoot handle (databaseOf items, builderOf base items) source =
      .ok result) :
    let item : LoadItem :=
      ⟨handle, qualifiedPathText identity sourceRoot source.relativePath, source⟩
    result = (databaseOf (items ++ [item]), builderOf base (items ++ [item])) ∧
      items.length < 2 ^ 32 ∧
      qualifiedSourcePath identity sourceRoot source.relativePath = .ok item.path := by
  obtain ⟨path, hpath, h⟩ := bind_eq_ok.1 h
  obtain ⟨added, hadded, h⟩ := bind_eq_ok.1 h
  obtain ⟨-, -, -, -, hfiles, -, rfl⟩ := SourceDatabase.add_eq_ok.1 (mapError_eq_ok.1 hadded)
  obtain rfl := qualifiedSourcePath_eq_text hpath
  rw [length_databaseOf] at h hfiles
  rcases PackageGraphBuilder.addModule_cases (builderOf base items) handle source.module
    ⟨UInt32.ofNat items.length⟩ with ⟨error, hmodule⟩ | ⟨-, -, hmodule⟩
  · rw [hmodule] at h
    cases h
  · rw [hmodule] at h
    cases h
    exact ⟨by rw [databaseOf_concat, builderOf_concat], hfiles, hpath⟩

/-- The loop over the sources of a package, as far as it succeeds. -/
theorem foldlM_loadSource_result {base : PackageGraphBuilder} {before : List LoadItem}
    {identity : PackageIdentity} {sourceRoot : String} {handle : PackageHandle}
    {sources : List ValidatedSource} {result : SourceDatabase × PackageGraphBuilder}
    (h : sources.foldlM (loadSource U identity sourceRoot handle)
      (databaseOf before, builderOf base before) = .ok result)
    (hbefore : before.length ≤ 2 ^ 32) :
    let items := sources.map fun source ↦
      ⟨handle, qualifiedPathText identity sourceRoot source.relativePath, source⟩
    result = (databaseOf (before ++ items), builderOf base (before ++ items)) ∧
      (before ++ items).length ≤ 2 ^ 32 := by
  induction sources generalizing before with
  | nil =>
    cases h
    simpa using hbefore
  | cons source sources ih =>
    obtain ⟨next, hnext, h⟩ := bind_eq_ok.1 h
    obtain ⟨rfl, hlength, -⟩ := loadSource_result hnext
    simpa using ih h (by simpa using hlength)

theorem loadPackage_result {rootIdentity : PackageIdentity} {rootHandle coreHandle : PackageHandle}
    {package : PackageBundle × AcquiredManifest} {state result : LoadState}
    {base : PackageGraphBuilder} {before : List LoadItem}
    (h : loadPackage U request rootIdentity rootHandle coreHandle state package = .ok result)
    (hstate : (state.sources, state.builder) = (databaseOf before, builderOf base before))
    (hbefore : before.length ≤ 2 ^ 32) :
    let handle := if package.1.identity = rootIdentity then rootHandle else coreHandle
    let items := before ++ packageItems handle package
    (result.sources, result.builder) = (databaseOf items, builderOf base items) ∧
      items.length ≤ 2 ^ 32 ∧
      result.scenarios = state.scenarios ++ package.2.scenarios ∧
      result.manifests = state.manifests ++ [manifestInput request package] := by
  obtain ⟨count, -, h⟩ := bind_eq_ok.1 h
  obtain ⟨loaded, hloaded, h⟩ := bind_eq_ok.1 h
  cases h
  rw [hstate] at hloaded
  obtain ⟨rfl, hlength⟩ := foldlM_loadSource_result hloaded hbefore
  exact ⟨rfl, hlength, rfl, rfl⟩

/-- Whatever is put together is made of the two packages and nothing else. -/
theorem assembleCandidate_result (hU : U.Standard) (h : Acquisition U request root core dependency)
    (hassembled : assembleCandidate U request root core dependency = .ok candidate) :
    root.1.identity ≠ core.1.identity ∧ candidate = candidateOf request root core dependency ∧
      (workspaceItems root core).length ≤ 2 ^ 32 := by
  by_cases hsame : core.1.identity = root.1.identity
  · have hrefused : (PackageGraphBuilder.new root.1.identity).addPackage core.1.identity =
        (.error (.duplicatePackage core.1.identity), PackageGraphBuilder.new root.1.identity) := by
      simp [PackageGraphBuilder.addPackage, PackageGraphBuilder.new, maxPackages, hsame]
    rw [assembleCandidate, hrefused] at hassembled
    cases hassembled
  · have hnew : (PackageGraphBuilder.new root.1.identity).root = ⟨0⟩ := rfl
    unfold assembleCandidate at hassembled
    simp only [addPackage_new hsame, graphOutcome_ok, ok_bind, hnew,
      addDependency_unrelatedPackages] at hassembled
    obtain ⟨-, hassembled⟩ := unit_bind_eq_ok.1 hassembled
    obtain ⟨state, hstate, hassembled⟩ := bind_eq_ok.1 hassembled
    obtain ⟨-, hassembled⟩ := unit_bind_eq_ok.1 hassembled
    obtain ⟨graph, hgraph, hassembled⟩ := bind_eq_ok.1 hassembled
    cases hassembled
    obtain ⟨middle, hroot, hstate⟩ := bind_eq_ok.1 hstate
    obtain ⟨last, hcore, hstate⟩ := bind_eq_ok.1 hstate
    cases hstate
    obtain ⟨hmiddle, hlength, hscenarios, hmanifests⟩ := @loadPackage_result U request _ _ _ _ _ _
      (twoPackages root.1.identity core.1.identity dependency.name) [] hroot rfl (Nat.zero_le _)
    rw [if_pos rfl] at hmiddle hlength
    obtain ⟨hlast, hlength, hscenarios', hmanifests'⟩ := loadPackage_result hcore hmiddle hlength
    rw [if_neg hsame, nil_append, ← workspaceItems] at hlast hlength
    obtain ⟨hsources, hbuilder⟩ := Prod.mk.inj hlast
    refine ⟨Ne.symm hsame, ?_, hlength⟩
    rw [hbuilder] at hgraph
    rw [finish_builderOf (fun item hitem ↦ ?_) (itemKey_workspaceItems hU h)] at hgraph
    · rw [hsources, hscenarios', hscenarios, hmanifests', hmanifests, ← Except.ok.inj hgraph]
      rfl
    · rcases mem_append.1 hitem with hitem | hitem
      · simp [(mem_packageItems hitem).2.1]
      · simp [(mem_packageItems hitem).2.1]

theorem sealManifest_result
    (h : sealManifest U request graph total record (manifestInput request package) = .ok sealed) :
    sealed.2 = (loadedManifest request package, package.2.canonicalManifest) := by
  obtain ⟨canonical, -, h⟩ := bind_eq_ok.1 h
  iterate 2 obtain ⟨-, h⟩ := unit_bind_eq_ok.1 h
  obtain ⟨hchecks, h⟩ := unit_bind_eq_ok.1 h
  cases h
  simp only [failIf_eq_ok, Bool.or_eq_false_iff, bne_eq_false_iff_eq] at hchecks
  rw [hchecks.1.1.1.1.2]
  rfl

theorem sealManifests_result
    (h : sealManifests U request (candidateOf request root core dependency).graph 0
      ((candidateOf request root core dependency).graph.packages.zip
        (candidateOf request root core dependency).manifests) = .ok sealed) :
    sealed = [(loadedManifest request root, root.2.canonicalManifest),
      (loadedManifest request core, core.2.canonicalManifest)] := by
  obtain ⟨first, hfirst, h⟩ := bind_eq_ok.1 h
  obtain ⟨rest, hrest, h⟩ := bind_eq_ok.1 h
  obtain ⟨second, hsecond, hrest⟩ := bind_eq_ok.1 hrest
  cases hrest
  cases h
  rw [sealManifest_result hfirst, sealManifest_result hsecond]

/-- Results known one by one are known together. -/
theorem mapM_mapIdx_result {α β γ ε : Type} {f : β → Except ε γ} {g : ℕ → α → β} {k : α → γ}
    {as : List α} {results : List γ} (hresults : (as.mapIdx g).mapM f = .ok results)
    (h : ∀ index a result, as[index]? = some a → f (g index a) = .ok result → result = k a) :
    results = as.map k := by
  induction as generalizing g results with
  | nil =>
    cases hresults
    rfl
  | cons a as ih =>
    rw [mapIdx_cons, mapM_cons] at hresults
    obtain ⟨first, hfirst, hresults⟩ := bind_eq_ok.1 hresults
    obtain ⟨rest, hrest, hresults⟩ := bind_eq_ok.1 hresults
    cases hresults
    rw [map_cons, h 0 a first rfl hfirst,
      ih hrest fun index a' result ha' ↦ h (index + 1) a' result ha']

theorem sealModules_result (h : Acquisition U request root core dependency)
    (hlength : (workspaceItems root core).length ≤ 2 ^ 32) {manifests : List LoadedManifest}
    {sources : List SealedContent}
    (hsealed : (candidateOf request root core dependency).graph.modules.mapM
      (sealModule request (candidateOf request root core dependency) manifests) = .ok sources) :
    sources = (workspaceItems root core).map sourceContent := by
  refine mapM_mapIdx_result hsealed fun index item content hitem hcontent ↦ ?_
  have hget : (candidateOf request root core dependency).sources.get ⟨UInt32.ofNat index⟩ = _ :=
    get_databaseOf hlength hitem
  unfold sealModule at hcontent
  obtain ⟨record, -, hcontent⟩ := bind_eq_ok.1 hcontent
  obtain ⟨loaded, -, hcontent⟩ := bind_eq_ok.1 hcontent
  obtain ⟨source, hsource, hcontent⟩ := bind_eq_ok.1 hcontent
  obtain ⟨path, -, hcontent⟩ := bind_eq_ok.1 hcontent
  obtain ⟨-, hcontent⟩ := unit_bind_eq_ok.1 hcontent
  rw [orFail_eq_ok, hget] at hsource
  cases hsource
  have hderived : item.source.relativePath = item.source.module.expectedSourcePath := by
    rcases mem_append.1 (mem_of_getElem? hitem) with hmem | hmem
    · exact (h.root_acquired.sources.derived _ (mem_packageItems hmem).1).relativePath_eq
    · exact (h.core_acquired.sources.derived _ (mem_packageItems hmem).1).relativePath_eq
  rw [← Except.ok.inj hcontent, sourceContent, hderived]

theorem sealScenarios_result {manifests : List LoadedManifest}
    {declared : Finset (PackageIdentity × String)} {scenarios : List ScenarioInput}
    {sealed : Finset (PackageIdentity × String) × List SealedContent}
    (h : sealScenarios request manifests declared scenarios = .ok sealed)
    {index : ScenarioInput → ℕ}
    (hindex : ∀ scenario ∈ scenarios, manifests.findIdx?
      (fun loaded ↦ loaded.identity == scenario.package) = some (index scenario)) :
    sealed.2 = scenarios.map fun scenario ↦ scenarioContent (index scenario) scenario := by
  induction scenarios generalizing declared sealed with
  | nil =>
    cases h
    rfl
  | cons scenario scenarios ih =>
    obtain ⟨first, hfirst, h⟩ := bind_eq_ok.1 h
    obtain ⟨rest, hrest, h⟩ := bind_eq_ok.1 h
    cases h
    obtain ⟨package, hpackage, hfirst⟩ := bind_eq_ok.1 hfirst
    iterate 3 obtain ⟨-, hfirst⟩ := unit_bind_eq_ok.1 hfirst
    cases hfirst
    rw [forall_mem_cons] at hindex
    rw [orFail_eq_ok, hindex.1] at hpackage
    cases hpackage
    rw [map_cons, ih hrest hindex.2]
    rfl

/-- The content the seal lists is that of the two packages. -/
theorem sealContents_result (hidentity : root.1.identity ≠ core.1.identity)
    (h : Acquisition U request root core dependency)
    (hsealed : sealScenarios request [loadedManifest request root, loadedManifest request core]
      (declaredScenarios [loadedManifest request root, loadedManifest request core])
      (root.2.scenarios ++ core.2.scenarios) = .ok sealed) :
    (workspaceItems root core).map sourceContent ++ sealed.2 = workspaceContents root core := by
  rw [workspaceContents]
  congr 1
  have hpackage {scenario : ScenarioInput} (hscenario : scenario ∈ root.2.scenarios) :=
    (h.root_acquired.scenarios scenario hscenario).package_eq
  have hpackage' {scenario : ScenarioInput} (hscenario : scenario ∈ core.2.scenarios) :=
    (h.core_acquired.scenarios scenario hscenario).package_eq
  let index (scenario : ScenarioInput) := if scenario.package = root.1.identity then 0 else 1
  rw [@sealScenarios_result request _ _ _ _ hsealed index fun scenario hscenario ↦ ?_]
  · rw [map_append]
    congr 1
    · exact map_congr_left fun scenario hscenario ↦ by
        rw [show index scenario = 0 from if_pos (hpackage hscenario)]
    · exact map_congr_left fun scenario hscenario ↦ by
        rw [show index scenario = 1 from if_neg (hpackage' hscenario ▸ hidentity.symm)]
  · rcases mem_append.1 hscenario with hscenario | hscenario
    · simp [index, loadedManifest, hpackage hscenario, List.findIdx?_cons]
    · simp [index, loadedManifest, hpackage' hscenario, List.findIdx?_cons, hidentity,
        hidentity.symm]

/-- The modules of the package at a position of the graph. -/
def modulesOf (graph : PackageGraph) (index : ℕ) : List ModulePath :=
  (graph.modules.filter fun module ↦ module.package.val == index).map ModuleRecord.path

theorem modulesOf_graphOf (identity identity' : PackageIdentity) (name : DependencyAlias)
    (items : List LoadItem) (index : ℕ) :
    modulesOf (graphOf identity identity' name items) index =
      (items.filter fun item ↦ item.handle.index == index).map fun item ↦ item.source.module := by
  induction items using List.reverseRecOn with
  | nil => rfl
  | append_singleton items item ih =>
    simp only [modulesOf, graphOf, mapIdx_concat, filter_append, map_append] at ih ⊢
    rw [ih]
    by_cases hindex : item.handle.index = index <;> simp [hindex]

end Wrela.PackageLoader
