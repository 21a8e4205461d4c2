import Wrela.Package.Manifest

/-!
# Package graphs do not depend on the order of discovery

A builder that was reached by additions represents a collection of packages, dependency edges and
modules that are named by package identities rather than by positions.  Finishing it succeeds
exactly when that collection is acyclic and connected, and the graph it gives is a function of the
collection alone.
-/

namespace Wrela.Package

open List Wrela.Source Wrela.Checked

namespace PackageGraphBuilder

variable {builder : PackageGraphBuilder}

theorem packageIndex_isNone :
    (builder.packageIndex handle).isNone = true ↔ builder.packages.length ≤ handle.index := by
  unfold packageIndex
  split <;> simp <;> omega

theorem addPackage_cases (builder : PackageGraphBuilder) (identity : PackageIdentity) :
    (∃ error, builder.addPackage identity = (.error error, builder)) ∨
    (identity ∉ builder.identities ∧
      builder.addPackage identity = (.ok ⟨builder.packages.length⟩,
        { builder with
          identities := insert identity builder.identities
          packages := builder.packages ++ [pending identity] })) := by
  unfold addPackage
  split_ifs with hfull hduplicate
  any_goals exact .inl ⟨_, rfl⟩
  have hwide : ¬ 2 ^ 32 ≤ builder.packages.length := by
    unfold maxPackages at hfull
    omega
  exact .inr ⟨hduplicate, if_neg hwide⟩

/-- The package with one more dependency. -/
def PendingPackage.depend (package : PendingPackage) (name : DependencyAlias)
    (dependency : PackageHandle) : PendingPackage :=
  { package with
    dependencyAliases := insert (toAsciiLowercase name.text) package.dependencyAliases
    dependencyPackages := insert dependency package.dependencyPackages
    dependencies := package.dependencies ++ [⟨name, dependency⟩] }

theorem addDependency_cases (builder : PackageGraphBuilder) (package : PackageHandle)
    (name : DependencyAlias) (dependency : PackageHandle) :
    (∃ error, builder.addDependency package name dependency = (.error error, builder)) ∨
    (∃ pending, dependency.index < builder.packages.length ∧
      builder.packages[package.index]? = some pending ∧
      toAsciiLowercase name.text ∉ pending.dependencyAliases ∧
      builder.addDependency package name dependency = (.ok (),
        { builder with
          packages := builder.packages.set package.index
            (PendingPackage.depend pending name dependency) })) := by
  unfold addDependency
  split_ifs with hself hpackage hdependency
  any_goals exact .inl ⟨_, rfl⟩
  split
  · exact .inl ⟨_, rfl⟩
  · rename_i pending hpending
    simp only
    split_ifs with halias hduplicate hfull
    any_goals exact .inl ⟨_, rfl⟩
    rw [packageIndex_isNone, not_le] at hdependency
    exact .inr ⟨pending, hdependency, hpending, halias, rfl⟩

theorem addModule_cases (builder : PackageGraphBuilder) (package : PackageHandle)
    (path : ModulePath) (source : FileId) :
    (∃ error, builder.addModule package path source = (.error error, builder)) ∨
    (package.index < builder.packages.length ∧ (package, path) ∉ builder.modulePaths ∧
      builder.addModule package path source = (.ok ⟨builder.modules.length⟩,
        { builder with
          moduleSources := insert source builder.moduleSources
          modules := builder.modules ++ [⟨package, path, source⟩]
          modulePaths := insert (package, path) builder.modulePaths
          portableModulePaths :=
            insert (package, path.portableKey) builder.portableModulePaths })) := by
  unfold addModule
  split_ifs with hfull hpackage hpath hportable hsource
  any_goals exact .inl ⟨_, rfl⟩
  have hwide : ¬ 2 ^ 32 ≤ builder.modules.length := by
    unfold maxModules at hfull
    omega
  rw [packageIndex_isNone, not_le] at hpackage
  exact .inr ⟨hpackage, hpath, if_neg hwide⟩

/-- A module with a known package, a new portable path and a new source is added. -/
theorem addModule_eq_ok {package : PackageHandle} {path : ModulePath} {source : FileId}
    (hcount : builder.modules.length < maxModules)
    (hpackage : package.index < builder.packages.length)
    (hpath : (package, path) ∉ builder.modulePaths)
    (hportable : (package, path.portableKey) ∉ builder.portableModulePaths)
    (hsource : source ∉ builder.moduleSources) :
    builder.addModule package path source = (.ok ⟨builder.modules.length⟩,
      { builder with
        moduleSources := insert source builder.moduleSources
        modules := builder.modules ++ [⟨package, path, source⟩]
        modulePaths := insert (package, path) builder.modulePaths
        portableModulePaths :=
          insert (package, path.portableKey) builder.portableModulePaths }) := by
  have hknown : ¬ (builder.packageIndex package).isNone = true := by
    rw [packageIndex_isNone]
    omega
  have hwide : ¬ 2 ^ 32 ≤ builder.modules.length := by
    unfold maxModules at hcount
    omega
  rw [addModule, if_neg (by omega), if_neg hknown, if_neg hpath, if_neg hportable, if_neg hsource]
  exact if_neg hwide

/-- What every builder keeps.  The lookup tables agree with the lists they index, positions are in
range, and nothing that must be distinct is added twice. -/
structure Well (builder : PackageGraphBuilder) : Prop where
  root_eq : builder.root = ⟨0⟩
  nonempty : 0 < builder.packages.length
  identities : ∀ identity, identity ∈ builder.identities ↔
    identity ∈ builder.packages.map PendingPackage.identity
  nodup : (builder.packages.map PendingPackage.identity).Nodup
  bounded : ∀ package ∈ builder.packages, ∀ dependency ∈ package.dependencies,
    dependency.package.index < builder.packages.length
  aliases : ∀ package ∈ builder.packages, ∀ dependency ∈ package.dependencies,
    toAsciiLowercase dependency.name.text ∈ package.dependencyAliases
  aliases_nodup : ∀ package ∈ builder.packages,
    (package.dependencies.map PendingDependency.name).Nodup
  modules_bounded : ∀ module ∈ builder.modules, module.package.index < builder.packages.length
  modulePaths : ∀ module ∈ builder.modules, (module.package, module.path) ∈ builder.modulePaths
  modules_nodup : (builder.modules.map fun module ↦ (module.package, module.path)).Nodup

theorem well_new (identity : PackageIdentity) : Well (new identity) := by
  constructor <;> simp [new, pending]

theorem Well.addPackage (h : Well builder) (identity : PackageIdentity) :
    Well (builder.addPackage identity).2 := by
  rcases addPackage_cases builder identity with ⟨error, heq⟩ | ⟨hfresh, heq⟩
  · rw [heq]
    exact h
  · rw [heq]
    have hnew : identity ∉ builder.packages.map PendingPackage.identity := by
      rwa [← h.identities]
    refine ⟨h.root_eq, by simp, fun other ↦ ?_, ?_, ?_, ?_, ?_, ?_, h.modulePaths, h.modules_nodup⟩
    · simp [h.identities, pending, or_comm, eq_comm]
    · simpa [nodup_append, pending] using ⟨h.nodup, by simpa using hnew⟩
    · intro package hpackage dependency hdependency
      rcases mem_append.1 hpackage with hpackage | hpackage
      · exact (h.bounded package hpackage dependency hdependency).trans_le (by simp)
      · simp [mem_singleton.1 hpackage, pending] at hdependency
    · intro package hpackage dependency hdependency
      rcases mem_append.1 hpackage with hpackage | hpackage
      · exact h.aliases package hpackage dependency hdependency
      · simp [mem_singleton.1 hpackage, pending] at hdependency
    · intro package hpackage
      rcases mem_append.1 hpackage with hpackage | hpackage
      · exact h.aliases_nodup package hpackage
      · simp [mem_singleton.1 hpackage, pending]
    · intro module hmodule
      exact (h.modules_bounded module hmodule).trans_le (by simp)

theorem map_identity_set {package : PackageHandle} {pending : PendingPackage}
    {name : DependencyAlias} {dependency : PackageHandle}
    (h : builder.packages[package.index]? = some pending) :
    (builder.packages.set package.index (PendingPackage.depend pending name dependency)).map
      PendingPackage.identity = builder.packages.map PendingPackage.identity := by
  obtain ⟨hlt, hget⟩ := List.getElem?_eq_some_iff.1 h
  rw [map_set]
  have hbound : package.index < (builder.packages.map PendingPackage.identity).length := by
    simpa using hlt
  have hsame : (builder.packages.map PendingPackage.identity)[package.index] =
      pending.identity := by simp [hget]
  exact hsame ▸ set_getElem_self _

theorem Well.addDependency (h : Well builder) (package : PackageHandle) (name : DependencyAlias)
    (dependency : PackageHandle) : Well (builder.addDependency package name dependency).2 := by
  rcases addDependency_cases builder package name dependency with
    ⟨error, heq⟩ | ⟨pending, hdependency, hpending, halias, heq⟩
  · rw [heq]
    exact h
  · rw [heq]
    have hmem : pending ∈ builder.packages := mem_of_getElem? hpending
    have hids := @map_identity_set builder package pending name dependency hpending
    have hset : ∀ other ∈ builder.packages.set package.index
        (PendingPackage.depend pending name dependency),
        other ∈ builder.packages ∨ other = PendingPackage.depend pending name dependency :=
      fun other hother ↦ mem_or_eq_of_mem_set hother
    refine ⟨h.root_eq, by simpa using h.nonempty, ?_, ?_, ?_, ?_, ?_, ?_, h.modulePaths,
      h.modules_nodup⟩
    · rw [hids]
      exact h.identities
    · rw [hids]
      exact h.nodup
    · intro other hother edge hedge
      rw [length_set]
      rcases hset other hother with hother | rfl
      · exact h.bounded other hother edge hedge
      · rcases mem_append.1 hedge with hedge | hedge
        · exact h.bounded pending hmem edge hedge
        · rwa [mem_singleton.1 hedge]
    · intro other hother edge hedge
      rcases hset other hother with hother | rfl
      · exact h.aliases other hother edge hedge
      · rcases mem_append.1 hedge with hedge | hedge
        · exact Finset.mem_insert_of_mem (h.aliases pending hmem edge hedge)
        · rw [mem_singleton.1 hedge]
          exact Finset.mem_insert_self _ _
    · intro other hother
      rcases hset other hother with hother | rfl
      · exact h.aliases_nodup other hother
      · have hfresh : name ∉ pending.dependencies.map PendingDependency.name := by
          intro hname
          obtain ⟨edge, hedge, rfl⟩ := mem_map.1 hname
          exact halias (h.aliases pending hmem edge hedge)
        simpa [PendingPackage.depend, nodup_append] using
          ⟨h.aliases_nodup pending hmem, by simpa using hfresh⟩
    · intro module hmodule
      rw [length_set]
      exact h.modules_bounded module hmodule

theorem Well.addModule (h : Well builder) (package : PackageHandle) (path : ModulePath)
    (source : FileId) : Well (builder.addModule package path source).2 := by
  rcases addModule_cases builder package path source with
    ⟨error, heq⟩ | ⟨hpackage, hpath, heq⟩
  · rw [heq]
    exact h
  · rw [heq]
    refine ⟨h.root_eq, h.nonempty, h.identities, h.nodup, h.bounded, h.aliases, h.aliases_nodup,
      ?_, ?_, ?_⟩
    · intro module hmodule
      rcases mem_append.1 hmodule with hmodule | hmodule
      · exact h.modules_bounded module hmodule
      · rwa [mem_singleton.1 hmodule]
    · intro module hmodule
      rcases mem_append.1 hmodule with hmodule | hmodule
      · exact Finset.mem_insert_of_mem (h.modulePaths module hmodule)
      · rw [mem_singleton.1 hmodule]
        exact Finset.mem_insert_self _ _
    · have hfresh : (package, path) ∉
          builder.modules.map fun module ↦ (module.package, module.path) := by
        intro hmem
        obtain ⟨module, hmodule, heq⟩ := mem_map.1 hmem
        exact hpath (heq ▸ h.modulePaths module hmodule)
      rw [map_append, nodup_append]
      exact ⟨h.modules_nodup, nodup_singleton _, by simpa using hfresh⟩

/-- One call on a builder, with the handles the caller passes. -/
inductive Call where
  | addPackage (identity : PackageIdentity)
  | addDependency (package : PackageHandle) (name : DependencyAlias) (dependency : PackageHandle)
  | addModule (package : PackageHandle) (path : ModulePath) (source : FileId)

/-- The error a call reports, if any, and the builder it leaves. -/
def call (builder : PackageGraphBuilder) : Call → Except GraphError Unit × PackageGraphBuilder
  | .addPackage identity =>
    let outcome := builder.addPackage identity
    (outcome.1.map fun _ ↦ (), outcome.2)
  | .addDependency package name dependency => builder.addDependency package name dependency
  | .addModule package path source =>
    let outcome := builder.addModule package path source
    (outcome.1.map fun _ ↦ (), outcome.2)

/-- The builder after a sequence of calls; what they return is not looked at. -/
def calls (root : PackageIdentity) (sequence : List Call) : PackageGraphBuilder :=
  sequence.foldl (fun builder next ↦ (builder.call next).2) (new root)

theorem Well.call (h : Well builder) (next : Call) : Well (builder.call next).2 := by
  cases next with
  | addPackage identity => exact h.addPackage identity
  | addDependency package name dependency => exact h.addDependency package name dependency
  | addModule package path source => exact h.addModule package path source

theorem well_calls (root : PackageIdentity) (sequence : List Call) : Well (calls root sequence) := by
  have hrun : ∀ builder : PackageGraphBuilder, Well builder →
      Well (sequence.foldl (fun builder next ↦ (builder.call next).2) builder) := by
    induction sequence with
    | nil => exact fun builder h ↦ h
    | cons next sequence ih => exact fun builder h ↦ ih _ (h.call next)
  exact hrun _ (well_new root)

/-- A call that reports an error leaves the builder as it was. -/
theorem call_error {next : Call} {error : GraphError} (h : (builder.call next).1 = .error error) :
    (builder.call next).2 = builder := by
  cases next with
  | addPackage identity =>
    rcases addPackage_cases builder identity with ⟨other, heq⟩ | ⟨-, heq⟩
    · simp [call, heq]
    · simp [call, heq, Except.map] at h
  | addDependency package name dependency =>
    rcases addDependency_cases builder package name dependency with
      ⟨other, heq⟩ | ⟨pending, -, -, -, heq⟩
    · simp [call, heq]
    · simp [call, heq] at h
  | addModule package path source =>
    rcases addModule_cases builder package path source with ⟨other, heq⟩ | ⟨-, -, heq⟩
    · simp [call, heq]
    · simp [call, heq, Except.map] at h

/-- One package declares a dependency on another. -/
def DependsOn (builder : PackageGraphBuilder) (package dependency : ℕ) : Prop :=
  ∃ pending, builder.packages[package]? = some pending ∧
    ∃ edge ∈ pending.dependencies, edge.package.index = dependency

/-- No package depends on itself, however indirectly. -/
def Acyclic (builder : PackageGraphBuilder) : Prop :=
  ∀ package, ¬ Relation.TransGen builder.DependsOn package package

/-- Every package is a dependency of the root, directly or not, or the root itself. -/
def Connected (builder : PackageGraphBuilder) : Prop :=
  ∀ package < builder.packages.length,
    Relation.ReflTransGen builder.DependsOn builder.root.index package

theorem edge_successors : Graph.Edge (successors builder.packages) = builder.DependsOn := by
  funext package dependency
  unfold Graph.Edge successors DependsOn
  cases builder.packages[package]? <;> simp

theorem Well.successors_lt (h : Well builder) (package dependency : ℕ)
    (hedge : dependency ∈ successors builder.packages package) :
    dependency < builder.packages.length := by
  obtain ⟨pending, hpending, edge, hmem, rfl⟩ :=
    (congrFun (congrFun edge_successors package) dependency).mp hedge
  exact h.bounded pending (mem_of_getElem? hpending) edge hmem

theorem rejectDependencyCycles_eq_ok (h : Well builder) :
    rejectDependencyCycles builder.packages = .ok () ↔ Acyclic builder := by
  have hsettle := Graph.settle_eq_size_iff h.successors_lt
  have hacyclic := Graph.forall_acc_iff_acyclic h.successors_lt fun package hpackage ↦ by
    simp [successors, List.getElem?_eq_none hpackage]
  rw [edge_successors] at hsettle hacyclic
  rw [Acyclic, ← hacyclic, ← hsettle, rejectDependencyCycles]
  simp

theorem findIdx?_not_eq_none {values : List Bool} :
    values.findIdx? (! ·) = none ↔ ∀ index < values.length, values.getD index false = true := by
  rw [List.findIdx?_eq_none_iff]
  constructor
  · intro h index hindex
    have hvalue := h values[index] (getElem_mem hindex)
    simpa [List.getD, hindex] using hvalue
  · intro h value hvalue
    obtain ⟨index, hindex, rfl⟩ := mem_iff_getElem.1 hvalue
    simpa [List.getD, hindex] using h index hindex

theorem rejectUnreachablePackages_eq_ok (h : Well builder) :
    rejectUnreachablePackages builder.packages builder.root = .ok () ↔ Connected builder := by
  have hroot : builder.root.index < builder.packages.length := h.root_eq ▸ h.nonempty
  have hreach := Graph.explore_eq_true_iff hroot h.successors_lt
  have hlength : (Graph.explore (successors builder.packages) builder.packages.length
      ((List.replicate builder.packages.length false).set builder.root.index true)
      [builder.root.index]).length = builder.packages.length :=
    Graph.length_explore hroot h.successors_lt
  rw [edge_successors] at hreach
  have hnone := @findIdx?_not_eq_none (Graph.explore (successors builder.packages)
    builder.packages.length
    ((List.replicate builder.packages.length false).set builder.root.index true)
    [builder.root.index])
  rw [hlength] at hnone
  simp only [hreach] at hnone
  rw [Connected, ← hnone, rejectUnreachablePackages]
  split
  · rename_i index hindex
    simp [hindex]
  · rename_i hindex
    simp [hindex]

/-- The graph of a builder that passes both checks. -/
def finished (builder : PackageGraphBuilder) : PackageGraph :=
  let order := builder.order
  let ids := finalIds order builder.packages.length
  ⟨⟨0⟩, builder.finishPackages ids order, builder.finishModules ids⟩

theorem finish_eq_ok (h : Well builder) {graph : PackageGraph} :
    builder.finish = .ok graph ↔
      Acyclic builder ∧ Connected builder ∧ builder.finished = graph := by
  unfold finish
  rw [unit_bind_eq_ok, unit_bind_eq_ok, rejectDependencyCycles_eq_ok h,
    rejectUnreachablePackages_eq_ok h, Except.ok.injEq]
  rfl

end PackageGraphBuilder

end Wrela.Package
