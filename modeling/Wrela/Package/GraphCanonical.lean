import Wrela.Package.GraphLaws

/-!
# The graph of a collection of packages

What a builder holds, with every position replaced by the identity of the package there, and the
graph that collection stands for.  A finished builder gives that graph, so builders that hold the
same collection finish alike.
-/

namespace Wrela.Package

open List Wrela.Source Wrela.Checked

section Sorting

variable {α β κ : Type} [LinearOrder κ]

/-- Permuted lists sort alike when their elements have different keys. -/
theorem insertionSort_eq_of_perm (key : α → κ) {items items' : List α} (hperm : items.Perm items')
    (hinj : ∀ a ∈ items, ∀ b ∈ items, key a = key b → a = b) :
    items.insertionSort (fun a b ↦ key a ≤ key b) =
      items'.insertionSort fun a b ↦ key a ≤ key b := by
  have htotal : Std.Total fun a b : α ↦ key a ≤ key b := ⟨fun a b ↦ le_total (key a) (key b)⟩
  have htrans : IsTrans α fun a b ↦ key a ≤ key b := ⟨fun _ _ _ ↦ le_trans⟩
  refine List.Perm.eq_of_pairwise (fun a b ha hb hab hba ↦ ?_) (pairwise_insertionSort _ _)
    (pairwise_insertionSort _ _) ?_
  · have hb' : b ∈ items := hperm.mem_iff.2 ((mem_insertionSort _).1 hb)
    exact hinj a ((mem_insertionSort _).1 ha) b hb' (le_antisymm hab hba)
  · exact (perm_insertionSort _ _).trans (hperm.trans (perm_insertionSort _ _).symm)

theorem idxOf_map_of_inj [DecidableEq α] [DecidableEq β] {f : α → β} {items : List α} {a : α}
    (ha : a ∈ items) (hinj : ∀ b ∈ items, f b = f a → b = a) :
    (items.map f).idxOf (f a) = items.idxOf a := by
  induction items with
  | nil => cases ha
  | cons head tail ih =>
    by_cases hhead : head = a
    · simp [hhead]
    · have hne : f head ≠ f a := fun heq ↦ hhead (hinj head mem_cons_self heq)
      rw [map_cons, idxOf_cons_ne _ hne, idxOf_cons_ne _ hhead,
        ih (by simpa [Ne.symm hhead] using ha) fun b hb ↦ hinj b (mem_cons_of_mem _ hb)]

end Sorting

/-! ## Collections -/

/-- Packages, dependency edges and modules, named by package identity. -/
structure Contents where
  root : PackageIdentity
  packages : List PackageIdentity
  edges : List (PackageIdentity × DependencyAlias × PackageIdentity)
  modules : List (PackageIdentity × ModulePath × FileId)

namespace Contents

variable (contents : Contents)

/-- The root, then the other packages by their complete identity. -/
def order : List PackageIdentity :=
  contents.root :: contents.packages.insertionSort fun left right ↦ left.key ≤ right.key

def idOf (identity : PackageIdentity) : PackageId := ⟨contents.order.idxOf identity⟩

def dependencies (identity : PackageIdentity) : List DependencyEdge :=
  ((contents.edges.filter fun edge ↦ edge.1 = identity).map fun edge ↦
    ⟨edge.2.1, contents.idOf edge.2.2⟩).insertionSort fun left right ↦
      left.name.key ≤ right.name.key

/-- A module under its final package id. -/
def moduleEntry (module : PackageIdentity × ModulePath × FileId) :
    PackageId × ModulePath × FileId :=
  (contents.idOf module.1, module.2)

def entryKey (entry : PackageId × ModulePath × FileId) : ℕ ×ₗ List (List UInt8) :=
  toLex (entry.1.val, entry.2.1.key)

/-- The graph the collection stands for. -/
def graph : PackageGraph where
  root := ⟨0⟩
  packages := contents.order.map fun identity ↦
    ⟨contents.idOf identity, identity, contents.dependencies identity⟩
  modules := ((contents.modules.map contents.moduleEntry).insertionSort fun left right ↦
    entryKey left ≤ entryKey right).mapIdx fun index entry ↦
      ⟨⟨index⟩, entry.1, entry.2.1, entry.2.2⟩

def DependsOn (package dependency : PackageIdentity) : Prop :=
  ∃ name, (package, name, dependency) ∈ contents.edges

def Acyclic : Prop := ∀ package, ¬ Relation.TransGen contents.DependsOn package package

def Connected : Prop :=
  ∀ package ∈ contents.packages, Relation.ReflTransGen contents.DependsOn contents.root package

end Contents

namespace PackageGraphBuilder

variable {builder : PackageGraphBuilder} {contents : Contents}

def identityAt (builder : PackageGraphBuilder) (root : PackageIdentity) (index : ℕ) :
    PackageIdentity :=
  (builder.packages.map PendingPackage.identity).getD index root

def edgesFrom (builder : PackageGraphBuilder) (root : PackageIdentity) (package : PendingPackage) :
    List (PackageIdentity × DependencyAlias × PackageIdentity) :=
  package.dependencies.map fun edge ↦
    (package.identity, edge.name, builder.identityAt root edge.package.index)

def resolveModule (builder : PackageGraphBuilder) (root : PackageIdentity) (module : PendingModule) :
    PackageIdentity × ModulePath × FileId :=
  (builder.identityAt root module.package.index, module.path, module.source)

/-- The builder holds the collection, in some order. -/
structure Represents (builder : PackageGraphBuilder) (contents : Contents) : Prop where
  well : Well builder
  packages : ∃ rest, builder.packages.map PendingPackage.identity = contents.root :: rest ∧
    rest.Perm contents.packages
  edges : (builder.packages.flatMap (builder.edgesFrom contents.root)).Perm contents.edges
  modules : (builder.modules.map (builder.resolveModule contents.root)).Perm contents.modules

variable {root identity : PackageIdentity} {index : ℕ}

variable {package : PendingPackage}

theorem identityAt_of_getElem? (h : builder.packages[index]? = some package) :
    builder.identityAt root index = package.identity := by
  simp [identityAt, List.getD, h]

theorem Well.identityAt_inj (h : Well builder) {index' : ℕ}
    (hlt : index < builder.packages.length) (hlt' : index' < builder.packages.length)
    (heq : builder.identityAt root index = builder.identityAt root index') : index = index' := by
  have hlength : builder.packages.length = (builder.packages.map PendingPackage.identity).length :=
    (length_map _).symm
  rw [hlength] at hlt hlt'
  refine (List.getElem?_inj hlt h.nodup).1 ?_
  rw [List.getElem?_eq_getElem hlt, List.getElem?_eq_getElem hlt']
  simpa [identityAt, List.getD, List.getElem?_eq_getElem hlt, List.getElem?_eq_getElem hlt']
    using heq

theorem mem_order (h : Well builder) : index ∈ builder.order ↔ index < builder.packages.length := by
  have hpos := h.nonempty
  simp only [order, mem_cons, mem_insertionSort, mem_range'_1]
  omega

theorem order_nodup (builder : PackageGraphBuilder) : builder.order.Nodup := by
  refine nodup_cons.2 ⟨?_, ?_⟩
  · simp [mem_range'_1]
  · exact (perm_insertionSort _ _).nodup_iff.2 (nodup_range')

theorem identityKey_eq (root : PackageIdentity) (hindex : index < builder.packages.length) :
    builder.identityKey index = (builder.identityAt root index).key := by
  rw [identityKey, List.getElem?_eq_getElem hindex,
    identityAt_of_getElem? (List.getElem?_eq_getElem hindex)]

theorem Represents.map_order (h : Represents builder contents) :
    builder.order.map (builder.identityAt contents.root) = contents.order := by
  obtain ⟨rest, hids, hrest⟩ := h.packages
  have hlength : builder.packages.length = rest.length + 1 := by
    simpa using congrArg List.length hids
  have hmap : (List.range' 1 (builder.packages.length - 1)).map (builder.identityAt contents.root) =
      rest := by
    rw [hlength, Nat.add_sub_cancel]
    refine ext_getElem (by simp) fun index h₁ h₂ ↦ ?_
    simp [identityAt, hids, Nat.add_comm 1, List.getD, h₂]
  have hsort := map_insertionSort (fun left right ↦ builder.identityKey left ≤
      builder.identityKey right) (fun left right : PackageIdentity ↦ left.key ≤ right.key)
    (builder.identityAt contents.root) (List.range' 1 (builder.packages.length - 1))
    fun a ha b hb ↦ by
      rw [mem_range'_1] at ha hb
      rw [identityKey_eq contents.root (by omega), identityKey_eq contents.root (by omega)]
  rw [order, map_cons, hsort, hmap, Contents.order]
  congr 1
  · simp [identityAt, hids]
  · exact insertionSort_eq_of_perm PackageIdentity.key hrest fun a _ b _ heq ↦
      PackageIdentity.key_injective heq

/-- The id table holds the place of every position in the order. -/
theorem finalIds_getD {order : List ℕ} {size : ℕ} (hnodup : order.Nodup)
    (hbound : ∀ index ∈ order, index < size) (hindex : index ∈ order) :
    (finalIds order size).getD index ⟨0⟩ = ⟨order.idxOf index⟩ := by
  have hrun : ∀ (order : List ℕ) (start : ℕ) (ids : List PackageId), order.Nodup →
      (∀ index ∈ order, index < ids.length) → ∀ index,
      ((order.zipIdx start).foldl (fun ids entry ↦ ids.set entry.1 (⟨entry.2⟩ : PackageId))
        ids).getD index ⟨0⟩ =
          if index ∈ order then ⟨start + order.idxOf index⟩ else ids.getD index ⟨0⟩ := by
    intro order
    induction order with
    | nil => simp
    | cons head tail ih =>
      intro start ids hnodup hbound index
      obtain ⟨hhead, htail⟩ := nodup_cons.1 hnodup
      have hlt : head < ids.length := hbound head mem_cons_self
      rw [zipIdx_cons, foldl_cons, ih (start + 1) _ htail fun index hindex ↦ by
        simpa using hbound index (mem_cons_of_mem _ hindex)]
      by_cases heq : head = index
      · subst heq
        simp [hhead, List.getD, hlt]
      · by_cases hmem : index ∈ tail
        · simp [hmem, idxOf_cons_ne _ heq, Nat.add_assoc, Nat.add_comm 1]
        · simp [hmem, Ne.symm heq, List.getD, heq]
  have hids := hrun order 0 (List.replicate size ⟨0⟩) hnodup (by simpa using hbound) index
  rw [if_pos hindex, Nat.zero_add] at hids
  exact hids

theorem Represents.finalId_eq (h : Represents builder contents)
    (hindex : index < builder.packages.length) :
    (finalIds builder.order builder.packages.length).getD index ⟨0⟩ =
      contents.idOf (builder.identityAt contents.root index) := by
  have hmem := (mem_order h.well).2 hindex
  rw [finalIds_getD (order_nodup builder) (fun index ↦ (mem_order h.well).1) hmem,
    Contents.idOf, ← h.map_order, idxOf_map_of_inj hmem fun other hother heq ↦
      h.well.identityAt_inj ((mem_order h.well).1 hother) hindex heq]

theorem Represents.idOf_inj (h : Represents builder contents)
    (hindex : index < builder.packages.length)
    (heq : (contents.idOf (builder.identityAt contents.root index)).val =
      (contents.idOf identity).val) : builder.identityAt contents.root index = identity := by
  have hmem : builder.identityAt contents.root index ∈ contents.order :=
    h.map_order ▸ mem_map_of_mem ((mem_order h.well).2 hindex)
  exact (idxOf_inj hmem).1 heq

/-- The edges a package contributes are the edges that start at its identity. -/
theorem filter_edges (root : PackageIdentity) {packages : List PendingPackage}
    (hnodup : (packages.map PendingPackage.identity).Nodup) (hpackage : package ∈ packages) :
    (packages.flatMap (builder.edgesFrom root)).filter
        (fun edge ↦ edge.1 = package.identity) = builder.edgesFrom root package := by
  induction packages with
  | nil => cases hpackage
  | cons head tail ih =>
    rw [map_cons, nodup_cons] at hnodup
    have hself : ∀ other : PendingPackage, (builder.edgesFrom root other).filter
        (fun edge ↦ edge.1 = package.identity) =
          if other.identity = package.identity then builder.edgesFrom root other else [] := by
      intro other
      split_ifs with heq
      · refine filter_eq_self.2 fun edge hedge ↦ ?_
        obtain ⟨_, -, rfl⟩ := mem_map.1 hedge
        simpa using heq
      · refine filter_eq_nil_iff.2 fun edge hedge ↦ ?_
        obtain ⟨_, -, rfl⟩ := mem_map.1 hedge
        simpa using heq
    rw [flatMap_cons, filter_append, hself]
    rcases mem_cons.1 hpackage with rfl | htail
    · have hrest : (tail.flatMap (builder.edgesFrom root)).filter
          (fun edge ↦ edge.1 = package.identity) = [] := by
        refine filter_eq_nil_iff.2 fun edge hedge ↦ ?_
        obtain ⟨other, hother, hedge⟩ := mem_flatMap.1 hedge
        obtain ⟨_, -, rfl⟩ := mem_map.1 hedge
        have hne : other.identity ≠ package.identity := fun heq ↦
          hnodup.1 (heq ▸ mem_map_of_mem hother)
        simpa using hne
      rw [if_pos rfl, hrest, append_nil]
    · have hne : head.identity ≠ package.identity := fun heq ↦
        hnodup.1 (heq ▸ mem_map_of_mem htail)
      rw [if_neg hne, nil_append, ih hnodup.2 htail]

section

variable (h : Represents builder contents)
include h

theorem Represents.finishDependencies_eq (hpackage : package ∈ builder.packages) :
    finishDependencies (finalIds builder.order builder.packages.length) package.dependencies =
      contents.dependencies package.identity := by
  have hperm := (h.edges.filter fun edge ↦ edge.1 = package.identity).map
    fun edge ↦ (⟨edge.2.1, contents.idOf edge.2.2⟩ : DependencyEdge)
  rw [filter_edges contents.root h.well.nodup hpackage, edgesFrom, map_map] at hperm
  have hmap : (package.dependencies.map fun edge ↦ (⟨edge.name,
      finalId (finalIds builder.order builder.packages.length) edge.package⟩ : DependencyEdge)) =
      package.dependencies.map ((fun edge ↦ (⟨edge.2.1, contents.idOf edge.2.2⟩ : DependencyEdge)) ∘
        fun edge ↦ (package.identity, edge.name,
          builder.identityAt contents.root edge.package.index)) := by
    refine map_congr_left fun edge hedge ↦ ?_
    rw [Function.comp_apply, PackageGraphBuilder.finalId,
      h.finalId_eq (h.well.bounded package hpackage edge hedge)]
  rw [PackageGraphBuilder.finishDependencies, hmap, Contents.dependencies]
  refine insertionSort_eq_of_perm (fun edge ↦ edge.name.key) hperm fun a ha b hb heq ↦ ?_
  obtain ⟨first, hfirst, rfl⟩ := mem_map.1 ha
  obtain ⟨second, hsecond, rfl⟩ := mem_map.1 hb
  have hname : first.name = second.name := DependencyAlias.key_injective heq
  rw [inj_on_of_nodup_map (h.well.aliases_nodup package hpackage) hfirst hsecond hname]

theorem Represents.finishPackages_eq :
    builder.finishPackages (finalIds builder.order builder.packages.length) builder.order =
      contents.graph.packages := by
  have hpackages : contents.graph.packages = builder.order.filterMap
      (some ∘ (fun identity ↦ ⟨contents.idOf identity, identity, contents.dependencies identity⟩) ∘
        builder.identityAt contents.root) := by
    rw [filterMap_eq_map, ← map_map, h.map_order]
    rfl
  rw [hpackages, PackageGraphBuilder.finishPackages]
  refine filterMap_congr fun index hindex ↦ ?_
  have hlt := (mem_order h.well).1 hindex
  have hget : builder.packages[index]? = some builder.packages[index] :=
    List.getElem?_eq_getElem hlt
  rw [hget, Option.map_some, h.finalId_eq hlt, identityAt_of_getElem? hget,
    h.finishDependencies_eq (getElem_mem hlt)]
  simp [identityAt_of_getElem? hget]

theorem Represents.finishModules_eq :
    builder.finishModules (finalIds builder.order builder.packages.length) =
      contents.graph.modules := by
  let entry : PendingModule → PackageId × ModulePath × FileId := fun module ↦
    (finalId (finalIds builder.order builder.packages.length) module.package, module.path,
      module.source)
  have hsort := map_insertionSort
    (fun left right ↦ moduleKey (finalIds builder.order builder.packages.length) left ≤
      moduleKey (finalIds builder.order builder.packages.length) right)
    (fun left right ↦ Contents.entryKey left ≤ Contents.entryKey right) entry builder.modules
    fun _ _ _ _ ↦ Iff.rfl
  have hentries : builder.modules.map entry =
      (builder.modules.map (builder.resolveModule contents.root)).map contents.moduleEntry := by
    rw [map_map]
    refine map_congr_left fun module hmodule ↦ ?_
    simp only [entry, Function.comp_apply, resolveModule, Contents.moduleEntry,
      PackageGraphBuilder.finalId, h.finalId_eq (h.well.modules_bounded module hmodule)]
  have hperm : (builder.modules.map entry).Perm (contents.modules.map contents.moduleEntry) :=
    hentries ▸ h.modules.map _
  have hinj : ∀ a ∈ builder.modules.map entry, ∀ b ∈ builder.modules.map entry,
      Contents.entryKey a = Contents.entryKey b → a = b := by
    intro a ha b hb heq
    obtain ⟨first, hfirst, rfl⟩ := mem_map.1 ha
    obtain ⟨second, hsecond, rfl⟩ := mem_map.1 hb
    simp only [Contents.entryKey, EmbeddingLike.apply_eq_iff_eq, Prod.mk.injEq, entry,
      PackageGraphBuilder.finalId] at heq
    obtain ⟨hid, hpath⟩ := heq
    have hfirstLt := h.well.modules_bounded first hfirst
    have hsecondLt := h.well.modules_bounded second hsecond
    rw [h.finalId_eq hfirstLt, h.finalId_eq hsecondLt] at hid
    have hpackage : first.package = second.package :=
      PackageHandle.ext (h.well.identityAt_inj hfirstLt hsecondLt (h.idOf_inj hfirstLt hid))
    have hmodule := inj_on_of_nodup_map h.well.modules_nodup hfirst hsecond
      (Prod.ext hpackage (ModulePath.key_injective hpath))
    rw [hmodule]
  rw [PackageGraphBuilder.finishModules, Contents.graph]
  simp only
  rw [← insertionSort_eq_of_perm Contents.entryKey hperm hinj, ← hsort]
  exact ext_getElem (by simp) fun index h₁ h₂ ↦ by simp [entry]

theorem Represents.finished_eq : builder.finished = contents.graph := by
  unfold finished
  simp only [h.finishPackages_eq, h.finishModules_eq]
  rfl

theorem Represents.dependsOn {package dependency : ℕ}
    (hedge : builder.DependsOn package dependency) :
    contents.DependsOn (builder.identityAt contents.root package)
      (builder.identityAt contents.root dependency) := by
  obtain ⟨pending, hpending, edge, hmem, rfl⟩ := hedge
  refine ⟨edge.name, h.edges.mem_iff.1 (mem_flatMap.2 ⟨pending, mem_of_getElem? hpending,
    mem_map.2 ⟨edge, hmem, ?_⟩⟩)⟩
  rw [identityAt_of_getElem? hpending]

/-- Every edge of the collection joins two packages of the builder. -/
theorem Represents.exists_dependsOn {package dependency : PackageIdentity}
    (hedge : contents.DependsOn package dependency) :
    ∃ index index', index < builder.packages.length ∧ index' < builder.packages.length ∧
      builder.identityAt contents.root index = package ∧
      builder.identityAt contents.root index' = dependency ∧ builder.DependsOn index index' := by
  obtain ⟨name, hedge⟩ := hedge
  obtain ⟨pending, hpending, hmem⟩ := mem_flatMap.1 (h.edges.mem_iff.2 hedge)
  obtain ⟨edge, hdependency, heq⟩ := mem_map.1 hmem
  simp only [Prod.mk.injEq] at heq
  obtain ⟨rfl, -, rfl⟩ := heq
  obtain ⟨index, hlt, hget⟩ := mem_iff_getElem.1 hpending
  have hsome : builder.packages[index]? = some pending := hget ▸ List.getElem?_eq_getElem hlt
  exact ⟨index, edge.package.index, hlt, h.well.bounded pending hpending edge hdependency,
    identityAt_of_getElem? hsome, rfl, pending, hsome, edge, hdependency, rfl⟩

theorem Represents.transGen {package dependency : PackageIdentity}
    (hpath : Relation.TransGen contents.DependsOn package dependency)
    (hindex : index < builder.packages.length)
    (hpackage : builder.identityAt contents.root index = package) :
    ∃ index' < builder.packages.length, builder.identityAt contents.root index' = dependency ∧
      Relation.TransGen builder.DependsOn index index' := by
  induction hpath with
  | single hedge =>
    obtain ⟨first, second, hfirst, hsecond, hpackage', rfl, hstep⟩ := h.exists_dependsOn hedge
    obtain rfl := h.well.identityAt_inj hindex hfirst (hpackage.trans hpackage'.symm)
    exact ⟨second, hsecond, rfl, .single hstep⟩
  | tail _ hedge ih =>
    obtain ⟨middle, hmiddle, hidentity, hpath⟩ := ih
    obtain ⟨first, second, hfirst, hsecond, hpackage', rfl, hstep⟩ := h.exists_dependsOn hedge
    obtain rfl := h.well.identityAt_inj hmiddle hfirst (hidentity.trans hpackage'.symm)
    exact ⟨second, hsecond, rfl, hpath.tail hstep⟩

theorem Represents.acyclic_iff : Acyclic builder ↔ contents.Acyclic := by
  constructor
  · intro hacyclic package hcycle
    obtain ⟨_, hedge, -⟩ := Relation.TransGen.head'_iff.1 hcycle
    obtain ⟨index, -, hindex, -, hpackage, -, -⟩ := h.exists_dependsOn hedge
    obtain ⟨index', hindex', hpackage', hpath⟩ := h.transGen hcycle hindex hpackage
    obtain rfl := h.well.identityAt_inj hindex hindex' (hpackage.trans hpackage'.symm)
    exact hacyclic index hpath
  · intro hacyclic index hcycle
    exact hacyclic _ (Relation.TransGen.lift (builder.identityAt contents.root)
      (fun _ _ hedge ↦ h.dependsOn hedge) _ _ hcycle)

theorem Represents.connected_iff : Connected builder ↔ contents.Connected := by
  obtain ⟨rest, hids, hrest⟩ := h.packages
  have hroot : builder.identityAt contents.root 0 = contents.root := by simp [identityAt, hids]
  have hlength : builder.packages.length = rest.length + 1 := by
    simpa using congrArg List.length hids
  unfold Connected
  rw [h.well.root_eq]
  constructor
  · intro hconnected package hpackage
    obtain ⟨index, hindex, rfl⟩ := mem_iff_getElem.1 (hrest.mem_iff.2 hpackage)
    have hpath : Relation.ReflTransGen contents.DependsOn (builder.identityAt contents.root 0)
        (builder.identityAt contents.root (index + 1)) :=
      Relation.ReflTransGen.lift (builder.identityAt contents.root)
        (fun _ _ hedge ↦ h.dependsOn hedge) _ _ (hconnected (index + 1) (by omega))
    rw [hroot] at hpath
    simpa [identityAt, hids, List.getD, hindex] using hpath
  · intro hconnected index hindex
    cases index with
    | zero => exact .refl
    | succ index =>
      have hget : builder.identityAt contents.root (index + 1) = rest[index] := by
        simp [identityAt, hids, List.getD, show index < rest.length by omega]
      have hpath := hconnected rest[index] (hrest.mem_iff.1 (getElem_mem _))
      rcases Relation.reflTransGen_iff_eq_or_transGen.1 hpath with heq | hpath
      · have hsame := h.well.identityAt_inj hindex h.well.nonempty
          (hget.trans (heq.trans hroot.symm))
        omega
      · obtain ⟨index', hindex', hidentity, hpath⟩ := h.transGen hpath h.well.nonempty hroot
        obtain rfl := h.well.identityAt_inj hindex' hindex (hidentity.trans hget.symm)
        exact hpath.to_reflTransGen

/-- Builders that hold the same collection finish alike. -/
theorem Represents.finish_iff {graph : PackageGraph} : builder.finish = .ok graph ↔
      contents.Acyclic ∧ contents.Connected ∧ contents.graph = graph := by
  rw [finish_eq_ok h.well, h.acyclic_iff, h.connected_iff, h.finished_eq]

end

/-- One addition that names packages by identity.  Callers hold the handles that `addPackage`
returned, and `handleOf` finds the same handle again. -/
inductive Addition where
  | package (identity : PackageIdentity)
  | dependency (package : PackageIdentity) (name : DependencyAlias) (dependency : PackageIdentity)
  | module (package : PackageIdentity) (path : ModulePath) (source : FileId)

def handleOf (builder : PackageGraphBuilder) (identity : PackageIdentity) : Option PackageHandle :=
  (builder.packages.findIdx? fun package ↦ package.identity = identity).map .mk

/-- The builder an addition leaves when it succeeds. -/
def succeeded {α : Type} (outcome : Outcome α) : Option PackageGraphBuilder :=
  outcome.1.toOption.map fun _ ↦ outcome.2

theorem succeeded_eq_some {α : Type} {outcome : Outcome α} {builder : PackageGraphBuilder} :
    succeeded outcome = some builder ↔ (∃ a, outcome.1 = .ok a) ∧ outcome.2 = builder := by
  obtain ⟨result, after⟩ := outcome
  cases result <;> simp [succeeded, Except.toOption]

def add (builder : PackageGraphBuilder) : Addition → Option PackageGraphBuilder
  | .package identity => succeeded (builder.addPackage identity)
  | .dependency package name dependency =>
    (builder.handleOf package).bind fun package ↦
      (builder.handleOf dependency).bind fun dependency ↦
        succeeded (builder.addDependency package name dependency)
  | .module package path source =>
    (builder.handleOf package).bind fun package ↦ succeeded (builder.addModule package path source)

/-- The builder after a sequence of additions that all succeed. -/
def build (root : PackageIdentity) (additions : List Addition) : Option PackageGraphBuilder :=
  additions.foldlM add (new root)

theorem handleOf_eq_some {handle : PackageHandle} (h : builder.handleOf identity = some handle) :
    ∃ package, builder.packages[handle.index]? = some package ∧ package.identity = identity := by
  obtain ⟨index, hindex, rfl⟩ := Option.map_eq_some_iff.1 h
  obtain ⟨hlt, hidentity, -⟩ := List.findIdx?_eq_some_iff_getElem.1 hindex
  exact ⟨builder.packages[index], List.getElem?_eq_getElem hlt, by simpa using hidentity⟩

namespace Addition

def identity? : Addition → Option PackageIdentity
  | .package identity => some identity
  | _ => none

def edge? : Addition → Option (PackageIdentity × DependencyAlias × PackageIdentity)
  | .dependency dependent name target => some (dependent, name, target)
  | _ => none

def module? : Addition → Option (PackageIdentity × ModulePath × FileId)
  | .module owner path source => some (owner, path, source)
  | _ => none

end Addition

/-- The collection a sequence of additions describes. -/
def contentsOf (root : PackageIdentity) (additions : List Addition) : Contents where
  root := root
  packages := additions.filterMap Addition.identity?
  edges := additions.filterMap Addition.edge?
  modules := additions.filterMap Addition.module?

theorem flatMap_set_perm {α β : Type} {f : α → List β} {items : List α} {a a' : α}
    {b : β} (ha : items[index]? = some a) (hf : f a' = f a ++ [b]) :
    ((items.set index a').flatMap f).Perm (items.flatMap f ++ [b]) := by
  induction items generalizing index with
  | nil => cases ha
  | cons head tail ih =>
    cases index with
    | zero =>
      cases ha
      simp only [set_cons_zero, flatMap_cons, hf, append_assoc]
      exact (List.Perm.refl _).append perm_append_comm
    | succ index =>
      simp only [set_cons_succ, flatMap_cons, append_assoc]
      exact (List.Perm.refl _).append (ih ha)

theorem Represents.addPackage (h : Represents builder contents)
    (heq : builder.addPackage identity = (.ok ⟨builder.packages.length⟩,
      { builder with
        identities := insert identity builder.identities
        packages := builder.packages ++ [pending identity] })) :
    Represents (builder.addPackage identity).2
      { contents with packages := contents.packages ++ [identity] } := by
  have hwell := h.well.addPackage identity
  rw [heq] at hwell ⊢
  obtain ⟨rest, hids, hrest⟩ := h.packages
  have hat : ∀ index < builder.packages.length, identityAt { builder with
      identities := insert identity builder.identities
      packages := builder.packages ++ [pending identity] } contents.root index =
        builder.identityAt contents.root index := by
    intro index hindex
    simp [identityAt, List.getD, List.getElem?_append_left, hindex]
  refine ⟨hwell, ⟨rest ++ [identity], ?_, hrest.append_right _⟩, ?_, ?_⟩
  · rw [map_append, hids]
    rfl
  · have hlast : (builder.packages ++ [pending identity]).flatMap (edgesFrom { builder with
        identities := insert identity builder.identities
        packages := builder.packages ++ [pending identity] } contents.root) =
          builder.packages.flatMap (builder.edgesFrom contents.root) := by
      rw [flatMap_append, flatMap_singleton, edgesFrom, pending, map_nil, append_nil]
      refine flatMap_congr fun package hpackage ↦ map_congr_left fun edge hedge ↦ ?_
      exact congrArg (fun target ↦ (package.identity, edge.name, target))
        (hat _ (h.well.bounded package hpackage edge hedge))
    exact hlast ▸ h.edges
  · have hmodules : builder.modules.map (resolveModule { builder with
        identities := insert identity builder.identities
        packages := builder.packages ++ [pending identity] } contents.root) =
          builder.modules.map (builder.resolveModule contents.root) := by
      refine map_congr_left fun module hmodule ↦ ?_
      simp only [resolveModule, hat _ (h.well.modules_bounded module hmodule)]
    exact hmodules ▸ h.modules

theorem Represents.addDependency {package dependency : PackageHandle} {name : DependencyAlias}
    {source : PendingPackage} {target : PackageIdentity} (h : Represents builder contents)
    (hpending : builder.packages[package.index]? = some source)
    (htarget : builder.identityAt contents.root dependency.index = target)
    (heq : builder.addDependency package name dependency = (.ok (),
      { builder with
        packages := builder.packages.set package.index
          (PendingPackage.depend source name dependency) })) :
    Represents (builder.addDependency package name dependency).2
      { contents with edges := contents.edges ++ [(source.identity, name, target)] } := by
  have hwell := h.well.addDependency package name dependency
  rw [heq] at hwell ⊢
  obtain ⟨rest, hids, hrest⟩ := h.packages
  have hset := @map_identity_set builder package source name dependency hpending
  have hat : identityAt { builder with
      packages := builder.packages.set package.index
        (PendingPackage.depend source name dependency) } contents.root =
      builder.identityAt contents.root := by
    funext index
    simp only [identityAt, hset]
  refine ⟨hwell, ⟨rest, hset.trans hids, hrest⟩, ?_, ?_⟩
  · have hfrom : edgesFrom { builder with
        packages := builder.packages.set package.index
          (PendingPackage.depend source name dependency) } contents.root =
        builder.edgesFrom contents.root := by
      funext other
      simp only [edgesFrom, hat]
    have hdepend : builder.edgesFrom contents.root (PendingPackage.depend source name dependency) =
        builder.edgesFrom contents.root source ++ [(source.identity, name, target)] := by
      simp [edgesFrom, PendingPackage.depend, htarget]
    have hperm := flatMap_set_perm hpending hdepend
    rw [← hfrom] at hperm
    refine hperm.trans ?_
    rw [hfrom]
    exact h.edges.append_right _
  · have hmodules : resolveModule { builder with
        packages := builder.packages.set package.index
          (PendingPackage.depend source name dependency) } contents.root =
        builder.resolveModule contents.root := by
      funext module
      simp only [resolveModule, hat]
    rw [hmodules]
    exact h.modules

theorem Represents.addModule {package : PackageHandle} {path : ModulePath} {source : FileId}
    {owner : PackageIdentity} (h : Represents builder contents)
    (howner : builder.identityAt contents.root package.index = owner)
    (heq : builder.addModule package path source = (.ok ⟨builder.modules.length⟩,
      { builder with
        moduleSources := insert source builder.moduleSources
        modules := builder.modules ++ [⟨package, path, source⟩]
        modulePaths := insert (package, path) builder.modulePaths
        portableModulePaths := insert (package, path.portableKey) builder.portableModulePaths })) :
    Represents (builder.addModule package path source).2
      { contents with modules := contents.modules ++ [(owner, path, source)] } := by
  have hwell := h.well.addModule package path source
  rw [heq] at hwell ⊢
  refine ⟨hwell, h.packages, h.edges, ?_⟩
  rw [map_append, ← howner]
  exact h.modules.append_right _

/-- One more addition is one more item of the collection. -/
theorem Represents.add {additions : List Addition} {addition : Addition}
    {builder' : PackageGraphBuilder} (h : Represents builder (contentsOf root additions))
    (hadd : builder.add addition = some builder') :
    Represents builder' (contentsOf root (additions ++ [addition])) := by
  cases addition with
  | package identity =>
    have hadd : succeeded (builder.addPackage identity) = some builder' := hadd
    obtain ⟨⟨handle, hok⟩, rfl⟩ := succeeded_eq_some.1 hadd
    rcases addPackage_cases builder identity with ⟨error, heq⟩ | ⟨-, heq⟩
    · rw [heq] at hok
      cases hok
    · simpa [contentsOf, filterMap_cons, Addition.identity?, Addition.edge?,
        Addition.module?] using h.addPackage heq
  | dependency package name dependency =>
    obtain ⟨handle, hhandle, hrest⟩ := Option.bind_eq_some_iff.1 hadd
    obtain ⟨handle', hhandle', hdone⟩ := Option.bind_eq_some_iff.1 hrest
    obtain ⟨source, hsource, rfl⟩ := handleOf_eq_some hhandle
    obtain ⟨target, htarget, rfl⟩ := handleOf_eq_some hhandle'
    obtain ⟨⟨_, hok⟩, rfl⟩ := succeeded_eq_some.1 hdone
    rcases addDependency_cases builder handle name handle' with
      ⟨error, heq⟩ | ⟨pending, -, hpending, -, heq⟩
    · rw [heq] at hok
      cases hok
    · obtain rfl := Option.some.inj (hsource.symm.trans hpending)
      simpa [contentsOf, filterMap_cons, Addition.identity?, Addition.edge?,
        Addition.module?] using h.addDependency hpending (identityAt_of_getElem? htarget) heq
  | module package path source =>
    obtain ⟨handle, hhandle, hdone⟩ := Option.bind_eq_some_iff.1 hadd
    obtain ⟨owner, howner, rfl⟩ := handleOf_eq_some hhandle
    obtain ⟨⟨_, hok⟩, rfl⟩ := succeeded_eq_some.1 hdone
    rcases addModule_cases builder handle path source with ⟨error, heq⟩ | ⟨-, -, heq⟩
    · rw [heq] at hok
      cases hok
    · simpa [contentsOf, filterMap_cons, Addition.identity?, Addition.edge?,
        Addition.module?] using h.addModule (identityAt_of_getElem? howner) heq

theorem represents_new (root : PackageIdentity) : Represents (new root) (contentsOf root []) :=
  ⟨well_new root, ⟨[], rfl, .nil⟩, .nil, .nil⟩

theorem represents_build {additions : List Addition} (h : build root additions = some builder) :
    Represents builder (contentsOf root additions) := by
  have hrun : ∀ (rest done : List Addition) (before : PackageGraphBuilder),
      Represents before (contentsOf root done) → rest.foldlM add before = some builder →
      Represents builder (contentsOf root (done ++ rest)) := by
    intro rest
    induction rest with
    | nil =>
      intro done before hbefore hbuild
      cases hbuild
      simpa using hbefore
    | cons addition rest ih =>
      intro done before hbefore hbuild
      rw [foldlM_cons] at hbuild
      obtain ⟨after, hadd, hbuild⟩ := Option.bind_eq_some_iff.1 hbuild
      have hdone := ih (done ++ [addition]) after (hbefore.add hadd) hbuild
      rwa [append_assoc] at hdone
  exact hrun additions [] _ (represents_new root) h

theorem Represents.perm {contents' : Contents} (h : Represents builder contents)
    (hroot : contents.root = contents'.root) (hpackages : contents.packages.Perm contents'.packages)
    (hedges : contents.edges.Perm contents'.edges)
    (hmodules : contents.modules.Perm contents'.modules) : Represents builder contents' := by
  obtain ⟨rest, hids, hrest⟩ := h.packages
  exact ⟨h.well, ⟨rest, hroot ▸ hids, hrest.trans hpackages⟩, hroot ▸ h.edges.trans hedges,
    hroot ▸ h.modules.trans hmodules⟩

/-- Construction is exact and does not depend on the order of discovery: a builder finishes exactly
when its dependency graph is acyclic and connected, permuted additions finish alike, and a call
that fails changes nothing. -/
theorem packageGraphBuilder_exact :
    (∀ root sequence, (calls root sequence).finish.isOk = true ↔
      Acyclic (calls root sequence) ∧ Connected (calls root sequence)) ∧
    (∀ root additions additions' builder builder', additions.Perm additions' →
      build root additions = some builder → build root additions' = some builder' →
      builder.finish.toOption = builder'.finish.toOption) ∧
    (∀ builder next error, (call builder next).1 = .error error →
      (call builder next).2 = builder) := by
  refine ⟨fun root sequence ↦ ?_, fun root additions additions' builder builder' hperm hbuild hbuild' ↦
    ?_, fun builder next error h ↦ call_error h⟩
  · have hfinish := @finish_eq_ok _ (well_calls root sequence)
    constructor
    · intro hok
      cases hresult : (calls root sequence).finish with
      | error error => simp [hresult, Except.isOk, Except.toBool] at hok
      | ok graph => exact ⟨(hfinish.1 hresult).1, (hfinish.1 hresult).2.1⟩
    · rintro ⟨hacyclic, hconnected⟩
      rw [hfinish.2 ⟨hacyclic, hconnected, rfl⟩]
      rfl
  · have hleft := represents_build hbuild
    have hright := represents_build hbuild'
    have hsame : Represents builder' (contentsOf root additions) :=
      hright.perm rfl (hperm.symm.filterMap _) (hperm.symm.filterMap _) (hperm.symm.filterMap _)
    have hgraphs : ∀ graph, builder.finish = .ok graph ↔ builder'.finish = .ok graph := fun graph ↦
      hleft.finish_iff.trans hsame.finish_iff.symm
    refine Option.ext fun graph ↦ ?_
    have htoOption : ∀ result : Except GraphError PackageGraph,
        result.toOption = some graph ↔ result = .ok graph := by
      intro result
      cases result <;> simp [Except.toOption]
    rw [htoOption, htoOption, hgraphs]

end PackageGraphBuilder

end Wrela.Package
