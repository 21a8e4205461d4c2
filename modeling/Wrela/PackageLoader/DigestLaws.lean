import Mathlib.Data.List.TakeWhile
import Wrela.Package.NameLaws
import Wrela.PackageLoader.Digest

/-!
# Digest preimages are injective

Every variable field of the hashed streams carries its length and every list its count, so a stream
determines what was hashed.  Two different inputs share a digest only when the hash itself collides
on their two streams.
-/

namespace Wrela.PackageLoader

open List Wrela.Source Wrela.BuildModel Wrela.Package Wrela.Wire Wrela.Checked

/-- Texts held in memory: their length is a machine word. -/
def Addressable (value : String) : Prop := byteLength value < 2 ^ 64

theorem delimits_updateString : Delimits Addressable updateString id := by
  intro value value' hvalue hvalue' rest rest' heq
  obtain ⟨hbytes, hrest⟩ := delimits_countedBytes _ _ hvalue hvalue' _ _ heq
  exact ⟨utf8Bytes_injective hbytes, hrest⟩

theorem delimits_digest : Delimits (fun _ ↦ True) Sha256Digest.bytes id := by
  refine Delimits.ofLength (fun digest _ ↦ digest.length_eq) fun digest digest' _ _ heq ↦ ?_
  cases digest
  cases digest'
  simpa using heq

theorem delimits_updateContentRecord :
    Delimits (fun record ↦ Addressable record.path) updateContentRecord id := by
  rintro ⟨kind, path, digest⟩ ⟨kind', path', digest'⟩ hpath hpath' rest rest' heq
  simp only [updateContentRecord, cons_append, append_assoc, List.cons.injEq] at heq
  obtain ⟨hpaths, hafter⟩ := delimits_updateString _ _ hpath hpath' _ _ heq.2
  obtain ⟨hdigests, hrest⟩ := delimits_digest _ _ trivial trivial _ _ hafter
  have hkinds : kind = kind' := by
    have hbyte := heq.1
    cases kind <;> cases kind' <;> simp_all [PackageContentKind.byte]
  simp_all

variable {stream : List UInt8} {limits : CanonicalTreeLimits} {records : List CanonicalTreeRecord}
  {modules : List ModuleRecord}

theorem packageContentStream_eq_ok {manifest : List UInt8}
    {records : List PackageContentRecord} (h : packageContentStream manifest records = .ok stream) :
    records.length < 2 ^ 64 ∧
      stream = packageContentMagic ++ digestVersion ++ countedBytes manifest ++
        countedItems updateContentRecord records := by
  unfold packageContentStream at h
  split_ifs at h with hempty horder hcount
  exact ⟨not_le.1 hcount, (Except.ok.inj h).symm⟩

theorem packageContentStream_inj {manifest manifest' : List UInt8}
    {records records' : List PackageContentRecord}
    (hmanifest : manifest.length < 2 ^ 64) (hmanifest' : manifest'.length < 2 ^ 64)
    (hpaths : ∀ record ∈ records, Addressable record.path)
    (hpaths' : ∀ record ∈ records', Addressable record.path)
    (h : packageContentStream manifest records = .ok stream)
    (h' : packageContentStream manifest' records' = .ok stream) :
    manifest = manifest' ∧ records = records' := by
  obtain ⟨hcount, hstream⟩ := packageContentStream_eq_ok h
  obtain ⟨hcount', hstream'⟩ := packageContentStream_eq_ok h'
  have heq := hstream.symm.trans hstream'
  rw [append_assoc, append_assoc (packageContentMagic ++ digestVersion)] at heq
  obtain ⟨hmanifests, hrest⟩ := delimits_countedBytes _ _ hmanifest hmanifest' _ _
    (append_cancel_left heq)
  have hrecords := delimits_updateContentRecord.countedItems.key_eq ⟨hcount, hpaths⟩
    ⟨hcount', hpaths'⟩ hrest
  exact ⟨hmanifests, by simpa using hrecords⟩

theorem byteLength_le_of_canonicalTreePath (h : canonicalTreePath path = true) :
    byteLength path ≤ maxSourcePathBytes := by
  simp only [canonicalTreePath, Bool.and_eq_true, decide_eq_true_eq] at h
  exact h.1.1.1.1.2

/-- Every record of an accepted tree has a short path. -/
theorem checkTreeRecords_paths (h : checkTreeRecords limits previous totals records = .ok totals') :
    ∀ record ∈ records, Addressable record.path := by
  induction records generalizing previous totals with
  | nil => simp
  | cons record records ih =>
    unfold checkTreeRecords at h
    split_ifs at h with hrecord
    simp only [Bool.or_eq_true, not_or, Bool.not_eq_true, Bool.not_eq_false'] at hrecord
    obtain ⟨pathBytes, -, h⟩ := bind_eq_ok.1 h
    obtain ⟨contentBytes, -, h⟩ := bind_eq_ok.1 h
    obtain ⟨metadataBytes, -, h⟩ := bind_eq_ok.1 h
    intro other hother
    rcases mem_cons.1 hother with rfl | hother
    · have hlength := byteLength_le_of_canonicalTreePath hrecord.1.1
      unfold Addressable
      unfold maxSourcePathBytes at hlength
      omega
    · exact ih h other hother

theorem delimits_updateTreeRecord :
    Delimits (fun record ↦ Addressable record.path) updateTreeRecord id := by
  rintro ⟨path, bytes, digest⟩ ⟨path', bytes', digest'⟩ hpath hpath' rest rest' heq
  simp only [updateTreeRecord, append_assoc] at heq
  obtain ⟨hpaths, hafter⟩ := delimits_updateString _ _ hpath hpath' _ _ heq
  obtain ⟨hbytes, hafter'⟩ := delimits_uint64 _ _ trivial trivial _ _ hafter
  obtain ⟨hdigests, hrest⟩ := delimits_digest _ _ trivial trivial _ _ hafter'
  simp_all

theorem canonicalTreeStream_eq_ok {measured : List UInt8 × ℕ}
    (h : canonicalTreeStream limits records = .ok measured) :
    records.length < 2 ^ 64 ∧ (∀ record ∈ records, Addressable record.path) ∧
      measured.1 = canonicalTreeMagic ++ digestVersion ++ countedItems updateTreeRecord records := by
  unfold canonicalTreeStream at h
  obtain ⟨-, h⟩ := unit_bind_eq_ok.1 h
  split_ifs at h with hempty hcount
  obtain ⟨totals, htotals, h⟩ := bind_eq_ok.1 h
  split_ifs at h with hzero
  cases h
  have hlimit := limits.records.toNat_lt
  exact ⟨by omega, checkTreeRecords_paths htotals, rfl⟩

theorem canonicalTreeStream_inj (h : canonicalTreeStream limits records = .ok (stream, bytes))
    (h' : canonicalTreeStream limits' records' = .ok (stream, bytes')) : records = records' := by
  obtain ⟨hcount, hpaths, hstream⟩ := canonicalTreeStream_eq_ok h
  obtain ⟨hcount', hpaths', hstream'⟩ := canonicalTreeStream_eq_ok h'
  have heq := append_cancel_left (hstream.symm.trans hstream')
  have hrecords := delimits_updateTreeRecord.countedItems.key_eq ⟨hcount, hpaths⟩
    ⟨hcount', hpaths'⟩ heq
  simpa using hrecords

/-! ## Source graphs -/

theorem addressable_of_le (h : byteLength value ≤ limit) (hlimit : limit < 2 ^ 64) :
    Addressable value := lt_of_le_of_lt h hlimit

def PackageIdentity.InMemory (identity : PackageIdentity) : Prop :=
  Addressable identity.name.text ∧ Addressable identity.version.text

def PackageLocator.InMemory : PackageLocator → Prop
  | .workspace path => Addressable path
  | .archive provider key => Addressable provider ∧ Addressable key
  | .toolchain component => Addressable component

theorem delimits_updateIdentity : Delimits PackageIdentity.InMemory updateIdentity id := by
  rintro ⟨⟨name⟩, ⟨version⟩, digest⟩ ⟨⟨name'⟩, ⟨version'⟩, digest'⟩ h h' rest rest' heq
  simp only [updateIdentity, append_assoc] at heq
  obtain ⟨hname, hafter⟩ := delimits_updateString _ _ h.1 h'.1 _ _ heq
  obtain ⟨hversion, hafter'⟩ := delimits_updateString _ _ h.2 h'.2 _ _ hafter
  obtain ⟨hdigest, hrest⟩ := delimits_digest _ _ trivial trivial _ _ hafter'
  simp_all

theorem delimits_updateLocator : Delimits PackageLocator.InMemory updateLocator id := by
  intro locator locator' h h' rest rest' heq
  cases locator <;> cases locator' <;>
    simp only [updateLocator, cons_append, append_assoc, List.cons.injEq] at heq
  case workspace.workspace path path' =>
    obtain ⟨hpath, hrest⟩ := delimits_updateString _ _ h h' _ _ heq.2
    simp_all
  case archive.archive provider key provider' key' =>
    obtain ⟨hprovider, hafter⟩ := delimits_updateString _ _ h.1 h'.1 _ _ heq.2
    obtain ⟨hkey, hrest⟩ := delimits_updateString _ _ h.2 h'.2 _ _ hafter
    simp_all
  case toolchain.toolchain component component' =>
    obtain ⟨hcomponent, hrest⟩ := delimits_updateString _ _ h h' _ _ heq.2
    simp_all
  all_goals exact absurd heq.1 (by decide)

/-- What the digest covers of one manifest. -/
def LoadedManifest.hashed (manifest : LoadedManifest) :
    PackageIdentity × PackageLocator × Sha256Digest :=
  (manifest.identity, manifest.locator, manifest.manifestDigest)

/-- What the digest covers of one scenario. -/
def ScenarioInput.hashed (scenario : ScenarioInput) : PackageIdentity × String × Sha256Digest :=
  (scenario.package, scenario.path, scenario.digest)

theorem delimits_updateManifest :
    Delimits (fun manifest : LoadedManifest ↦
      PackageIdentity.InMemory manifest.identity ∧ PackageLocator.InMemory manifest.locator)
      updateManifest LoadedManifest.hashed := by
  intro manifest manifest' h h' rest rest' heq
  simp only [updateManifest, append_assoc] at heq
  obtain ⟨hidentity, hafter⟩ := delimits_updateIdentity _ _ h.1 h'.1 _ _ heq
  obtain ⟨hlocator, hafter'⟩ := delimits_updateLocator _ _ h.2 h'.2 _ _ hafter
  obtain ⟨hdigest, hrest⟩ := delimits_digest _ _ trivial trivial _ _ hafter'
  exact ⟨Prod.ext hidentity (Prod.ext hlocator hdigest), hrest⟩

/-- An identity, a path and a digest, as modules and scenarios are hashed. -/
def updateContent (content : PackageIdentity × String × Sha256Digest) : List UInt8 :=
  updateIdentity content.1 ++ updateString content.2.1 ++ content.2.2.bytes

theorem delimits_updateContent :
    Delimits (fun content : PackageIdentity × String × Sha256Digest ↦
      PackageIdentity.InMemory content.1 ∧ Addressable content.2.1) updateContent id := by
  intro content content' h h' rest rest' heq
  simp only [updateContent, append_assoc] at heq
  obtain ⟨hidentity, hafter⟩ := delimits_updateIdentity _ _ h.1 h'.1 _ _ heq
  obtain ⟨hpath, hafter'⟩ := delimits_updateString _ _ h.2 h'.2 _ _ hafter
  obtain ⟨hdigest, hrest⟩ := delimits_digest _ _ trivial trivial _ _ hafter'
  exact ⟨Prod.ext hidentity (Prod.ext hpath hdigest), hrest⟩

theorem delimits_updateScenario :
    Delimits (fun scenario : ScenarioInput ↦
      PackageIdentity.InMemory scenario.package ∧ Addressable scenario.path)
      updateScenario ScenarioInput.hashed :=
  delimits_updateContent.comap ScenarioInput.hashed

/-- What the digest covers of one module: the identity of its package, and the path and digest of
its source. -/
def SourceGraphHashInput.moduleContent (input : SourceGraphHashInput) (module : ModuleRecord) :
    Option (PackageIdentity × String × Sha256Digest) :=
  match input.graph.packages[module.package.val]?, input.sources.get module.source with
  | some package, some source => some (package.identity, source.path, source.digest)
  | _, _ => none

/-- The bytes are the contents of the modules, one after another. -/
def SourceGraphHashInput.HashesTo (input : SourceGraphHashInput) (modules : List ModuleRecord)
    (bytes : List UInt8) : Prop :=
  ∃ contents : List (PackageIdentity × String × Sha256Digest),
    modules.map input.moduleContent = contents.map some ∧ bytes = contents.flatMap updateContent

theorem SourceGraphHashInput.HashesTo.append {input : SourceGraphHashInput}
    {modules' : List ModuleRecord} {bytes bytes' : List UInt8}
    (h : input.HashesTo modules bytes) (h' : input.HashesTo modules' bytes') :
    input.HashesTo (modules ++ modules') (bytes ++ bytes') := by
  obtain ⟨contents, hcontents, rfl⟩ := h
  obtain ⟨contents', hcontents', rfl⟩ := h'
  exact ⟨contents ++ contents', by rw [map_append, map_append, hcontents, hcontents'],
    by rw [flatMap_append]⟩

theorem updateModules_eq_ok {input : SourceGraphHashInput} {package : PackageRecord}
    {parts : List (List UInt8)}
    (hpackage : ∀ module ∈ modules, input.graph.packages[module.package.val]? = some package)
    (h : modules.mapM (updateModule input.sources package.identity) = .ok parts) :
    input.HashesTo modules parts.flatten := by
  rw [mapM_eq_ok] at h
  induction h with
  | nil => exact ⟨[], rfl, rfl⟩
  | @cons module part modules parts hmodule _ ih =>
    obtain ⟨contents, hcontents, hparts⟩ := ih fun module hmodule ↦
      hpackage module (mem_cons_of_mem _ hmodule)
    unfold updateModule at hmodule
    split at hmodule
    · cases hmodule
    · rename_i source hsource
      cases hmodule
      refine ⟨(package.identity, source.path, source.digest) :: contents, ?_, ?_⟩
      · rw [map_cons, map_cons, hcontents, SourceGraphHashInput.moduleContent,
          hpackage module mem_cons_self, hsource]
      · rw [flatten_cons, flatMap_cons, hparts]
        rfl

/-- The modules from one cursor up to another. -/
def moduleRange (modules : List ModuleRecord) (start stop : ℕ) : List ModuleRecord :=
  (modules.drop start).take (stop - start)

theorem moduleRange_append (modules : List ModuleRecord) (hstart : start ≤ middle)
    (hstop : middle ≤ stop) :
    moduleRange modules start middle ++ moduleRange modules middle stop =
      moduleRange modules start stop := by
  obtain ⟨first, rfl⟩ := Nat.exists_eq_add_of_le hstart
  obtain ⟨second, rfl⟩ := Nat.exists_eq_add_of_le hstop
  have hsecond : start + first + second - (start + first) = second := by omega
  have hboth : start + first + second - start = first + second := by omega
  rw [moduleRange, moduleRange, moduleRange, Nat.add_sub_cancel_left, hsecond, hboth, take_add,
    drop_drop]

theorem mem_moduleRange_cursor
    (h : module ∈ moduleRange modules cursor (moduleCursor modules package cursor)) :
    module.package.val = package := by
  rw [moduleRange, moduleCursor, Nat.add_sub_cancel_left,
    ← prefix_iff_eq_take.1 ( takeWhile_prefix _)] at h
  simpa using mem_takeWhile_imp h

theorem moduleStarts_eq_cons (modules : List ModuleRecord) (packages : List ℕ) (cursor : ℕ) :
    ∃ rest, moduleStarts modules packages cursor = cursor :: rest := by
  cases packages <;> exact ⟨_, rfl⟩

/-- The ranges of the packages cover the modules from the first start to the last. -/
theorem updatePackages_eq_ok {input : SourceGraphHashInput} {packages before : List PackageRecord}
    {early : List ℕ} {cursor : ℕ} {parts : List (List UInt8)}
    (hsplit : input.graph.packages = before ++ packages) (hearly : early.length = before.length)
    (h : (packages.zipIdx before.length).mapM (updatePackageModules input
      (early ++ moduleStarts input.graph.modules (List.range' before.length packages.length) cursor))
        = .ok parts) :
    cursor ≤ (moduleStarts input.graph.modules
      (List.range' before.length packages.length) cursor).getLastD 0 ∧
    input.HashesTo (moduleRange input.graph.modules cursor ((moduleStarts input.graph.modules
      (List.range' before.length packages.length) cursor).getLastD 0)) parts.flatten := by
  induction packages generalizing before early cursor parts with
  | nil =>
    rw [mapM_eq_ok] at h
    cases h
    simpa [moduleStarts, moduleRange] using ⟨[], rfl, rfl⟩
  | cons package packages ih =>
    rw [mapM_eq_ok, zipIdx_cons] at h
    obtain _ | ⟨hpart, hrest⟩ := h
    rename_i part parts
    obtain ⟨rest, hnext⟩ := moduleStarts_eq_cons input.graph.modules
      (List.range' (before.length + 1) packages.length)
      (moduleCursor input.graph.modules before.length cursor)
    have hstarts : moduleStarts input.graph.modules
        (List.range' before.length (package :: packages).length) cursor =
          cursor :: moduleStarts input.graph.modules
            (List.range' (before.length + 1) packages.length)
            (moduleCursor input.graph.modules before.length cursor) := rfl
    rw [hstarts] at hpart hrest ⊢
    have hlast : (cursor :: moduleStarts input.graph.modules
        (List.range' (before.length + 1) packages.length)
        (moduleCursor input.graph.modules before.length cursor)).getLastD 0 =
          (moduleStarts input.graph.modules (List.range' (before.length + 1) packages.length)
            (moduleCursor input.graph.modules before.length cursor)).getLastD 0 := by
      rw [hnext]
      simp
    obtain ⟨hle, hrest⟩ := @ih (before ++ [package]) (early ++ [cursor])
      (moduleCursor input.graph.modules before.length cursor) parts (by simpa using hsplit)
      (by simp [hearly]) (by
        rw [mapM_eq_ok]
        simpa using hrest)
    simp only [length_append, length_singleton] at hle hrest
    rw [hlast]
    have hcursor : cursor ≤ moduleCursor input.graph.modules before.length cursor :=
      Nat.le_add_right _ _
    refine ⟨hcursor.trans hle, ?_⟩
    rw [← moduleRange_append _ hcursor hle, flatten_cons]
    refine SourceGraphHashInput.HashesTo.append ?_ hrest
    have hstart : (early ++ cursor :: moduleStarts input.graph.modules
        (List.range' (before.length + 1) packages.length)
        (moduleCursor input.graph.modules before.length cursor))[before.length]? = some cursor := by
      simp [← hearly]
    have hstop : (early ++ cursor :: moduleStarts input.graph.modules
        (List.range' (before.length + 1) packages.length)
        (moduleCursor input.graph.modules before.length cursor))[before.length + 1]? =
          some (moduleCursor input.graph.modules before.length cursor) := by
      rw [hnext]
      simp [← hearly]
    unfold updatePackageModules at hpart
    simp only [hstart, hstop] at hpart
    obtain ⟨modules, hmodules, hpart⟩ := bind_eq_ok.1 hpart
    cases hpart
    refine updateModules_eq_ok (fun module hmodule ↦ ?_) hmodules
    rw [mem_moduleRange_cursor hmodule, hsplit]
    simp

/-- The stream of a source graph, as the contents of its three lists. -/
theorem sourceGraphStream_eq_ok (h : sourceGraphStream input = .ok stream) :
    ∃ contents : List (PackageIdentity × String × Sha256Digest),
      input.graph.modules.map input.moduleContent = contents.map some ∧
      stream = sourceGraphMagic ++ digestVersion ++ (countedItems updateManifest input.manifests ++
        (countedItems updateContent contents ++ countedItems updateScenario input.scenarios)) := by
  unfold sourceGraphStream at h
  simp only at h
  split_ifs at h with hlast
  obtain ⟨parts, hparts, h⟩ := bind_eq_ok.1 h
  obtain ⟨-, contents, hcontents, hflatten⟩ := @updatePackages_eq_ok input input.graph.packages []
    [] 0 parts rfl rfl (by simpa [range_eq_range'] using hparts)
  have hend : (moduleStarts input.graph.modules
      (List.range' ([] : List PackageRecord).length input.graph.packages.length) 0).getLastD 0 =
        input.graph.modules.length := by
    simpa [range_eq_range'] using hlast
  rw [hend, moduleRange, Nat.sub_zero, drop_zero, take_length] at hcontents
  have hlength : input.graph.modules.length = contents.length := by
    simpa using congrArg List.length hcontents
  refine ⟨contents, hcontents, ?_⟩
  cases h
  rw [hflatten, hlength]
  simp [countedItems]

theorem map_eq_map_of_imp {α β γ δ : Type} {as : List α} {bs : List β} {f : α → γ} {g : β → γ}
    {f' : α → δ} {g' : β → δ} (h : as.map f = bs.map g)
    (himp : ∀ a ∈ as, ∀ b ∈ bs, f a = g b → f' a = g' b) : as.map f' = bs.map g' := by
  induction as generalizing bs with
  | nil => cases bs <;> simp_all
  | cons a as ih =>
    cases bs with
    | nil => cases h
    | cons b bs =>
      simp only [map_cons, List.cons.injEq] at h ⊢
      exact ⟨himp a mem_cons_self b mem_cons_self h.1, ih h.2 fun a ha b hb ↦
        himp a (mem_cons_of_mem _ ha) b (mem_cons_of_mem _ hb)⟩

/-- What the seal has checked of a source graph before it is hashed. -/
structure SourceGraphHashInput.Admissible (U : Unicode) (input : SourceGraphHashInput) : Prop where
  identities : input.graph.packages.map PackageRecord.identity =
    input.manifests.map LoadedManifest.identity
  distinct : (input.manifests.map LoadedManifest.identity).Nodup
  names : ∀ manifest ∈ input.manifests,
    PackageName.new U manifest.identity.name.text = .ok manifest.identity.name ∧
      PackageVersion.new U manifest.identity.version.text = .ok manifest.identity.version
  locators : ∀ manifest ∈ input.manifests, validateLocator U manifest.locator = .ok ()
  counts : input.manifests.length < 2 ^ 32 ∧ input.graph.modules.length < 2 ^ 32 ∧
    input.scenarios.length < 2 ^ 32
  modules : ∀ module ∈ input.graph.modules, ∃ manifest source,
    input.manifests[module.package.val]? = some manifest ∧
      input.sources.get module.source = some source ∧
      byteLength source.path ≤ maxSourcePathBytes ∧
      ModulePath.new U module.path.segments = .ok module.path ∧
      qualifiedSourcePath manifest.identity manifest.manifest.sourceRoot
        module.path.expectedSourcePath = .ok source.path
  scenarios : ∀ scenario ∈ input.scenarios,
    scenario.package ∈ input.manifests.map LoadedManifest.identity ∧
      byteLength scenario.path ≤ maxSourcePathBytes

/-- Two source graphs are the same in everything the digest stands for.  A source path fixes the
module path once the source root of its package is known. -/
structure SourceGraphHashInput.Agrees (input input' : SourceGraphHashInput) : Prop where
  manifests : input.manifests.map LoadedManifest.hashed = input'.manifests.map LoadedManifest.hashed
  contents : input.graph.modules.map input.moduleContent =
    input'.graph.modules.map input'.moduleContent
  packages : input.graph.modules.map ModuleRecord.package =
    input'.graph.modules.map ModuleRecord.package
  scenarios : input.scenarios.map ScenarioInput.hashed = input'.scenarios.map ScenarioInput.hashed
  paths : input.manifests.map (·.manifest.sourceRoot) =
      input'.manifests.map (·.manifest.sourceRoot) →
    input.graph.modules.map ModuleRecord.path = input'.graph.modules.map ModuleRecord.path

theorem validateLocator_inMemory (h : validateLocator U locator = .ok ()) :
    PackageLocator.InMemory locator := by
  have hatom : ∀ {value kind : String}, validateDeclaredAtom U value kind = .ok () →
      Addressable value := by
    intro value kind hvalue
    unfold validateDeclaredAtom at hvalue
    split_ifs at hvalue with hbad
    simp only [Bool.or_eq_true, not_or, decide_eq_true_eq, not_lt] at hbad
    exact addressable_of_le hbad.1.1.2 (by norm_num)
  cases locator with
  | workspace path =>
    simp only [validateLocator, beq_iff_eq] at h
    split_ifs at h with hdot
    · subst hdot
      exact (by decide : byteLength "." < 2 ^ 64)
    · unfold validateManifestPath at h
      split_ifs at h with hbad
      simp only [Bool.or_eq_true, not_or, decide_eq_true_eq, not_lt] at hbad
      exact addressable_of_le hbad.1.1.2 (by norm_num)
  | archive provider key =>
    obtain ⟨hprovider, hkey⟩ := unit_bind_eq_ok.1 h
    exact ⟨hatom hprovider, hatom hkey⟩
  | toolchain component => exact hatom h

namespace SourceGraphHashInput.Admissible

variable {U : Unicode} {input : SourceGraphHashInput}

theorem inMemory (h : input.Admissible U)
    (hidentity : identity ∈ input.manifests.map LoadedManifest.identity) :
    PackageIdentity.InMemory identity := by
  obtain ⟨manifest, hmanifest, rfl⟩ := mem_map.1 hidentity
  obtain ⟨hname, hversion⟩ := h.names manifest hmanifest
  exact ⟨addressable_of_le (PackageName.new_eq_ok hname).2 (by norm_num),
    addressable_of_le (PackageVersion.new_eq_ok hversion).2 (by norm_num)⟩

theorem moduleContent (h : input.Admissible U) (hmodule : module ∈ input.graph.modules) :
    ∃ (manifest : LoadedManifest) (source : SourceFile),
      input.manifests[module.package.val]? = some manifest ∧
      byteLength source.path ≤ maxSourcePathBytes ∧
      ModulePath.new U module.path.segments = .ok module.path ∧
      qualifiedSourcePath manifest.identity manifest.manifest.sourceRoot
        module.path.expectedSourcePath = .ok source.path ∧
      input.moduleContent module = some (manifest.identity, source.path, source.digest) := by
  obtain ⟨manifest, source, hmanifest, hsource, hlength, hpath, hqualified⟩ := h.modules module hmodule
  refine ⟨manifest, source, hmanifest, hlength, hpath, hqualified, ?_⟩
  have hidentity := congrArg (·[module.package.val]?) h.identities
  simp only [List.getElem?_map, hmanifest, Option.map_some, Option.map_eq_some_iff] at hidentity
  obtain ⟨package, hpackage, hidentity⟩ := hidentity
  rw [SourceGraphHashInput.moduleContent, hpackage, hsource, ← hidentity]

theorem contents_inMemory (h : input.Admissible U)
    {contents : List (PackageIdentity × String × Sha256Digest)}
    (hcontents : input.graph.modules.map input.moduleContent = contents.map some) :
    contents.length < 2 ^ 64 ∧ ∀ content ∈ contents,
      PackageIdentity.InMemory content.1 ∧ Addressable content.2.1 := by
  have hlength : input.graph.modules.length = contents.length := by
    simpa using congrArg List.length hcontents
  have hcount := h.counts.2.1
  refine ⟨by omega, fun content hcontent ↦ ?_⟩
  have hmem : some content ∈ input.graph.modules.map input.moduleContent :=
    hcontents ▸ mem_map_of_mem hcontent
  obtain ⟨module, hmodule, hcontent⟩ := mem_map.1 hmem
  obtain ⟨manifest, source, hmanifest, hpath, -, -, hcontent'⟩ := h.moduleContent hmodule
  obtain rfl := Option.some.inj (hcontent.symm.trans hcontent')
  exact ⟨h.inMemory (mem_map_of_mem (mem_of_getElem? hmanifest)),
    addressable_of_le hpath (by norm_num [maxSourcePathBytes])⟩

end SourceGraphHashInput.Admissible

theorem qualifiedSourcePath_inj (h : qualifiedSourcePath package root path = .ok qualified)
    (h' : qualifiedSourcePath package root path' = .ok qualified) : path = path' := by
  unfold qualifiedSourcePath at h h'
  simp only at h h'
  split_ifs at h h'
  have heq := Except.ok.inj (h.trans h'.symm)
  exact String.toList_inj.1 (append_cancel_left (String.ofList_injective heq))

/-- Equal contents come from modules of the same package, and of the same path beneath the same
source root. -/
theorem SourceGraphHashInput.module_eq {U : Unicode} (hU : U.Standard)
    {input input' : SourceGraphHashInput} (h : input.Admissible U) (h' : input'.Admissible U)
    (hmanifests : input.manifests.map LoadedManifest.hashed =
      input'.manifests.map LoadedManifest.hashed)
    {module module' : ModuleRecord} (hmodule : module ∈ input.graph.modules)
    (hmodule' : module' ∈ input'.graph.modules)
    (hcontent : input.moduleContent module = input'.moduleContent module') :
    module.package = module'.package ∧
      (input.manifests.map (·.manifest.sourceRoot) =
        input'.manifests.map (·.manifest.sourceRoot) → module.path = module'.path) := by
  obtain ⟨manifest, source, hmanifest, -, hpath, hqualified, hsome⟩ := h.moduleContent hmodule
  obtain ⟨manifest', source', hmanifest', -, hpath', hqualified', hsome'⟩ :=
    h'.moduleContent hmodule'
  rw [hsome, hsome', Option.some.injEq, Prod.mk.injEq, Prod.mk.injEq] at hcontent
  obtain ⟨hidentity, hsource, -⟩ := hcontent
  have hidentities : input.manifests.map LoadedManifest.identity =
      input'.manifests.map LoadedManifest.identity := by
    have hfirst := congrArg (List.map Prod.fst) hmanifests
    simpa [map_map, Function.comp_def, LoadedManifest.hashed] using hfirst
  have hposition : (input.manifests.map LoadedManifest.identity)[module.package.val]? =
      (input.manifests.map LoadedManifest.identity)[module'.package.val]? := by
    rw [List.getElem?_map, hmanifest, hidentities, List.getElem?_map, hmanifest', Option.map_some,
      Option.map_some, hidentity]
  have hlt : module.package.val < (input.manifests.map LoadedManifest.identity).length := by
    rw [length_map]
    exact (List.getElem?_eq_some_iff.1 hmanifest).1
  have hindex : module.package.val = module'.package.val := (List.getElem?_inj hlt h.distinct).1 hposition
  refine ⟨PackageId.ext hindex, fun hroots ↦ ?_⟩
  have hroot : manifest.manifest.sourceRoot = manifest'.manifest.sourceRoot := by
    have hget := congrArg (·[module.package.val]?) hroots
    simp only [List.getElem?_map, hmanifest, Option.map_some] at hget
    rw [hindex, hmanifest', Option.map_some] at hget
    exact Option.some.inj hget
  rw [← hidentity, ← hroot, ← hsource] at hqualified'
  exact ModulePath.expectedSourcePath_inj hU hpath hpath'
    (qualifiedSourcePath_inj hqualified hqualified')

theorem sourceGraphStream_agrees {U : Unicode} (hU : U.Standard)
    {input input' : SourceGraphHashInput} (h : input.Admissible U) (h' : input'.Admissible U)
    (hstream : sourceGraphStream input = .ok stream)
    (hstream' : sourceGraphStream input' = .ok stream) : input.Agrees input' := by
  obtain ⟨contents, hcontents, heq⟩ := sourceGraphStream_eq_ok hstream
  obtain ⟨contents', hcontents', heq'⟩ := sourceGraphStream_eq_ok hstream'
  have hmemory : ∀ {input : SourceGraphHashInput}, input.Admissible U →
      (input.manifests.length < 2 ^ 64 ∧ ∀ manifest ∈ input.manifests,
        PackageIdentity.InMemory manifest.identity ∧ PackageLocator.InMemory manifest.locator) ∧
      (input.scenarios.length < 2 ^ 64 ∧ ∀ scenario ∈ input.scenarios,
        PackageIdentity.InMemory scenario.package ∧ Addressable scenario.path) := by
    intro input h
    have hcounts := h.counts
    refine ⟨⟨by omega, fun manifest hmanifest ↦ ?_⟩, ⟨by omega, fun scenario hscenario ↦ ?_⟩⟩
    · exact ⟨h.inMemory (mem_map_of_mem hmanifest),
        validateLocator_inMemory (h.locators manifest hmanifest)⟩
    · obtain ⟨hpackage, hpath⟩ := h.scenarios scenario hscenario
      exact ⟨h.inMemory hpackage, addressable_of_le hpath (by norm_num [maxSourcePathBytes])⟩
  obtain ⟨hmanifests, hafter⟩ := delimits_updateManifest.countedItems _ _ (hmemory h).1
    (hmemory h').1 _ _ (append_cancel_left (heq.symm.trans heq'))
  obtain ⟨hmodules, hrest⟩ := delimits_updateContent.countedItems _ _
    (h.contents_inMemory hcontents) (h'.contents_inMemory hcontents') _ _ hafter
  have hscenarios := delimits_updateScenario.countedItems.key_eq (hmemory h).2 (hmemory h').2 hrest
  have hsame : input.graph.modules.map input.moduleContent =
      input'.graph.modules.map input'.moduleContent := by
    rw [hcontents, hcontents', show contents = contents' by simpa using hmodules]
  refine ⟨hmanifests, hsame, ?_, hscenarios, fun hroots ↦ ?_⟩
  · exact map_eq_map_of_imp hsame fun module hmodule module' hmodule' hcontent ↦
      (SourceGraphHashInput.module_eq hU h h' hmanifests hmodule hmodule' hcontent).1
  · exact map_eq_map_of_imp hsame fun module hmodule module' hmodule' hcontent ↦
      (SourceGraphHashInput.module_eq hU h h' hmanifests hmodule hmodule' hcontent).2 hroots

/-- Two streams on which the hash collides. -/
def Collides (sha256 : List UInt8 → Sha256Digest) (stream stream' : List UInt8) : Prop :=
  stream ≠ stream' ∧ sha256 stream = sha256 stream'

/-- Content and paths of one package as a slice of memory holds them. -/
def ContentInMemory (manifest : List UInt8) (records : List PackageContentRecord) : Prop :=
  manifest.length < 2 ^ 64 ∧ ∀ record ∈ records, Addressable record.path

/-- Each of the three streams determines what was hashed, so equal digests mean equal inputs or a
collision of the hash on their streams. -/
theorem workspaceDigests_preimage_injective {U : Unicode} (hU : U.Standard)
    (sha256 : List UInt8 → Sha256Digest) :
    (∀ manifest manifest' records records' stream stream',
      ContentInMemory manifest records → ContentInMemory manifest' records' →
      packageContentStream manifest records = .ok stream →
      packageContentStream manifest' records' = .ok stream' →
      (stream = stream' → manifest = manifest' ∧ records = records') ∧
      (packageContentDigest sha256 manifest records =
          packageContentDigest sha256 manifest' records' →
        (manifest = manifest' ∧ records = records') ∨ Collides sha256 stream stream')) ∧
    (∀ limits limits' records records' measured measured',
      canonicalTreeStream limits records = .ok measured →
      canonicalTreeStream limits' records' = .ok measured' →
      (measured.1 = measured'.1 → records = records') ∧
      (canonicalTreeDigest sha256 limits records = canonicalTreeDigest sha256 limits' records' →
        records = records' ∨ Collides sha256 measured.1 measured'.1)) ∧
    (∀ input input' stream stream', input.Admissible U → input'.Admissible U →
      sourceGraphStream input = .ok stream → sourceGraphStream input' = .ok stream' →
      (stream = stream' → input.Agrees input') ∧
      (hashSourceGraph sha256 input = hashSourceGraph sha256 input' →
        input.Agrees input' ∨ Collides sha256 stream stream')) := by
  refine ⟨fun manifest manifest' records records' stream stream' hmemory hmemory' h h' ↦ ?_,
    fun limits limits' records records' measured measured' h h' ↦ ?_,
    fun input input' stream stream' hinput hinput' h h' ↦ ?_⟩
  · have hinj : stream = stream' → manifest = manifest' ∧ records = records' := by
      rintro rfl
      exact packageContentStream_inj hmemory.1 hmemory'.1 hmemory.2 hmemory'.2 h h'
    refine ⟨hinj, fun hdigest ↦ ?_⟩
    rw [packageContentDigest, packageContentDigest, h, h'] at hdigest
    rcases eq_or_ne stream stream' with heq | hne
    · exact .inl (hinj heq)
    · exact .inr ⟨hne, Except.ok.inj hdigest⟩
  · have hinj : measured.1 = measured'.1 → records = records' := by
      obtain ⟨stream, bytes⟩ := measured
      rintro rfl
      exact canonicalTreeStream_inj h h'
    refine ⟨hinj, fun hdigest ↦ ?_⟩
    rw [canonicalTreeDigest, canonicalTreeDigest, h, h'] at hdigest
    rcases eq_or_ne measured.1 measured'.1 with heq | hne
    · exact .inl (hinj heq)
    · exact .inr ⟨hne, congrArg CanonicalTreeMeasurement.digest (Except.ok.inj hdigest)⟩
  · have hinj : stream = stream' → input.Agrees input' := by
      rintro rfl
      exact sourceGraphStream_agrees hU hinput hinput' h h'
    refine ⟨hinj, fun hdigest ↦ ?_⟩
    rw [hashSourceGraph, hashSourceGraph, h, h'] at hdigest
    rcases eq_or_ne stream stream' with heq | hne
    · exact .inl (hinj heq)
    · exact .inr ⟨hne, Except.ok.inj hdigest⟩

section Example

def exampleDigest (byte : UInt8) : Sha256Digest := .repeated byte

def exampleIdentity : PackageIdentity := ⟨⟨"app"⟩, ⟨"1"⟩, exampleDigest 1⟩

def exampleManifest (locator : PackageLocator) : LoadedManifest where
  identity := exampleIdentity
  locator := locator
  manifestDigest := exampleDigest 2
  manifest := ⟨1, .design01, ⟨"app"⟩, ⟨"1"⟩, "src", [], [], [], []⟩

def exampleSourcePath : String := "packages/617070/31/" ++
  "0101010101010101010101010101010101010101010101010101010101010101/src/main.wr"

/-- One package with one module. -/
def exampleSourceGraph (locator : PackageLocator) : SourceGraphHashInput where
  graph := ⟨⟨0⟩, [⟨⟨0⟩, exampleIdentity, []⟩], [⟨⟨0⟩, ⟨0⟩, ⟨["main"]⟩, ⟨0⟩⟩]⟩
  sources := ⟨[⟨⟨0⟩, exampleSourcePath, "", exampleDigest 3, [0]⟩], ∅⟩
  manifests := [exampleManifest locator]
  scenarios := []

theorem exampleSourceGraph_admissible (h : validateLocator .ascii locator = .ok ()) :
    (exampleSourceGraph locator).Admissible .ascii where
  identities := rfl
  distinct := nodup_singleton _
  names := by
    intro manifest hmanifest
    obtain rfl := mem_singleton.1 hmanifest
    exact ⟨(by decide : PackageName.new .ascii "app" = .ok ⟨"app"⟩),
      (by decide : PackageVersion.new .ascii "1" = .ok ⟨"1"⟩)⟩
  locators := by
    intro manifest hmanifest
    obtain rfl := mem_singleton.1 hmanifest
    exact h
  counts := by simp [exampleSourceGraph]
  modules := by
    intro module hmodule
    obtain rfl := mem_singleton.1 hmodule
    have hqualified : qualifiedSourcePath exampleIdentity "src" "main.wr" =
        .ok exampleSourcePath := by decide
    exact ⟨exampleManifest locator, _, rfl, rfl, by decide, by decide, hqualified⟩
  scenarios := by simp [exampleSourceGraph]

def exampleTreeRecord (bytes : UInt64) : CanonicalTreeRecord := ⟨"bin/tool", bytes, exampleDigest 4⟩

/-- Inputs that differ in one field have different streams. -/
theorem workspaceDigests_preimage_injective_ascii :
    packageContentStream [1] [] ≠ packageContentStream [2] [] ∧
    (canonicalTreeStream .standard [exampleTreeRecord 1]).map Prod.fst ≠
      (canonicalTreeStream .standard [exampleTreeRecord 2]).map Prod.fst ∧
    sourceGraphStream (exampleSourceGraph (.workspace ".")) ≠
      sourceGraphStream (exampleSourceGraph (.workspace "app")) := by
  obtain ⟨hcontent, htree, hgraph⟩ :=
    workspaceDigests_preimage_injective Unicode.ascii_standard fun _ ↦ exampleDigest 0
  refine ⟨fun heq ↦ ?_, fun heq ↦ ?_, fun heq ↦ ?_⟩
  · have hmanifest := ((hcontent [1] [2] [] [] _ _ ⟨by simp, by simp⟩ ⟨by simp, by simp⟩ rfl rfl).1
      (Except.ok.inj heq)).1
    exact absurd hmanifest (by decide)
  · have hrecords := (htree .standard .standard [exampleTreeRecord 1] [exampleTreeRecord 2] _ _
      rfl rfl).1 (Except.ok.inj heq)
    exact absurd hrecords (by decide)
  · have hagrees := (hgraph _ _ _ _ (exampleSourceGraph_admissible (by decide))
      (exampleSourceGraph_admissible (by decide)) rfl rfl).1 (Except.ok.inj heq)
    exact absurd hagrees.manifests (by decide)

end Example

end Wrela.PackageLoader
