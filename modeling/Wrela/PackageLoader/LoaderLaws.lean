import Mathlib.Data.Char
import Wrela.Package.GraphLaws
import Wrela.Package.NameLaws
import Wrela.PackageLoader.Loader

/-!
# Order of qualified source paths

A qualified path begins with the name of its package in hexadecimal.  Hexadecimal keeps the order of
bytes, so the paths of two packages are ordered by the names of the packages and the paths of one
package by the paths beneath its source root.
-/

namespace Wrela.PackageLoader

open List Wrela.Source Wrela.BuildModel Wrela.Package Wrela.Checked Wrela.Wire

def hexByte (value : ℕ) : UInt8 := UInt8.ofNat (hexDigits.getD value '0').toNat

def hexCode (byte : UInt8) : List UInt8 := [hexByte (byte.toNat / 16), hexByte (byte.toNat % 16)]

theorem mem_hexBytes (h : digit ∈ hexBytes bytes) :
    ∃ value < 16, digit = hexDigits.getD value '0' := by
  obtain ⟨byte, -, hdigit⟩ := mem_flatMap.1 h
  have hbyte := byte.toNat_lt
  rcases mem_pair.1 hdigit with hdigit | hdigit
  · exact ⟨_, by omega, hdigit⟩
  · exact ⟨_, by omega, hdigit⟩

theorem encodeChars_hexBytes (bytes : List UInt8) :
    encodeChars (hexBytes bytes) = bytes.flatMap hexCode := by
  have hdigit : ∀ value < 16, String.utf8EncodeChar (hexDigits.getD value '0') =
      [hexByte value] := by decide
  rw [encodeChars, hexBytes, flatMap_assoc]
  congr 1
  funext byte
  have hbyte := byte.toNat_lt
  rw [flatMap_cons, flatMap_cons, hdigit _ (by omega), hdigit _ (by omega)]
  rfl

theorem hexByte_lt (hlt : value < value') (hle : value' < 16) : hexByte value < hexByte value' := by
  have hdigits : ∀ value' < 16, ∀ value < value', hexByte value < hexByte value' := by decide
  exact hdigits value' hle value hlt

theorem hexCode_strictMono : StrictMono hexCode := by
  intro byte byte' hlt
  rw [UInt8.lt_iff_toNat_lt] at hlt
  have hbyte' := byte'.toNat_lt
  rw [hexCode, hexCode, cons_lt_cons_iff, cons_lt_cons_iff]
  rcases Nat.lt_or_eq_of_le (Nat.div_le_div_right (c := 16) hlt.le) with hhigh | hhigh
  · exact .inl (hexByte_lt hhigh (by omega))
  · exact .inr ⟨congrArg hexByte hhigh, .inl (hexByte_lt (by omega) (by omega))⟩

theorem hexWord_strictMono : StrictMono fun bytes : List UInt8 ↦ bytes.flatMap hexCode :=
  Data.flatMap_strictMono two_pos (fun _ ↦ rfl) hexCode_strictMono

/-- The separator of path components is below every digit. -/
theorem slash_lt_hexWord (bytes : List UInt8) : ∀ byte ∈ bytes.flatMap hexCode, 47 < byte := by
  have hdigits : ∀ value < 16, 47 < hexByte value := by decide
  intro digit hdigit
  obtain ⟨byte, -, hdigit⟩ := mem_flatMap.1 hdigit
  have hbyte := byte.toNat_lt
  rcases mem_pair.1 hdigit with rfl | rfl
  · exact hdigits _ (by omega)
  · exact hdigits _ (by omega)

theorem slash_lt_hexBytes (bytes : List UInt8) : ∀ digit ∈ hexBytes bytes, '/' < digit := by
  have hdigits : ∀ value < 16, '/' < hexDigits.getD value '0' := by decide
  intro digit hdigit
  obtain ⟨value, hvalue, rfl⟩ := mem_hexBytes hdigit
  exact hdigits value hvalue

theorem hexBytes_toLower (bytes : List UInt8) :
    (hexBytes bytes).map Char.toLower = hexBytes bytes := by
  have hdigits : ∀ value < 16, (hexDigits.getD value '0').toLower = hexDigits.getD value '0' := by
    decide
  refine (map_congr_left fun digit hdigit ↦ ?_).trans (map_id _)
  obtain ⟨value, hvalue, rfl⟩ := mem_hexBytes hdigit
  exact hdigits value hvalue

theorem hexBytes_injective : Function.Injective hexBytes := by
  intro bytes bytes' h
  refine hexWord_strictMono.injective ?_
  simp only [← encodeChars_hexBytes, h]

/-- The text of a qualified path, without its length check. -/
def qualifiedPathText (package : PackageIdentity) (sourceRoot sourcePath : String) : String :=
  String.ofList ("packages/".toList ++ hexBytes (utf8Bytes package.name.text) ++ ['/'] ++
    hexBytes (utf8Bytes package.version.text) ++ ['/'] ++ hexBytes package.sourceDigest.bytes ++
    ['/'] ++ sourceRoot.toList ++ ['/'] ++ sourcePath.toList)

variable {package : PackageIdentity} {sourceRoot sourcePath sourcePath' : String}

theorem qualifiedSourcePath_eq_text
    (h : qualifiedSourcePath package sourceRoot sourcePath = .ok path) :
    path = qualifiedPathText package sourceRoot sourcePath := by
  unfold qualifiedSourcePath at h
  simp only at h
  split_ifs at h
  exact (Except.ok.inj h).symm

/-- The part of a qualified path between its package name and the path beneath the source root. -/
def qualifiedPathMiddle (package : PackageIdentity) (sourceRoot : String) : List Char :=
  '/' :: (hexBytes (utf8Bytes package.version.text) ++ '/' ::
    (hexBytes package.sourceDigest.bytes ++ '/' :: (sourceRoot.toList ++ ['/'])))

theorem toList_qualifiedPathText (package : PackageIdentity) (sourceRoot sourcePath : String) :
    (qualifiedPathText package sourceRoot sourcePath).toList =
      "packages/".toList ++ (hexBytes (utf8Bytes package.name.text) ++
        (qualifiedPathMiddle package sourceRoot ++ sourcePath.toList)) := by
  unfold qualifiedPathText qualifiedPathMiddle
  simp only [String.toList_ofList, append_assoc, cons_append, nil_append]

theorem utf8Bytes_qualifiedPathText (package : PackageIdentity) (sourceRoot sourcePath : String) :
    utf8Bytes (qualifiedPathText package sourceRoot sourcePath) =
      utf8Bytes "packages/" ++ ((utf8Bytes package.name.text).flatMap hexCode ++
        (encodeChars (qualifiedPathMiddle package sourceRoot) ++ utf8Bytes sourcePath)) := by
  simp only [utf8Bytes_eq_encodeChars (qualifiedPathText _ _ _), toList_qualifiedPathText,
    encodeChars_append, encodeChars_hexBytes, ← utf8Bytes_eq_encodeChars]

theorem qualifiedPathText_lt_of_name_lt
    (h : utf8Bytes package.name.text < utf8Bytes package'.name.text) :
    utf8Bytes (qualifiedPathText package sourceRoot sourcePath) <
      utf8Bytes (qualifiedPathText package' sourceRoot' sourcePath') := by
  have hslash : String.utf8EncodeChar '/' = [47] := by decide
  rw [utf8Bytes_qualifiedPathText, utf8Bytes_qualifiedPathText, Data.append_left_lt_iff]
  simp only [qualifiedPathMiddle, encodeChars, flatMap_cons, hslash, cons_append, nil_append]
  rw [Data.append_cons_lt_append_cons_iff (slash_lt_hexWord _) (slash_lt_hexWord _)]
  exact .inl (hexWord_strictMono h)

theorem qualifiedPathText_lt_iff
    :
    utf8Bytes (qualifiedPathText package sourceRoot sourcePath) <
        utf8Bytes (qualifiedPathText package sourceRoot sourcePath') ↔
      utf8Bytes sourcePath < utf8Bytes sourcePath' := by
  simp only [utf8Bytes_qualifiedPathText, Data.append_left_lt_iff]

/-- Paths of packages with different names differ even without regard to case. -/
theorem name_eq_of_toAsciiLowercase_eq
    (h : toAsciiLowercase (qualifiedPathText package sourceRoot sourcePath) =
      toAsciiLowercase (qualifiedPathText package' sourceRoot' sourcePath')) :
    package.name = package'.name := by
  have hslash : Char.toLower '/' = '/' := by decide
  have hlist := String.ofList_injective h
  simp only [toList_qualifiedPathText, qualifiedPathMiddle, map_append, map_cons,
    hexBytes_toLower, hslash, append_cancel_left_eq, cons_append] at hlist
  have hname := Data.front_eq_of_append_cons_eq (slash_lt_hexBytes _) (slash_lt_hexBytes _) hlist
  obtain ⟨⟨name⟩, version, digest⟩ := package
  obtain ⟨⟨name'⟩, version', digest'⟩ := package'
  exact congrArg PackageName.mk (utf8Bytes_injective (hexBytes_injective hname))

theorem toAsciiLowercase_qualifiedPathText_eq_iff
    :
    toAsciiLowercase (qualifiedPathText package sourceRoot sourcePath) =
        toAsciiLowercase (qualifiedPathText package sourceRoot sourcePath') ↔
      toAsciiLowercase sourcePath = toAsciiLowercase sourcePath' := by
  simp only [toAsciiLowercase, String.ofList_inj, toList_qualifiedPathText, map_append,
    append_cancel_left_eq]

variable {U : Unicode}

theorem eq_append_of_stripSuffix (h : stripSuffix suffix value = some text) :
    value = text ++ suffix := by
  unfold stripSuffix at h
  split_ifs at h with hsuffix
  obtain ⟨front, hfront⟩ := isSuffixOf_iff_suffix.1 hsuffix
  have htext := Option.some.inj h
  rw [← hfront, length_append, Nat.add_sub_cancel, take_left] at htext
  rw [← String.toList_inj, ← htext, String.toList_append, String.toList_ofList, hfront]

theorem intercalate_splitText (value : String) : "/".intercalate (splitText '/' value) = value := by
  have hslash : "/".toList = ['/'] := by decide
  rw [← String.toList_inj, String.toList_intercalate, splitText, map_map, hslash]
  have hid : String.toList ∘ String.ofList = id := by
    funext characters
    simp
  rw [hid, map_id, intercalate_splitOn]

/-- One source that became a module: it is named by its file and its text has its digest. -/
structure ValidatedSource.Derived (U : Unicode) (sha256 : List UInt8 → Sha256Digest)
    (source : ValidatedSource) : Prop where
  module_valid : ModulePath.new U source.module.segments = .ok source.module
  relativePath_eq : source.relativePath = source.module.expectedSourcePath
  digest_eq : sha256 (Wire.utf8Bytes source.text) = source.digest

theorem deriveModule_eq_ok (h : deriveModule U sha256 portablePaths source = .ok validated) :
    validated.Derived U sha256 ∧ validated.relativePath = source.path ∧
      toAsciiLowercase source.path ∉ portablePaths := by
  unfold deriveModule at h
  obtain ⟨-, h⟩ := unit_bind_eq_ok.1 h
  obtain ⟨moduleText, htext, h⟩ := bind_eq_ok.1 h
  obtain ⟨hportable, h⟩ := unit_bind_eq_ok.1 h
  obtain ⟨module, hmodule, h⟩ := bind_eq_ok.1 h
  obtain ⟨hdigest, h⟩ := unit_bind_eq_ok.1 h
  cases h
  have hmodule := mapError_eq_ok.1 hmodule
  obtain ⟨-, hsegments, -⟩ := ModulePath.new_eq_ok.1 hmodule
  refine ⟨⟨hsegments ▸ hmodule, ?_, by simpa using hdigest⟩, rfl, by simpa using hportable⟩
  rw [ModulePath.expectedSourcePath, hsegments, intercalate_splitText]
  exact eq_append_of_stripSuffix (orFail_eq_ok.1 htext)

theorem deriveEach_eq_ok (h : deriveEach U sha256 portablePaths sources = .ok validated) :
    validated.length = sources.length ∧ (∀ source ∈ validated, source.Derived U sha256) ∧
      (validated.map fun source ↦ toAsciiLowercase source.relativePath).Nodup ∧
      ∀ source ∈ validated, toAsciiLowercase source.relativePath ∉ portablePaths := by
  induction sources generalizing portablePaths validated with
  | nil =>
    cases h
    simp
  | cons source sources ih =>
    unfold deriveEach at h
    obtain ⟨first, hfirst, h⟩ := bind_eq_ok.1 h
    obtain ⟨rest, hrest, h⟩ := bind_eq_ok.1 h
    cases h
    obtain ⟨hderived, hpath, hportable⟩ := deriveModule_eq_ok hfirst
    obtain ⟨hlength, hall, hnodup, hdisjoint⟩ := ih hrest
    rw [← hpath] at hdisjoint hportable
    refine ⟨by simp [hlength], ?_, ?_, ?_⟩
    · simpa using ⟨hderived, hall⟩
    · rw [map_cons, nodup_cons, mem_map]
      refine ⟨?_, hnodup⟩
      rintro ⟨source', hsource', heq⟩
      exact hdisjoint source' hsource' (heq ▸ mem_cons_self)
    · rw [forall_mem_cons]
      exact ⟨hportable, fun source' hsource' hmem ↦
        hdisjoint source' hsource' (mem_cons_of_mem _ hmem)⟩

/-- The modules of one package after their checks. -/
structure DerivedSources (U : Unicode) (sha256 : List UInt8 → Sha256Digest)
    (sources : List ValidatedSource) : Prop where
  derived : ∀ source ∈ sources, source.Derived U sha256
  sorted : sources.Pairwise fun left right ↦
    Wire.utf8Bytes left.relativePath < Wire.utf8Bytes right.relativePath
  portable : (sources.map fun source ↦ toAsciiLowercase source.relativePath).Nodup

theorem deriveModules_eq_ok (h : deriveModules U sha256 sources = .ok validated) :
    DerivedSources U sha256 validated ∧ validated.length = sources.length := by
  unfold deriveModules at h
  iterate 2 obtain ⟨-, h⟩ := unit_bind_eq_ok.1 h
  obtain ⟨derived, hderived, h⟩ := bind_eq_ok.1 h
  obtain ⟨hsorted, h⟩ := unit_bind_eq_ok.1 h
  cases h
  obtain ⟨hlength, hall, hnodup, -⟩ := deriveEach_eq_ok hderived
  simp only [failIf_eq_ok, decide_eq_false_iff_not, not_not, isChain_iff_pairwise,
    pairwise_map] at hsorted
  exact ⟨⟨hall, hsorted, hnodup⟩, by rw [hlength, sortSources, length_insertionSort]⟩

/-- One source on its way into the database and the graph. -/
structure LoadItem where
  handle : PackageHandle
  path : String
  source : ValidatedSource

def loadItem (U : Unicode) (state : SourceDatabase × PackageGraphBuilder) (item : LoadItem) :
    Except LoadError (SourceDatabase × PackageGraphBuilder) := do
  let added ← (state.1.add U ⟨item.path, item.source.text, item.source.digest⟩).mapError .source
  let outcome ← graphOutcome (state.2.addModule item.handle item.source.module added.1)
  .ok (added.2, outcome.2)

/-- The database after a list of items. -/
def databaseOf (items : List LoadItem) : SourceDatabase where
  files := items.mapIdx fun index item ↦ ⟨⟨UInt32.ofNat index⟩, item.path, item.source.text,
    item.source.digest, lineStarts item.source.text⟩
  portablePaths := (items.map fun item ↦ toAsciiLowercase item.path).toFinset

/-- A builder without modules after a list of items. -/
def builderOf (base : PackageGraphBuilder) (items : List LoadItem) : PackageGraphBuilder :=
  { base with
    modules := items.mapIdx fun index item ↦ ⟨item.handle, item.source.module, ⟨UInt32.ofNat index⟩⟩
    modulePaths := (items.map fun item ↦ (item.handle, item.source.module)).toFinset
    portableModulePaths :=
      (items.map fun item ↦ (item.handle, item.source.module.portableKey)).toFinset
    moduleSources := ((List.range items.length).map fun index ↦ ⟨UInt32.ofNat index⟩).toFinset }

/-- Items no check but that of the path order can refuse, in a graph of so many packages. -/
structure Loadable (U : Unicode) (packages : ℕ) (items : List LoadItem) : Prop where
  path_valid : ∀ item ∈ items, validateSourcePath U item.path = .ok ()
  text_small : ∀ item ∈ items, byteLength item.source.text < 2 ^ 32 ∧
    (lineStarts item.source.text).length < 2 ^ 32
  handle_lt : ∀ item ∈ items, item.handle.index < packages
  portable : (items.map fun item ↦ toAsciiLowercase item.path).Nodup
  modules : (items.map fun item ↦ (item.handle, item.source.module.portableKey)).Nodup
  count : items.length ≤ maxModules

theorem Loadable.left (h : Loadable U packages (items ++ items')) : Loadable U packages items where
  path_valid item hitem := h.path_valid item (mem_append_left _ hitem)
  text_small item hitem := h.text_small item (mem_append_left _ hitem)
  handle_lt item hitem := h.handle_lt item (mem_append_left _ hitem)
  portable := (map_append ▸ h.portable).of_append_left
  modules := (map_append ▸ h.modules).of_append_left
  count := by
    have hcount := h.count
    rw [length_append] at hcount
    omega

theorem databaseOf_concat (items : List LoadItem) (item : LoadItem) :
    databaseOf (items ++ [item]) = {
      files := (databaseOf items).files ++ [⟨⟨UInt32.ofNat items.length⟩, item.path,
        item.source.text, item.source.digest, lineStarts item.source.text⟩]
      portablePaths := insert (toAsciiLowercase item.path) (databaseOf items).portablePaths } := by
  simp only [databaseOf, mapIdx_concat, map_append, map_cons, map_nil,
    toFinset_append, toFinset_cons, toFinset_nil, insert_empty_eq, Finset.union_comm,
    Finset.insert_eq]

theorem builderOf_concat (base : PackageGraphBuilder) (items : List LoadItem) (item : LoadItem) :
    builderOf base (items ++ [item]) = { builderOf base items with
      moduleSources := insert ⟨UInt32.ofNat items.length⟩ (builderOf base items).moduleSources
      modules := (builderOf base items).modules ++
        [⟨item.handle, item.source.module, ⟨UInt32.ofNat items.length⟩⟩]
      modulePaths := insert (item.handle, item.source.module) (builderOf base items).modulePaths
      portableModulePaths := insert (item.handle, item.source.module.portableKey)
        (builderOf base items).portableModulePaths } := by
  simp only [builderOf, mapIdx_concat, map_append, map_cons, map_nil,
    toFinset_append, toFinset_cons, toFinset_nil, insert_empty_eq, Finset.union_comm,
    Finset.insert_eq, length_append, length_cons, length_nil, range_succ,
    zero_add]

/-- What does not depend on the position is the same for numbered elements. -/
theorem map_mapIdx {α β γ : Type} {f : ℕ → α → β} {g : β → γ} {h : α → γ}
    (hf : ∀ index a, g (f index a) = h a) (as : List α) : (as.mapIdx f).map g = as.map h := by
  refine ext_getElem? fun index ↦ ?_
  simp only [List.getElem?_map, List.getElem?_mapIdx, Option.map_map]
  congr 1
  funext a
  exact hf index a

theorem map_path_databaseOf (items : List LoadItem) :
    (databaseOf items).files.map SourceFile.path = items.map LoadItem.path :=
  map_mapIdx (fun _ _ ↦ by rfl) items

theorem length_databaseOf (items : List LoadItem) :
    (databaseOf items).files.length = items.length := by
  simp [databaseOf]

/-- The path of an item follows the last path before it. -/
def FollowsLast (items : List LoadItem) (item : LoadItem) : Prop :=
  ∀ previous ∈ items.getLast?, Wire.utf8Bytes previous.path < Wire.utf8Bytes item.path

theorem followsLast_databaseOf :
    (∀ previous ∈ (databaseOf items).files.getLast?,
        Wire.utf8Bytes previous.path < Wire.utf8Bytes item.path) ↔ FollowsLast items item := by
  have hlast := congrArg List.getLast? (map_path_databaseOf items)
  rw [List.getLast?_map, List.getLast?_map] at hlast
  unfold FollowsLast
  cases hfile : (databaseOf items).files.getLast? with
  | none =>
    rw [hfile, Option.map_none, eq_comm, Option.map_eq_none_iff] at hlast
    simp [hlast]
  | some file =>
    rw [hfile, Option.map_some, eq_comm, Option.map_eq_some_iff] at hlast
    obtain ⟨previous, hprevious, hpath⟩ := hlast
    simp [hprevious, hpath]

/-- One step of the loop: everything but the order of paths is settled beforehand. -/
theorem loadItem_eq_ok (h : Loadable U base.packages.length (items ++ [item])) :
    loadItem U (databaseOf items, builderOf base items) item = .ok result ↔
      FollowsLast items item ∧
        result = (databaseOf (items ++ [item]), builderOf base (items ++ [item])) := by
  have hitem : item ∈ items ++ [item] := by simp
  have hcount : items.length < maxModules := by simpa using h.count
  have hnarrow : items.length < 2 ^ 32 := lt_trans hcount (by decide)
  have hportable : toAsciiLowercase item.path ∉ (databaseOf items).portablePaths := by
    have hnodup := h.portable
    rw [map_append, nodup_append] at hnodup
    simp only [databaseOf, mem_toFinset]
    exact fun hmem ↦ hnodup.2.2 _ hmem _ (by simp) rfl
  have hmodule : (item.handle, item.source.module.portableKey) ∉
      (builderOf base items).portableModulePaths := by
    have hnodup := h.modules
    rw [map_append, nodup_append] at hnodup
    simp only [builderOf, mem_toFinset]
    exact fun hmem ↦ hnodup.2.2 _ hmem _ (by simp) rfl
  have hpath : (item.handle, item.source.module) ∉ (builderOf base items).modulePaths := by
    simp only [builderOf, mem_toFinset, mem_map, Prod.mk.injEq] at hmodule ⊢
    rintro ⟨item', hitem', hhandle, heq⟩
    exact hmodule ⟨item', hitem', hhandle, by rw [heq]⟩
  have hsource : (⟨UInt32.ofNat items.length⟩ : FileId) ∉ (builderOf base items).moduleSources := by
    simp only [builderOf, mem_toFinset, mem_map, mem_range, FileId.mk.injEq]
    rintro ⟨index, hindex, heq⟩
    have hval := congrArg UInt32.toNat heq
    rw [UInt32.toNat_ofNat_of_lt' (lt_trans hindex hnarrow),
      UInt32.toNat_ofNat_of_lt' hnarrow] at hval
    omega
  have hadd := @PackageGraphBuilder.addModule_eq_ok (builderOf base items) _ _ _
    (by simpa [builderOf] using hcount) (h.handle_lt item hitem) hpath hmodule hsource
  unfold loadItem
  rw [bind_eq_ok]
  constructor
  · rintro ⟨added, hadded, hresult⟩
    obtain ⟨-, -, horder, -, -, -, rfl⟩ := SourceDatabase.add_eq_ok.1 (mapError_eq_ok.1 hadded)
    rw [length_databaseOf, hadd] at hresult
    cases hresult
    rw [databaseOf_concat, builderOf_concat]
    exact ⟨followsLast_databaseOf.1 horder, rfl⟩
  · rintro ⟨horder, rfl⟩
    refine ⟨_, mapError_eq_ok.2 (SourceDatabase.add_eq_ok.2 ⟨h.path_valid item hitem, hportable,
      followsLast_databaseOf.2 horder, (h.text_small item hitem).1,
      by rwa [length_databaseOf], (h.text_small item hitem).2, rfl⟩), ?_⟩
    rw [length_databaseOf, hadd, databaseOf_concat, builderOf_concat]
    rfl

def pathBytes (item : LoadItem) : List UInt8 := Wire.utf8Bytes item.path

/-- The loop over a list of items succeeds exactly when their paths increase. -/
theorem foldlM_loadItem_eq_ok {base : PackageGraphBuilder} {before items : List LoadItem}
    {result : SourceDatabase × PackageGraphBuilder}
    (h : Loadable U base.packages.length (before ++ items))
    (hbefore : (before.map pathBytes).IsChain (· < ·)) :
    items.foldlM (loadItem U) (databaseOf before, builderOf base before) = .ok result ↔
      ((before ++ items).map pathBytes).IsChain (· < ·) ∧
        result = (databaseOf (before ++ items), builderOf base (before ++ items)) := by
  induction items generalizing before with
  | nil => simp [hbefore, pure, Except.pure, eq_comm]
  | cons item items ih =>
    have happend : before ++ item :: items = before ++ [item] ++ items := by simp
    have hstep : (∀ last ∈ (before.map pathBytes).getLast?, last < pathBytes item) ↔
        FollowsLast before item := by
      rw [List.getLast?_map]
      simp [FollowsLast, pathBytes]
    have hconcat : ((before ++ [item]).map pathBytes).IsChain (· < ·) ↔ FollowsLast before item := by
      rw [map_append, isChain_append]
      simp only [hbefore, true_and, map_cons, map_nil, isChain_singleton,
        List.head?_cons, Option.mem_some_iff, forall_eq', ← hstep]
    rw [happend] at h ⊢
    rw [foldlM_cons, bind_eq_ok]
    constructor
    · rintro ⟨next, hnext, hrest⟩
      obtain ⟨horder, rfl⟩ := (loadItem_eq_ok h.left).1 hnext
      exact (ih h (hconcat.2 horder)).1 hrest
    · rintro ⟨hchain, rfl⟩
      have horder := hconcat.1 (by
        rw [map_append, isChain_append] at hchain
        exact hchain.1)
      exact ⟨_, (loadItem_eq_ok h.left).2 ⟨horder, rfl⟩, (ih h (hconcat.2 horder)).2 ⟨hchain, rfl⟩⟩

/-- A root with one dependency, before any module. -/
def twoPackages (root core : PackageIdentity) (name : DependencyAlias) : PackageGraphBuilder where
  root := ⟨0⟩
  packages := [PackageGraphBuilder.PendingPackage.depend (PackageGraphBuilder.pending root) name ⟨1⟩,
    PackageGraphBuilder.pending core]
  modules := []
  identities := {core, root}
  modulePaths := ∅
  portableModulePaths := ∅
  moduleSources := ∅

/-- Both packages before the dependency between them. -/
def unrelatedPackages (root core : PackageIdentity) : PackageGraphBuilder :=
  { PackageGraphBuilder.new root with
    identities := {core, root}
    packages := [PackageGraphBuilder.pending root, PackageGraphBuilder.pending core] }

theorem addPackage_new (h : core ≠ root) :
    (PackageGraphBuilder.new root).addPackage core = (.ok ⟨1⟩, unrelatedPackages root core) := by
  simp [PackageGraphBuilder.addPackage, PackageGraphBuilder.new, maxPackages, h, unrelatedPackages]

theorem addDependency_unrelatedPackages (root core : PackageIdentity) (name : DependencyAlias) :
    (unrelatedPackages root core).addDependency ⟨0⟩ name ⟨1⟩ =
      (.ok (), twoPackages root core name) := by
  simp [PackageGraphBuilder.addDependency, PackageGraphBuilder.new, twoPackages, unrelatedPackages,
    PackageGraphBuilder.packageIndex, PackageGraphBuilder.pending, maxDependenciesPerPackage,
    PackageGraphBuilder.PendingPackage.depend]

/-- The finished graph of two packages and the modules of a list of items. -/
def graphOf (root core : PackageIdentity) (name : DependencyAlias) (items : List LoadItem) :
    PackageGraph where
  root := ⟨0⟩
  packages := [⟨⟨0⟩, root, [⟨name, ⟨1⟩⟩]⟩, ⟨⟨1⟩, core, []⟩]
  modules := items.mapIdx fun index item ↦
    ⟨⟨index⟩, ⟨item.handle.index⟩, item.source.module, ⟨UInt32.ofNat index⟩⟩

def itemKey (item : LoadItem) : ℕ ×ₗ List (List UInt8) :=
  toLex (item.handle.index, item.source.module.key)

theorem finish_builderOf {root core : PackageIdentity} {name : DependencyAlias}
    {items : List LoadItem} (hhandle : ∀ item ∈ items, item.handle.index < 2)
    (hsorted : (items.map itemKey).Pairwise (· ≤ ·)) :
    (builderOf (twoPackages root core name) items).finish = .ok (graphOf root core name items) := by
  set builder := builderOf (twoPackages root core name) items with hbuilder
  have hcycles : rejectDependencyCycles builder.packages = .ok () := rfl
  have hreachable : rejectUnreachablePackages builder.packages builder.root = .ok () := rfl
  have horder : builder.order = [0, 1] := rfl
  have hids : PackageGraphBuilder.finalIds [0, 1] builder.packages.length = [⟨0⟩, ⟨1⟩] := rfl
  have hpackages : builder.finishPackages [⟨0⟩, ⟨1⟩] [0, 1] =
      [⟨⟨0⟩, root, [⟨name, ⟨1⟩⟩]⟩, ⟨⟨1⟩, core, []⟩] := rfl
  have hid {item : LoadItem} (hitem : item ∈ items) :
      PackageGraphBuilder.finalId [⟨0⟩, ⟨1⟩] item.handle = ⟨item.handle.index⟩ := by
    have hlt := hhandle item hitem
    unfold PackageGraphBuilder.finalId
    interval_cases item.handle.index <;> rfl
  have hmodules : builder.finishModules [⟨0⟩, ⟨1⟩] = (graphOf root core name items).modules := by
    have hkeys : builder.modules.map (PackageGraphBuilder.moduleKey [⟨0⟩, ⟨1⟩]) =
        items.map itemKey := by
      calc
        _ = items.map fun item ↦ toLex ((PackageGraphBuilder.finalId [⟨0⟩, ⟨1⟩] item.handle).val,
            item.source.module.key) := map_mapIdx (fun _ _ ↦ by rfl) items
        _ = items.map itemKey := map_congr_left fun item hitem ↦ by rw [itemKey, hid hitem]
    have hpairwise : builder.modules.Pairwise fun left right ↦
        PackageGraphBuilder.moduleKey [⟨0⟩, ⟨1⟩] left ≤
          PackageGraphBuilder.moduleKey [⟨0⟩, ⟨1⟩] right := by
      rw [← hkeys, pairwise_map] at hsorted
      exact hsorted
    unfold PackageGraphBuilder.finishModules
    rw [hpairwise.insertionSort_eq]
    refine ext_getElem? fun index ↦ ?_
    simp only [hbuilder, builderOf, graphOf, List.getElem?_mapIdx, Option.map_map]
    cases hitem : items[index]? with
    | none => rfl
    | some item => simp [hid (mem_of_getElem? hitem)]
  unfold PackageGraphBuilder.finish
  simp only [hcycles, hreachable, horder, hids, hpackages, hmodules, ok_bind]
  rfl

end Wrela.PackageLoader
