import Wrela.Data.Lexicographic
import Wrela.Package.Manifest

/-!
# What accepted names look like

The checks on identifiers, atoms and module paths as conjunctions, and the correspondence between
module paths and source paths: the file of a module determines the module, and files are ordered
as their modules are.
-/

namespace Wrela.Package

open List Wrela.Source Wrela.BuildModel Wrela.Checked

variable {U : Unicode}

variable {value : String}

theorem validateSourceIdentifier_eq_ok :
    validateSourceIdentifier U value = .ok () ↔
      ∃ first rest, value.toList = first :: rest ∧ byteLength value ≤ 255 ∧ value ≠ "_" ∧
        U.isNfc value = true ∧ value ∉ revision01Keywords ∧
        (∀ character ∈ value.toList, isForbiddenIdentifierCharacter character = false) ∧
        U.isXidStart first = true ∧ ∀ character ∈ rest, U.isXidContinue character = true := by
  unfold validateSourceIdentifier
  split
  · rename_i hempty
    simp [hempty]
  · rename_i first rest hvalue
    simp only [hvalue, List.cons.injEq]
    constructor
    · intro h
      split_ifs at h with hlength hwildcard hnfc hkeyword hstart
      · split at h <;> cases h
      · split at h
        · cases h
        rename_i hforbidden
        split at h
        · cases h
        rename_i hcontinue
        have hforbidden := List.find?_eq_none.1 (Option.eq_none_iff_forall_ne_some.2 hforbidden)
        have hcontinue := List.find?_eq_none.1 (Option.eq_none_iff_forall_ne_some.2 hcontinue)
        exact ⟨first, rest, ⟨rfl, rfl⟩, not_lt.1 hlength, by simpa using hwildcard,
          by simpa using hnfc, by simpa using hkeyword, by simpa using hforbidden,
          by simpa using hstart, by simpa using hcontinue⟩
    · rintro ⟨_, _, ⟨rfl, rfl⟩, hlength, hwildcard, hnfc, hkeyword, hforbidden, hstart, hcontinue⟩
      have hfind : (first :: rest).find? isForbiddenIdentifierCharacter = none :=
        List.find?_eq_none.2 (by simpa using hforbidden)
      have hrest : rest.find? (fun character ↦ !U.isXidContinue character) = none :=
        List.find?_eq_none.2 (by simpa using hcontinue)
      rw [if_neg (not_lt.2 hlength), if_neg (by simpa using hwildcard), if_neg (by simpa using hnfc),
        if_neg (by simpa using hkeyword), hfind]
      simp [hstart, hrest]

theorem validateAtom_eq_ok (h : validateAtom U allowDot value = .ok ()) :
    value ≠ "" ∧ byteLength value ≤ 255 := by
  unfold validateAtom at h
  split_ifs at h with hempty hlength
  exact ⟨by simpa using hempty, not_lt.1 hlength⟩

theorem PackageName.new_eq_ok (h : PackageName.new U value = .ok name) :
    name.text = value ∧ byteLength value ≤ 255 := by
  unfold PackageName.new at h
  obtain ⟨_, hatom, rfl⟩ := map_eq_ok.1 h
  exact ⟨rfl, (validateAtom_eq_ok hatom).2⟩

theorem PackageVersion.new_eq_ok (h : PackageVersion.new U value = .ok version) :
    version.text = value ∧ byteLength value ≤ 255 := by
  unfold PackageVersion.new at h
  obtain ⟨_, hatom, rfl⟩ := map_eq_ok.1 h
  exact ⟨rfl, (validateAtom_eq_ok hatom).2⟩

theorem ModulePath.new_eq_ok {segments : List String} {path : ModulePath} :
    ModulePath.new U segments = .ok path ↔ segments ≠ [] ∧ path.segments = segments ∧
      ∀ segment ∈ segments, validateSourceIdentifier U segment = .ok () := by
  unfold ModulePath.new
  split_ifs with hempty
  · simp_all
  · rw [map_eq_ok]
    constructor
    · rintro ⟨_, h, rfl⟩
      exact ⟨by simpa using hempty, rfl, forAll_eq_ok.1 (mapError_eq_ok.1 h)⟩
    · rintro ⟨-, rfl, h⟩
      exact ⟨(), mapError_eq_ok.2 (forAll_eq_ok.2 h), rfl⟩

/-- The characters of an identifier sort after the separators of a source path. -/
theorem identifier_character (hU : U.Standard) (h : validateSourceIdentifier U value = .ok ())
    (hmem : character ∈ value.toList) :
    48 ≤ character.toNat := by
  obtain ⟨first, rest, hvalue, -, -, -, -, -, hstart, hcontinue⟩ :=
    validateSourceIdentifier_eq_ok.1 h
  by_contra hlow
  have hascii : character.toNat < 128 := by omega
  rw [hvalue, mem_cons] at hmem
  have hword : (character.isAlphanum || character == '_') = true := by
    rcases hmem with rfl | hmem
    · rw [hU.isXidStart_ascii _ hascii] at hstart
      simp [Char.isAlphanum, hstart]
    · rw [← hU.isXidContinue_ascii _ hascii]
      exact hcontinue _ hmem
  have hseparator : ∀ code < 48,
      ((Char.ofNat code).isAlphanum || Char.ofNat code == '_') = false := by
    decide
  rw [← Char.ofNat_toNat character, hseparator _ (Nat.lt_of_not_ge hlow)] at hword
  exact Bool.false_ne_true hword

/-- No separator of a source path is part of an identifier. -/
theorem identifier_separators (hU : U.Standard) (h : validateSourceIdentifier U value = .ok ()) :
    '/' ∉ value.toList ∧ '.' ∉ value.toList :=
  ⟨fun hmem ↦ absurd (identifier_character hU h hmem) (by decide),
    fun hmem ↦ absurd (identifier_character hU h hmem) (by decide)⟩

theorem ModulePath.expectedSourcePath_inj (hU : U.Standard)
    (h : ModulePath.new U path.segments = .ok path)
    (h' : ModulePath.new U path'.segments = .ok path')
    (heq : path.expectedSourcePath = path'.expectedSourcePath) : path = path' := by
  obtain ⟨hne, -, hsegments⟩ := ModulePath.new_eq_ok.1 h
  obtain ⟨hne', -, hsegments'⟩ := ModulePath.new_eq_ok.1 h'
  have hlist := congrArg String.toList heq
  simp only [ModulePath.expectedSourcePath, String.toList_append, String.toList_intercalate] at hlist
  have hjoined := append_cancel_right hlist
  have hsplit : ∀ segments : List String, segments ≠ [] →
      (∀ segment ∈ segments, validateSourceIdentifier U segment = .ok ()) →
      ("/".toList.intercalate (segments.map String.toList)).splitOn '/' =
        segments.map String.toList := by
    intro segments hne hvalid
    refine splitOn_intercalate '/' (fun part hpart ↦ ?_) (by simpa using hne)
    obtain ⟨segment, hsegment, rfl⟩ := mem_map.1 hpart
    exact (identifier_separators hU (hvalid segment hsegment)).1
  have hparts : path.segments.map String.toList = path'.segments.map String.toList := by
    rw [← hsplit _ hne hsegments, ← hsplit _ hne' hsegments', hjoined]
  have hinj : Function.Injective String.toList := fun _ _ ↦ String.toList_inj.1
  obtain ⟨segments⟩ := path
  obtain ⟨segments'⟩ := path'
  exact congrArg _ (map_injective_iff.2 hinj hparts)

/-- Every byte of an identifier sorts after the separators of a source path. -/
theorem identifier_byte (hU : U.Standard) (h : validateSourceIdentifier U value = .ok ())
    (hmem : byte ∈ Wire.utf8Bytes value) :
    47 < byte := by
  rw [Wire.utf8Bytes_eq_encodeChars, Wire.encodeChars, mem_flatMap] at hmem
  obtain ⟨character, hcharacter, hbyte⟩ := hmem
  have hlow := identifier_character hU h hcharacter
  have hencoded := Wire.min_le_of_mem_utf8EncodeChar hbyte
  have hslash : (47 : UInt8).toNat = 47 := rfl
  rw [UInt8.lt_iff_toNat_lt]
  omega

/-- The bytes of a module's source path, from its key. -/
def sourcePathBytes : List (List UInt8) → List UInt8
  | [] => Wire.utf8Bytes ".wr"
  | [segment] => segment ++ 46 :: Wire.utf8Bytes "wr"
  | segment :: next :: segments => segment ++ 47 :: sourcePathBytes (next :: segments)

theorem ModulePath.utf8Bytes_expectedSourcePath (path : ModulePath) :
    Wire.utf8Bytes path.expectedSourcePath = sourcePathBytes path.key := by
  obtain ⟨segments⟩ := path
  simp only [ModulePath.expectedSourcePath, ModulePath.key]
  induction segments with
  | nil => simp [sourcePathBytes]
  | cons segment segments ih =>
    cases segments with
    | nil =>
      have hsuffix : Wire.utf8Bytes ".wr" = 46 :: Wire.utf8Bytes "wr" := by decide
      simp [sourcePathBytes, hsuffix]
    | cons next segments =>
      have hslash : Wire.utf8Bytes "/" = [47] := by decide
      simp only [Wire.utf8Bytes_append, map_cons] at ih
      simp only [String.intercalate_cons_cons, Wire.utf8Bytes_append, map_cons,
        sourcePathBytes, hslash, append_assoc, cons_append, nil_append, ih]

theorem sourcePathBytes_lt_iff (hne : key ≠ []) (hne' : key' ≠ [])
    (hbytes : ∀ segment ∈ key, ∀ byte ∈ segment, 47 < byte)
    (hbytes' : ∀ segment ∈ key', ∀ byte ∈ segment, 47 < byte) :
    sourcePathBytes key < sourcePathBytes key' ↔ key < key' := by
  have hdot {segment : List UInt8} (hsegment : ∀ byte ∈ segment, 47 < byte) :
      ∀ byte ∈ segment, (46 : UInt8) < byte :=
    fun byte hbyte ↦ lt_trans (by decide) (hsegment byte hbyte)
  induction key generalizing key' with
  | nil => exact absurd rfl hne
  | cons segment rest ih =>
    obtain ⟨segment', rest', rfl⟩ := exists_cons_of_ne_nil hne'
    have hsegment := hbytes segment mem_cons_self
    have hsegment' := hbytes' segment' mem_cons_self
    rw [cons_lt_cons_iff]
    cases rest with
    | nil =>
      cases rest' with
      | nil =>
        rw [sourcePathBytes, sourcePathBytes,
          Data.append_cons_lt_append_cons_iff (hdot hsegment) (hdot hsegment')]
        simp
      | cons next' rest' =>
        rw [sourcePathBytes, sourcePathBytes,
          Data.append_cons_lt_append_cons_iff hsegment (hdot hsegment')]
        simp [cons_lt_cons_iff]
    | cons next rest =>
      cases rest' with
      | nil =>
        rw [sourcePathBytes, sourcePathBytes,
          Data.append_cons_lt_append_cons_iff (hdot hsegment) hsegment']
        simp [cons_lt_cons_iff]
      | cons next' rest' =>
        rw [sourcePathBytes, sourcePathBytes,
          Data.append_cons_lt_append_cons_iff hsegment hsegment', cons_lt_cons_iff]
        have htail := @ih (next' :: rest') (by simp) (by simp)
          (fun part hpart ↦ hbytes part (mem_cons_of_mem _ hpart))
          fun part hpart ↦ hbytes' part (mem_cons_of_mem _ hpart)
        simp [htail]

/-- The files of a package are ordered as its modules are. -/
theorem ModulePath.expectedSourcePath_lt_iff (hU : U.Standard)
    (h : ModulePath.new U path.segments = .ok path)
    (h' : ModulePath.new U path'.segments = .ok path') :
    Wire.utf8Bytes path.expectedSourcePath < Wire.utf8Bytes path'.expectedSourcePath ↔
      path.key < path'.key := by
  have hkey {module : ModulePath} (hmodule : ModulePath.new U module.segments = .ok module) :
      module.key ≠ [] ∧ ∀ segment ∈ module.key, ∀ byte ∈ segment, 47 < byte := by
    obtain ⟨hne, -, hsegments⟩ := ModulePath.new_eq_ok.1 hmodule
    refine ⟨by simpa [key] using hne, ?_⟩
    rw [key, forall_mem_map]
    exact fun segment hsegment byte hbyte ↦ identifier_byte hU (hsegments segment hsegment) hbyte
  rw [utf8Bytes_expectedSourcePath, utf8Bytes_expectedSourcePath]
  exact sourcePathBytes_lt_iff (hkey h).1 (hkey h').1 (hkey h).2 (hkey h').2

theorem toAsciiLowercase_append (left right : String) :
    toAsciiLowercase (left ++ right) = toAsciiLowercase left ++ toAsciiLowercase right := by
  simp [toAsciiLowercase, String.ofList_append]

theorem ModulePath.toAsciiLowercase_expectedSourcePath (path : ModulePath) :
    toAsciiLowercase path.expectedSourcePath = "/".intercalate path.portableKey ++ ".wr" := by
  have hsuffix : toAsciiLowercase ".wr" = ".wr" := by decide
  have hslash : toAsciiLowercase "/" = "/" := by decide
  have hempty : toAsciiLowercase "" = "" := by decide
  obtain ⟨segments⟩ := path
  simp only [expectedSourcePath, portableKey, toAsciiLowercase_append, hsuffix]
  congr 1
  induction segments with
  | nil => simp [hempty]
  | cons segment segments ih =>
    cases segments with
    | nil => simp
    | cons next segments =>
      rw [map_cons] at ih
      rw [String.intercalate_cons_cons, toAsciiLowercase_append, toAsciiLowercase_append, hslash, ih,
        map_cons, map_cons, String.intercalate_cons_cons]

end Wrela.Package
