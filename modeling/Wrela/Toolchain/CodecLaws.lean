import Wrela.Toolchain.TableLaws

/-!
# Reading back what was written

The text of a manifest is that of its lines, and no line of it is broken.  So the decoder gives back
every manifest that the encoder writes.
-/

namespace Wrela.Toolchain

open List Wrela.Source Wrela.BuildModel Wrela.Package Wrela.Wire Wrela.Checked

def manifestLines (manifest : ToolchainManifest) : List (List Char) :=
  rootLines manifest ++ ([] :: "[compatibility]".toList ::
    compatibilityLines manifest.compatibility) ++
  manifest.standardLibraryPackages.flatMap packageLines ++
  manifest.components.flatMap componentLines ++ manifest.targets.flatMap targetLines

theorem joinLines_flatMap {α : Type} {lines : α → List (List Char)} {text : α → List Char}
    (h : ∀ a, joinLines (lines a) = text a) (as : List α) :
    joinLines (as.flatMap lines) = as.flatMap text := by
  induction as with
  | nil => rfl
  | cons a as ih => rw [flatMap_cons, joinLines_append, h, ih, flatMap_cons]

theorem writeCompatibility_eq (compatibility : ToolchainCompatibility) :
    joinLines (compatibilityLines compatibility) = writeCompatibility compatibility := by
  have hnumbers (numbers : List CompatibilityNumber) :
      joinLines (numbers.map (numberLine compatibility)) = numbers.flatMap fun number ↦
        integerAssignment number.key (compatibility.numbers number).toNat := by
    induction numbers with
    | nil => rfl
    | cons number numbers ih =>
      rw [map_cons, joinLines_cons, ih, flatMap_cons, integerAssignment, assignment_eq]
      simp [numberLine]
  rw [compatibilityLines, joinLines_cons, hnumbers, writeCompatibility, stringAssignment,
    assignment_eq]
  simp

theorem joinLines_assignmentLine (key : String) (value : List Char) (lines : List (List Char)) :
    joinLines (assignmentLine key value :: lines) = assignment key value ++ joinLines lines := by
  rw [← singleton_append, joinLines_append, assignment_eq]

/-- A blank line and a header. -/
theorem joinLines_header (header : List Char) (lines : List (List Char)) :
    joinLines ([] :: header :: lines) = '\n' :: (header ++ ['\n']) ++ joinLines lines := by
  rw [joinLines_cons, joinLines_cons, nil_append, cons_append, append_assoc, singleton_append]

variable {text : List Char} {key : String}

theorem writePackage_eq_ok {package : ShippedStandardLibraryPackage}
    (h : writePackage package = .ok text) :
    (∃ component, package.locator = .toolchain component) ∧ joinLines (packageLines package) = text := by
  have hheader : "\n[[standard_library_packages]]\n".toList =
      '\n' :: ("[[standard_library_packages]]".toList ++ ['\n']) := by decide
  obtain ⟨identity, locator, manifestDigest⟩ := package
  obtain ⟨component, hcomponent, h⟩ := bind_eq_ok.1 h
  cases h
  cases locator with
  | workspace path => cases hcomponent
  | archive provider key => cases hcomponent
  | toolchain component =>
    cases hcomponent
    refine ⟨⟨component, rfl⟩, ?_⟩
    rw [hheader]
    simp only [packageLines, packageFieldLines, joinLines_header, joinLines_assignmentLine,
      joinLines_nil, append_nil, append_assoc, locatorText, stringAssignment,
      digestAssignment, digestText]

theorem writeComponent_eq (component : ShippedComponent) :
    joinLines (componentLines component) = writeComponent component := by
  have hheader : "\n[[components]]\n".toList = '\n' :: ("[[components]]".toList ++ ['\n']) := by
    decide
  unfold writeComponent
  simp only [hheader]
  simp only [componentLines, componentFieldLines, joinLines_header, joinLines_assignmentLine,
    joinLines_nil, append_nil, append_assoc, stringAssignment, digestAssignment,
    integerAssignment, digestText]

theorem writeTargetFile_eq (file : ShippedTargetFile) :
    joinLines (targetFileLines file) = writeTargetFile file := by
  have hheader : "\n[[targets.files]]\n".toList =
      '\n' :: ("[[targets.files]]".toList ++ ['\n']) := by decide
  unfold writeTargetFile
  simp only [hheader]
  simp only [targetFileLines, targetFileFieldLines, joinLines_header, joinLines_assignmentLine,
    joinLines_nil, append_nil, append_assoc, stringAssignment, digestAssignment,
    integerAssignment, digestText]

theorem writeTarget_eq (target : ShippedTarget) :
    joinLines (targetLines target) = writeTarget target := by
  have hheader : "\n[[targets]]\n".toList = '\n' :: ("[[targets]]".toList ++ ['\n']) := by decide
  unfold writeTarget
  simp only [hheader]
  simp only [targetLines, targetFieldLines, joinLines_header, joinLines_append,
    joinLines_assignmentLine, joinLines_nil, append_nil, append_assoc,
    joinLines_flatMap writeTargetFile_eq, stringAssignment, digestAssignment, integerAssignment,
    digestText]

theorem writePackages_eq_ok {packages : List ShippedStandardLibraryPackage}
    {texts : List (List Char)} (h : packages.mapM writePackage = .ok texts) :
    (∀ package ∈ packages, ∃ component, package.locator = .toolchain component) ∧
      joinLines (packages.flatMap packageLines) = texts.flatten := by
  have hpairs := mapM_eq_ok.1 h
  clear h
  induction hpairs with
  | nil => exact ⟨by simp, rfl⟩
  | cons hhead hpairs ih =>
    obtain ⟨hlocator, htext⟩ := writePackage_eq_ok hhead
    refine ⟨forall_mem_cons.2 ⟨hlocator, ih.1⟩, ?_⟩
    rw [flatMap_cons, joinLines_append, htext, ih.2, flatten_cons]

theorem writeManifest_eq_ok {manifest : ToolchainManifest} (h : writeManifest manifest = .ok text) :
    (∀ package ∈ manifest.standardLibraryPackages,
      ∃ component, package.locator = .toolchain component) ∧
    joinLines (manifestLines manifest) = text := by
  obtain ⟨texts, htexts, h⟩ := bind_eq_ok.1 h
  cases h
  obtain ⟨hlocators, hpackages⟩ := writePackages_eq_ok htexts
  have hheader : "\n[compatibility]\n".toList = '\n' :: ("[compatibility]".toList ++ ['\n']) := by
    decide
  refine ⟨hlocators, ?_⟩
  rw [hheader]
  simp only [manifestLines, rootLines, joinLines_append, joinLines_header, joinLines_assignmentLine,
    joinLines_nil, append_nil, writeCompatibility_eq, hpackages,
    joinLines_flatMap writeComponent_eq, joinLines_flatMap writeTarget_eq, append_assoc,
    stringAssignment, integerAssignment]

theorem BasicCharacter.not_mem (h : BasicCharacter text character) : '\n' ∉ text := by
  cases h with
  | plain hquote hbackslash hcontrol =>
    rw [mem_singleton]
    rintro rfl
    exact absurd hcontrol (by decide)
  | short hmem => fin_cases hmem <;> decide
  | @unicode mark _ digits values hmem hvalues hvalue =>
    have hdigits : '\n' ∉ digits := by
      intro hbreak
      have hnone := mem_map_of_mem (f := hexValue) hbreak
      rw [hvalues] at hnone
      obtain ⟨value, -, hvalue⟩ := mem_map.1 hnone
      exact absurd hvalue (by simp [hexValue])
    have hmark : mark = 'u' ∨ mark = 'U' := by
      simp only [mem_cons, Prod.mk.injEq, not_mem_nil, or_false] at hmem
      tauto
    rcases hmark with rfl | rfl <;> simp [hdigits]

theorem BasicString.not_mem (h : BasicString text value) : '\n' ∉ text := by
  obtain ⟨body, rfl, hbody⟩ := h
  have hinner : '\n' ∉ body := by
    generalize value.toList = decoded at hbody
    induction hbody with
    | nil => simp
    | cons hcharacter hrest ih => simp [hcharacter.not_mem, ih]
  simp [hinner]

/-- A line that holds no line feed. -/
def Unbroken (line : List Char) : Prop := '\n' ∉ line

instance (line : List Char) : Decidable (Unbroken line) := inferInstanceAs (Decidable ('\n' ∉ line))

theorem unbroken_assignmentLine (hkey : IsKey key) (hvalue : '\n' ∉ value) :
    Unbroken (assignmentLine key value) := by
  intro hmem
  rcases mem_append.1 hmem with hmem | hmem
  · rcases mem_append.1 hmem with hmem | hmem
    · exact absurd (hkey.2 _ hmem) (by decide)
    · exact absurd hmem (by decide)
  · exact hvalue hmem

theorem unbroken_string (hkey : IsKey key) (value : String) :
    Unbroken (assignmentLine key (basicString value)) :=
  unbroken_assignmentLine hkey (basicString_basicString value).not_mem

theorem unbroken_digest (hkey : IsKey key) (digest : Sha256Digest) :
    Unbroken (assignmentLine key (digestText digest)) := by
  rw [digestText_eq_basicString]
  exact unbroken_string hkey _

theorem unbroken_number (hkey : IsKey key) (value : ℕ) :
    Unbroken (assignmentLine key (Nat.toDigits 10 value)) :=
  unbroken_assignmentLine hkey fun hmem ↦ absurd (isDigit_toDigits value _ hmem) (by decide)

theorem unbroken_packageLines (package : ShippedStandardLibraryPackage) :
    ∀ line ∈ packageLines package, Unbroken line := by
  have hkeys : ∀ key ∈ ["name", "version", "source_digest", "component", "manifest_digest"],
      IsKey key := by decide
  simp only [packageLines, packageFieldLines, forall_mem_cons]
  exact ⟨by decide, by decide, unbroken_string (hkeys _ (by simp)) _,
    unbroken_string (hkeys _ (by simp)) _, unbroken_digest (hkeys _ (by simp)) _,
    unbroken_string (hkeys _ (by simp)) _, unbroken_digest (hkeys _ (by simp)) _, by simp⟩

theorem unbroken_componentLines (component : ShippedComponent) :
    ∀ line ∈ componentLines component, Unbroken line := by
  have hkeys : ∀ key ∈ ["kind", "path", "digest", "bytes"], IsKey key := by decide
  simp only [componentLines, componentFieldLines, forall_mem_cons]
  exact ⟨by decide, by decide, unbroken_string (hkeys _ (by simp)) _,
    unbroken_string (hkeys _ (by simp)) _, unbroken_digest (hkeys _ (by simp)) _,
    unbroken_number (hkeys _ (by simp)) _, by simp⟩

theorem unbroken_targetFileLines (file : ShippedTargetFile) :
    ∀ line ∈ targetFileLines file, Unbroken line := by
  have hkeys : ∀ key ∈ ["path", "digest", "bytes"], IsKey key := by decide
  simp only [targetFileLines, targetFileFieldLines, forall_mem_cons]
  exact ⟨by decide, by decide, unbroken_string (hkeys _ (by simp)) _,
    unbroken_digest (hkeys _ (by simp)) _, unbroken_number (hkeys _ (by simp)) _, by simp⟩

theorem unbroken_targetLines (target : ShippedTarget) :
    ∀ line ∈ targetLines target, Unbroken line := by
  have hkeys : ∀ key ∈ ["identity", "path", "digest", "bytes"], IsKey key := by decide
  simp only [targetLines, targetFieldLines, forall_mem_cons, forall_mem_append, forall_mem_flatMap]
  exact ⟨by decide, by decide, ⟨unbroken_string (hkeys _ (by simp)) _,
    unbroken_string (hkeys _ (by simp)) _, unbroken_digest (hkeys _ (by simp)) _,
    unbroken_number (hkeys _ (by simp)) _, by simp⟩, fun file _ ↦ unbroken_targetFileLines file⟩

theorem unbroken_manifestLines (manifest : ToolchainManifest) :
    ∀ line ∈ manifestLines manifest, Unbroken line := by
  have hkeys : ∀ key ∈ ["schema", "release", "host", "llvm_project_revision", "language"],
      IsKey key := by decide
  simp only [manifestLines, rootLines, compatibilityLines, forall_mem_append,
    forall_mem_cons, forall_mem_flatMap, forall_mem_map]
  refine ⟨⟨⟨⟨⟨unbroken_number (hkeys _ (by simp)) _, unbroken_string (hkeys _ (by simp)) _,
    unbroken_string (hkeys _ (by simp)) _, unbroken_string (hkeys _ (by simp)) _, by simp⟩,
    by decide, by decide, unbroken_string (hkeys _ (by simp)) _,
    fun number _ ↦ unbroken_number (isKey_key number) _⟩,
    fun package _ ↦ unbroken_packageLines package⟩,
    fun component _ ↦ unbroken_componentLines component⟩, fun target _ ↦ unbroken_targetLines target⟩

theorem addUp_eq_ok {resource : String} {limit : UInt32} {start total : ℕ} {amounts : List ℕ}
    (h : addUp resource limit start amounts = .ok total) (hstart : start ≤ limit.toNat) :
    start + amounts.sum ≤ limit.toNat := by
  induction amounts generalizing start with
  | nil => simpa using hstart
  | cons amount amounts ih =>
    rw [addUp, foldlM_cons] at h
    obtain ⟨next, hnext, h⟩ := bind_eq_ok.1 h
    obtain ⟨hfits, hnext⟩ := unit_bind_eq_ok.1 hnext
    cases hnext
    have hle : start + amount ≤ limit.toNat := by simpa [checkCountLimit] using hfits
    rw [sum_cons, ← Nat.add_assoc]
    exact ih h hle

theorem sum_flatMap_eq {α : Type} {amounts : α → List ℕ} {bytes : α → ℕ}
    (h : ∀ a, (amounts a).sum = bytes a) (as : List α) :
    (as.flatMap amounts).sum = (as.map bytes).sum := by
  induction as with
  | nil => rfl
  | cons a as ih => rw [flatMap_cons, sum_append, h, ih, map_cons, sum_cons]

theorem sum_manifestStringBytes (manifest : ToolchainManifest) :
    (manifestStringBytes manifest).sum =
      rootBytes manifest + byteLength (LanguageRevision.asStr manifest.compatibility.language) +
        (manifest.standardLibraryPackages.map packageBytes).sum +
        (manifest.components.map componentBytes).sum + (manifest.targets.map targetBytes).sum := by
  have hfiles (files : List ShippedTargetFile) :
      (files.flatMap fun file ↦ [byteLength file.path.text, digestBytes]).sum =
        (files.map targetFileBytes).sum :=
    sum_flatMap_eq (fun file ↦ by simp [targetFileBytes]) files
  rw [manifestStringBytes, sum_append, sum_append, sum_append]
  congr 1
  · congr 1
    · congr 1
      · simp [rootBytes, Nat.add_assoc]
      · exact sum_flatMap_eq (fun package ↦ by simp [packageBytes, Nat.add_assoc]) _
    · exact sum_flatMap_eq (fun component ↦ by simp [componentBytes, Nat.add_assoc]) _
  · refine sum_flatMap_eq (fun target ↦ ?_) _
    rw [sum_append, hfiles, targetBytes, targetFieldBytes]
    simp [Nat.add_assoc]

/-- What the limits of an encoded manifest promise. -/
structure Fits (manifest : ToolchainManifest) (limits : ToolchainDecodeLimits) : Prop where
  packages : manifest.standardLibraryPackages.length ≤ limits.standardLibraryPackages.toNat
  components : manifest.components.length ≤ limits.components.toNat
  targets : manifest.targets.length ≤ limits.targets.toNat
  targetFiles : (manifest.targets.map fun target ↦ target.files.length).sum ≤
    limits.targetFiles.toNat
  stringBytes : (manifestStringBytes manifest).sum ≤ limits.stringBytes.toNat

theorem fits_of_checkManifestLimits (h : checkManifestLimits manifest limits = .ok ()) :
    Fits manifest limits := by
  obtain ⟨hpackages, h⟩ := unit_bind_eq_ok.1 h
  obtain ⟨hcomponents, h⟩ := unit_bind_eq_ok.1 h
  obtain ⟨htargets, h⟩ := unit_bind_eq_ok.1 h
  obtain ⟨files, hfiles, h⟩ := bind_eq_ok.1 h
  obtain ⟨strings, hstrings, h⟩ := bind_eq_ok.1 h
  exact ⟨by simpa [checkCountLimit] using hpackages, by simpa [checkCountLimit] using hcomponents,
    by simpa [checkCountLimit] using htargets,
    by simpa using addUp_eq_ok hfiles (Nat.zero_le _),
    by simpa using addUp_eq_ok hstrings (Nat.zero_le _)⟩

/-- What the validation of an encoded manifest promises. -/
theorem tables_of_validate {manifest : ToolchainManifest} {required : ToolchainCompatibility}
    (h : manifest.validate required = .ok ()) :
    manifest.standardLibraryPackages ≠ [] ∧ manifest.components ≠ [] ∧
      ∀ package ∈ manifest.standardLibraryPackages, validStandardLibraryPackage package = true := by
  iterate 3 obtain ⟨-, h⟩ := unit_bind_eq_ok.1 h
  obtain ⟨hpackages, h⟩ := unit_bind_eq_ok.1 h
  obtain ⟨hcomponents, -⟩ := unit_bind_eq_ok.1 h
  obtain ⟨hthree, -⟩ := unit_bind_eq_ok.1 hcomponents
  simp only [ToolchainManifest.validatePackages, failIf_eq_ok, Bool.or_eq_false_iff,
    isEmpty_eq_false_iff, any_eq_false, Bool.not_eq_true', Bool.not_eq_false] at hpackages
  refine ⟨hpackages.1.1.1.1, ?_, hpackages.2⟩
  rintro hnil
  simp [hnil] at hthree

section RoundTrip

variable {U : Unicode} {limits : ToolchainDecodeLimits} {manifest : ToolchainManifest}

theorem packageReadable (hadmissible : manifest.Admissible U)
    (hlocators : ∀ package ∈ manifest.standardLibraryPackages,
      ∃ component, package.locator = .toolchain component)
    (hvalid : ∀ package ∈ manifest.standardLibraryPackages,
      validStandardLibraryPackage package = true)
    (hmem : package ∈ manifest.standardLibraryPackages) :
    PackageReadable U package := by
  obtain ⟨hname, hversion⟩ := hadmissible package hmem
  obtain ⟨component, hcomponent⟩ := hlocators package hmem
  refine ⟨hname, hversion, ?_, component, hcomponent⟩
  have hpackage := hvalid package hmem
  rw [validStandardLibraryPackage, hcomponent] at hpackage
  rw [hcomponent, locatorText]
  simp only [toolchainLocatorComponent, Option.any_some, Bool.and_eq_true] at hpackage
  cases hcheck : validateStandardLibraryComponent component with
  | ok => rfl
  | error error =>
    rw [hcheck] at hpackage
    cases hpackage.1.1

/-- The lines of a manifest are read as the manifest. -/
theorem parse_manifestLines (hreadable : ∀ package ∈ manifest.standardLibraryPackages,
      PackageReadable U package)
    (hpackages : manifest.standardLibraryPackages ≠ []) (hcomponents : manifest.components ≠ [])
    (hfits : Fits manifest limits) :
    Parser.parse U limits (joinLines (manifestLines manifest)) = .ok manifest := by
  have hbudget := hfits.stringBytes
  rw [sum_manifestStringBytes] at hbudget
  let rooted : Parser := { root := .of manifest, stringBytes := rootBytes manifest }
  let entered : Parser := { rooted with compatibilitySeen := true, activeSection := .compatibility }
  have hroot : Reads U limits (rootLines manifest) {} rooted := reads_rootLines manifest (by omega)
  have hcompatibility := @reads_compatibilityLines U limits manifest.compatibility entered rfl rfl (by
    change rootBytes manifest + _ ≤ _
    omega)
  have hhead : Reads U limits (rootLines manifest ++ ([] :: "[compatibility]".toList ::
      compatibilityLines manifest.compatibility)) {} _ :=
    hroot.append (.cons (fun _ ↦ rfl) (.cons (fun _ ↦ rfl) hcompatibility))
  have hstart : PackagesRead manifest []
      (rootBytes manifest + byteLength (LanguageRevision.asStr manifest.compatibility.language))
      { entered with
        compatibility := .of manifest.compatibility
        stringBytes := entered.stringBytes +
          byteLength (LanguageRevision.asStr manifest.compatibility.language) } := ⟨rfl, rfl, rfl⟩
  obtain ⟨_, hreadPackages, hafterPackages⟩ := hstart.run hreadable hfits.packages (by omega)
  obtain ⟨_, hreadComponents, hafterComponents⟩ :=
    (hafterPackages.componentsRead hpackages).run hfits.components (by omega)
  obtain ⟨last, hreadTargets, hafterTargets⟩ :=
    (hafterComponents.targetsRead hcomponents).run hfits.targets hfits.targetFiles (by omega)
  have hlines := (((hhead.append hreadPackages).append hreadComponents).append hreadTargets) 0
  have hpackage : last.finishStandardLibraryPackage = .ok last := by
    rw [Parser.finishStandardLibraryPackage, hafterTargets.noPackage]
  rw [Parser.parse, splitTerminator_joinLines (unbroken_manifestLines manifest), manifestLines, hlines,
    ok_bind, Parser.finish, hpackage, ok_bind, ← bind_assoc, hafterTargets.finish]
  rfl

/-- What is encoded is decoded as it was. -/
theorem decode_encodeCanonical {bytes : List UInt8} (hadmissible : manifest.Admissible U)
    (h : encodeCanonical manifest limits = .ok bytes) : decode U bytes limits = .ok manifest := by
  obtain ⟨hlimits, h⟩ := unit_bind_eq_ok.1 h
  obtain ⟨hfits, h⟩ := unit_bind_eq_ok.1 h
  obtain ⟨hvalidate, h⟩ := unit_bind_eq_ok.1 h
  obtain ⟨text, htext, h⟩ := bind_eq_ok.1 h
  obtain ⟨hlength, h⟩ := unit_bind_eq_ok.1 h
  rw [htext] at h
  cases h
  obtain ⟨hlocators, rfl⟩ := writeManifest_eq_ok htext
  obtain ⟨hpackages, hcomponents, hvalid⟩ := tables_of_validate (mapError_eq_ok.1 hvalidate)
  have hsource : fromUtf8 (encodeChars (joinLines (manifestLines manifest))) =
      some (String.ofList (joinLines (manifestLines manifest))) := by
    rw [fromUtf8_eq_some, utf8Bytes_ofList]
  refine unit_bind_eq_ok.2 ⟨hlimits, unit_bind_eq_ok.2 ⟨hlength, bind_eq_ok.2
    ⟨_, orFail_eq_ok.2 hsource, ?_⟩⟩⟩
  rw [String.toList_ofList]
  exact parse_manifestLines (fun package hmem ↦ packageReadable hadmissible hlocators hvalid hmem)
    hpackages hcomponents (fits_of_checkManifestLimits hfits)

/-- What is encoded is accepted by the consumer that asks for its own versions. -/
theorem decodeAndVerify_encodeCanonical (hadmissible : manifest.Admissible U)
    (h : encodeCanonical manifest limits = .ok bytes) :
    decodeAndVerifyToolchainManifest U bytes limits manifest.compatibility = .ok manifest := by
  have hdecode := decode_encodeCanonical hadmissible h
  have hencode := h
  obtain ⟨hlimits, hdecode'⟩ := unit_bind_eq_ok.1 hdecode
  obtain ⟨hlength, -⟩ := unit_bind_eq_ok.1 hdecode'
  iterate 2 obtain ⟨-, h⟩ := unit_bind_eq_ok.1 h
  obtain ⟨hvalidate, -⟩ := unit_bind_eq_ok.1 h
  refine unit_bind_eq_ok.2 ⟨hlimits, unit_bind_eq_ok.2 ⟨hlength, bind_eq_ok.2 ⟨_, hdecode,
    unit_bind_eq_ok.2 ⟨hvalidate, bind_eq_ok.2 ⟨_, hencode, ?_⟩⟩⟩⟩⟩
  exact unit_bind_eq_ok.2 ⟨failIf_eq_ok.2 (by simp), rfl⟩

end RoundTrip

end Wrela.Toolchain
