import Wrela.Toolchain.LineLaws

/-!
# Reading the tables of a manifest

The lines of a table, read one after the other, fill the table that was entered, and a table that is
left is finished as the record it was written for.  So the tables of a manifest are read one after
the other.
-/

namespace Wrela.Toolchain

open List Wrela.Source Wrela.BuildModel Wrela.Package Wrela.Wire Wrela.Checked

section Reading

variable {U : Unicode} {limits : ToolchainDecodeLimits}

theorem checkCountLimit_of_le (h : actual ≤ limit.toNat) :
    checkCountLimit resource actual limit = .ok () := by
  simp [checkCountLimit, h]

theorem parseString_basicString {value : String} {parser : Parser}
    (h : parser.stringBytes + byteLength value ≤ limits.stringBytes.toNat) (byteOffset : ℕ) :
    parser.parseString limits (basicString value) byteOffset =
      .ok (value, { parser with stringBytes := parser.stringBytes + byteLength value }) := by
  have hscan := (basicString_basicString value).scanBasicString_eq byteOffset
  refine bind_eq_ok.2 ⟨_, hscan, ?_⟩
  rw [textBytes_toList]
  refine unit_bind_eq_ok.2 ⟨checkCountLimit_of_le h, bind_eq_ok.2 ⟨_, hscan, ?_⟩⟩
  rw [String.ofList_toList]
  rfl

theorem parseDigestField_digestText {digest : Sha256Digest} {parser : Parser}
    (h : parser.stringBytes + digestBytes ≤ limits.stringBytes.toNat) (byteOffset : ℕ) :
    parser.parseDigestField limits (digestText digest) byteOffset =
      .ok (digest, { parser with stringBytes := parser.stringBytes + digestBytes }) := by
  have hbudget : parser.stringBytes + byteLength (String.ofList (digestDigits digest)) ≤
      limits.stringBytes.toNat := by rwa [byteLength_digestDigits]
  have hstring := parseString_basicString hbudget byteOffset
  rw [byteLength_digestDigits, ← digestText_eq_basicString] at hstring
  exact bind_eq_ok.2 ⟨_, hstring, bind_eq_ok.2 ⟨_, parseDigest_digestDigits digest byteOffset, rfl⟩⟩

theorem parseLines_append (byteOffset : ℕ) (lines more : List (List Char)) (parser : Parser) :
    Parser.parseLines U limits byteOffset (lines ++ more) parser =
      Parser.parseLines U limits byteOffset lines parser >>=
        Parser.parseLines U limits
          (byteOffset + (lines.map fun line ↦ textBytes line + 1).sum) more := by
  induction lines generalizing byteOffset parser with
  | nil => rfl
  | cons line lines ih =>
    rw [cons_append, Parser.parseLines, Parser.parseLines, bind_assoc]
    refine congrArg _ (funext fun mid ↦ ?_)
    rw [ih, map_cons, sum_cons, Nat.add_assoc, Nat.add_assoc, Nat.add_assoc]

/-- The lines take the parser from one state to another, wherever they stand. -/
def Reads (U : Unicode) (limits : ToolchainDecodeLimits) (lines : List (List Char))
    (parser parser' : Parser) : Prop :=
  ∀ byteOffset, Parser.parseLines U limits byteOffset lines parser = .ok parser'

theorem Reads.nil (parser : Parser) : Reads U limits [] parser parser := fun _ ↦ rfl

variable {lines : List (List Char)} {parser' parser'' : Parser}

theorem Reads.append (hlines : Reads U limits lines parser parser')
    (hmore : Reads U limits more parser' parser'') :
    Reads U limits (lines ++ more) parser parser'' := by
  intro byteOffset
  rw [parseLines_append, hlines]
  exact hmore _

theorem Reads.cons {line : List Char} {parser : Parser}
    (hline : ∀ byteOffset, parser.parseLine U limits line byteOffset = .ok parser')
    (hlines : Reads U limits lines parser' parser'') :
    Reads U limits (line :: lines) parser parser'' := fun byteOffset ↦
  bind_eq_ok.2 ⟨parser', hline byteOffset, hlines _⟩

/-- One assignment, and then the rest. -/
theorem Reads.field (hkey : IsKey key) (hvalue : ValueText value)
    (hfield : ∀ byteOffset, parser.parseField U limits value byteOffset key = .ok parser')
    (hlines : Reads U limits lines parser' parser'') :
    Reads U limits (assignmentLine key value :: lines) parser parser'' :=
  .cons (fun byteOffset ↦ by rw [parseLine_assignmentLine hkey hvalue, hfield]) hlines

/-- The tables of a list are read one after the other, when each is read from where those before it
lead. -/
theorem Reads.run {α : Type} {lines : α → List (List Char)} {bytes : α → ℕ}
    {reached : List α → ℕ → Parser → Prop} {all : List α} {start : ℕ} {parser : Parser}
    (hstep : ∀ front next back, all = front ++ next :: back → ∀ count parser,
      reached front count parser → count + bytes next ≤ limits.stringBytes.toNat →
      ∃ parser', Reads U limits (lines next) parser parser' ∧
        reached (front ++ [next]) (count + bytes next) parser')
    (hstart : reached [] start parser)
    (hbudget : start + (all.map bytes).sum ≤ limits.stringBytes.toNat) :
    ∃ parser', Reads U limits (all.flatMap lines) parser parser' ∧
      reached all (start + (all.map bytes).sum) parser' := by
  have hrun (front back : List α) (hall : all = front ++ back) (count : ℕ) (parser : Parser)
      (hreached : reached front count parser)
      (hbudget : count + (back.map bytes).sum ≤ limits.stringBytes.toNat) :
      ∃ parser', Reads U limits (back.flatMap lines) parser parser' ∧
        reached all (count + (back.map bytes).sum) parser' := by
    induction back generalizing front count parser with
    | nil =>
      rw [append_nil] at hall
      rw [hall]
      exact ⟨parser, .nil parser, hreached⟩
    | cons next back ih =>
      rw [map_cons, sum_cons] at hbudget ⊢
      obtain ⟨mid, hmid, hnext⟩ := hstep front next back hall count parser hreached (by omega)
      obtain ⟨parser', hparser', hfinal⟩ := ih (front ++ [next]) (by rw [hall]; simp) _ mid hnext
        (by omega)
      exact ⟨parser', hmid.append hparser', by rwa [Nat.add_assoc] at hfinal⟩
  exact hrun [] all rfl start parser hstart hbudget

theorem valueText_digestText (digest : Sha256Digest) : ValueText (digestText digest) := by
  rw [digestText_eq_basicString]
  exact valueText_basicString _

theorem languageOfName_asStr (language : LanguageRevision) :
    Parser.languageOfName (LanguageRevision.asStr language) = some language := by
  cases language
  rfl

theorem componentKindOfName_componentKindName (kind : ComponentKind) :
    Parser.componentKindOfName (componentKindName kind) = some kind := by
  cases kind <;> rfl

theorem targetIdentity_new (identity : TargetIdentity) :
    TargetIdentity.new identity.name = some identity :=
  TargetIdentity.new_eq_some.2 rfl

def rootLines (manifest : ToolchainManifest) : List (List Char) := [
  assignmentLine "schema" (Nat.toDigits 10 manifest.schema.toNat),
  assignmentLine "release" (basicString manifest.release),
  assignmentLine "host" (basicString manifest.host),
  assignmentLine "llvm_project_revision" (basicString manifest.llvmProjectRevision)]

def rootBytes (manifest : ToolchainManifest) : ℕ :=
  byteLength manifest.release + byteLength manifest.host + byteLength manifest.llvmProjectRevision

def RootBuilder.of (manifest : ToolchainManifest) : RootBuilder where
  schema := some manifest.schema
  release := some manifest.release
  host := some manifest.host
  llvmProjectRevision := some manifest.llvmProjectRevision

theorem reads_rootLines (manifest : ToolchainManifest)
    (hbudget : rootBytes manifest ≤ limits.stringBytes.toNat) :
    Reads U limits (rootLines manifest) {}
      { root := .of manifest, stringBytes := rootBytes manifest } := by
  rw [rootBytes] at hbudget
  intro byteOffset
  simp (disch := first | (dsimp only; omega) | decide | exact valueText_basicString _ |
      exact valueText_toDigits _) only [rootLines, Parser.parseLines, parseLine_assignmentLine,
    Parser.parseField, Parser.parseRootField, parseString_basicString, parseU32_toDigits, setOnce,
    ok_bind, pure_bind]
  rw [rootBytes, Nat.zero_add]
  rfl

def numberLine (compatibility : ToolchainCompatibility) (number : CompatibilityNumber) : List Char :=
  assignmentLine number.key (Nat.toDigits 10 (compatibility.numbers number).toNat)

def compatibilityLines (compatibility : ToolchainCompatibility) : List (List Char) :=
  assignmentLine "language" (basicString (LanguageRevision.asStr compatibility.language)) ::
    CompatibilityNumber.all.map (numberLine compatibility)

def CompatibilityBuilder.of (compatibility : ToolchainCompatibility) : CompatibilityBuilder where
  language := some compatibility.language
  numbers := fun number ↦ some (compatibility.numbers number)

theorem isKey_key (number : CompatibilityNumber) : IsKey number.key := by
  cases number <;> decide

theorem key_ne_language (number : CompatibilityNumber) : number.key ≠ "language" := by
  cases number <;> decide

theorem reads_numberLines (compatibility : ToolchainCompatibility) {numbers : List CompatibilityNumber}
    (hdistinct : numbers.Nodup) {parser : Parser} (hsection : parser.activeSection = .compatibility)
    (hunset : ∀ number ∈ numbers, parser.compatibility.numbers number = none) :
    Reads U limits (numbers.map (numberLine compatibility)) parser { parser with
      compatibility := { parser.compatibility with
        numbers := fun number ↦ if number ∈ numbers then some (compatibility.numbers number)
          else parser.compatibility.numbers number } } := by
  induction numbers generalizing parser with
  | nil =>
    simp only [map_nil, not_mem_nil, if_false]
    exact .nil parser
  | cons number numbers ih =>
    obtain ⟨hnew, hdistinct⟩ := nodup_cons.1 hdistinct
    rw [map_cons, numberLine]
    let mid : Parser := { parser with
      compatibility := { parser.compatibility with
        numbers := Function.update parser.compatibility.numbers number
          (some (compatibility.numbers number)) } }
    have hstep (byteOffset : ℕ) : parser.parseField U limits
        (Nat.toDigits 10 (compatibility.numbers number).toNat) byteOffset number.key = .ok mid := by
      have hnone := hunset number mem_cons_self
      simp only [Parser.parseField, hsection, Parser.parseCompatibilityField,
        if_neg (key_ne_language number), parseU32_toDigits, CompatibilityNumber.ofKey_key, hnone,
        setOnce, ok_bind, mid]
      rfl
    have hother {other : CompatibilityNumber} (hmem : other ∈ numbers) :
        mid.compatibility.numbers other = parser.compatibility.numbers other := by
      have hne : other ≠ number := by
        rintro rfl
        exact hnew hmem
      exact Function.update_of_ne hne _ _
    have hrest := @ih hdistinct mid hsection fun other hmem ↦ by
      rw [hother hmem]
      exact hunset other (mem_cons_of_mem _ hmem)
    have hnumbers : (fun other ↦ if other ∈ numbers then some (compatibility.numbers other)
          else mid.compatibility.numbers other) =
        fun other ↦ if other ∈ number :: numbers then some (compatibility.numbers other)
          else parser.compatibility.numbers other := by
      funext other
      rcases eq_or_ne other number with rfl | hne
      · simp [hnew, mid]
      · simp [hne, mid]
    rw [hnumbers] at hrest
    exact .field (isKey_key number) (valueText_toDigits _) hstep hrest

theorem reads_compatibilityLines (compatibility : ToolchainCompatibility) {parser : Parser}
    (hsection : parser.activeSection = .compatibility) (hcurrent : parser.compatibility = {})
    (hbudget : parser.stringBytes + byteLength (LanguageRevision.asStr compatibility.language) ≤
      limits.stringBytes.toNat) :
    Reads U limits (compatibilityLines compatibility) parser { parser with
      compatibility := .of compatibility
      stringBytes := parser.stringBytes +
        byteLength (LanguageRevision.asStr compatibility.language) } := by
  let mid : Parser := { parser with
    compatibility := { language := some compatibility.language }
    stringBytes := parser.stringBytes +
      byteLength (LanguageRevision.asStr compatibility.language) }
  have hstep (byteOffset : ℕ) : parser.parseField U limits
      (basicString (LanguageRevision.asStr compatibility.language)) byteOffset "language" =
        .ok mid := by
    simp only [Parser.parseField, hsection, Parser.parseCompatibilityField, if_true,
      parseString_basicString hbudget, languageOfName_asStr, orFail, hcurrent, setOnce, ok_bind, mid]
    rfl
  have hdistinct : CompatibilityNumber.all.Nodup := by decide
  have hrest := @reads_numberLines U limits compatibility _ hdistinct mid hsection fun _ _ ↦ rfl
  simp only [CompatibilityNumber.mem_all, if_true] at hrest
  exact .field (by decide) (valueText_basicString _) hstep hrest

def packageFieldLines (package : ShippedStandardLibraryPackage) : List (List Char) := [
  assignmentLine "name" (basicString package.identity.name.text),
  assignmentLine "version" (basicString package.identity.version.text),
  assignmentLine "source_digest" (digestText package.identity.sourceDigest),
  assignmentLine "component" (basicString (locatorText package.locator)),
  assignmentLine "manifest_digest" (digestText package.manifestDigest)]

def packageBytes (package : ShippedStandardLibraryPackage) : ℕ :=
  byteLength package.identity.name.text + byteLength package.identity.version.text + digestBytes +
    byteLength (locatorText package.locator) + digestBytes

def StandardLibraryPackageBuilder.of (package : ShippedStandardLibraryPackage) :
    StandardLibraryPackageBuilder where
  name := some package.identity.name
  version := some package.identity.version
  sourceDigest := some package.identity.sourceDigest
  component := some (locatorText package.locator)
  manifestDigest := some package.manifestDigest

theorem reads_packageFieldLines {package : ShippedStandardLibraryPackage} {parser : Parser}
    (hname : PackageName.new U package.identity.name.text = .ok package.identity.name)
    (hversion : PackageVersion.new U package.identity.version.text = .ok package.identity.version)
    (hcomponent : validateStandardLibraryComponent (locatorText package.locator) = .ok ())
    (hsection : parser.activeSection = .standardLibraryPackage)
    (hcurrent : parser.currentStandardLibraryPackage = some {})
    (hbudget : parser.stringBytes + packageBytes package ≤ limits.stringBytes.toNat) :
    Reads U limits (packageFieldLines package) parser { parser with
      currentStandardLibraryPackage := some (.of package)
      stringBytes := parser.stringBytes + packageBytes package } := by
  rw [packageBytes] at hbudget
  intro byteOffset
  simp (disch := first | omega | (dsimp only; omega) | decide |
      exact valueText_basicString _ | exact valueText_digestText _) only [packageFieldLines,
    Parser.parseLines, parseLine_assignmentLine, Parser.parseField, hsection,
    Parser.parseStandardLibraryPackageField, Parser.packageBuilder, hcurrent,
    parseString_basicString, parseDigestField_digestText, hname, hversion, hcomponent,
    Except.mapError, orFail, setOnce, ok_bind, pure_bind]
  simp only [packageBytes, ← Nat.add_assoc]
  rfl

def componentFieldLines (component : ShippedComponent) : List (List Char) := [
  assignmentLine "kind" (basicString (componentKindName component.kind)),
  assignmentLine "path" (basicString component.path.text),
  assignmentLine "digest" (digestText component.digest),
  assignmentLine "bytes" (Nat.toDigits 10 component.bytes.toNat)]

def componentBytes (component : ShippedComponent) : ℕ :=
  byteLength (componentKindName component.kind) + byteLength component.path.text + digestBytes

def ComponentBuilder.of (component : ShippedComponent) : ComponentBuilder where
  kind := some component.kind
  path := some component.path
  digest := some component.digest
  bytes := some component.bytes

theorem reads_componentFieldLines (component : ShippedComponent) {parser : Parser}
    (hsection : parser.activeSection = .component) (hcurrent : parser.currentComponent = some {})
    (hbudget : parser.stringBytes + componentBytes component ≤ limits.stringBytes.toNat) :
    Reads U limits (componentFieldLines component) parser { parser with
      currentComponent := some (.of component)
      stringBytes := parser.stringBytes + componentBytes component } := by
  rw [componentBytes] at hbudget
  intro byteOffset
  simp (disch := first | omega | (dsimp only; omega) | decide |
      exact valueText_basicString _ | exact valueText_digestText _ |
      exact valueText_toDigits _) only [componentFieldLines, Parser.parseLines,
    parseLine_assignmentLine, Parser.parseField, hsection, Parser.parseComponentField,
    Parser.componentBuilder, hcurrent, parseString_basicString, parseDigestField_digestText,
    parseU64_toDigits, componentKindOfName_componentKindName, ComponentPath.new_text,
    Except.mapError, orFail, setOnce, ok_bind, pure_bind]
  simp only [componentBytes, ← Nat.add_assoc]
  rfl

def targetFieldLines (target : ShippedTarget) : List (List Char) := [
  assignmentLine "identity" (basicString target.identity.name),
  assignmentLine "path" (basicString target.path.text),
  assignmentLine "digest" (digestText target.digest),
  assignmentLine "bytes" (Nat.toDigits 10 target.bytes.toNat)]

def targetFieldBytes (target : ShippedTarget) : ℕ :=
  byteLength target.identity.name + byteLength target.path.text + digestBytes

/-- The builder of a target with some of its files. -/
def TargetBuilder.of (target : ShippedTarget) (files : List ShippedTargetFile) : TargetBuilder where
  identity := some target.identity
  path := some target.path
  digest := some target.digest
  bytes := some target.bytes
  files := files

theorem reads_targetFieldLines (target : ShippedTarget) {parser : Parser}
    (hsection : parser.activeSection = .target) (hcurrent : parser.currentTarget = some {})
    (hbudget : parser.stringBytes + targetFieldBytes target ≤ limits.stringBytes.toNat) :
    Reads U limits (targetFieldLines target) parser { parser with
      currentTarget := some (.of target [])
      stringBytes := parser.stringBytes + targetFieldBytes target } := by
  rw [targetFieldBytes] at hbudget
  intro byteOffset
  simp (disch := first | omega | (dsimp only; omega) | decide |
      exact valueText_basicString _ | exact valueText_digestText _ |
      exact valueText_toDigits _) only [targetFieldLines, Parser.parseLines,
    parseLine_assignmentLine, Parser.parseField, hsection, Parser.parseTargetField,
    Parser.targetBuilder, hcurrent, parseString_basicString, parseDigestField_digestText,
    parseU64_toDigits, targetIdentity_new, ComponentPath.new_text, Except.mapError, orFail, setOnce,
    ok_bind, pure_bind]
  simp only [targetFieldBytes, ← Nat.add_assoc]
  rfl

def targetFileFieldLines (file : ShippedTargetFile) : List (List Char) := [
  assignmentLine "path" (basicString file.path.text),
  assignmentLine "digest" (digestText file.digest),
  assignmentLine "bytes" (Nat.toDigits 10 file.bytes.toNat)]

def targetFileBytes (file : ShippedTargetFile) : ℕ := byteLength file.path.text + digestBytes

def TargetFileBuilder.of (file : ShippedTargetFile) : TargetFileBuilder where
  path := some file.path
  digest := some file.digest
  bytes := some file.bytes

theorem reads_targetFileFieldLines (file : ShippedTargetFile) {parser : Parser}
    (hsection : parser.activeSection = .targetFile) (hcurrent : parser.currentTargetFile = some {})
    (hbudget : parser.stringBytes + targetFileBytes file ≤ limits.stringBytes.toNat) :
    Reads U limits (targetFileFieldLines file) parser { parser with
      currentTargetFile := some (.of file)
      stringBytes := parser.stringBytes + targetFileBytes file } := by
  rw [targetFileBytes] at hbudget
  intro byteOffset
  simp (disch := first | omega | (dsimp only; omega) | decide |
      exact valueText_basicString _ | exact valueText_digestText _ |
      exact valueText_toDigits _) only [targetFileFieldLines, Parser.parseLines,
    parseLine_assignmentLine, Parser.parseField, hsection, Parser.parseTargetFileField,
    Parser.targetFileBuilder, hcurrent, parseString_basicString, parseDigestField_digestText,
    parseU64_toDigits, ComponentPath.new_text, Except.mapError, orFail, setOnce, ok_bind, pure_bind]
  simp only [targetFileBytes, ← Nat.add_assoc]
  rfl

theorem StandardLibraryPackageBuilder.finish_of {package : ShippedStandardLibraryPackage}
    {component : String} (h : package.locator = .toolchain component) :
    (StandardLibraryPackageBuilder.of package).finish = .ok package := by
  obtain ⟨identity, locator, manifestDigest⟩ := package
  obtain rfl : locator = .toolchain component := h
  rfl

/-- The parser after the tables of a manifest so far, with none of them open. -/
def progress (manifest : ToolchainManifest) (packages : List ShippedStandardLibraryPackage)
    (components : List ShippedComponent) (targets : List ShippedTarget) (activeSection : Section)
    (stringBytes : ℕ) : Parser where
  activeSection := activeSection
  root := .of manifest
  compatibilitySeen := true
  compatibility := .of manifest.compatibility
  standardLibraryPackages := packages
  components := components
  targets := targets
  standardLibraryPackageTables := packages.length
  componentTables := components.length
  targetTables := targets.length
  targetFileTables := (targets.map fun target ↦ target.files.length).sum
  stringBytes := stringBytes

section Tables

variable {manifest : ToolchainManifest} {parser : Parser} {activeSection : Section}
  {stringBytes : ℕ} {packages : List ShippedStandardLibraryPackage}
  {components : List ShippedComponent} {targets : List ShippedTarget}

/-- The parser has read these packages; the last one may still be open. -/
structure PackagesRead (manifest : ToolchainManifest) (packages : List ShippedStandardLibraryPackage)
    (stringBytes : ℕ) (parser : Parser) : Prop where
  activeSection_eq : parser.activeSection =
    if packages = [] then .compatibility else .standardLibraryPackage
  seen : parser.compatibilitySeen = true
  finish : parser.finishStandardLibraryPackage =
    .ok (progress manifest packages [] [] parser.activeSection stringBytes)

def packageLines (package : ShippedStandardLibraryPackage) : List (List Char) :=
  [] :: "[[standard_library_packages]]".toList :: packageFieldLines package

/-- What a manifest that is encoded promises of each of its packages. -/
structure PackageReadable (U : Unicode) (package : ShippedStandardLibraryPackage) : Prop where
  name : PackageName.new U package.identity.name.text = .ok package.identity.name
  version : PackageVersion.new U package.identity.version.text = .ok package.identity.version
  component : validateStandardLibraryComponent (locatorText package.locator) = .ok ()
  locator : ∃ component, package.locator = .toolchain component

theorem PackagesRead.step (h : PackagesRead manifest packages stringBytes parser)
    {package : ShippedStandardLibraryPackage} (hpackage : PackageReadable U package)
    (hcount : packages.length + 1 ≤ limits.standardLibraryPackages.toNat)
    (hbudget : stringBytes + packageBytes package ≤ limits.stringBytes.toNat) :
    ∃ parser', Reads U limits (packageLines package) parser parser' ∧
      PackagesRead manifest (packages ++ [package]) (stringBytes + packageBytes package)
        parser' := by
  obtain ⟨component, hcomponent⟩ := hpackage.locator
  let entered : Parser := { progress manifest packages [] [] .standardLibraryPackage stringBytes with
    currentStandardLibraryPackage := some {}
    standardLibraryPackageTables := packages.length + 1 }
  have henter (byteOffset : ℕ) :
      parser.enterStandardLibraryPackage limits byteOffset = .ok entered := by
    have hplace : (!parser.compatibilitySeen || !([Section.compatibility,
        .standardLibraryPackage].contains parser.activeSection)) = false := by
      rw [h.seen, h.activeSection_eq]
      split <;> rfl
    rw [Parser.enterStandardLibraryPackage, if_neg (by rw [hplace]; simp), h.finish]
    exact unit_bind_eq_ok.2 ⟨checkCountLimit_of_le hcount, rfl⟩
  refine ⟨_, .cons (fun _ ↦ rfl) (.cons henter
    (@reads_packageFieldLines U limits package entered hpackage.name hpackage.version
      hpackage.component rfl rfl hbudget)), by simp [entered, progress], rfl, ?_⟩
  refine bind_eq_ok.2 ⟨package, StandardLibraryPackageBuilder.finish_of hcomponent, ?_⟩
  simp only [progress, entered, length_append, length_singleton]
  rfl

theorem PackagesRead.run (h : PackagesRead manifest [] stringBytes parser)
    (hreadable : ∀ package ∈ manifest.standardLibraryPackages, PackageReadable U package)
    (hcount : manifest.standardLibraryPackages.length ≤ limits.standardLibraryPackages.toNat)
    (hbudget : stringBytes + (manifest.standardLibraryPackages.map packageBytes).sum ≤
      limits.stringBytes.toNat) :
    ∃ parser', Reads U limits (manifest.standardLibraryPackages.flatMap packageLines) parser parser' ∧
      PackagesRead manifest manifest.standardLibraryPackages
        (stringBytes + (manifest.standardLibraryPackages.map packageBytes).sum) parser' := by
  refine Reads.run (fun front next back hall count parser hreached hbytes ↦ ?_) h hbudget
  refine hreached.step (hreadable next (by rw [hall]; simp)) ?_ hbytes
  rw [hall, length_append, length_cons] at hcount
  omega

/-- The parser has read these components; the last one, or the last package before the first one,
may still be open. -/
structure ComponentsRead (manifest : ToolchainManifest)
    (packages : List ShippedStandardLibraryPackage) (components : List ShippedComponent)
    (stringBytes : ℕ) (parser : Parser) : Prop where
  activeSection_eq : parser.activeSection =
    if components = [] then .standardLibraryPackage else .component
  noPackage : components ≠ [] → parser.currentStandardLibraryPackage = none
  finish : (do
    let parser ← parser.finishStandardLibraryPackage
    parser.finishComponent) =
      .ok (progress manifest packages components [] parser.activeSection stringBytes)

def componentLines (component : ShippedComponent) : List (List Char) :=
  [] :: "[[components]]".toList :: componentFieldLines component

theorem PackagesRead.componentsRead (h : PackagesRead manifest packages stringBytes parser)
    (hne : packages ≠ []) : ComponentsRead manifest packages [] stringBytes parser where
  activeSection_eq := by rw [h.activeSection_eq, if_neg hne, if_pos rfl]
  noPackage := fun hnil ↦ absurd rfl hnil
  finish := by
    rw [h.finish]
    rfl

theorem ComponentsRead.step (h : ComponentsRead manifest packages components stringBytes parser)
    {component : ShippedComponent} (hcount : components.length + 1 ≤ limits.components.toNat)
    (hbudget : stringBytes + componentBytes component ≤ limits.stringBytes.toNat) :
    ∃ parser', Reads U limits (componentLines component) parser parser' ∧
      ComponentsRead manifest packages (components ++ [component])
        (stringBytes + componentBytes component) parser' := by
  let entered : Parser := { progress manifest packages components [] .component stringBytes with
    currentComponent := some {}
    componentTables := components.length + 1 }
  have henter (byteOffset : ℕ) : parser.enterComponent limits byteOffset = .ok entered := by
    have hplace : (!([Section.standardLibraryPackage,
        .component].contains parser.activeSection)) = false := by
      rw [h.activeSection_eq]
      split <;> rfl
    have hfinish := h.finish
    rw [Parser.enterComponent, if_neg (by rw [hplace]; simp), ← bind_assoc, hfinish]
    exact unit_bind_eq_ok.2 ⟨checkCountLimit_of_le hcount, rfl⟩
  refine ⟨_, .cons (fun _ ↦ rfl) (.cons henter
    (@reads_componentFieldLines U limits component entered rfl rfl hbudget)), by simp [entered, progress],
    fun _ ↦ rfl, ?_⟩
  simp only [progress, entered, length_append, length_singleton]
  rfl

theorem ComponentsRead.run (h : ComponentsRead manifest packages [] stringBytes parser)
    (hcount : manifest.components.length ≤ limits.components.toNat)
    (hbudget : stringBytes + (manifest.components.map componentBytes).sum ≤
      limits.stringBytes.toNat) :
    ∃ parser', Reads U limits (manifest.components.flatMap componentLines) parser parser' ∧
      ComponentsRead manifest packages manifest.components
        (stringBytes + (manifest.components.map componentBytes).sum) parser' := by
  refine Reads.run (fun front next back hall count parser hreached hbytes ↦ ?_) h hbudget
  refine hreached.step ?_ hbytes
  rw [hall, length_append, length_cons] at hcount
  omega

/-- The parser has read these targets; the last one with its last file, or the last component before
the first one, may still be open. -/
structure TargetsRead (manifest : ToolchainManifest)
    (packages : List ShippedStandardLibraryPackage) (components : List ShippedComponent)
    (targets : List ShippedTarget) (stringBytes : ℕ) (parser : Parser) : Prop where
  activeSection_mem : parser.activeSection ∈ [Section.component, .target, .targetFile]
  noPackage : parser.currentStandardLibraryPackage = none
  finish : (do
    let parser ← parser.finishComponent
    parser.finishTarget) =
      .ok (progress manifest packages components targets parser.activeSection stringBytes)

theorem ComponentsRead.targetsRead
    (h : ComponentsRead manifest packages components stringBytes parser) (hne : components ≠ []) :
    TargetsRead manifest packages components [] stringBytes parser where
  activeSection_mem := by
    rw [h.activeSection_eq, if_neg hne]
    decide
  noPackage := h.noPackage hne
  finish := by
    have hfinish := h.finish
    rw [Parser.finishStandardLibraryPackage, h.noPackage hne, ok_bind] at hfinish
    rw [hfinish]
    rfl

def targetFileLines (file : ShippedTargetFile) : List (List Char) :=
  [] :: "[[targets.files]]".toList :: targetFileFieldLines file

/-- The parser has read these files of an open target; the last one may still be open. -/
structure FilesRead (base : Parser) (target : ShippedTarget) (files : List ShippedTargetFile)
    (stringBytes : ℕ) (parser : Parser) : Prop where
  activeSection_eq : parser.activeSection = if files = [] then .target else .targetFile
  package_eq : parser.currentStandardLibraryPackage = base.currentStandardLibraryPackage
  component_eq : parser.currentComponent = base.currentComponent
  isOpen : parser.currentTarget.isSome = true
  finish : parser.finishTargetFile = .ok { base with
    activeSection := parser.activeSection
    currentTarget := some (.of target files)
    currentTargetFile := none
    targetFileTables := base.targetFileTables + files.length
    stringBytes := stringBytes }

theorem FilesRead.step {base : Parser} {target : ShippedTarget} {files : List ShippedTargetFile}
    (h : FilesRead base target files stringBytes parser) {file : ShippedTargetFile}
    (hcount : base.targetFileTables + files.length + 1 ≤ limits.targetFiles.toNat)
    (hbudget : stringBytes + targetFileBytes file ≤ limits.stringBytes.toNat) :
    ∃ parser', Reads U limits (targetFileLines file) parser parser' ∧
      FilesRead base target (files ++ [file]) (stringBytes + targetFileBytes file) parser' := by
  let entered : Parser := { base with
    activeSection := .targetFile
    currentTarget := some (.of target files)
    currentTargetFile := some {}
    targetFileTables := base.targetFileTables + files.length + 1
    stringBytes := stringBytes }
  have henter (byteOffset : ℕ) : parser.enterTargetFile limits byteOffset = .ok entered := by
    have hplace : (!([Section.target, .targetFile].contains parser.activeSection) ||
        parser.currentTarget.isNone) = false := by
      rw [h.activeSection_eq, ← Option.not_isSome, h.isOpen]
      split <;> rfl
    rw [Parser.enterTargetFile, if_neg (by rw [hplace]; simp), h.finish]
    exact unit_bind_eq_ok.2 ⟨checkCountLimit_of_le hcount, rfl⟩
  refine ⟨_, .cons (fun _ ↦ rfl) (.cons henter
    (@reads_targetFileFieldLines U limits file entered rfl rfl hbudget)), by simp [entered], rfl, rfl,
    rfl, ?_⟩
  simp only [entered, length_append, length_singleton, ← Nat.add_assoc]
  rfl

def targetLines (target : ShippedTarget) : List (List Char) :=
  [] :: "[[targets]]".toList :: (targetFieldLines target ++ target.files.flatMap targetFileLines)

def targetBytes (target : ShippedTarget) : ℕ :=
  targetFieldBytes target + (target.files.map targetFileBytes).sum

theorem TargetsRead.step (h : TargetsRead manifest packages components targets stringBytes parser)
    {target : ShippedTarget} (hcount : targets.length + 1 ≤ limits.targets.toNat)
    (hfiles : (targets.map fun target ↦ target.files.length).sum + target.files.length ≤
      limits.targetFiles.toNat)
    (hbudget : stringBytes + targetBytes target ≤ limits.stringBytes.toNat) :
    ∃ parser', Reads U limits (targetLines target) parser parser' ∧
      TargetsRead manifest packages components (targets ++ [target])
        (stringBytes + targetBytes target) parser' := by
  rw [targetBytes] at hbudget
  let base : Parser := { progress manifest packages components targets .target stringBytes with
    targetTables := targets.length + 1 }
  let entered : Parser := { base with currentTarget := some {} }
  have henter (byteOffset : ℕ) : parser.enterTarget limits byteOffset = .ok entered := by
    have hplace : (!([Section.component, .target,
        .targetFile].contains parser.activeSection)) = false := by
      rw [Bool.not_eq_false', contains_iff_mem]
      exact h.activeSection_mem
    rw [Parser.enterTarget, if_neg (by rw [hplace]; simp), ← bind_assoc, h.finish]
    exact unit_bind_eq_ok.2 ⟨checkCountLimit_of_le hcount, rfl⟩
  have hfields := @reads_targetFieldLines U limits target entered rfl rfl (by
    change stringBytes + targetFieldBytes target ≤ _
    omega)
  have hopen : FilesRead base target [] (stringBytes + targetFieldBytes target) { entered with
      currentTarget := some (.of target [])
      stringBytes := stringBytes + targetFieldBytes target } := ⟨rfl, rfl, rfl, rfl, rfl⟩
  obtain ⟨parser', hparser', hread⟩ := @Reads.run U limits _ targetFileLines targetFileBytes
    (FilesRead base target) target.files (stringBytes + targetFieldBytes target) _
    (fun front next back hall count parser hreached hfits ↦ hreached.step (by
      rw [hall, length_append, length_cons] at hfiles
      change (targets.map fun target ↦ target.files.length).sum + front.length + 1 ≤ _
      omega) hfits)
    hopen (by omega)
  refine ⟨parser', .cons (fun _ ↦ rfl) (.cons henter (hfields.append hparser')),
    ?_, hread.package_eq, ?_⟩
  · rw [hread.activeSection_eq]
    split <;> decide
  · have hcomponent : parser'.finishComponent = .ok parser' := by
      rw [Parser.finishComponent, hread.component_eq]
      rfl
    rw [hcomponent, ok_bind, Parser.finishTarget, hread.finish, targetBytes, ← Nat.add_assoc]
    simp only [ok_bind, base, progress, length_append, length_singleton, map_append,
      map_cons, map_nil, sum_append, sum_cons, sum_nil, Nat.add_zero]
    rfl

theorem TargetsRead.run (h : TargetsRead manifest packages components [] stringBytes parser)
    (hcount : manifest.targets.length ≤ limits.targets.toNat)
    (hfiles : (manifest.targets.map fun target ↦ target.files.length).sum ≤ limits.targetFiles.toNat)
    (hbudget : stringBytes + (manifest.targets.map targetBytes).sum ≤ limits.stringBytes.toNat) :
    ∃ parser', Reads U limits (manifest.targets.flatMap targetLines) parser parser' ∧
      TargetsRead manifest packages components manifest.targets
        (stringBytes + (manifest.targets.map targetBytes).sum) parser' := by
  refine Reads.run (fun front next back hall count parser hreached hbytes ↦ ?_) h hbudget
  rw [hall, map_append, map_cons, sum_append, sum_cons] at hfiles
  rw [hall, length_append, length_cons] at hcount
  exact hreached.step (by omega) (by omega) hbytes

end Tables

end Reading

end Wrela.Toolchain
