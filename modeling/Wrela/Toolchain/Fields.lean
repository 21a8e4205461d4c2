import Wrela.Toolchain.CodecLaws

/-!
# What the strings of a text say

A text is read as assignments, each in the table of the header before it.  Of every text that is
decoded the strings and the fields of the manifest agree: each string, as far as it is a complete
one, stands for the field it is assigned to.
-/

namespace Wrela.Toolchain

open List Wrela.Source Wrela.BuildModel Wrela.Package Wrela.Wire Wrela.Checked

inductive Table where
  | root
  | compatibility
  | package (index : ℕ)
  | component (index : ℕ)
  | target (index : ℕ)
  | targetFile (target index : ℕ)

/-- The table that is open, and how many tables of each kind were entered; of files those of the
last target. -/
structure OpenTable where
  table : Table
  packages : ℕ
  components : ℕ
  targets : ℕ
  files : ℕ

def OpenTable.start : OpenTable := ⟨.root, 0, 0, 0, 0⟩

def OpenTable.enter (place : OpenTable) (header : List Char) : OpenTable :=
  match String.ofList header with
  | "[compatibility]" => { place with table := .compatibility }
  | "[[standard_library_packages]]" =>
    { place with table := .package place.packages, packages := place.packages + 1 }
  | "[[components]]" =>
    { place with table := .component place.components, components := place.components + 1 }
  | "[[targets]]" =>
    { place with table := .target place.targets, targets := place.targets + 1, files := 0 }
  | "[[targets.files]]" =>
    { place with table := .targetFile (place.targets - 1) place.files, files := place.files + 1 }
  | _ => place

/-- One assignment of a text: its key and its value as they stand there. -/
structure TextField where
  table : Table
  key : String
  value : List Char

def textFieldsFrom : OpenTable → List (List Char) → List TextField
  | _, [] => []
  | place, line :: lines =>
    let content := trimTomlWhitespace (stripComment line)
    if content = [] then textFieldsFrom place lines
    else if content.head? = some '[' then textFieldsFrom (place.enter content) lines
    else
      match splitOnceEquals content with
      | none => textFieldsFrom place lines
      | some (key, value) =>
        ⟨place.table, String.ofList (trimTomlWhitespace key), trimTomlWhitespace value⟩ ::
          textFieldsFrom place lines

def textFields (source : List Char) : List TextField :=
  textFieldsFrom .start (splitTerminator source)

/-- The keys of a table whose values are strings. -/
def stringKeys : Table → List String
  | .root => ["release", "host", "llvm_project_revision"]
  | .compatibility => ["language"]
  | .package _ => ["name", "version", "source_digest", "component", "manifest_digest"]
  | .component _ => ["kind", "path", "digest"]
  | .target _ => ["identity", "path", "digest"]
  | .targetFile _ _ => ["path", "digest"]

def TextField.isString (field : TextField) : Bool := (stringKeys field.table).contains field.key

/-! ## The fields of a manifest -/

inductive FieldValue where
  | text (value : String)
  | digest (value : Sha256Digest)

/-- A string stands for a field: the same text, or the digits of the digest in either case. -/
def FieldValue.Denotes : FieldValue → String → Prop
  | .text expected, value => expected = value
  | .digest expected, value => value.toList.map Char.toLower = digestDigits expected

def RootBuilder.field (builder : RootBuilder) (key : String) : Option FieldValue :=
  match key with
  | "release" => builder.release.map .text
  | "host" => builder.host.map .text
  | "llvm_project_revision" => builder.llvmProjectRevision.map .text
  | _ => none

def CompatibilityBuilder.field (builder : CompatibilityBuilder) (key : String) :
    Option FieldValue :=
  match key with
  | "language" => builder.language.map fun language ↦ .text (LanguageRevision.asStr language)
  | _ => none

def StandardLibraryPackageBuilder.field (builder : StandardLibraryPackageBuilder) (key : String) :
    Option FieldValue :=
  match key with
  | "name" => builder.name.map fun name ↦ .text name.text
  | "version" => builder.version.map fun version ↦ .text version.text
  | "source_digest" => builder.sourceDigest.map .digest
  | "component" => builder.component.map .text
  | "manifest_digest" => builder.manifestDigest.map .digest
  | _ => none

def ComponentBuilder.field (builder : ComponentBuilder) (key : String) : Option FieldValue :=
  match key with
  | "kind" => builder.kind.map fun kind ↦ .text (componentKindName kind)
  | "path" => builder.path.map fun path ↦ .text path.text
  | "digest" => builder.digest.map .digest
  | _ => none

def TargetBuilder.field (builder : TargetBuilder) (key : String) : Option FieldValue :=
  match key with
  | "identity" => builder.identity.map fun identity ↦ .text identity.name
  | "path" => builder.path.map fun path ↦ .text path.text
  | "digest" => builder.digest.map .digest
  | _ => none

def TargetFileBuilder.field (builder : TargetFileBuilder) (key : String) : Option FieldValue :=
  match key with
  | "path" => builder.path.map fun path ↦ .text path.text
  | "digest" => builder.digest.map .digest
  | _ => none

/-- A target and its files, as far as they are read. -/
structure TargetView where
  target : TargetBuilder
  files : List TargetFileBuilder

/-- Everything read, whether its table is still open or not. -/
structure View where
  root : RootBuilder
  compatibility : CompatibilityBuilder
  packages : List StandardLibraryPackageBuilder
  components : List ComponentBuilder
  targets : List TargetView

def TargetView.fileField (target : TargetView) (index : ℕ) (key : String) : Option FieldValue :=
  target.files[index]?.bind fun file ↦ file.field key

def View.field (view : View) : Table → String → Option FieldValue
  | .root, key => view.root.field key
  | .compatibility, key => view.compatibility.field key
  | .package index, key => view.packages[index]?.bind fun builder ↦ builder.field key
  | .component index, key => view.components[index]?.bind fun builder ↦ builder.field key
  | .target index, key => view.targets[index]?.bind fun builder ↦ builder.target.field key
  | .targetFile target index, key =>
    view.targets[target]?.bind fun builder ↦ builder.fileField index key

def ShippedTarget.view (target : ShippedTarget) : TargetView :=
  ⟨.of target [], target.files.map .of⟩

def ToolchainManifest.view (manifest : ToolchainManifest) : View where
  root := .of manifest
  compatibility := .of manifest.compatibility
  packages := manifest.standardLibraryPackages.map .of
  components := manifest.components.map .of
  targets := manifest.targets.map ShippedTarget.view

/-- The field of a manifest under a key of one of its tables. -/
def ToolchainManifest.field (manifest : ToolchainManifest) : Table → String → Option FieldValue :=
  manifest.view.field

/-- Every string of the text is a complete basic string that stands for the field it is assigned
to. -/
def StringsExact (source : List Char) (manifest : ToolchainManifest) : Prop :=
  ∀ field ∈ textFields source, field.isString = true →
    ∃ value found, BasicString field.value value ∧
      manifest.field field.table field.key = some found ∧ found.Denotes value

/-- The last quote of a string of the text belongs to an escape. -/
def HasHangingString (source : List Char) : Prop :=
  ∃ field ∈ textFields source, field.isString = true ∧ hangs field.value = true

namespace Parser

variable (parser : Parser)

def openTarget (builder : TargetBuilder) : TargetView :=
  ⟨{ builder with files := [] }, builder.files.map .of ++ parser.currentTargetFile.toList⟩

def view : View where
  root := parser.root
  compatibility := parser.compatibility
  packages := parser.standardLibraryPackages.map .of ++ parser.currentStandardLibraryPackage.toList
  components := parser.components.map .of ++ parser.currentComponent.toList
  targets := parser.targets.map ShippedTarget.view ++
    (parser.currentTarget.map parser.openTarget).toList

/-- The table the parser is in. -/
def table : Table :=
  match parser.activeSection with
  | .root => .root
  | .compatibility => .compatibility
  | .standardLibraryPackage => .package (parser.view.packages.length - 1)
  | .component => .component (parser.view.components.length - 1)
  | .target => .target (parser.view.targets.length - 1)
  | .targetFile => .targetFile (parser.view.targets.length - 1)
    ((parser.view.targets.getLast?.map fun target ↦ target.files.length).getD 0 - 1)

/-- An open table of a file belongs to an open target. -/
def FileInTarget : Prop :=
  parser.currentTargetFile.isSome = true → parser.currentTarget.isSome = true

def place : OpenTable where
  table := parser.table
  packages := parser.view.packages.length
  components := parser.view.components.length
  targets := parser.view.targets.length
  files := (parser.view.targets.getLast?.map fun target ↦ target.files.length).getD 0

end Parser

theorem StandardLibraryPackageBuilder.of_finish (h : builder.finish = .ok package) :
    StandardLibraryPackageBuilder.of package = builder := by
  obtain ⟨name, version, sourceDigest, component, manifestDigest⟩ := builder
  simp only [finish, required, bind_eq_ok, orFail_eq_ok] at h
  obtain ⟨_, rfl, _, rfl, _, rfl, _, rfl, _, rfl, h⟩ := h
  cases h
  rfl

theorem ComponentBuilder.of_finish (h : builder.finish = .ok component) :
    ComponentBuilder.of component = builder := by
  obtain ⟨kind, path, digest, bytes⟩ := builder
  simp only [finish, required, bind_eq_ok, orFail_eq_ok] at h
  obtain ⟨_, rfl, _, rfl, _, rfl, _, rfl, h⟩ := h
  cases h
  rfl

theorem TargetBuilder.of_finish (h : builder.finish = .ok target) :
    TargetBuilder.of target target.files = builder := by
  obtain ⟨identity, path, digest, bytes, files⟩ := builder
  simp only [finish, required, bind_eq_ok, orFail_eq_ok] at h
  obtain ⟨_, rfl, _, rfl, _, rfl, _, rfl, h⟩ := h
  cases h
  rfl

theorem TargetFileBuilder.of_finish (h : builder.finish = .ok file) :
    TargetFileBuilder.of file = builder := by
  obtain ⟨path, digest, bytes⟩ := builder
  simp only [finish, required, bind_eq_ok, orFail_eq_ok] at h
  obtain ⟨_, rfl, _, rfl, _, rfl, h⟩ := h
  cases h
  rfl

theorem CompatibilityBuilder.of_finish {builder : CompatibilityBuilder}
    {compatibility : ToolchainCompatibility} (h : builder.finish = .ok compatibility) :
    (CompatibilityBuilder.of compatibility).language = builder.language := by
  obtain ⟨language, numbers⟩ := builder
  simp only [finish, required, bind_eq_ok, orFail_eq_ok] at h
  obtain ⟨_, rfl, _, -, h⟩ := h
  cases h
  rfl

section Finish

variable {parser parser' : Parser}

/-- Nothing that was read is lost or gained, and no table is opened. -/
structure SameView (parser parser' : Parser) : Prop where
  view : parser'.view = parser.view
  activeSection : parser'.activeSection = parser.activeSection
  inTarget : parser.FileInTarget → parser'.FileInTarget
  noPackage : parser.currentStandardLibraryPackage = none →
    parser'.currentStandardLibraryPackage = none
  noComponent : parser.currentComponent = none → parser'.currentComponent = none

theorem SameView.trans {parser'' : Parser} (h : SameView parser parser')
    (h' : SameView parser' parser'') : SameView parser parser'' :=
  ⟨h'.view.trans h.view, h'.activeSection.trans h.activeSection,
    fun hopen ↦ h'.inTarget (h.inTarget hopen), fun hnone ↦ h'.noPackage (h.noPackage hnone),
    fun hnone ↦ h'.noComponent (h.noComponent hnone)⟩

theorem sameView_finishStandardLibraryPackage
    (h : parser.finishStandardLibraryPackage = .ok parser') :
    SameView parser parser' ∧ parser'.currentStandardLibraryPackage = none := by
  unfold Parser.finishStandardLibraryPackage at h
  split at h
  · rename_i hcurrent
    cases h
    exact ⟨⟨rfl, rfl, id, id, id⟩, hcurrent⟩
  · rename_i builder hcurrent
    obtain ⟨package, hpackage, h⟩ := bind_eq_ok.1 h
    cases h
    refine ⟨⟨?_, rfl, id, fun _ ↦ rfl, id⟩, rfl⟩
    simp only [Parser.view, hcurrent, map_append, map_cons, map_nil,
      StandardLibraryPackageBuilder.of_finish hpackage, Option.toList_none, Option.toList_some,
      append_nil]
    rfl

theorem sameView_finishComponent (h : parser.finishComponent = .ok parser') :
    SameView parser parser' ∧ parser'.currentComponent = none := by
  unfold Parser.finishComponent at h
  split at h
  · rename_i hcurrent
    cases h
    exact ⟨⟨rfl, rfl, id, id, id⟩, hcurrent⟩
  · rename_i builder hcurrent
    obtain ⟨component, hcomponent, h⟩ := bind_eq_ok.1 h
    cases h
    refine ⟨⟨?_, rfl, id, id, fun _ ↦ rfl⟩, rfl⟩
    simp only [Parser.view, hcurrent, map_append, map_cons, map_nil,
      ComponentBuilder.of_finish hcomponent, Option.toList_none, Option.toList_some,
      append_nil]
    rfl

theorem sameView_finishTargetFile (h : parser.finishTargetFile = .ok parser') :
    SameView parser parser' ∧ parser'.currentTargetFile = none ∧
      parser'.currentTarget.isSome = parser.currentTarget.isSome := by
  unfold Parser.finishTargetFile at h
  split at h
  · rename_i hcurrent
    cases h
    exact ⟨⟨rfl, rfl, id, id, id⟩, hcurrent, rfl⟩
  · rename_i builder hcurrent
    obtain ⟨file, hfile, h⟩ := bind_eq_ok.1 h
    obtain ⟨target, htarget, h⟩ := bind_eq_ok.1 h
    cases h
    rw [orFail_eq_ok] at htarget
    refine ⟨⟨?_, rfl, fun _ hfile ↦ absurd hfile (by simp), id, id⟩, rfl, by simp [htarget]⟩
    simp only [Parser.view, Parser.openTarget, hcurrent, htarget, Option.map_some, map_append,
      map_cons, map_nil, TargetFileBuilder.of_finish hfile, Option.toList_none,
      Option.toList_some, append_nil]

theorem sameView_finishTarget (h : parser.finishTarget = .ok parser') :
    SameView parser parser' ∧ parser'.currentTarget = none ∧ parser'.currentTargetFile = none := by
  obtain ⟨mid, hmid, h⟩ := bind_eq_ok.1 h
  obtain ⟨hsame, hfile, -⟩ := sameView_finishTargetFile hmid
  split at h
  · rename_i hcurrent
    cases h
    exact ⟨hsame, hcurrent, hfile⟩
  · rename_i builder hcurrent
    obtain ⟨target, htarget, h⟩ := bind_eq_ok.1 h
    cases h
    refine ⟨hsame.trans ⟨?_, rfl, fun _ hopen ↦ absurd hopen (by simp [hfile]), id, id⟩, rfl, hfile⟩
    have hof := TargetBuilder.of_finish htarget
    simp only [Parser.view, Parser.openTarget, hcurrent, hfile, ← hof, map_append,
      map_cons, map_nil, Option.map_none, Option.map_some, Option.toList_none,
      Option.toList_some, append_nil]
    rfl

end Finish

/-- Fields that are set stay as they are. -/
def FieldsKept (fields fields' : String → Option FieldValue) : Prop :=
  ∀ key value, fields key = some value → fields' key = some value

theorem FieldsKept.refl (fields : String → Option FieldValue) : FieldsKept fields fields :=
  fun _ _ h ↦ h

theorem FieldsKept.trans {first second third : String → Option FieldValue}
    (h : FieldsKept first second) (h' : FieldsKept second third) : FieldsKept first third :=
  fun key value hfield ↦ h' key value (h key value hfield)

variable {α : Type}

/-- Looking up in a list whose last element was replaced. -/
theorem FieldsKept.concat (fields : α → String → Option FieldValue)
    (h : FieldsKept (fields last) (fields last')) (index : ℕ) :
    FieldsKept (fun key ↦ (front ++ [last])[index]?.bind fun item ↦ fields item key)
      (fun key ↦ (front ++ [last'])[index]?.bind fun item ↦ fields item key) := by
  intro key value hfield
  rcases Nat.lt_or_ge index front.length with hlt | hge
  · rwa [List.getElem?_append_left hlt] at hfield ⊢
  · rw [List.getElem?_append_right hge] at hfield ⊢
    rcases Nat.eq_zero_or_pos (index - front.length) with hzero | hpositive
    · rw [hzero] at hfield ⊢
      exact h key value hfield
    · have hnone : [last][index - front.length]? = none := List.getElem?_eq_none hpositive
      rw [hnone] at hfield
      cases hfield

/-- Looking up in a list that grew. -/
theorem FieldsKept.append (fields : α → String → Option FieldValue) (front : List α)
    (last : α) (index : ℕ) :
    FieldsKept (fun key ↦ front[index]?.bind fun item ↦ fields item key)
      (fun key ↦ (front ++ [last])[index]?.bind fun item ↦ fields item key) := by
  intro key value hfield
  obtain ⟨item, hitem, hfield⟩ := Option.bind_eq_some_iff.1 hfield
  have hindex : index < front.length := (List.getElem?_eq_some_iff.1 hitem).1
  rw [List.getElem?_append_left hindex, hitem]
  exact hfield

/-- Everything that is set stays as it is. -/
def View.Kept (view view' : View) : Prop :=
  ∀ table, FieldsKept (view.field table) (view'.field table)

theorem View.Kept.refl (view : View) : View.Kept view view := fun _ ↦ .refl _

theorem View.Kept.trans {first second third : View} (h : View.Kept first second)
    (h' : View.Kept second third) : View.Kept first third := fun table ↦ (h table).trans (h' table)

/-- Only the last target changes, and what is set of it stays. -/
theorem View.Kept.lastTarget (htargets : view.targets = front ++ [last])
    (htarget : FieldsKept last.target.field last'.target.field)
    (hfiles : ∀ index, FieldsKept (last.fileField index) (last'.fileField index)) :
    View.Kept view { view with targets := front ++ [last'] } := by
  intro table key value hfield
  cases table with
  | target index =>
    simp only [View.field, htargets] at hfield ⊢
    exact FieldsKept.concat (fun target : TargetView ↦ target.target.field) htarget index
      key value hfield
  | targetFile target index =>
    simp only [View.field, htargets] at hfield ⊢
    exact FieldsKept.concat (fun target : TargetView ↦ target.fileField index)
      (hfiles index) target key value hfield
  | _ => exact hfield

section Enter

variable {limits : ToolchainDecodeLimits} {byteOffset : ℕ} {parser parser' : Parser}

theorem enterCompatibility_view (h : parser.enterCompatibility byteOffset = .ok parser') :
    parser'.view = parser.view ∧ parser'.activeSection = .compatibility ∧
      (parser.FileInTarget → parser'.FileInTarget) := by
  unfold Parser.enterCompatibility at h
  split at h
  · cases h
  split at h
  · cases h
  · cases h
    exact ⟨rfl, rfl, id⟩

theorem enterStandardLibraryPackage_view
    (h : parser.enterStandardLibraryPackage limits byteOffset = .ok parser') :
    parser'.view = { parser.view with packages := parser.view.packages ++ [{}] } ∧
      parser'.activeSection = .standardLibraryPackage ∧
      (parser.FileInTarget → parser'.FileInTarget) := by
  unfold Parser.enterStandardLibraryPackage at h
  split at h
  · cases h
  obtain ⟨mid, hmid, h⟩ := bind_eq_ok.1 h
  obtain ⟨-, h⟩ := unit_bind_eq_ok.1 h
  cases h
  obtain ⟨hsame, hcurrent⟩ := sameView_finishStandardLibraryPackage hmid
  refine ⟨?_, rfl, hsame.inTarget⟩
  rw [← hsame.view]
  simp only [Parser.view, hcurrent, Option.toList_none, Option.toList_some, append_nil]
  rfl

theorem enterComponent_view (h : parser.enterComponent limits byteOffset = .ok parser') :
    parser'.view = { parser.view with components := parser.view.components ++ [{}] } ∧
      parser'.activeSection = .component ∧ (parser.FileInTarget → parser'.FileInTarget) := by
  unfold Parser.enterComponent at h
  split at h
  · cases h
  obtain ⟨first, hfirst, h⟩ := bind_eq_ok.1 h
  obtain ⟨mid, hmid, h⟩ := bind_eq_ok.1 h
  obtain ⟨-, h⟩ := unit_bind_eq_ok.1 h
  cases h
  have hpackages := (sameView_finishStandardLibraryPackage hfirst).1
  obtain ⟨hsame, hcurrent⟩ := sameView_finishComponent hmid
  refine ⟨?_, rfl, fun hopen ↦ hsame.inTarget (hpackages.inTarget hopen)⟩
  rw [← hpackages.view, ← hsame.view]
  simp only [Parser.view, hcurrent, Option.toList_none, Option.toList_some, append_nil]
  rfl

theorem enterTarget_view (h : parser.enterTarget limits byteOffset = .ok parser') :
    parser'.view = { parser.view with targets := parser.view.targets ++ [⟨{}, []⟩] } ∧
      parser'.activeSection = .target ∧ (parser.FileInTarget → parser'.FileInTarget) := by
  unfold Parser.enterTarget at h
  split at h
  · cases h
  obtain ⟨first, hfirst, h⟩ := bind_eq_ok.1 h
  obtain ⟨mid, hmid, h⟩ := bind_eq_ok.1 h
  obtain ⟨-, h⟩ := unit_bind_eq_ok.1 h
  cases h
  have hcomponents := (sameView_finishComponent hfirst).1
  obtain ⟨hsame, hcurrent, hfile⟩ := sameView_finishTarget hmid
  refine ⟨?_, rfl, fun _ _ ↦ rfl⟩
  rw [← hcomponents.view, ← hsame.view]
  simp only [Parser.view, Parser.openTarget, hcurrent, hfile, Option.map_none, Option.map_some,
    Option.toList_none, Option.toList_some, append_nil, map_nil]

theorem enterTargetFile_view (h : parser.enterTargetFile limits byteOffset = .ok parser') :
    (∃ front last, parser.view.targets = front ++ [last] ∧
      parser'.view = { parser.view with
        targets := front ++ [⟨last.target, last.files ++ [{}]⟩] }) ∧
      parser'.activeSection = .targetFile ∧ (parser.FileInTarget → parser'.FileInTarget) := by
  unfold Parser.enterTargetFile at h
  split at h
  · cases h
  rename_i hplace
  obtain ⟨mid, hmid, h⟩ := bind_eq_ok.1 h
  obtain ⟨-, h⟩ := unit_bind_eq_ok.1 h
  cases h
  obtain ⟨hsame, hfile, hopen⟩ := sameView_finishTargetFile hmid
  have hsome : parser.currentTarget.isSome = true := by
    rw [Bool.or_eq_true, not_or, Option.isNone_iff_eq_none, ← ne_eq (parser.currentTarget),
      Option.ne_none_iff_isSome] at hplace
    exact hplace.2
  obtain ⟨builder, hbuilder⟩ := Option.isSome_iff_exists.1 (hopen.trans hsome)
  refine ⟨⟨mid.targets.map ShippedTarget.view, mid.openTarget builder, ?_, ?_⟩, rfl,
    fun _ _ ↦ hopen.trans hsome⟩
  · rw [← hsame.view]
    simp only [Parser.view, hbuilder, Option.map_some, Option.toList_some]
  · rw [← hsame.view]
    simp only [Parser.view, Parser.openTarget, hbuilder, hfile, Option.map_some, Option.toList_some,
      Option.toList_none, append_nil]

/-- A header opens the table it names and keeps what is set. -/
theorem parseHeader_opened (hopen : parser.FileInTarget)
    (h : parser.parseHeader limits byteOffset content = .ok parser') :
    View.Kept parser.view parser'.view ∧ parser'.place = parser.place.enter content ∧
      parser'.FileInTarget := by
  unfold Parser.parseHeader at h
  unfold OpenTable.enter
  split at h
  · rename_i heq
    obtain ⟨hview, hsection, hfile⟩ := enterCompatibility_view h
    refine ⟨by rw [hview]; exact .refl _, ?_, hfile hopen⟩
    simp only [Parser.place, Parser.table, hview, hsection, heq]
  · rename_i heq
    obtain ⟨hview, hsection, hfile⟩ := enterStandardLibraryPackage_view h
    refine ⟨fun table ↦ ?_, ?_, hfile hopen⟩
    · rw [hview]
      cases table with
      | package index => exact .append _ _ _ index
      | _ => exact .refl _
    · simp [Parser.place, Parser.table, hview, hsection, heq]
  · rename_i heq
    obtain ⟨hview, hsection, hfile⟩ := enterComponent_view h
    refine ⟨fun table ↦ ?_, ?_, hfile hopen⟩
    · rw [hview]
      cases table with
      | component index => exact .append _ _ _ index
      | _ => exact .refl _
    · simp [Parser.place, Parser.table, hview, hsection, heq]
  · rename_i heq
    obtain ⟨hview, hsection, hfile⟩ := enterTarget_view h
    refine ⟨fun table ↦ ?_, ?_, hfile hopen⟩
    · rw [hview]
      cases table with
      | target index =>
        exact .append (fun target : TargetView ↦ target.target.field) _ _ index
      | targetFile target index =>
        exact .append (fun target : TargetView ↦ target.fileField index) _ _ target
      | _ => exact .refl _
    · simp [Parser.place, Parser.table, hview, hsection, heq]
  · rename_i heq
    obtain ⟨⟨front, last, htargets, hview⟩, hsection, hfile⟩ := enterTargetFile_view h
    refine ⟨?_, ?_, hfile hopen⟩
    · rw [hview]
      exact .lastTarget htargets (.refl _) fun index ↦ .append _ _ _ index
    · simp [Parser.place, Parser.table, hview, hsection, htargets, heq]
  · split at h <;> cases h

end Enter

/-- A string was read that stands for the field. -/
def ReadAs (value : List Char) (byteOffset : ℕ) (found : Option FieldValue) : Prop :=
  ∃ decoded expected, scanBasicString value byteOffset = .ok decoded ∧ found = some expected ∧
    expected.Denotes (String.ofList decoded)

theorem setOnce_eq_ok : setOnce slot path value = .ok slot' ↔ slot = none ∧ slot' = some value := by
  cases slot <;> simp [setOnce, eq_comm]

theorem hexValue_eq_some (h : hexValue digit = some value) :
    value < 16 ∧ digit.toLower = lowerHex value := by
  have hall : ∀ code < 128, ∀ value ∈ hexValue (Char.ofNat code),
      value < 16 ∧ (Char.ofNat code).toLower = lowerHex value := by decide
  have hdigit := hall digit.toNat (lt_of_hexValue h)
  rw [Char.ofNat_toNat] at hdigit
  exact hdigit value h

theorem digestPairs_eq_ok (h : digestPairs byteOffset digits = .ok bytes) :
    digits.map Char.toLower = byteDigits bytes := by
  induction digits using List.twoStepInduction generalizing byteOffset bytes with
  | nil =>
    cases h
    rfl
  | singleton digit => cases h
  | cons_cons high low digits ih =>
    obtain ⟨first, hfirst, h⟩ := bind_eq_ok.1 h
    obtain ⟨second, hsecond, h⟩ := bind_eq_ok.1 h
    obtain ⟨rest, hrest, h⟩ := bind_eq_ok.1 h
    cases h
    obtain ⟨hsmall, hhigh⟩ := hexValue_eq_some (orFail_eq_ok.1 hfirst)
    obtain ⟨hsmall', hlow⟩ := hexValue_eq_some (orFail_eq_ok.1 hsecond)
    have hbyte : (UInt8.ofNat (first * 16 + second)).toNat = first * 16 + second := by
      rw [UInt8.toNat_ofNat', Nat.mod_eq_of_lt (by omega)]
    rw [map_cons, map_cons, hhigh, hlow, ih hrest, byteDigits_cons, hbyte]
    have hdiv : (first * 16 + second) / 16 = first := by omega
    have hmod : (first * 16 + second) % 16 = second := by omega
    rw [hdiv, hmod]

theorem denotes_of_parseDigest (h : parseDigest value byteOffset = .ok digest) :
    (FieldValue.digest digest).Denotes value := by
  unfold parseDigest at h
  split at h
  · cases h
  obtain ⟨bytes, hbytes, h⟩ := bind_eq_ok.1 h
  split at h
  · cases h
    exact digestPairs_eq_ok hbytes
  · cases h

section Setting

variable {U : Unicode} {limits : ToolchainDecodeLimits} {value : List Char} {byteOffset : ℕ}
  {key : String} {parser parser' : Parser}

variable {text : String}

theorem parseString_eq_ok (h : parser.parseString limits value byteOffset = .ok (text, parser')) :
    ReadAs value byteOffset (some (.text text)) ∧
      ∃ stringBytes, parser' = { parser with stringBytes := stringBytes } := by
  obtain ⟨measured, hmeasured, h⟩ := bind_eq_ok.1 h
  obtain ⟨-, h⟩ := unit_bind_eq_ok.1 h
  obtain ⟨decoded, hdecoded, h⟩ := bind_eq_ok.1 h
  cases h
  exact ⟨⟨decoded, _, hdecoded, rfl, rfl⟩, _, rfl⟩

theorem parseDigestField_eq_ok
    (h : parser.parseDigestField limits value byteOffset = .ok (digest, parser')) :
    ReadAs value byteOffset (some (.digest digest)) ∧
      ∃ stringBytes, parser' = { parser with stringBytes := stringBytes } := by
  obtain ⟨⟨text, mid⟩, hstring, h⟩ := bind_eq_ok.1 h
  obtain ⟨found, hdigest, h⟩ := bind_eq_ok.1 h
  cases h
  obtain ⟨⟨decoded, expected, hdecoded, hexpected, hdenotes⟩, hsame⟩ := parseString_eq_ok hstring
  cases hexpected
  obtain rfl : text = String.ofList decoded := hdenotes
  exact ⟨⟨decoded, _, hdecoded, rfl, denotes_of_parseDigest hdigest⟩, hsame⟩

theorem text_of_componentKindOfName (h : Parser.componentKindOfName text = some kind) :
    componentKindName kind = text := by
  unfold Parser.componentKindOfName at h
  split at h <;> cases h <;> rfl

theorem text_of_languageOfName (h : Parser.languageOfName text = some language) :
    LanguageRevision.asStr language = text := by
  unfold Parser.languageOfName at h
  split at h <;> cases h
  rfl

theorem text_of_packageName (h : PackageName.new U text = .ok name) : name.text = text := by
  obtain ⟨_, -, rfl⟩ := map_eq_ok.1 h
  rfl

theorem text_of_packageVersion (h : PackageVersion.new U text = .ok version) :
    version.text = text := by
  obtain ⟨_, -, rfl⟩ := map_eq_ok.1 h
  rfl

/-- Setting a slot of what is there. -/
theorem setSlot_eq_ok {β α γ : Type} {current : Option β} {error : ToolchainDecodeError}
    {get : β → Option α} {path : String} {parsed : α} {put : β → Option α → γ} {result : γ}
    (h : (orFail current error >>= fun builder ↦ setOnce (get builder) path parsed >>= fun slot ↦
      pure (put builder slot)) = .ok result) :
    ∃ builder, current = some builder ∧ get builder = none ∧
      result = put builder (some parsed) := by
  obtain ⟨builder, hbuilder, h⟩ := bind_eq_ok.1 h
  obtain ⟨slot, hslot, h⟩ := bind_eq_ok.1 h
  cases h
  obtain ⟨hunset, rfl⟩ := setOnce_eq_ok.1 hslot
  exact ⟨builder, orFail_eq_ok.1 hbuilder, hunset, rfl⟩

theorem parseRootField_eq_ok (h : parser.parseRootField limits value byteOffset key = .ok parser') :
    ∃ root stringBytes, parser' = { parser with root := root, stringBytes := stringBytes } ∧
      FieldsKept parser.root.field root.field ∧
      (key ∈ ["release", "host", "llvm_project_revision"] →
        ReadAs value byteOffset (root.field key)) := by
  unfold Parser.parseRootField at h
  split at h
  · obtain ⟨parsed, -, h⟩ := bind_eq_ok.1 h
    obtain ⟨slot, hslot, h⟩ := bind_eq_ok.1 h
    cases h
    exact ⟨_, _, rfl, .refl _, fun hmem ↦ absurd hmem (by decide)⟩
  -- every other key that is known takes a string as it stands
  iterate 3
    · obtain ⟨⟨text, mid⟩, hstring, h⟩ := bind_eq_ok.1 h
      obtain ⟨slot, hslot, h⟩ := bind_eq_ok.1 h
      cases h
      obtain ⟨hread, stringBytes, rfl⟩ := parseString_eq_ok hstring
      obtain ⟨hunset, rfl⟩ := setOnce_eq_ok.1 hslot
      refine ⟨_, stringBytes, rfl, fun key value ↦ ?_, fun _ ↦ hread⟩
      unfold RootBuilder.field
      split <;> simp_all
  · cases h

theorem parseCompatibilityField_eq_ok
    (h : parser.parseCompatibilityField limits value byteOffset key = .ok parser') :
    ∃ compatibility stringBytes,
      parser' = { parser with compatibility := compatibility, stringBytes := stringBytes } ∧
      FieldsKept parser.compatibility.field compatibility.field ∧
      (key ∈ ["language"] → ReadAs value byteOffset (compatibility.field key)) := by
  unfold Parser.parseCompatibilityField at h
  split at h
  · rename_i hkey
    subst hkey
    obtain ⟨⟨text, mid⟩, hstring, h⟩ := bind_eq_ok.1 h
    obtain ⟨language, hlanguage, h⟩ := bind_eq_ok.1 h
    obtain ⟨slot, hslot, h⟩ := bind_eq_ok.1 h
    cases h
    obtain ⟨hread, stringBytes, rfl⟩ := parseString_eq_ok hstring
    obtain ⟨hunset, rfl⟩ := setOnce_eq_ok.1 hslot
    obtain rfl := text_of_languageOfName (orFail_eq_ok.1 hlanguage)
    refine ⟨_, stringBytes, rfl, fun key value ↦ ?_, fun _ ↦ hread⟩
    unfold CompatibilityBuilder.field
    split <;> simp_all
  · rename_i hkey
    obtain ⟨parsed, -, h⟩ := bind_eq_ok.1 h
    split at h
    · obtain ⟨slot, -, h⟩ := bind_eq_ok.1 h
      cases h
      exact ⟨_, _, rfl, .refl _, fun hmem ↦ absurd (mem_singleton.1 hmem) hkey⟩
    · cases h

theorem parseStandardLibraryPackageField_eq_ok
    (h : parser.parseStandardLibraryPackageField U limits value byteOffset key = .ok parser') :
    ∃ builder builder' stringBytes, parser.currentStandardLibraryPackage = some builder ∧
      parser' = { parser with
        currentStandardLibraryPackage := some builder', stringBytes := stringBytes } ∧
      FieldsKept builder.field builder'.field ∧
      (key ∈ ["name", "version", "source_digest", "component", "manifest_digest"] →
        ReadAs value byteOffset (builder'.field key)) := by
  unfold Parser.parseStandardLibraryPackageField at h
  split at h
  case h_6 => cases h
  all_goals
    obtain ⟨⟨parsed, mid⟩, hparsed, h⟩ := bind_eq_ok.1 h
    first
    | obtain ⟨hread, stringBytes, rfl⟩ := parseDigestField_eq_ok hparsed
    | obtain ⟨hread, stringBytes, rfl⟩ := parseString_eq_ok hparsed
      first
      | obtain ⟨-, h⟩ := unit_bind_eq_ok.1 h
      | replace h := bind_eq_ok.1 h
        obtain ⟨converted, hconverted, h⟩ := h
        first
        | obtain rfl := text_of_packageName (mapError_eq_ok.1 hconverted)
        | obtain rfl := text_of_packageVersion (mapError_eq_ok.1 hconverted)
    obtain ⟨builder, hbuilder, hunset, rfl⟩ := setSlot_eq_ok h
    refine ⟨builder, _, stringBytes, hbuilder, rfl, fun key value ↦ ?_, fun _ ↦ hread⟩
    unfold StandardLibraryPackageBuilder.field
    split <;> simp_all

theorem parseComponentField_eq_ok
    (h : parser.parseComponentField limits value byteOffset key = .ok parser') :
    ∃ builder builder' stringBytes, parser.currentComponent = some builder ∧
      parser' = { parser with currentComponent := some builder', stringBytes := stringBytes } ∧
      FieldsKept builder.field builder'.field ∧
      (key ∈ ["kind", "path", "digest"] → ReadAs value byteOffset (builder'.field key)) := by
  unfold Parser.parseComponentField at h
  split at h
  case h_5 => cases h
  case h_4 =>
    obtain ⟨parsed, -, h⟩ := bind_eq_ok.1 h
    obtain ⟨builder, hbuilder, -, rfl⟩ := setSlot_eq_ok h
    exact ⟨builder, _, _, hbuilder, rfl, .refl _, fun hmem ↦ absurd hmem (by decide)⟩
  all_goals
    obtain ⟨⟨parsed, mid⟩, hparsed, h⟩ := bind_eq_ok.1 h
    first
    | obtain ⟨hread, stringBytes, rfl⟩ := parseDigestField_eq_ok hparsed
    | obtain ⟨hread, stringBytes, rfl⟩ := parseString_eq_ok hparsed
      replace h := bind_eq_ok.1 h
      obtain ⟨converted, hconverted, h⟩ := h
      first
      | obtain rfl := text_of_componentKindOfName (orFail_eq_ok.1 hconverted)
      | obtain rfl := ComponentPath.text_of_new (mapError_eq_ok.1 hconverted)
    obtain ⟨builder, hbuilder, hunset, rfl⟩ := setSlot_eq_ok h
    refine ⟨builder, _, stringBytes, hbuilder, rfl, fun key value ↦ ?_, fun _ ↦ hread⟩
    unfold ComponentBuilder.field
    split <;> simp_all

theorem parseTargetField_eq_ok
    (h : parser.parseTargetField limits value byteOffset key = .ok parser') :
    ∃ builder builder' stringBytes, parser.currentTarget = some builder ∧
      parser' = { parser with currentTarget := some builder', stringBytes := stringBytes } ∧
      FieldsKept builder.field builder'.field ∧ builder'.files = builder.files ∧
      (key ∈ ["identity", "path", "digest"] → ReadAs value byteOffset (builder'.field key)) := by
  unfold Parser.parseTargetField at h
  split at h
  case h_5 => cases h
  case h_4 =>
    obtain ⟨parsed, -, h⟩ := bind_eq_ok.1 h
    obtain ⟨builder, hbuilder, -, rfl⟩ := setSlot_eq_ok h
    exact ⟨builder, _, _, hbuilder, rfl, .refl _, rfl, fun hmem ↦ absurd hmem (by decide)⟩
  all_goals
    obtain ⟨⟨parsed, mid⟩, hparsed, h⟩ := bind_eq_ok.1 h
    first
    | obtain ⟨hread, stringBytes, rfl⟩ := parseDigestField_eq_ok hparsed
    | obtain ⟨hread, stringBytes, rfl⟩ := parseString_eq_ok hparsed
      replace h := bind_eq_ok.1 h
      obtain ⟨converted, hconverted, h⟩ := h
      first
      | obtain rfl := TargetIdentity.new_eq_some.1 (orFail_eq_ok.1 hconverted)
      | obtain rfl := ComponentPath.text_of_new (mapError_eq_ok.1 hconverted)
    obtain ⟨builder, hbuilder, hunset, rfl⟩ := setSlot_eq_ok h
    refine ⟨builder, _, stringBytes, hbuilder, rfl, fun key value ↦ ?_, rfl, fun _ ↦ hread⟩
    unfold TargetBuilder.field
    split <;> simp_all

theorem parseTargetFileField_eq_ok
    (h : parser.parseTargetFileField limits value byteOffset key = .ok parser') :
    ∃ builder builder' stringBytes, parser.currentTargetFile = some builder ∧
      parser' = { parser with currentTargetFile := some builder', stringBytes := stringBytes } ∧
      FieldsKept builder.field builder'.field ∧
      (key ∈ ["path", "digest"] → ReadAs value byteOffset (builder'.field key)) := by
  unfold Parser.parseTargetFileField at h
  split at h
  case h_4 => cases h
  case h_3 =>
    obtain ⟨parsed, -, h⟩ := bind_eq_ok.1 h
    obtain ⟨builder, hbuilder, -, rfl⟩ := setSlot_eq_ok h
    exact ⟨builder, _, _, hbuilder, rfl, .refl _, fun hmem ↦ absurd hmem (by decide)⟩
  all_goals
    obtain ⟨⟨parsed, mid⟩, hparsed, h⟩ := bind_eq_ok.1 h
    first
    | obtain ⟨hread, stringBytes, rfl⟩ := parseDigestField_eq_ok hparsed
    | obtain ⟨hread, stringBytes, rfl⟩ := parseString_eq_ok hparsed
      replace h := bind_eq_ok.1 h
      obtain ⟨converted, hconverted, h⟩ := h
      obtain rfl := ComponentPath.text_of_new (mapError_eq_ok.1 hconverted)
    obtain ⟨builder, hbuilder, hunset, rfl⟩ := setSlot_eq_ok h
    refine ⟨builder, _, stringBytes, hbuilder, rfl, fun key value ↦ ?_, fun _ ↦ hread⟩
    unfold TargetFileBuilder.field
    split <;> simp_all

/-- What an assignment does: it keeps what is set, stays in its table, and reads its string as the
field it sets. -/
structure Assigned (value : List Char) (byteOffset : ℕ) (key : String) (parser parser' : Parser) :
    Prop where
  kept : View.Kept parser.view parser'.view
  place : parser'.place = parser.place
  inTarget : parser'.FileInTarget
  read : key ∈ stringKeys parser.table →
    ReadAs value byteOffset (parser'.view.field parser.table key)

/-- The open table depends on the section and on the number of tables read. -/
theorem place_eq_place (hsection : parser'.activeSection = parser.activeSection)
    (hpackages : parser'.view.packages.length = parser.view.packages.length)
    (hcomponents : parser'.view.components.length = parser.view.components.length)
    (htargets : parser'.view.targets.map (fun target ↦ target.files.length) =
      parser.view.targets.map fun target ↦ target.files.length) : parser'.place = parser.place := by
  have hcount : parser'.view.targets.length = parser.view.targets.length := by
    simpa using congrArg List.length htargets
  simp only [Parser.place, Parser.table, hsection, hpackages, hcomponents, hcount,
    ← List.getLast?_map, htargets]

theorem getElem?_concat_last {α : Type} (front : List α) (last : α) :
    (front ++ [last])[(front ++ [last]).length - 1]? = some last := by
  simp

theorem parseField_assigned (hopen : parser.FileInTarget)
    (h : parser.parseField U limits value byteOffset key = .ok parser') :
    Assigned value byteOffset key parser parser' := by
  unfold Parser.parseField at h
  split at h
  · rename_i hsection
    obtain ⟨root, stringBytes, rfl, hkept, hread⟩ := parseRootField_eq_ok h
    have htable : parser.table = .root := by rw [Parser.table, hsection]
    refine ⟨fun table ↦ ?_, rfl, hopen, ?_⟩
    · cases table with
      | root => exact hkept
      | _ => exact .refl _
    · rw [htable]
      exact hread
  · rename_i hsection
    obtain ⟨compatibility, stringBytes, rfl, hkept, hread⟩ := parseCompatibilityField_eq_ok h
    have htable : parser.table = .compatibility := by rw [Parser.table, hsection]
    refine ⟨fun table ↦ ?_, rfl, hopen, ?_⟩
    · cases table with
      | compatibility => exact hkept
      | _ => exact .refl _
    · rw [htable]
      exact hread
  · rename_i hsection
    obtain ⟨builder, builder', stringBytes, hcurrent, hparser, hkept, hread⟩ :=
      parseStandardLibraryPackageField_eq_ok h
    have hview : parser'.view = { parser.view with
        packages := parser.standardLibraryPackages.map .of ++ [builder'] } := by
      subst hparser
      rfl
    have hpackages : parser.view.packages =
        parser.standardLibraryPackages.map .of ++ [builder] := by
      simp only [Parser.view, hcurrent, Option.toList_some]
    have htable : parser.table = .package (parser.view.packages.length - 1) := by
      rw [Parser.table, hsection]
    refine ⟨fun table ↦ ?_, ?_, by rw [hparser]; exact hopen, fun hkey ↦ ?_⟩
    · rw [hview]
      cases table with
      | package index =>
        intro key value hfield
        simp only [View.field, hpackages] at hfield ⊢
        exact FieldsKept.concat _ hkept index key value hfield
      | _ => exact .refl _
    · refine place_eq_place (by rw [hparser]) ?_ (by rw [hview]) (by rw [hview])
      simp [hview, hpackages]
    · rw [htable] at hkey ⊢
      have hlast := getElem?_concat_last (parser.standardLibraryPackages.map .of) builder'
      simp only [View.field, hview, hpackages, length_append, length_cons] at hlast ⊢
      rw [hlast]
      exact hread hkey
  · rename_i hsection
    obtain ⟨builder, builder', stringBytes, hcurrent, hparser, hkept, hread⟩ :=
      parseComponentField_eq_ok h
    have hview : parser'.view = { parser.view with
        components := parser.components.map .of ++ [builder'] } := by
      subst hparser
      rfl
    have hcomponents : parser.view.components = parser.components.map .of ++ [builder] := by
      simp only [Parser.view, hcurrent, Option.toList_some]
    have htable : parser.table = .component (parser.view.components.length - 1) := by
      rw [Parser.table, hsection]
    refine ⟨fun table ↦ ?_, ?_, by rw [hparser]; exact hopen, fun hkey ↦ ?_⟩
    · rw [hview]
      cases table with
      | component index =>
        intro key value hfield
        simp only [View.field, hcomponents] at hfield ⊢
        exact FieldsKept.concat _ hkept index key value hfield
      | _ => exact .refl _
    · refine place_eq_place (by rw [hparser]) (by rw [hview]) ?_ (by rw [hview])
      simp [hview, hcomponents]
    · rw [htable] at hkey ⊢
      have hlast := getElem?_concat_last (parser.components.map .of) builder'
      simp only [View.field, hview, hcomponents, length_append, length_cons] at hlast ⊢
      rw [hlast]
      exact hread hkey
  · rename_i hsection
    obtain ⟨builder, builder', stringBytes, hcurrent, hparser, hkept, hfiles, hread⟩ :=
      parseTargetField_eq_ok h
    have hview : parser'.view = { parser.view with
        targets := parser.targets.map ShippedTarget.view ++
          [⟨{ builder' with files := [] }, (parser.openTarget builder).files⟩] } := by
      subst hparser
      rw [Parser.openTarget, ← hfiles]
      rfl
    have htargets : parser.view.targets =
        parser.targets.map ShippedTarget.view ++ [parser.openTarget builder] := by
      simp only [Parser.view, hcurrent, Option.map_some, Option.toList_some]
    have htable : parser.table = .target (parser.view.targets.length - 1) := by
      rw [Parser.table, hsection]
    refine ⟨?_, ?_, by rw [hparser]; exact fun _ ↦ rfl, fun hkey ↦ ?_⟩
    · rw [hview]
      exact .lastTarget htargets hkept fun index ↦ .refl _
    · refine place_eq_place (by rw [hparser]) (by rw [hview]) (by rw [hview]) ?_
      simp [hview, htargets]
    · rw [htable] at hkey ⊢
      have hlast := getElem?_concat_last (parser.targets.map ShippedTarget.view)
        ⟨{ builder' with files := [] }, (parser.openTarget builder).files⟩
      simp only [View.field, hview, htargets, length_append, length_cons] at hlast ⊢
      rw [hlast]
      exact hread hkey
  · rename_i hsection
    obtain ⟨builder, builder', stringBytes, hcurrent, hparser, hkept, hread⟩ :=
      parseTargetFileField_eq_ok h
    obtain ⟨target, htarget⟩ := Option.isSome_iff_exists.1 (hopen (by rw [hcurrent]; rfl))
    have hview : parser'.view = { parser.view with
        targets := parser.targets.map ShippedTarget.view ++
          [⟨{ target with files := [] }, target.files.map .of ++ [builder']⟩] } := by
      subst hparser
      simp only [Parser.view, Parser.openTarget, htarget, Option.map_some, Option.toList_some]
    have htargets : parser.view.targets = parser.targets.map ShippedTarget.view ++
        [⟨{ target with files := [] }, target.files.map .of ++ [builder]⟩] := by
      simp only [Parser.view, Parser.openTarget, htarget, hcurrent, Option.map_some,
        Option.toList_some]
    have hindex : (target.files.map TargetFileBuilder.of ++ [builder']).length - 1 =
        (target.files.map TargetFileBuilder.of ++ [builder]).length - 1 := by simp
    have htable : parser.table = .targetFile (parser.view.targets.length - 1)
        ((target.files.map TargetFileBuilder.of ++ [builder']).length - 1) := by
      rw [hindex, Parser.table, hsection, htargets, List.getLast?_concat]
      rfl
    refine ⟨?_, ?_, by rw [hparser]; exact fun _ ↦ by rw [htarget]; rfl, fun hkey ↦ ?_⟩
    · rw [hview]
      exact .lastTarget htargets (.refl _) fun index ↦ .concat _ hkept index
    · refine place_eq_place (by rw [hparser]) (by rw [hview]) (by rw [hview]) ?_
      simp [hview, htargets]
    · rw [htable] at hkey ⊢
      have hlast := getElem?_concat_last (parser.targets.map ShippedTarget.view)
        ⟨{ target with files := [] }, target.files.map .of ++ [builder']⟩
      have hfile := getElem?_concat_last (target.files.map .of) builder'
      simp only [View.field, hview, htargets, length_append, length_cons] at hlast hfile ⊢
      simp only [hlast, Option.bind_some, TargetView.fileField, hfile]
      exact hread hkey

end Setting

end Wrela.Toolchain
