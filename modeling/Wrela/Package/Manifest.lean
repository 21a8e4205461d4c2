import Wrela.Source.Database
import Mathlib.Data.List.Sort
import Wrela.Graph.Search

/-!
# Package names, identities and module paths

The spellings a package graph is made of, each with its check, and the order in which the graph
lists them.
-/

namespace Wrela.Package

open Wrela.Source Wrela.BuildModel Wrela.Checked

/-- The keywords of revision 0.1. -/
def revision01Keywords : List String := [
  "module", "pub", "import", "from", "as", "const", "brand", "fn", "async", "isr", "comptime",
  "struct", "class", "enum", "iface", "impl", "for", "projection", "scope", "implements", "region",
  "view", "mut", "iso", "read", "take", "self", "if", "elif", "else", "match", "case", "bind", "in",
  "not", "while", "loop", "with", "enter", "abort", "exit", "shadow", "return", "break", "continue",
  "pass", "assert", "send", "try", "yield", "await", "copy", "race", "true", "false", "unit", "or",
  "and", "is"]

/-- Default-ignorable and bidirectional format controls, as inclusive ranges. -/
def forbiddenIdentifierCodePointRanges : List (ℕ × ℕ) := [
  (0x00ad, 0x00ad), (0x034f, 0x034f), (0x061c, 0x061c), (0x115f, 0x1160), (0x17b4, 0x17b5),
  (0x180b, 0x180f), (0x200b, 0x200f), (0x202a, 0x202e), (0x2060, 0x206f), (0x3164, 0x3164),
  (0xfe00, 0xfe0f), (0xfeff, 0xfeff), (0xffa0, 0xffa0), (0xfff0, 0xfff8), (0x1bca0, 0x1bca3),
  (0x1d173, 0x1d17a), (0xe0000, 0xe0fff)]

def isForbiddenIdentifierCharacter (character : Char) : Bool :=
  forbiddenIdentifierCodePointRanges.any fun range ↦
    decide (range.1 ≤ character.toNat ∧ character.toNat ≤ range.2)

/-- Why a spelling is refused. -/
inductive NameError where
  | empty
  | tooLong
  | wildcard
  | notNfc
  | keyword
  | formatControl (character : Char)
  | notXidStart (character : Char)
  | notXidContinue (character : Char)
  | forbiddenCharacter (character : Char)
deriving DecidableEq

def validateSourceIdentifier (U : Unicode) (value : String) : Except NameError Unit :=
  match value.toList with
  | [] => .error .empty
  | first :: rest =>
    if byteLength value > 255 then .error .tooLong
    else if value == "_" then .error .wildcard
    else if !U.isNfc value then .error .notNfc
    else if revision01Keywords.contains value then .error .keyword
    else if let some character := (first :: rest).find? isForbiddenIdentifierCharacter then
      .error (.formatControl character)
    else if !U.isXidStart first then .error (.notXidStart first)
    else if let some character := rest.find? fun character ↦ !U.isXidContinue character then
      .error (.notXidContinue character)
    else .ok ()

def isValidSourceIdentifier (U : Unicode) (value : String) : Bool :=
  (validateSourceIdentifier U value).isOk

/-- The atoms of names and versions; only versions may hold a dot. -/
def validateAtom (U : Unicode) (allowDot : Bool) (value : String) : Except NameError Unit :=
  if value.isEmpty then .error .empty
  else if byteLength value > 255 then .error .tooLong
  else if !U.isNfc value then .error .notNfc
  else if let some character := value.toList.find? fun character ↦
      isControl character || isWhitespace character || "/\\:".toList.contains character ||
        (!allowDot && character == '.') then
    .error (.forbiddenCharacter character)
  else .ok ()

def validateNameComponent (U : Unicode) (value : String) : Except NameError Unit :=
  validateAtom U false value

def validateVersion (U : Unicode) (value : String) : Except NameError Unit :=
  validateAtom U true value

structure PackageName where
  text : String
deriving DecidableEq

structure PackageVersion where
  text : String
deriving DecidableEq

/-- The source-facing name of one dependency edge. -/
structure DependencyAlias where
  text : String
deriving DecidableEq

/-- The segments of a dot-separated module path. -/
structure ModulePath where
  segments : List String
deriving DecidableEq

structure PackageIdentity where
  name : PackageName
  version : PackageVersion
  sourceDigest : Sha256Digest
deriving DecidableEq

inductive PackageLocator where
  | workspace (path : String)
  | archive (provider key : String)
  | toolchain (component : String)
deriving DecidableEq

def PackageName.new (U : Unicode) (value : String) : Except NameError PackageName :=
  (validateNameComponent U value).map fun _ ↦ ⟨value⟩

def PackageVersion.new (U : Unicode) (value : String) : Except NameError PackageVersion :=
  (validateVersion U value).map fun _ ↦ ⟨value⟩

inductive ModulePathError where
  | emptyModulePath
  | invalidModuleSegment (reason : NameError)
deriving DecidableEq

def ModulePath.new (U : Unicode) (segments : List String) : Except ModulePathError ModulePath :=
  if segments.isEmpty then .error .emptyModulePath
  else
    ((forAll (validateSourceIdentifier U) segments).mapError .invalidModuleSegment).map fun _ ↦
      ⟨segments⟩

/-- The source file of a module beneath its package's source root. -/
def ModulePath.expectedSourcePath (path : ModulePath) : String :=
  "/".intercalate path.segments ++ ".wr"

def ModulePath.portableKey (path : ModulePath) : List String := path.segments.map toAsciiLowercase

/-- Names, then versions, then digests, each by its bytes. -/
def PackageIdentity.key (identity : PackageIdentity) :
    List UInt8 ×ₗ List UInt8 ×ₗ List UInt8 :=
  toLex (Wire.utf8Bytes identity.name.text,
    toLex (Wire.utf8Bytes identity.version.text, identity.sourceDigest.bytes))

def ModulePath.key (path : ModulePath) : List (List UInt8) := path.segments.map Wire.utf8Bytes

def DependencyAlias.key (name : DependencyAlias) : List UInt8 := Wire.utf8Bytes name.text

theorem PackageIdentity.key_injective : Function.Injective PackageIdentity.key := by
  rintro ⟨⟨name⟩, ⟨version⟩, ⟨digest, hdigest⟩⟩ ⟨⟨name'⟩, ⟨version'⟩, ⟨digest', hdigest'⟩⟩ h
  simp only [PackageIdentity.key, EmbeddingLike.apply_eq_iff_eq, Prod.mk.injEq] at h
  obtain ⟨hname, hversion, rfl⟩ := h
  rw [Wire.utf8Bytes_injective hname, Wire.utf8Bytes_injective hversion]

theorem ModulePath.key_injective : Function.Injective ModulePath.key := by
  rintro ⟨segments⟩ ⟨segments'⟩ h
  exact congrArg _ (List.map_injective_iff.2 (fun _ _ ↦ Wire.utf8Bytes_injective) h)

theorem DependencyAlias.key_injective : Function.Injective DependencyAlias.key := by
  rintro ⟨text⟩ ⟨text'⟩ h
  exact congrArg _ (Wire.utf8Bytes_injective h)

end Wrela.Package

/-!
## Package manifests

The decoded `wrela.toml` of one package and the checks it must pass before anything else is read.
-/

namespace Wrela.Package

open Wrela.Source Wrela.BuildModel Wrela.Checked

def manifestSchemaVersion : UInt32 := 1

/-- A project-controlled value as an error reports it: at most 256 bytes, with a mark where it was
cut at a character boundary. -/
def boundedErrorValue (value : String) : String :=
  if byteLength value ≤ 256 then value
  else
    let fits := (List.range (value.toList.length + 1)).filter fun count ↦
      byteLength (String.ofList (value.toList.take count)) ≤ 253
    String.ofList (value.toList.take (fits.getLastD 0)) ++ "…"

structure ManifestDependency where
  name : DependencyAlias
  package : PackageName
  requirement : String
deriving DecidableEq

structure ImageDeclaration where
  name : String
  module : ModulePath
  entry : String
  target : TargetIdentity
  profile : String
deriving DecidableEq

structure ImageTestDeclaration where
  name : String
  image : String
  scenario : String
  bootTimeoutNs : UInt64
  shutdownTimeoutNs : UInt64
  maximumEvents : UInt32
  maximumOutputBytes : UInt64
  deterministicSeed : Option UInt64
deriving DecidableEq

structure PackageManifest where
  schema : UInt32
  language : LanguageRevision
  name : PackageName
  version : PackageVersion
  sourceRoot : String
  dependencies : List ManifestDependency
  profiles : List BuildProfile
  images : List ImageDeclaration
  imageTests : List ImageTestDeclaration
deriving DecidableEq

inductive ManifestError where
  | unsupportedManifestSchema (schema : UInt32)
  | nonCanonicalOrder (kind : String)
  | invalidSourcePath (path : String)
  | invalidDependencyRequirement (name : String)
  | tooManyDependencies
  | invalidProfile (error : ProfileError)
  | invalidSourceIdentifier (kind value : String)
  | invalidAtom (kind value : String)
  | unknownImageProfile (image profile : String)
  | unsupportedImageTarget (image target : String)
  | invalidTestLimits (name : String)
  | unknownTestImage (image : String)
deriving DecidableEq

/-- Exact requirements only: an equals sign and one version. -/
def exactRequirementVersion (U : Unicode) (requirement : String) : Option PackageVersion :=
  match requirement.toList with
  | '=' :: version =>
    if version.isEmpty || version.head? == some '=' then none
    else (PackageVersion.new U (String.ofList version)).toOption
  | _ => none

/-- Texts strictly increase by their bytes. -/
def requireStrictOrder (values : List String) (kind : String) : Except ManifestError Unit :=
  if values.map Wire.utf8Bytes |>.IsChain (· < ·) then .ok () else .error (.nonCanonicalOrder kind)

def validateManifestPath (U : Unicode) (path : String) : Except ManifestError Unit :=
  if path.isEmpty || decide (byteLength path > 4096) || !U.isNfc path || !isPortableRelative path then
    .error (.invalidSourcePath (boundedErrorValue path))
  else .ok ()

def validateDeclaredAtom (U : Unicode) (value kind : String) : Except ManifestError Unit :=
  if value.isEmpty || decide (byteLength value > 4096) || !U.isNfc value ||
      (value.toList.any fun character ↦ isControl character || isWhitespace character) then
    .error (.invalidAtom kind (boundedErrorValue value))
  else .ok ()

def validateManifestSourceIdentifier (U : Unicode) (value kind : String) :
    Except ManifestError Unit :=
  (validateSourceIdentifier U value).mapError fun _ ↦
    .invalidSourceIdentifier kind (boundedErrorValue value)

/-- The dot alone names the package at the workspace root. -/
def validateLocator (U : Unicode) : PackageLocator → Except ManifestError Unit
  | .workspace path => if path == "." then .ok () else validateManifestPath U path
  | .archive provider key => do
    validateDeclaredAtom U provider "package provider"
    validateDeclaredAtom U key "package key"
  | .toolchain component => validateDeclaredAtom U component "toolchain component"

def aarch64QemuVirtUefi : TargetIdentity :=
  ⟨"aarch64-qemu-virt-uefi", validateAtom_aarch64QemuVirtUefi⟩

def validateDependency (U : Unicode) (dependency : ManifestDependency) :
    Except ManifestError Unit :=
  if (exactRequirementVersion U dependency.requirement).isNone then
    .error (.invalidDependencyRequirement (boundedErrorValue dependency.name.text))
  else .ok ()

def validateProfile (U : Unicode) (profile : BuildProfile) : Except ManifestError Unit := do
  validateDeclaredAtom U profile.name "profile name"
  profile.validate.mapError .invalidProfile

def validateImage (U : Unicode) (profileNames : List String) (image : ImageDeclaration) :
    Except ManifestError Unit := do
  validateDeclaredAtom U image.name "image name"
  validateManifestSourceIdentifier U image.entry "image entry"
  validateDeclaredAtom U image.profile "profile name"
  if image.target ≠ aarch64QemuVirtUefi then
    .error (.unsupportedImageTarget (boundedErrorValue image.name)
      (boundedErrorValue image.target.name))
  else if !profileNames.contains image.profile then
    .error (.unknownImageProfile (boundedErrorValue image.name) (boundedErrorValue image.profile))
  else .ok ()

def validateImageTest (U : Unicode) (imageNames : List String) (test : ImageTestDeclaration) :
    Except ManifestError Unit := do
  validateDeclaredAtom U test.name "image test name"
  validateManifestPath U test.scenario
  if test.bootTimeoutNs == 0 || test.shutdownTimeoutNs == 0 || test.maximumEvents == 0 ||
      test.maximumOutputBytes == 0 then
    .error (.invalidTestLimits (boundedErrorValue test.name))
  else if !imageNames.contains test.image then
    .error (.unknownTestImage (boundedErrorValue test.image))
  else .ok ()

/-- Canonical order and cross-references after decoding. -/
def PackageManifest.validate (U : Unicode) (manifest : PackageManifest) :
    Except ManifestError Unit := do
  if manifest.schema ≠ manifestSchemaVersion then
    .error (.unsupportedManifestSchema manifest.schema)
  else
    validateManifestPath U manifest.sourceRoot
    requireStrictOrder (manifest.profiles.map (·.name)) "build profile"
    requireStrictOrder (manifest.dependencies.map (·.name.text)) "dependency alias"
    requireStrictOrder (manifest.images.map (·.name)) "image"
    requireStrictOrder (manifest.imageTests.map (·.name)) "image test"
    if manifest.dependencies.length > 65536 then .error .tooManyDependencies
    else
      forAll (validateDependency U) manifest.dependencies
      forAll (validateProfile U) manifest.profiles
      forAll (validateImage U (manifest.profiles.map (·.name))) manifest.images
      forAll (validateImageTest U (manifest.images.map (·.name))) manifest.imageTests

/-! ## Package graph construction -/

def maxPackages : ℕ := 1000000

def maxModules : ℕ := 1000000

def maxDependenciesPerPackage : ℕ := 65536

@[ext]
structure PackageId where
  val : ℕ
deriving DecidableEq

structure ModuleId where
  val : ℕ
deriving DecidableEq

/-- A package while the graph is under construction: its position in order of discovery. -/
@[ext]
structure PackageHandle where
  index : ℕ
deriving DecidableEq

structure ModuleHandle where
  index : ℕ

structure DependencyEdge where
  name : DependencyAlias
  package : PackageId
deriving DecidableEq

structure PackageRecord where
  id : PackageId
  identity : PackageIdentity
  dependencies : List DependencyEdge
deriving DecidableEq

structure ModuleRecord where
  id : ModuleId
  package : PackageId
  path : ModulePath
  source : FileId
deriving DecidableEq

structure PackageGraph where
  root : PackageId
  packages : List PackageRecord
  modules : List ModuleRecord
deriving DecidableEq

def PackageGraph.package (graph : PackageGraph) (id : PackageId) : Option PackageRecord :=
  graph.packages[id.val]?

inductive GraphError where
  | duplicatePackage (identity : PackageIdentity)
  | unknownPackage (package : PackageHandle)
  | selfDependency (package : PackageHandle)
  | duplicateDependencyAlias (package : PackageHandle) (name : DependencyAlias)
  | duplicateDependencyPackage (package dependency : PackageHandle)
  | duplicateModule (package : PackageHandle) (path : ModulePath)
  | portableModuleCollision (package : PackageHandle) (path : ModulePath)
  | duplicateModuleSource (source : FileId)
  | dependencyCycle (package : PackageHandle)
  | unreachablePackage (package : PackageHandle)
  | tooManyDependencies (package : PackageHandle)
  | graphTooLarge
deriving DecidableEq

structure PendingDependency where
  name : DependencyAlias
  package : PackageHandle

structure PendingPackage where
  identity : PackageIdentity
  dependencies : List PendingDependency
  dependencyAliases : Finset String
  dependencyPackages : Finset PackageHandle

structure PendingModule where
  package : PackageHandle
  path : ModulePath
  source : FileId

structure PackageGraphBuilder where
  root : PackageHandle
  packages : List PendingPackage
  modules : List PendingModule
  identities : Finset PackageIdentity
  modulePaths : Finset (PackageHandle × ModulePath)
  portableModulePaths : Finset (PackageHandle × List String)
  moduleSources : Finset FileId

namespace PackageGraphBuilder

def pending (identity : PackageIdentity) : PendingPackage := ⟨identity, [], ∅, ∅⟩

def new (rootIdentity : PackageIdentity) : PackageGraphBuilder where
  root := ⟨0⟩
  packages := [pending rootIdentity]
  modules := []
  identities := {rootIdentity}
  modulePaths := ∅
  portableModulePaths := ∅
  moduleSources := ∅

def packageIndex (builder : PackageGraphBuilder) (handle : PackageHandle) : Option ℕ :=
  if handle.index < builder.packages.length then some handle.index else none

/-- The result of an addition together with the builder it leaves. -/
abbrev Outcome (α : Type) := Except GraphError α × PackageGraphBuilder

def addPackage (builder : PackageGraphBuilder) (identity : PackageIdentity) :
    Outcome PackageHandle :=
  if maxPackages ≤ builder.packages.length then (.error .graphTooLarge, builder)
  else if identity ∈ builder.identities then (.error (.duplicatePackage identity), builder)
  else
    let builder := { builder with identities := insert identity builder.identities }
    if 2 ^ 32 ≤ builder.packages.length then (.error .graphTooLarge, builder)
    else
      (.ok ⟨builder.packages.length⟩,
        { builder with packages := builder.packages ++ [pending identity] })

def addDependency (builder : PackageGraphBuilder) (package : PackageHandle)
    (name : DependencyAlias) (dependency : PackageHandle) : Outcome Unit :=
  if package = dependency then (.error (.selfDependency package), builder)
  else if (builder.packageIndex package).isNone then (.error (.unknownPackage package), builder)
  else if (builder.packageIndex dependency).isNone then
    (.error (.unknownPackage dependency), builder)
  else
    match builder.packages[package.index]? with
    | none => (.error (.unknownPackage package), builder)
    | some pending =>
      let portableAlias := toAsciiLowercase name.text
      if portableAlias ∈ pending.dependencyAliases then
        (.error (.duplicateDependencyAlias package name), builder)
      else if dependency ∈ pending.dependencyPackages then
        (.error (.duplicateDependencyPackage package dependency), builder)
      else if maxDependenciesPerPackage ≤ pending.dependencies.length then
        (.error (.tooManyDependencies package), builder)
      else
        let pending := { pending with
          dependencyAliases := insert portableAlias pending.dependencyAliases
          dependencyPackages := insert dependency pending.dependencyPackages
          dependencies := pending.dependencies ++ [⟨name, dependency⟩] }
        (.ok (), { builder with packages := builder.packages.set package.index pending })

def addModule (builder : PackageGraphBuilder) (package : PackageHandle) (path : ModulePath)
    (source : FileId) : Outcome ModuleHandle :=
  if maxModules ≤ builder.modules.length then (.error .graphTooLarge, builder)
  else if (builder.packageIndex package).isNone then (.error (.unknownPackage package), builder)
  else if (package, path) ∈ builder.modulePaths then
    (.error (.duplicateModule package path), builder)
  else if (package, path.portableKey) ∈ builder.portableModulePaths then
    (.error (.portableModuleCollision package path), builder)
  else if source ∈ builder.moduleSources then (.error (.duplicateModuleSource source), builder)
  else
    let builder := { builder with moduleSources := insert source builder.moduleSources }
    if 2 ^ 32 ≤ builder.modules.length then (.error .graphTooLarge, builder)
    else
      (.ok ⟨builder.modules.length⟩,
        { builder with
          modules := builder.modules ++ [⟨package, path, source⟩]
          modulePaths := insert (package, path) builder.modulePaths
          portableModulePaths := insert (package, path.portableKey) builder.portableModulePaths })

end PackageGraphBuilder

/-- The packages one package depends on, in the order they were added. -/
def successors (packages : List PendingPackage) (index : ℕ) : List ℕ :=
  match packages[index]? with
  | none => []
  | some package => package.dependencies.map fun dependency ↦ dependency.package.index

def rejectDependencyCycles (packages : List PendingPackage) : Except GraphError Unit :=
  let next := successors packages
  let size := packages.length
  let (remaining, completed) := Graph.settle next size size
    (Graph.initialRemaining next size) (Graph.initialReady next size) 0
  if completed != size then
    .error (.dependencyCycle ⟨(remaining.findIdx? (· != 0)).getD 0⟩)
  else .ok ()

def rejectUnreachablePackages (packages : List PendingPackage) (root : PackageHandle) :
    Except GraphError Unit :=
  let size := packages.length
  let reachable := Graph.explore (successors packages) size
    ((List.replicate size false).set root.index true) [root.index]
  match reachable.findIdx? (! ·) with
  | some index => .error (.unreachablePackage ⟨index⟩)
  | none => .ok ()

namespace PackageGraphBuilder

variable (builder : PackageGraphBuilder)

/-- The key of the package at one position; positions outside the builder are not asked for. -/
def identityKey (index : ℕ) : List UInt8 ×ₗ List UInt8 ×ₗ List UInt8 :=
  match builder.packages[index]? with
  | none => toLex ([], toLex ([], []))
  | some package => package.identity.key

/-- The root, then every other package by its complete identity. -/
def order : List ℕ :=
  0 :: (List.range' 1 (builder.packages.length - 1)).insertionSort fun left right ↦
    builder.identityKey left ≤ builder.identityKey right

/-- The final id of every position. -/
def finalIds (order : List ℕ) (size : ℕ) : List PackageId :=
  order.zipIdx.foldl (fun ids entry ↦ ids.set entry.1 ⟨entry.2⟩) (List.replicate size ⟨0⟩)

def finalId (ids : List PackageId) (handle : PackageHandle) : PackageId := ids.getD handle.index ⟨0⟩

def finishDependencies (ids : List PackageId) (dependencies : List PendingDependency) :
    List DependencyEdge :=
  (dependencies.map fun edge ↦ ⟨edge.name, finalId ids edge.package⟩).insertionSort
    fun left right ↦ left.name.key ≤ right.name.key

def finishPackages (ids : List PackageId) (order : List ℕ) : List PackageRecord :=
  order.filterMap fun index ↦ builder.packages[index]?.map fun package ↦
    ⟨ids.getD index ⟨0⟩, package.identity, finishDependencies ids package.dependencies⟩

/-- Modules by the final id of their package and then by path. -/
def moduleKey (ids : List PackageId) (module : PendingModule) : ℕ ×ₗ List (List UInt8) :=
  toLex ((finalId ids module.package).val, module.path.key)

def finishModules (ids : List PackageId) : List ModuleRecord :=
  (builder.modules.insertionSort fun left right ↦ moduleKey ids left ≤ moduleKey ids right).mapIdx
    fun index module ↦ ⟨⟨index⟩, finalId ids module.package, module.path, module.source⟩

def finish : Except GraphError PackageGraph := do
  rejectDependencyCycles builder.packages
  rejectUnreachablePackages builder.packages builder.root
  let order := builder.order
  let ids := finalIds order builder.packages.length
  .ok ⟨⟨0⟩, builder.finishPackages ids order, builder.finishModules ids⟩

end PackageGraphBuilder

end Wrela.Package
