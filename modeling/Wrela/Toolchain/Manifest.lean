import Wrela.Package.Manifest

/-!
# The toolchain manifest

What an installation says it is made of: its release and host, the versions its parts agree on, the
packages of the standard library, the components and the targets, each with its digest and size.
-/

namespace Wrela.Toolchain

open Wrela.Source Wrela.BuildModel Wrela.Package Wrela.Checked

def toolchainManifestSchema : UInt32 := 1

def maxStandardLibraryPackages : ℕ := 4096

/-- The versions that the parts of one distribution agree on. -/
inductive CompatibilityNumber where
  | buildProfileEncoding | backendProtocol | targetPackage | semanticWir | flowWir | flowWirWire
  | machineWir | runtimeAbi | imageReport | testPlan | testReport | imageScenario | testEvent
  | testFrame
deriving DecidableEq

namespace CompatibilityNumber

def all : List CompatibilityNumber := [
  buildProfileEncoding, backendProtocol, targetPackage, semanticWir, flowWir, flowWirWire,
  machineWir, runtimeAbi, imageReport, testPlan, testReport, imageScenario, testEvent, testFrame]

def key : CompatibilityNumber → String
  | buildProfileEncoding => "build_profile_encoding"
  | backendProtocol => "backend_protocol"
  | targetPackage => "target_package"
  | semanticWir => "semantic_wir"
  | flowWir => "flow_wir"
  | flowWirWire => "flow_wir_wire"
  | machineWir => "machine_wir"
  | runtimeAbi => "runtime_abi"
  | imageReport => "image_report"
  | testPlan => "test_plan"
  | testReport => "test_report"
  | imageScenario => "image_scenario"
  | testEvent => "test_event"
  | testFrame => "test_frame"

def ofKey (key : String) : Option CompatibilityNumber := all.find? fun number ↦ number.key == key

theorem ofKey_key (number : CompatibilityNumber) : ofKey number.key = some number := by
  cases number <;> decide

theorem mem_all (number : CompatibilityNumber) : number ∈ all := by cases number <;> decide

instance : Fintype CompatibilityNumber := Fintype.ofList all mem_all

end CompatibilityNumber

structure ToolchainCompatibility where
  language : LanguageRevision
  numbers : CompatibilityNumber → UInt32
deriving DecidableEq

structure ToolchainDecodeLimits where
  bytes : UInt64
  stringBytes : UInt32
  components : UInt32
  targets : UInt32
  targetFiles : UInt32
  standardLibraryPackages : UInt32

def ToolchainDecodeLimits.standard : ToolchainDecodeLimits where
  bytes := 16 * 1024 * 1024
  stringBytes := 1024 * 1024
  components := 1024
  targets := 1024
  targetFiles := 16384
  standardLibraryPackages := 4096

/-- Why a release, a host or a revision is refused. -/
inductive AtomError where
  | empty
  | tooLong
  | forbidden (character : Char)
deriving DecidableEq

inductive ManifestError where
  | unsupportedSchema (schema : UInt32)
  | invalidField (field : String) (reason : AtomError)
  | invalidComponentPath (path : String)
  | incompatibleVersion (installed required : ToolchainCompatibility)
  | missingOrDuplicateComponent
  | invalidStandardLibraryPackages
  | nonCanonicalComponents
  | missingOrUnexpectedTarget
  | nonCanonicalTargets
  | invalidComponentMeasurement
  | unexpectedComponentLayout
  | invalidTargetFiles
deriving DecidableEq

inductive ToolchainDecodeError where
  | invalidLimits
  | tooLarge (limit : UInt64) (actual : ℕ)
  | invalidUtf8
  | malformed (byteOffset : ℕ) (message : String)
  | missingField (field : String)
  | duplicateKey (key : String)
  | unknownField (field : String)
  | nonCanonical
  | resourceLimit (resource : String) (limit : UInt32)
  | invalidManifest (error : ManifestError)
deriving DecidableEq

def ToolchainDecodeLimits.validate (limits : ToolchainDecodeLimits) :
    Except ToolchainDecodeError Unit :=
  let hard := standard
  failIf (limits.bytes == 0 || limits.stringBytes == 0 || limits.components == 0 ||
    limits.targets == 0 || limits.targetFiles == 0 || limits.standardLibraryPackages == 0 ||
    decide (limits.bytes > hard.bytes) || decide (limits.stringBytes > hard.stringBytes) ||
    decide (limits.components > hard.components) || decide (limits.targets > hard.targets) ||
    decide (limits.targetFiles > hard.targetFiles) ||
    decide (limits.standardLibraryPackages > hard.standardLibraryPackages)) .invalidLimits

def validateRelativePath (value : String) : Bool :=
  !(value.isEmpty || decide (byteLength value > 4096) || startsWith value '/' ||
    startsWith value '\\' ||
    (value.toList.any fun character ↦ character == '\\' || character == ':') ||
    (splitText '/' value).any fun component ↦
      component.isEmpty || component == "." || component == "..")

/-- A portable path relative to the root of the toolchain. -/
structure ComponentPath where
  text : String
  valid : validateRelativePath text = true

def ComponentPath.new (value : String) : Except ManifestError ComponentPath :=
  if h : validateRelativePath value = true then .ok ⟨value, h⟩
  else .error (.invalidComponentPath value)

theorem ComponentPath.new_text (path : ComponentPath) : ComponentPath.new path.text = .ok path :=
  dif_pos path.valid

theorem ComponentPath.text_of_new (h : ComponentPath.new value = .ok path) : path.text = value := by
  unfold ComponentPath.new at h
  split at h
  · cases h
    rfl
  · cases h

def ComponentPath.key (path : ComponentPath) : List UInt8 := Wire.utf8Bytes path.text

def isWindowsReservedComponent (value : String) : Bool :=
  let basename := toAsciiLowercase ((splitText '.' value).headD value)
  ["con", "prn", "aux", "nul"].contains basename ||
    match basename.toList with
    | [first, second, third, digit] =>
      (["com", "lpt"].contains (String.ofList [first, second, third])) &&
        decide ('1' ≤ digit ∧ digit ≤ '9')
    | _ => false

def validateStandardLibraryComponent (value : String) : Except ManifestError Unit :=
  failIf (value.isEmpty || decide (byteLength value > 255) || value == "." || value == ".." ||
    value.toList.getLast? == some '.' ||
    !(value.toList.all fun character ↦
      character.isAlphanum || character == '.' || character == '_' || character == '-') ||
    isWindowsReservedComponent value) (.invalidComponentPath value)

def validateManifestAtom (value : String) : Except AtomError Unit :=
  if value.isEmpty then .error .empty
  else if byteLength value > 4096 then .error .tooLong
  else
    match value.toList.find? fun character ↦ isControl character || isWhitespace character with
    | some character => .error (.forbidden character)
    | none => .ok ()

def digestIsNonzero (digest : Sha256Digest) : Bool := digest.bytes.any (· != 0)

inductive ComponentKind where
  | frontend | backend | standardLibrary
deriving DecidableEq

def ComponentKind.order : ComponentKind → ℕ
  | .frontend => 0
  | .backend => 1
  | .standardLibrary => 2

structure ShippedComponent where
  kind : ComponentKind
  path : ComponentPath
  digest : Sha256Digest
  bytes : UInt64

structure ShippedTargetFile where
  path : ComponentPath
  digest : Sha256Digest
  bytes : UInt64

structure ShippedTarget where
  identity : TargetIdentity
  path : ComponentPath
  digest : Sha256Digest
  bytes : UInt64
  files : List ShippedTargetFile

structure ShippedStandardLibraryPackage where
  identity : PackageIdentity
  locator : PackageLocator
  manifestDigest : Sha256Digest

structure ToolchainManifest where
  schema : UInt32
  release : String
  host : String
  llvmProjectRevision : String
  compatibility : ToolchainCompatibility
  standardLibraryPackages : List ShippedStandardLibraryPackage
  components : List ShippedComponent
  targets : List ShippedTarget

/-- The names and versions of the packages were made by their constructors. -/
def ToolchainManifest.Admissible (U : Unicode) (manifest : ToolchainManifest) : Prop :=
  ∀ package ∈ manifest.standardLibraryPackages,
    PackageName.new U package.identity.name.text = .ok package.identity.name ∧
      PackageVersion.new U package.identity.version.text = .ok package.identity.version

def toolchainLocatorComponent : PackageLocator → Option String
  | .toolchain component => some component
  | .workspace _ => none
  | .archive _ _ => none

def validStandardLibraryPackage (package : ShippedStandardLibraryPackage) : Bool :=
  (toolchainLocatorComponent package.locator).any fun component ↦
    (validateStandardLibraryComponent component).isOk &&
      digestIsNonzero package.identity.sourceDigest && digestIsNonzero package.manifestDigest

def standardLibraryComponentsAreDuplicated : List ShippedStandardLibraryPackage → Bool
  | [] => false
  | package :: packages =>
    (packages.any fun candidate ↦ toolchainLocatorComponent candidate.locator ==
      toolchainLocatorComponent package.locator) || standardLibraryComponentsAreDuplicated packages

/-- Every two neighbours are in strict order. -/
def strictlyOrdered {α κ : Type} [LT κ] [DecidableLT κ] (key : α → κ) (values : List α) : Bool :=
  (values.zip values.tail).all fun pair ↦ decide (key pair.1 < key pair.2)

def requiredTargetFiles : List String := ["runtime/wrela-runtime-aarch64.obj"]

def expectedComponentPath : ComponentKind → Bool → String
  | .frontend, false => "bin/wrela"
  | .frontend, true => "bin/wrela.exe"
  | .backend, false => "libexec/wrela/wrela-backend"
  | .backend, true => "libexec/wrela/wrela-backend.exe"
  | .standardLibrary, _ => "share/wrela/std"

def ShippedComponent.key (component : ShippedComponent) : ℕ ×ₗ List UInt8 :=
  toLex (component.kind.order, component.path.key)

def ShippedTarget.isInvalid (target : ShippedTarget) : Bool :=
  target.bytes == 0 || !digestIsNonzero target.digest ||
    target.path.text != "share/wrela/targets/aarch64-qemu-virt-uefi" ||
    target.files.length != requiredTargetFiles.length ||
    !strictlyOrdered (fun file ↦ file.path.key) target.files ||
    (target.files.any fun file ↦ file.bytes == 0 || !digestIsNonzero file.digest) ||
    (target.files.zip requiredTargetFiles).any fun (file, required) ↦ file.path.text != required

namespace ToolchainManifest

variable (manifest : ToolchainManifest)

def validateAtoms : Except ManifestError Unit :=
  forAll (fun (field, value) ↦ (validateManifestAtom value).mapError (.invalidField field))
    [("release", manifest.release), ("host", manifest.host),
      ("llvm-project revision", manifest.llvmProjectRevision)]

def validatePackages : Except ManifestError Unit :=
  let packages := manifest.standardLibraryPackages
  failIf (packages.isEmpty || decide (packages.length > maxStandardLibraryPackages) ||
    !strictlyOrdered (fun package ↦ package.identity.key) packages ||
    standardLibraryComponentsAreDuplicated packages ||
    packages.any fun package ↦ !validStandardLibraryPackage package)
    .invalidStandardLibraryPackages

def validateComponents : Except ManifestError Unit := do
  let components := manifest.components
  failIf (components.length != 3) .missingOrDuplicateComponent
  failIf (!strictlyOrdered ShippedComponent.key components) .nonCanonicalComponents
  forAll (fun kind ↦ failIf ((components.countP fun component ↦ component.kind == kind) != 1)
    .missingOrDuplicateComponent) [.frontend, .backend, .standardLibrary]
  failIf (components.any fun component ↦ component.bytes == 0 || !digestIsNonzero component.digest)
    .invalidComponentMeasurement
  let windowsHost := (splitText '-' manifest.host).contains "windows"
  failIf (components.any fun component ↦
    component.path.text != expectedComponentPath component.kind windowsHost)
    .unexpectedComponentLayout

def validateTargets : Except ManifestError Unit := do
  let targets := manifest.targets
  failIf (targets.map (fun target ↦ target.identity.name) != ["aarch64-qemu-virt-uefi"])
    .missingOrUnexpectedTarget
  failIf (!strictlyOrdered (fun target ↦ Wire.utf8Bytes target.identity.name) targets)
    .nonCanonicalTargets
  failIf (targets.any ShippedTarget.isInvalid) .invalidTargetFiles

/-- The manifest is complete, of one release and in canonical order. -/
def validate (required : ToolchainCompatibility) : Except ManifestError Unit := do
  failIf (manifest.schema != toolchainManifestSchema) (.unsupportedSchema manifest.schema)
  manifest.validateAtoms
  failIf (manifest.compatibility != required)
    (.incompatibleVersion manifest.compatibility required)
  manifest.validatePackages
  manifest.validateComponents
  manifest.validateTargets

end ToolchainManifest

end Wrela.Toolchain
