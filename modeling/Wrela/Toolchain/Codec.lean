import Mathlib.Data.List.DropRight
import Wrela.Toolchain.Manifest
import Wrela.Wire.Program

/-!
# The toolchain manifest codec

A manifest is written as a small part of TOML.  The decoder goes through the lines one by one: it
strips the comment, enters a table at a header and sets one field at an assignment.  Tables may only
follow each other in the order the encoder writes them.
-/

namespace Wrela.Toolchain

open Wrela.Source Wrela.BuildModel Wrela.Package Wrela.Wire Wrela.Checked

/-- The bytes that characters take. -/
def textBytes (text : List Char) : ℕ := (encodeChars text).length

def checkByteLimit (actual : ℕ) (limit : UInt64) : Except ToolchainDecodeError Unit :=
  failIf (decide (actual > limit.toNat)) (.tooLarge limit actual)

def checkCountLimit (resource : String) (actual : ℕ) (limit : UInt32) :
    Except ToolchainDecodeError Unit :=
  failIf (decide (actual > limit.toNat)) (.resourceLimit resource limit)

def checkNextCount (resource : String) (current : ℕ) (limit : UInt32) :
    Except ToolchainDecodeError Unit :=
  checkCountLimit resource (current + 1) limit

def malformed (byteOffset : ℕ) (message : String) : ToolchainDecodeError :=
  .malformed byteOffset message

/-! ## Encoding -/

def unicodeEscape (character : Char) : List Char :=
  let value := character.toNat
  let (mark, digits) := if value ≤ 0xffff then ('u', 4) else ('U', 8)
  '\\' :: mark :: (List.range digits).map fun index ↦
    upperHex (value / 16 ^ (digits - index - 1) % 16)

/-- The characters that stand for one character between quotes. -/
def basicEscape (character : Char) : List Char :=
  if character = '"' then ['\\', '"']
  else if character = '\\' then ['\\', '\\']
  else if character = '\x08' then ['\\', 'b']
  else if character = '\t' then ['\\', 't']
  else if character = '\n' then ['\\', 'n']
  else if character = '\x0c' then ['\\', 'f']
  else if character = '\r' then ['\\', 'r']
  else if isControl character then unicodeEscape character
  else [character]

def basicString (value : String) : List Char := '"' :: (value.toList.flatMap basicEscape ++ ['"'])

def digestDigits (digest : Sha256Digest) : List Char :=
  digest.bytes.flatMap fun byte : UInt8 ↦ [lowerHex (byte.toNat / 16), lowerHex (byte.toNat % 16)]

def assignment (key : String) (value : List Char) : List Char :=
  key.toList ++ " = ".toList ++ value ++ ['\n']

def stringAssignment (key value : String) : List Char := assignment key (basicString value)

def integerAssignment (key : String) (value : ℕ) : List Char :=
  assignment key (Nat.toDigits 10 value)

def digestAssignment (key : String) (digest : Sha256Digest) : List Char :=
  assignment key ('"' :: (digestDigits digest ++ ['"']))

def LanguageRevision.asStr : LanguageRevision → String
  | .design01 => "0.1-design"

def componentKindName : ComponentKind → String
  | .frontend => "frontend"
  | .backend => "backend"
  | .standardLibrary => "standard_library"

def writeCompatibility (compatibility : ToolchainCompatibility) : List Char :=
  stringAssignment "language" (LanguageRevision.asStr compatibility.language) ++
    CompatibilityNumber.all.flatMap fun number ↦
      integerAssignment number.key (compatibility.numbers number).toNat

def writePackage (package : ShippedStandardLibraryPackage) :
    Except ToolchainDecodeError (List Char) := do
  let component ← orFail (toolchainLocatorComponent package.locator)
    (.invalidManifest .invalidStandardLibraryPackages)
  pure ("\n[[standard_library_packages]]\n".toList ++
    stringAssignment "name" package.identity.name.text ++
    stringAssignment "version" package.identity.version.text ++
    digestAssignment "source_digest" package.identity.sourceDigest ++
    stringAssignment "component" component ++
    digestAssignment "manifest_digest" package.manifestDigest)

def writeComponent (component : ShippedComponent) : List Char :=
  "\n[[components]]\n".toList ++
    stringAssignment "kind" (componentKindName component.kind) ++
    stringAssignment "path" component.path.text ++ digestAssignment "digest" component.digest ++
    integerAssignment "bytes" component.bytes.toNat

def writeTargetFile (file : ShippedTargetFile) : List Char :=
  "\n[[targets.files]]\n".toList ++
    stringAssignment "path" file.path.text ++ digestAssignment "digest" file.digest ++
    integerAssignment "bytes" file.bytes.toNat

def writeTarget (target : ShippedTarget) : List Char :=
  "\n[[targets]]\n".toList ++
    stringAssignment "identity" target.identity.name ++
    stringAssignment "path" target.path.text ++ digestAssignment "digest" target.digest ++
    integerAssignment "bytes" target.bytes.toNat ++ target.files.flatMap writeTargetFile

def writeManifest (manifest : ToolchainManifest) : Except ToolchainDecodeError (List Char) := do
  let packages ← manifest.standardLibraryPackages.mapM writePackage
  pure (integerAssignment "schema" manifest.schema.toNat ++
    stringAssignment "release" manifest.release ++ stringAssignment "host" manifest.host ++
    stringAssignment "llvm_project_revision" manifest.llvmProjectRevision ++
    "\n[compatibility]\n".toList ++ writeCompatibility manifest.compatibility ++
    packages.flatten ++ manifest.components.flatMap writeComponent ++
    manifest.targets.flatMap writeTarget)

/-- The first text that a package is found by. -/
def locatorText : PackageLocator → String
  | .toolchain component => component
  | .workspace path => path
  | .archive provider _ => provider

def digestBytes : ℕ := 64

/-- How many bytes the strings of a manifest take, one by one. -/
def manifestStringBytes (manifest : ToolchainManifest) : List ℕ :=
  [byteLength manifest.release, byteLength manifest.host, byteLength manifest.llvmProjectRevision,
    byteLength (LanguageRevision.asStr manifest.compatibility.language)] ++
  (manifest.standardLibraryPackages.flatMap fun package ↦
    [byteLength package.identity.name.text, byteLength package.identity.version.text, digestBytes,
      byteLength (locatorText package.locator), digestBytes]) ++
  (manifest.components.flatMap fun component ↦
    [byteLength (componentKindName component.kind), byteLength component.path.text, digestBytes]) ++
  manifest.targets.flatMap fun target ↦
    [byteLength target.identity.name, byteLength target.path.text, digestBytes] ++
      target.files.flatMap fun file ↦ [byteLength file.path.text, digestBytes]

/-- Add amounts up, holding every sum against the limit. -/
def addUp (resource : String) (limit : UInt32) (total : ℕ) (amounts : List ℕ) :
    Except ToolchainDecodeError ℕ :=
  amounts.foldlM (fun total amount ↦ do
    checkCountLimit resource (total + amount) limit
    pure (total + amount)) total

def checkManifestLimits (manifest : ToolchainManifest) (limits : ToolchainDecodeLimits) :
    Except ToolchainDecodeError Unit := do
  checkCountLimit "standard-library packages" manifest.standardLibraryPackages.length
    limits.standardLibraryPackages
  checkCountLimit "components" manifest.components.length limits.components
  checkCountLimit "targets" manifest.targets.length limits.targets
  let _ ← addUp "target files" limits.targetFiles 0
    (manifest.targets.map fun target ↦ target.files.length)
  let _ ← addUp "string bytes" limits.stringBytes 0 (manifestStringBytes manifest)
  pure ()

/-- A first run of the writer measures the text, and a second one writes it. -/
def encodeCanonical (manifest : ToolchainManifest) (limits : ToolchainDecodeLimits) :
    Except ToolchainDecodeError (List UInt8) := do
  limits.validate
  checkManifestLimits manifest limits
  (manifest.validate manifest.compatibility).mapError .invalidManifest
  let counter ← writeManifest manifest
  checkByteLimit (textBytes counter) limits.bytes
  let sink ← writeManifest manifest
  pure (encodeChars sink)

/-- So many hexadecimal digits, after the value of those before. -/
def hexDigitsFrom (byteOffset : ℕ) (message : String) :
    ℕ → ℕ → List Char → Except ToolchainDecodeError (ℕ × List Char)
  | 0, value, characters => .ok (value, characters)
  | _ + 1, _, [] => .error (malformed byteOffset message)
  | digits + 1, value, digit :: characters =>
    match hexValue digit with
    | none => .error (malformed byteOffset message)
    | some digit => hexDigitsFrom (byteOffset + 1) message digits (value * 16 + digit) characters

/-- `rest` are the characters after the mark, with the last one of the string. -/
def parseUnicodeEscape (rest : List Char) (byteOffset digits : ℕ) :
    Except ToolchainDecodeError (Char × List Char) :=
  if digits > textBytes rest - 1 then .error (malformed byteOffset "truncated Unicode escape")
  else do
    let (value, rest) ← hexDigitsFrom (byteOffset + 2) "invalid Unicode escape" digits 0 rest
    if value.isValidChar then pure (Char.ofNat value, rest)
    else .error (malformed byteOffset "invalid Unicode scalar value")

/-- The character an escape stands for.  The characters after the backslash are those up to the end
of the string, its last one with them. -/
def parseEscape (characters : List Char) (byteOffset : ℕ) :
    Except ToolchainDecodeError (Char × List Char) :=
  match characters with
  | [] => .error (malformed byteOffset "unterminated string escape")
  | escape :: rest =>
    if escape = '"' then .ok ('"', rest)
    else if escape = '\\' then .ok ('\\', rest)
    else if escape = 'b' then .ok ('\x08', rest)
    else if escape = 't' then .ok ('\t', rest)
    else if escape = 'n' then .ok ('\n', rest)
    else if escape = 'f' then .ok ('\x0c', rest)
    else if escape = 'r' then .ok ('\r', rest)
    else if escape = 'u' then parseUnicodeEscape rest byteOffset 4
    else if escape = 'U' then parseUnicodeEscape rest byteOffset 8
    else .error (malformed byteOffset "unknown basic-string escape")

/-- The characters of a string, until its last one or none is left. -/
def scanCharacters : ℕ → ℕ → List Char → Except ToolchainDecodeError (List Char)
  | _, _, [] => .ok []
  | _, _, [_] => .ok []
  | 0, byteOffset, _ :: _ :: _ => .error (malformed byteOffset "invalid basic string")
  | fuel + 1, byteOffset, character :: next :: rest =>
    if character = '"' then .error (malformed byteOffset "unescaped quote in basic string")
    else if character = '\\' then do
      let (decoded, left) ← parseEscape (next :: rest) byteOffset
      let more ← scanCharacters fuel
        (byteOffset + (textBytes (character :: next :: rest) - textBytes left)) left
      pure (decoded :: more)
    else if isControl character then
      .error (malformed byteOffset "unescaped control character in basic string")
    else do
      let more ← scanCharacters fuel (byteOffset + textBytes [character]) (next :: rest)
      pure (character :: more)

def scanBasicString (value : List Char) (byteOffset : ℕ) :
    Except ToolchainDecodeError (List Char) :=
  if textBytes value < 2 ∨ value.head? ≠ some '"' ∨ value.getLast? ≠ some '"' then
    .error (malformed byteOffset "expected one basic string")
  else scanCharacters value.length (byteOffset + 1) value.tail

/-- Bytes from pairs of digits. -/
def digestPairs : ℕ → List Char → Except ToolchainDecodeError (List UInt8)
  | _, [] => .ok []
  | byteOffset, [_] => .error (malformed byteOffset "invalid SHA-256 hexadecimal")
  | byteOffset, high :: low :: digits => do
    let high ← orFail (hexValue high) (malformed byteOffset "invalid SHA-256 hexadecimal")
    let low ← orFail (hexValue low) (malformed (byteOffset + 1) "invalid SHA-256 hexadecimal")
    let bytes ← digestPairs (byteOffset + 2) digits
    pure (UInt8.ofNat (high * 16 + low) :: bytes)

def parseDigest (value : String) (byteOffset : ℕ) : Except ToolchainDecodeError Sha256Digest :=
  let wrongLength :=
    malformed byteOffset "SHA-256 digest must contain exactly 64 hexadecimal digits"
  if byteLength value ≠ 64 then .error wrongLength
  else do
    let bytes ← digestPairs byteOffset value.toList
    if h : bytes.length = 32 then pure ⟨bytes, h⟩ else .error wrongLength

/-- What a number is read into: its value, whether a digit came last, and how many digits came. -/
structure DigitRun where
  result : ℕ
  previousWasDigit : Bool
  digitCount : ℕ

def parseDigits (byteOffset : ℕ) (run : DigitRun) :
    List Char → Except ToolchainDecodeError DigitRun
  | [] => .ok run
  | character :: characters =>
    if character = '_' then
      if run.previousWasDigit then
        parseDigits (byteOffset + 1) { run with previousWasDigit := false } characters
      else .error (malformed byteOffset "invalid integer separator")
    else if !character.isDigit then .error (malformed byteOffset "invalid unsigned integer")
    else if run.result * 10 + digitValue character < UInt64.size then
      parseDigits (byteOffset + 1)
        ⟨run.result * 10 + digitValue character, true, run.digitCount + 1⟩ characters
    else .error (malformed byteOffset "unsigned integer overflow")

def parseU64 (value : List Char) (byteOffset : ℕ) : Except ToolchainDecodeError UInt64 :=
  if value = [] ∨ value.head? = some '_' ∨ value.getLast? = some '_' then
    .error (malformed byteOffset "invalid unsigned integer")
  else do
    let run ← parseDigits byteOffset ⟨0, false, 0⟩ value
    if !run.previousWasDigit || (decide (run.digitCount > 1) && value.head? == some '0') then
      .error (malformed byteOffset "invalid unsigned integer")
    else pure (UInt64.ofNat run.result)

def parseU32 (value : List Char) (byteOffset : ℕ) : Except ToolchainDecodeError UInt32 := do
  let value ← parseU64 value byteOffset
  if value.toNat < UInt32.size then pure value.toUInt32
  else .error (malformed byteOffset "unsigned 32-bit integer overflow")

/-- What stands before the comment of a line. -/
def stripCommentFrom (inString escaped : Bool) : List Char → List Char
  | [] => []
  | character :: rest =>
    if inString && escaped then character :: stripCommentFrom inString false rest
    else if character = '\\' ∧ inString = true then character :: stripCommentFrom inString true rest
    else if character = '"' then character :: stripCommentFrom (!inString) escaped rest
    else if character = '#' ∧ inString = false then []
    else character :: stripCommentFrom inString escaped rest

def stripComment (line : List Char) : List Char := stripCommentFrom false false line

def isTomlWhitespace (character : Char) : Bool :=
  character == ' ' || character == '\t' || character == '\r'

def trimTomlWhitespace (value : List Char) : List Char :=
  (value.dropWhile isTomlWhitespace).rdropWhile isTomlWhitespace

/-- The two sides of the first equals sign. -/
def splitOnceEquals (content : List Char) : Option (List Char × List Char) :=
  match content.span (· != '=') with
  | (_, []) => none
  | (key, _ :: value) => some (key, value)

def boundedLabel (value : List Char) : String :=
  String.ofList (value.take 128 ++ if value.length > 128 then ['…'] else [])

/-! ## The parser -/

/-- The table that the assignments of a line belong to. -/
inductive Section where
  | root | compatibility | standardLibraryPackage | component | target | targetFile
deriving DecidableEq

def Section.fieldPrefix : Section → String
  | .root => ""
  | .compatibility => "compatibility."
  | .standardLibraryPackage => "standard_library_packages."
  | .component => "components."
  | .target => "targets."
  | .targetFile => "targets.files."

structure RootBuilder where
  schema : Option UInt32 := none
  release : Option String := none
  host : Option String := none
  llvmProjectRevision : Option String := none

structure CompatibilityBuilder where
  language : Option LanguageRevision := none
  numbers : CompatibilityNumber → Option UInt32 := fun _ ↦ none

structure StandardLibraryPackageBuilder where
  name : Option PackageName := none
  version : Option PackageVersion := none
  sourceDigest : Option Sha256Digest := none
  component : Option String := none
  manifestDigest : Option Sha256Digest := none

structure ComponentBuilder where
  kind : Option ComponentKind := none
  path : Option ComponentPath := none
  digest : Option Sha256Digest := none
  bytes : Option UInt64 := none

structure TargetBuilder where
  identity : Option TargetIdentity := none
  path : Option ComponentPath := none
  digest : Option Sha256Digest := none
  bytes : Option UInt64 := none
  files : List ShippedTargetFile := []

structure TargetFileBuilder where
  path : Option ComponentPath := none
  digest : Option Sha256Digest := none
  bytes : Option UInt64 := none

/-- Set a field that was not set before. -/
def setOnce {α : Type} (slot : Option α) (path : String) (value : α) :
    Except ToolchainDecodeError (Option α) :=
  match slot with
  | none => .ok (some value)
  | some _ => .error (.duplicateKey path)

def required {α : Type} (slot : Option α) (path : String) : Except ToolchainDecodeError α :=
  orFail slot (.missingField path)

def CompatibilityBuilder.finish (builder : CompatibilityBuilder) :
    Except ToolchainDecodeError ToolchainCompatibility := do
  let language ← required builder.language "compatibility.language"
  let _ ← CompatibilityNumber.all.mapM fun number ↦
    required (builder.numbers number) ("compatibility." ++ number.key)
  pure ⟨language, fun number ↦ (builder.numbers number).getD 0⟩

def StandardLibraryPackageBuilder.finish (builder : StandardLibraryPackageBuilder) :
    Except ToolchainDecodeError ShippedStandardLibraryPackage := do
  let name ← required builder.name "standard_library_packages.name"
  let version ← required builder.version "standard_library_packages.version"
  let sourceDigest ← required builder.sourceDigest "standard_library_packages.source_digest"
  let component ← required builder.component "standard_library_packages.component"
  let manifestDigest ← required builder.manifestDigest "standard_library_packages.manifest_digest"
  pure ⟨⟨name, version, sourceDigest⟩, .toolchain component, manifestDigest⟩

def ComponentBuilder.finish (builder : ComponentBuilder) :
    Except ToolchainDecodeError ShippedComponent := do
  let kind ← required builder.kind "components.kind"
  let path ← required builder.path "components.path"
  let digest ← required builder.digest "components.digest"
  let bytes ← required builder.bytes "components.bytes"
  pure ⟨kind, path, digest, bytes⟩

def TargetBuilder.finish (builder : TargetBuilder) : Except ToolchainDecodeError ShippedTarget := do
  let identity ← required builder.identity "targets.identity"
  let path ← required builder.path "targets.path"
  let digest ← required builder.digest "targets.digest"
  let bytes ← required builder.bytes "targets.bytes"
  pure ⟨identity, path, digest, bytes, builder.files⟩

def TargetFileBuilder.finish (builder : TargetFileBuilder) :
    Except ToolchainDecodeError ShippedTargetFile := do
  let path ← required builder.path "targets.files.path"
  let digest ← required builder.digest "targets.files.digest"
  let bytes ← required builder.bytes "targets.files.bytes"
  pure ⟨path, digest, bytes⟩

structure Parser where
  activeSection : Section := .root
  root : RootBuilder := {}
  compatibilitySeen : Bool := false
  compatibility : CompatibilityBuilder := {}
  standardLibraryPackages : List ShippedStandardLibraryPackage := []
  currentStandardLibraryPackage : Option StandardLibraryPackageBuilder := none
  components : List ShippedComponent := []
  currentComponent : Option ComponentBuilder := none
  targets : List ShippedTarget := []
  currentTarget : Option TargetBuilder := none
  currentTargetFile : Option TargetFileBuilder := none
  standardLibraryPackageTables : ℕ := 0
  componentTables : ℕ := 0
  targetTables : ℕ := 0
  targetFileTables : ℕ := 0
  stringBytes : ℕ := 0

namespace Parser

section Tables

variable (limits : ToolchainDecodeLimits) (byteOffset : ℕ) (parser : Parser)

def finishStandardLibraryPackage : Except ToolchainDecodeError Parser :=
  match parser.currentStandardLibraryPackage with
  | none => .ok parser
  | some builder => do
    let package ← builder.finish
    pure { parser with
      currentStandardLibraryPackage := none
      standardLibraryPackages := parser.standardLibraryPackages ++ [package] }

def finishComponent : Except ToolchainDecodeError Parser :=
  match parser.currentComponent with
  | none => .ok parser
  | some builder => do
    let component ← builder.finish
    pure { parser with
      currentComponent := none
      components := parser.components ++ [component] }

def finishTargetFile : Except ToolchainDecodeError Parser :=
  match parser.currentTargetFile with
  | none => .ok parser
  | some builder => do
    let file ← builder.finish
    let target ← orFail parser.currentTarget
      (malformed 0 "target-file table has no containing target")
    pure { parser with
      currentTargetFile := none
      currentTarget := some { target with files := target.files ++ [file] } }

def finishTarget : Except ToolchainDecodeError Parser := do
  let parser ← parser.finishTargetFile
  match parser.currentTarget with
  | none => pure parser
  | some builder => do
    let target ← builder.finish
    pure { parser with
      currentTarget := none
      targets := parser.targets ++ [target] }

def enterCompatibility : Except ToolchainDecodeError Parser :=
  if parser.compatibilitySeen then .error (.duplicateKey "compatibility")
  else if parser.activeSection ≠ .root then
    .error (malformed byteOffset "compatibility table must precede array tables")
  else .ok { parser with compatibilitySeen := true, activeSection := .compatibility }

def enterStandardLibraryPackage : Except ToolchainDecodeError Parser :=
  if !parser.compatibilitySeen ||
      !([.compatibility, .standardLibraryPackage].contains parser.activeSection) then
    .error (malformed byteOffset "standard-library package tables must follow compatibility")
  else do
    let parser ← parser.finishStandardLibraryPackage
    checkNextCount "standard-library packages" parser.standardLibraryPackageTables
      limits.standardLibraryPackages
    pure { parser with
      standardLibraryPackageTables := parser.standardLibraryPackageTables + 1
      currentStandardLibraryPackage := some {}
      activeSection := .standardLibraryPackage }

def enterComponent : Except ToolchainDecodeError Parser :=
  if !([.standardLibraryPackage, .component].contains parser.activeSection) then
    .error (malformed byteOffset "component tables must follow the standard-library package index")
  else do
    let parser ← parser.finishStandardLibraryPackage
    let parser ← parser.finishComponent
    checkNextCount "components" parser.componentTables limits.components
    pure { parser with
      componentTables := parser.componentTables + 1
      currentComponent := some {}
      activeSection := .component }

def enterTarget : Except ToolchainDecodeError Parser :=
  if !([.component, .target, .targetFile].contains parser.activeSection) then
    .error (malformed byteOffset "target tables must follow component tables")
  else do
    let parser ← parser.finishComponent
    let parser ← parser.finishTarget
    checkNextCount "targets" parser.targetTables limits.targets
    pure { parser with
      targetTables := parser.targetTables + 1
      currentTarget := some {}
      activeSection := .target }

def enterTargetFile : Except ToolchainDecodeError Parser :=
  if !([.target, .targetFile].contains parser.activeSection) || parser.currentTarget.isNone then
    .error (malformed byteOffset "target-file table has no containing target")
  else do
    let parser ← parser.finishTargetFile
    checkNextCount "target files" parser.targetFileTables limits.targetFiles
    pure { parser with
      targetFileTables := parser.targetFileTables + 1
      currentTargetFile := some {}
      activeSection := .targetFile }

def parseHeader (content : List Char) : Except ToolchainDecodeError Parser :=
  match String.ofList content with
  | "[compatibility]" => parser.enterCompatibility byteOffset
  | "[[standard_library_packages]]" => parser.enterStandardLibraryPackage limits byteOffset
  | "[[components]]" => parser.enterComponent limits byteOffset
  | "[[targets]]" => parser.enterTarget limits byteOffset
  | "[[targets.files]]" => parser.enterTargetFile limits byteOffset
  | _ =>
    if content.getLast? ≠ some ']' then .error (malformed byteOffset "unterminated table header")
    else .error (.unknownField (boundedLabel content))

end Tables

section Fields

variable (U : Unicode) (limits : ToolchainDecodeLimits) (value : List Char) (byteOffset : ℕ)
  (parser : Parser)

/-- A first scan measures the string, and a second one takes it. -/
def parseString : Except ToolchainDecodeError (String × Parser) := do
  let measured ← scanBasicString value byteOffset
  let next := parser.stringBytes + textBytes measured
  checkCountLimit "string bytes" next limits.stringBytes
  let decoded ← scanBasicString value byteOffset
  pure (String.ofList decoded, { parser with stringBytes := next })

def parseDigestField : Except ToolchainDecodeError (Sha256Digest × Parser) := do
  let (value, parser) ← parser.parseString limits value byteOffset
  let digest ← parseDigest value byteOffset
  pure (digest, parser)

def unknownField (key : String) : ToolchainDecodeError :=
  .unknownField (parser.activeSection.fieldPrefix ++ boundedLabel key.toList)

def parseRootField (key : String) : Except ToolchainDecodeError Parser :=
  match key with
  | "schema" => do
    let parsed ← parseU32 value byteOffset
    let schema ← setOnce parser.root.schema "schema" parsed
    pure { parser with root := { parser.root with schema } }
  | "release" => do
    let (parsed, parser) ← parser.parseString limits value byteOffset
    let release ← setOnce parser.root.release "release" parsed
    pure { parser with root := { parser.root with release } }
  | "host" => do
    let (parsed, parser) ← parser.parseString limits value byteOffset
    let host ← setOnce parser.root.host "host" parsed
    pure { parser with root := { parser.root with host } }
  | "llvm_project_revision" => do
    let (parsed, parser) ← parser.parseString limits value byteOffset
    let llvmProjectRevision ← setOnce parser.root.llvmProjectRevision "llvm_project_revision" parsed
    pure { parser with root := { parser.root with llvmProjectRevision } }
  | _ => .error (parser.unknownField key)

def languageOfName : String → Option LanguageRevision
  | "0.1-design" => some .design01
  | _ => none

def parseCompatibilityField (key : String) : Except ToolchainDecodeError Parser :=
  if key = "language" then do
    let (language, parser) ← parser.parseString limits value byteOffset
    let language ← orFail (languageOfName language)
      (malformed byteOffset "unknown language revision")
    let language ← setOnce parser.compatibility.language "compatibility.language" language
    pure { parser with compatibility := { parser.compatibility with language } }
  else do
    let parsed ← parseU32 value byteOffset
    match CompatibilityNumber.ofKey key with
    | some number => do
      let slot ← setOnce (parser.compatibility.numbers number) ("compatibility." ++ key) parsed
      pure { parser with
        compatibility := { parser.compatibility with
          numbers := Function.update parser.compatibility.numbers number slot } }
    | none => .error (parser.unknownField key)

def packageBuilder : Except ToolchainDecodeError StandardLibraryPackageBuilder :=
  orFail parser.currentStandardLibraryPackage
    (malformed byteOffset "missing standard-library package table")

def componentBuilder : Except ToolchainDecodeError ComponentBuilder :=
  orFail parser.currentComponent (malformed byteOffset "missing component table")

def targetBuilder : Except ToolchainDecodeError TargetBuilder :=
  orFail parser.currentTarget (malformed byteOffset "missing target table")

def targetFileBuilder : Except ToolchainDecodeError TargetFileBuilder :=
  orFail parser.currentTargetFile (malformed byteOffset "missing target-file table")

def parseStandardLibraryPackageField (key : String) : Except ToolchainDecodeError Parser :=
  match key with
  | "name" => do
    let (value, parser) ← parser.parseString limits value byteOffset
    let parsed ← (PackageName.new U value).mapError fun _ ↦
      malformed byteOffset "invalid package name"
    let builder ← parser.packageBuilder byteOffset
    let name ← setOnce builder.name "standard_library_packages.name" parsed
    pure { parser with currentStandardLibraryPackage := some { builder with name } }
  | "version" => do
    let (value, parser) ← parser.parseString limits value byteOffset
    let parsed ← (PackageVersion.new U value).mapError fun _ ↦
      malformed byteOffset "invalid package version"
    let builder ← parser.packageBuilder byteOffset
    let version ← setOnce builder.version "standard_library_packages.version" parsed
    pure { parser with currentStandardLibraryPackage := some { builder with version } }
  | "source_digest" => do
    let (digest, parser) ← parser.parseDigestField limits value byteOffset
    let builder ← parser.packageBuilder byteOffset
    let sourceDigest ← setOnce builder.sourceDigest "standard_library_packages.source_digest" digest
    pure { parser with currentStandardLibraryPackage := some { builder with sourceDigest } }
  | "component" => do
    let (parsed, parser) ← parser.parseString limits value byteOffset
    (validateStandardLibraryComponent parsed).mapError .invalidManifest
    let builder ← parser.packageBuilder byteOffset
    let component ← setOnce builder.component "standard_library_packages.component" parsed
    pure { parser with currentStandardLibraryPackage := some { builder with component } }
  | "manifest_digest" => do
    let (digest, parser) ← parser.parseDigestField limits value byteOffset
    let builder ← parser.packageBuilder byteOffset
    let manifestDigest ← setOnce builder.manifestDigest "standard_library_packages.manifest_digest"
      digest
    pure { parser with currentStandardLibraryPackage := some { builder with manifestDigest } }
  | _ => .error (parser.unknownField key)

def componentKindOfName : String → Option ComponentKind
  | "frontend" => some .frontend
  | "backend" => some .backend
  | "standard_library" => some .standardLibrary
  | _ => none

def parseComponentField (key : String) : Except ToolchainDecodeError Parser :=
  match key with
  | "kind" => do
    let (value, parser) ← parser.parseString limits value byteOffset
    let parsed ← orFail (componentKindOfName value) (malformed byteOffset "unknown component kind")
    let builder ← parser.componentBuilder byteOffset
    let kind ← setOnce builder.kind "components.kind" parsed
    pure { parser with currentComponent := some { builder with kind } }
  | "path" => do
    let (value, parser) ← parser.parseString limits value byteOffset
    let parsed ← (ComponentPath.new value).mapError .invalidManifest
    let builder ← parser.componentBuilder byteOffset
    let path ← setOnce builder.path "components.path" parsed
    pure { parser with currentComponent := some { builder with path } }
  | "digest" => do
    let (parsed, parser) ← parser.parseDigestField limits value byteOffset
    let builder ← parser.componentBuilder byteOffset
    let digest ← setOnce builder.digest "components.digest" parsed
    pure { parser with currentComponent := some { builder with digest } }
  | "bytes" => do
    let parsed ← parseU64 value byteOffset
    let builder ← parser.componentBuilder byteOffset
    let bytes ← setOnce builder.bytes "components.bytes" parsed
    pure { parser with currentComponent := some { builder with bytes } }
  | _ => .error (parser.unknownField key)

def parseTargetField (key : String) : Except ToolchainDecodeError Parser :=
  match key with
  | "identity" => do
    let (value, parser) ← parser.parseString limits value byteOffset
    let parsed ← orFail (TargetIdentity.new value) (malformed byteOffset "invalid target identity")
    let builder ← parser.targetBuilder byteOffset
    let identity ← setOnce builder.identity "targets.identity" parsed
    pure { parser with currentTarget := some { builder with identity } }
  | "path" => do
    let (value, parser) ← parser.parseString limits value byteOffset
    let parsed ← (ComponentPath.new value).mapError .invalidManifest
    let builder ← parser.targetBuilder byteOffset
    let path ← setOnce builder.path "targets.path" parsed
    pure { parser with currentTarget := some { builder with path } }
  | "digest" => do
    let (parsed, parser) ← parser.parseDigestField limits value byteOffset
    let builder ← parser.targetBuilder byteOffset
    let digest ← setOnce builder.digest "targets.digest" parsed
    pure { parser with currentTarget := some { builder with digest } }
  | "bytes" => do
    let parsed ← parseU64 value byteOffset
    let builder ← parser.targetBuilder byteOffset
    let bytes ← setOnce builder.bytes "targets.bytes" parsed
    pure { parser with currentTarget := some { builder with bytes } }
  | _ => .error (parser.unknownField key)

def parseTargetFileField (key : String) : Except ToolchainDecodeError Parser :=
  match key with
  | "path" => do
    let (value, parser) ← parser.parseString limits value byteOffset
    let parsed ← (ComponentPath.new value).mapError .invalidManifest
    let builder ← parser.targetFileBuilder byteOffset
    let path ← setOnce builder.path "targets.files.path" parsed
    pure { parser with currentTargetFile := some { builder with path } }
  | "digest" => do
    let (parsed, parser) ← parser.parseDigestField limits value byteOffset
    let builder ← parser.targetFileBuilder byteOffset
    let digest ← setOnce builder.digest "targets.files.digest" parsed
    pure { parser with currentTargetFile := some { builder with digest } }
  | "bytes" => do
    let parsed ← parseU64 value byteOffset
    let builder ← parser.targetFileBuilder byteOffset
    let bytes ← setOnce builder.bytes "targets.files.bytes" parsed
    pure { parser with currentTargetFile := some { builder with bytes } }
  | _ => .error (parser.unknownField key)

def parseField (key : String) : Except ToolchainDecodeError Parser :=
  match parser.activeSection with
  | .root => parser.parseRootField limits value byteOffset key
  | .compatibility => parser.parseCompatibilityField limits value byteOffset key
  | .standardLibraryPackage =>
    parser.parseStandardLibraryPackageField U limits value byteOffset key
  | .component => parser.parseComponentField limits value byteOffset key
  | .target => parser.parseTargetField limits value byteOffset key
  | .targetFile => parser.parseTargetFileField limits value byteOffset key

end Fields

section Parsing

variable (U : Unicode) (limits : ToolchainDecodeLimits)

def parseLine (line : List Char) (byteOffset : ℕ) (parser : Parser) :
    Except ToolchainDecodeError Parser :=
  let content := trimTomlWhitespace (stripComment line)
  if content = [] then .ok parser
  else if content.head? = some '[' then parser.parseHeader limits byteOffset content
  else do
    let (key, value) ← orFail (splitOnceEquals content)
      (malformed byteOffset "expected a key/value assignment")
    let key := trimTomlWhitespace key
    if key = [] then .error (malformed byteOffset "assignment key is empty")
    else parser.parseField U limits (trimTomlWhitespace value) byteOffset (String.ofList key)

def parseLines : ℕ → List (List Char) → Parser → Except ToolchainDecodeError Parser
  | _, [], parser => .ok parser
  | byteOffset, line :: lines, parser => do
    let parser ← parser.parseLine U limits line byteOffset
    parseLines (byteOffset + textBytes line + 1) lines parser

def finish (parser : Parser) : Except ToolchainDecodeError ToolchainManifest := do
  let parser ← parser.finishStandardLibraryPackage
  let parser ← parser.finishComponent
  let parser ← parser.finishTarget
  if !parser.compatibilitySeen then .error (.missingField "compatibility")
  else do
    let schema ← required parser.root.schema "schema"
    let release ← required parser.root.release "release"
    let host ← required parser.root.host "host"
    let llvmProjectRevision ← required parser.root.llvmProjectRevision "llvm_project_revision"
    let compatibility ← parser.compatibility.finish
    pure ⟨schema, release, host, llvmProjectRevision, compatibility, parser.standardLibraryPackages,
      parser.components, parser.targets⟩

def parse (source : List Char) : Except ToolchainDecodeError ToolchainManifest := do
  let parser ← parseLines U limits 0 (splitTerminator source) {}
  parser.finish

end Parsing

end Parser

def decode (U : Unicode) (bytes : List UInt8) (limits : ToolchainDecodeLimits) :
    Except ToolchainDecodeError ToolchainManifest := do
  limits.validate
  checkByteLimit bytes.length limits.bytes
  let source ← orFail (fromUtf8 bytes) .invalidUtf8
  Parser.parse U limits source.toList

def decodeAndVerifyToolchainManifest (U : Unicode) (bytes : List UInt8)
    (limits : ToolchainDecodeLimits) (required : ToolchainCompatibility) :
    Except ToolchainDecodeError ToolchainManifest := do
  limits.validate
  checkByteLimit bytes.length limits.bytes
  let manifest ← decode U bytes limits
  (manifest.validate required).mapError .invalidManifest
  let canonical ← encodeCanonical manifest limits
  failIf (canonical != bytes) .nonCanonical
  pure manifest

end Wrela.Toolchain
