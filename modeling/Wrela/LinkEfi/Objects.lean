import Wrela.Wire.Number
import Wrela.Wire.Checked
import Wrela.Wire.Utf8

/-!
# Linked images

What the inspection of a linked image reads and returns: the sections of the image, the limits, the
errors, and little-endian fields at an offset of a file.
-/

namespace Wrela.LinkEfi

open Wrela.Wire Wrela.Checked

inductive InspectError where
  | truncated
  | invalidPeSignature
  | nonCanonical (reason : String)
  | invalidBaseRelocations (reason : String)
  | invalidRelocationProvenance (reason : String)
  | limitExceeded (resource : String) (limit actual : ℕ)
deriving DecidableEq

abbrev Inspect (α : Type) := Except InspectError α

structure ImageInspectLimits where
  sections : ℕ
  baseRelocations : ℕ

/-- A section of the linked image, at its address in memory. -/
structure LinkedSection where
  name : List UInt8
  virtualAddress : ℕ
  virtualBytes : ℕ
  fileOffset : ℕ
  fileBytes : ℕ
  characteristics : ℕ
deriving DecidableEq

def imageScnCntCode : ℕ := 0x20
def imageScnCntInitializedData : ℕ := 0x40
def imageScnCntUninitializedData : ℕ := 0x80
def imageScnMemDiscardable : ℕ := 0x02000000

/-- Addition in 64 bits, which fails on overflow. -/
def checkedAdd (left right : ℕ) : Option ℕ := if left + right < 2 ^ 64 then some (left + right) else none

theorem checkedAdd_eq_some :
    checkedAdd left right = some sum ↔ sum = left + right ∧ left + right < 2 ^ 64 := by
  rw [checkedAdd, Option.ite_none_right_eq_some, Option.some_inj, and_comm, eq_comm]

/-- The bytes of a file at an offset. -/
def readExactAt (count : ℕ) (file : List UInt8) (offset : ℕ) : Inspect (List UInt8) :=
  if offset + count ≤ file.length then .ok ((file.drop offset).take count) else .error .truncated

/-- A little-endian field of a record. -/
def leField (count : ℕ) (bytes : List UInt8) (offset : ℕ) : ℕ :=
  leValue ((bytes.drop offset).take count)

theorem readExactAt_eq_ok (h : readExactAt count file offset = .ok bytes) :
    offset + count ≤ file.length ∧ bytes = (file.drop offset).take count := by
  unfold readExactAt at h
  split at h
  · cases h
    exact ⟨‹_›, rfl⟩
  · cases h

/-- A field inside a part of a file is the field of the file. -/
theorem leField_take_drop {count width offset start : ℕ} (file : List UInt8)
    (h : offset + width ≤ count) :
    leField width ((file.drop start).take count) offset = leField width file (start + offset) := by
  rw [leField, leField, List.drop_take, List.drop_drop, List.take_take,
    Nat.min_eq_left (Nat.le_sub_of_add_le' h)]

def isAsciiGraphic (byte : UInt8) : Bool := decide (0x21 ≤ byte) && decide (byte ≤ 0x7e)

def isAsciiDigit (byte : UInt8) : Bool := decide (0x30 ≤ byte) && decide (byte ≤ 0x39)

/-- The bytes of a text that is written in the source. -/
def ascii (text : String) : List UInt8 := utf8Bytes text

/-! ## Input objects -/

def coffHeaderBytes : ℕ := 20
def coffSectionBytes : ℕ := 40
def coffRelocationBytes : ℕ := 10
def coffSymbolBytes : ℕ := 18
def maxMapLineBytes : ℕ := 1024 * 1024
def imageFileMachineArm64 : ℕ := 0xaa64
def imageSymClassExternal : ℕ := 2
def imageScnLnkComdat : ℕ := 0x1000
def imageScnLnkNrelocOvfl : ℕ := 0x01000000
def imageRelArm64Section : ℕ := 0x0d
def imageRelArm64Addr64 : ℕ := 0x0e

structure CoffProvenanceInput where
  ordinal : ℕ
  path : List UInt8
  file : List UInt8

structure ProvenanceSection where
  ordinal : ℕ
  name : List UInt8
  bytes : ℕ
  alignment : ℕ
  characteristics : ℕ
  contributionOutput : Option ℕ
  contributionRva : Option ℕ

inductive InputRelocationTarget where
  | defined (sectionIndex : ℕ)
  | undefinedExternal (name : List UInt8)

structure InputAddr64Relocation where
  sourceSection : ℕ
  sourceOffset : ℕ
  target : Option InputRelocationTarget

structure ExternalDefinition where
  name : List UInt8
  sectionIndex : ℕ

structure RelocationReference where
  symbol : ℕ
  addr64 : Option ℕ

structure ProvenanceObject where
  ordinal : ℕ
  path : List UInt8
  sections : List ProvenanceSection
  relocations : List InputAddr64Relocation
  definitions : List ExternalDefinition

def invalidProvenance (reason : String) : InspectError := .invalidRelocationProvenance reason

def repeatedProvenanceSectionNameIsSupported (name : List UInt8) : Bool :=
  decide (name = ascii ".pdata") || decide (name = ascii ".xdata")

def arm64RelocationWidth (kind : ℕ) : Option ℕ :=
  if kind = imageRelArm64Section then some 2
  else if kind = imageRelArm64Addr64 then some 8
  else if (1 ≤ kind ∧ kind ≤ 0x0b) ∨ (0x0f ≤ kind ∧ kind ≤ 0x11) then some 4
  else none

def coffSectionAlignment (characteristics : ℕ) : Inspect ℕ :=
  match characteristics / 2 ^ 20 % 16 with
  | 0 => .ok 1
  | 15 => .error (invalidProvenance "input section alignment encoding is reserved")
  | value => .ok (2 ^ (value - 1))

def canonicalCoffShortName (encoded : List UInt8) : Inspect (List UInt8) := do
  let nameEnd := encoded.idxOf 0
  failIf (decide (nameEnd = 0) || (encoded.drop nameEnd).any (· != 0) ||
      !(encoded.take nameEnd).all isAsciiGraphic)
    (invalidProvenance "input COFF name is noncanonical ASCII")
  return encoded.take nameEnd

/-- The tables of an object that its records refer to. -/
structure CoffTables where
  file : List UInt8
  symbolTable : ℕ
  symbolCount : ℕ
  symbolTableEnd : ℕ
  stringBytes : ℕ

/-- A text of the string table, which follows the symbols. -/
def readCoffString (tables : CoffTables) (offset : ℕ) : Inspect (List UInt8) := do
  failIf (decide (offset < 4) || decide (tables.stringBytes ≤ offset))
    (invalidProvenance "input COFF string offset is out of bounds")
  let bytes := (tables.file.drop (tables.symbolTableEnd + offset)).take
    (min (tables.stringBytes - offset) (maxMapLineBytes + 1))
  let name := bytes.takeWhile (· != 0)
  failIf (decide (name.length = bytes.length))
    (invalidProvenance "input COFF string is unterminated or exceeds its bound")
  failIf (name.isEmpty || !name.all isAsciiGraphic)
    (invalidProvenance "input COFF string is empty or noncanonical ASCII")
  return name

def readCoffSectionName (tables : CoffTables) (encoded : List UInt8) : Inspect (List UInt8) :=
  if encoded.head? != some 0x2f then canonicalCoffShortName encoded
  else do
    let nameEnd := encoded.idxOf 0
    let digits := (encoded.take nameEnd).drop 1
    failIf (decide (nameEnd ≤ 1) || (encoded.drop nameEnd).any (· != 0) || !digits.all isAsciiDigit)
      (invalidProvenance "input section name encoding is noncanonical")
    readCoffString tables (digits.foldl (fun value digit ↦ value * 10 + (digit.toNat - 0x30)) 0)

def readCoffSymbolName (tables : CoffTables) (encoded : List UInt8) : Inspect (List UInt8) :=
  if leField 4 encoded 0 ≠ 0 then canonicalCoffShortName encoded
  else readCoffString tables (leField 4 encoded 4)

def readProvenanceSection (tables : CoffTables) (header : List UInt8) (index : ℕ) :
    Inspect ProvenanceSection := do
  let base := coffHeaderBytes + index * coffSectionBytes
  let encoded ← readExactAt 8 header base
  let name ← readCoffSectionName tables encoded
  let characteristics := leField 4 header (base + 36)
  failIf (decide (characteristics &&& (imageScnLnkComdat ||| imageScnLnkNrelocOvfl) ≠ 0))
    (invalidProvenance "COMDAT or relocation-overflow input sections are unsupported")
  let alignment ← coffSectionAlignment characteristics
  return ⟨index, name, leField 4 header (base + 16), alignment, characteristics, none, none⟩

/-- Two equal neighbours in the sorted list that are not allowed. -/
def repeats {α : Type} [DecidableEq α] (allowed : α → Bool) : List α → Bool
  | left :: right :: rest =>
    (decide (left = right) && !allowed left) || repeats allowed (right :: rest)
  | _ => false

/-- What the records that were read so far add up to. -/
structure RelocationTables where
  references : List RelocationReference
  sites : List (ℕ × ℕ)
  relocations : List InputAddr64Relocation

def readRelocation (tables : CoffTables) (header : List UInt8) (source : ProvenanceSection)
    (sectionIndex : ℕ) (found : RelocationTables) (index : ℕ) : Inspect RelocationTables := do
  let base := coffHeaderBytes + sectionIndex * coffSectionBytes
  let record ← readExactAt 10 tables.file (leField 4 header (base + 24) + index * coffRelocationBytes)
  let sourceOffset := leField 4 record 0
  let symbol := leField 4 record 4
  let kind := leField 2 record 8
  let width ← orFail (arm64RelocationWidth kind)
    (invalidProvenance "input contains an unsupported ARM64 COFF relocation type")
  failIf (decide (tables.symbolCount ≤ symbol) || decide (source.bytes < sourceOffset + width))
    (invalidProvenance "input relocation site or target is out of bounds")
  let sites := found.sites ++ [(sectionIndex, sourceOffset)]
  if kind = imageRelArm64Addr64 then do
    failIf (decide (sourceOffset % 8 ≠ 0) ||
        decide (source.characteristics &&& imageScnMemDiscardable ≠ 0))
      (invalidProvenance "input ADDR64 site is unaligned or discardable")
    return ⟨found.references ++ [⟨symbol, some found.relocations.length⟩], sites,
      found.relocations ++ [⟨sectionIndex, sourceOffset, none⟩]⟩
  else
    return ⟨found.references ++ [⟨symbol, none⟩], sites, found.relocations⟩

def readSectionRelocations (tables : CoffTables) (header : List UInt8) (found : RelocationTables)
    (source : ProvenanceSection × ℕ) : Inspect RelocationTables :=
  (List.range (leField 2 header (coffHeaderBytes + source.2 * coffSectionBytes + 32))).foldlM
    (readRelocation tables header source.1 source.2) found

/-- The references that are left, in the order of their symbols. -/
structure SymbolCursor where
  references : List RelocationReference
  definitions : List ExternalDefinition
  relocations : List InputAddr64Relocation

/-- The number of a section, with sign. -/
def sectionNumber (record : List UInt8) : ℤ :=
  let encoded := leField 2 record 12
  if encoded < 2 ^ 15 then encoded else encoded - 2 ^ 16

def sectionHolds (sections : List ProvenanceSection) (number : ℤ) (value : ℕ) : Bool :=
  sections[(number - 1).toNat]?.any fun target ↦ decide (value ≤ target.bytes)

def relocationTarget (sections : List ProvenanceSection) (record : List UInt8)
    (name : Option (List UInt8)) : Inspect InputRelocationTarget :=
  let number := sectionNumber record
  let value := leField 4 record 8
  if 0 < number then do
    failIf (!sectionHolds sections number value)
      (invalidProvenance "ADDR64 target escapes its input section")
    return .defined (number - 1).toNat
  else if number = 0 ∧ value = 0 ∧ leField 1 record 16 = imageSymClassExternal then do
    let name ← orFail name
      (invalidProvenance "undefined ADDR64 target has no canonical external name")
    return .undefinedExternal name
  else .error (invalidProvenance "ADDR64 target is absolute, common, weak, or otherwise unsupported")

def setTarget (sections : List ProvenanceSection) (record : List UInt8) (name : Option (List UInt8))
    (relocations : List InputAddr64Relocation) (reference : RelocationReference) :
    Inspect (List InputAddr64Relocation) :=
  match reference.addr64 with
  | none => .ok relocations
  | some index => do
    let target ← relocationTarget sections record name
    let relocation ← orFail relocations[index]?
      (invalidProvenance "ADDR64 target index is inconsistent")
    return relocations.set index { relocation with target := some target }

def externallyDefined (record : List UInt8) : Bool :=
  decide (leField 1 record 16 = imageSymClassExternal) && decide (0 < sectionNumber record)

/-- The name is read where a definition or a reference will need it. -/
def symbolName (tables : CoffTables) (record : List UInt8) (referenced : Bool) :
    Inspect (Option (List UInt8)) :=
  if (referenced && decide (sectionNumber record = 0)) || externallyDefined record then
    (readCoffSymbolName tables (record.take 8)).map some
  else .ok none

def addDefinition (sections : List ProvenanceSection) (record : List UInt8)
    (name : Option (List UInt8)) (definitions : List ExternalDefinition) :
    Inspect (List ExternalDefinition) :=
  if externallyDefined record then do
    failIf (!sectionHolds sections (sectionNumber record) (leField 4 record 8))
      (invalidProvenance "external definition escapes its input section")
    let name ← orFail name (invalidProvenance "external definition has no canonical name")
    return definitions ++ [⟨name, (sectionNumber record - 1).toNat⟩]
  else .ok definitions

/-- One symbol with its auxiliary records, and the index of the next one. -/
def readSymbol (tables : CoffTables) (sections : List ProvenanceSection) (cursor : SymbolCursor)
    (symbolIndex : ℕ) : Inspect (SymbolCursor × ℕ) := do
  failIf (cursor.references.head?.any fun reference ↦ decide (reference.symbol < symbolIndex))
    (invalidProvenance "input relocation targets an auxiliary symbol record")
  let record ← readExactAt 18 tables.file (tables.symbolTable + symbolIndex * coffSymbolBytes)
  let next := symbolIndex + 1 + leField 1 record 17
  failIf (decide (tables.symbolCount < next))
    (invalidProvenance "input symbol auxiliary records are out of bounds")
  let here := cursor.references.takeWhile fun reference ↦ decide (reference.symbol = symbolIndex)
  let name ← symbolName tables record !here.isEmpty
  let definitions ← addDefinition sections record name cursor.definitions
  let relocations ← here.foldlM (setTarget sections record name) cursor.relocations
  return (⟨cursor.references.drop here.length, definitions, relocations⟩, next)

/-- The symbols from the given one on; each call has read one more. -/
def readSymbols (tables : CoffTables) (sections : List ProvenanceSection) :
    ℕ → SymbolCursor → ℕ → Inspect SymbolCursor
  | 0, cursor, _ => .ok cursor
  | fuel + 1, cursor, symbolIndex =>
    if symbolIndex < tables.symbolCount then do
      let (cursor, next) ← readSymbol tables sections cursor symbolIndex
      readSymbols tables sections fuel cursor next
    else .ok cursor

/-- The end of the symbols, which lie behind the sections. -/
def validateSymbolTable (offset count sectionTableEnd fileBytes : ℕ) : Inspect ℕ :=
  if count = 0 then
    if offset = 0 then .ok 0
    else .error (invalidProvenance "input COFF structure is invalid for relocation provenance")
  else if offset < sectionTableEnd ∨ fileBytes < offset + count * coffSymbolBytes then
    .error (invalidProvenance "input COFF structure is invalid for relocation provenance")
  else .ok (offset + count * coffSymbolBytes)

def readStringBytes (file : List UInt8) (symbolCount symbolTableEnd : ℕ) : Inspect ℕ :=
  if symbolCount = 0 then .ok 0
  else do
    let encoded ← readExactAt 4 file symbolTableEnd
    let bytes := leField 4 encoded 0
    failIf (decide (bytes < 4) || decide (file.length < symbolTableEnd + bytes))
      (invalidProvenance "input COFF string table is out of bounds")
    return bytes

def inspectProvenanceInput (input : CoffProvenanceInput) : Inspect ProvenanceObject := do
  let file := input.file
  let probe ← readExactAt 20 file 0
  failIf (decide (leField 2 probe 0 ≠ imageFileMachineArm64) || decide (leField 2 probe 16 ≠ 0))
    (invalidProvenance "input is not ordinary ARM64 COFF")
  let sectionCount := leField 2 probe 2
  failIf (decide (sectionCount = 0)) (invalidProvenance "input COFF contains no sections")
  let sectionTableEnd := coffHeaderBytes + sectionCount * coffSectionBytes
  failIf (decide (file.length < sectionTableEnd))
    (invalidProvenance "input COFF section table is out of bounds")
  let symbolTable := leField 4 probe 8
  let symbolCount := leField 4 probe 12
  let symbolTableEnd ← validateSymbolTable symbolTable symbolCount sectionTableEnd file.length
  let stringBytes ← readStringBytes file symbolCount symbolTableEnd
  let header := file.take sectionTableEnd
  let tables : CoffTables := ⟨file, symbolTable, symbolCount, symbolTableEnd, stringBytes⟩
  let sections ← (List.range sectionCount).mapM (readProvenanceSection tables header)
  failIf (repeats repeatedProvenanceSectionNameIsSupported
      ((sections.map ProvenanceSection.name).insertionSort (· ≤ ·)))
    (invalidProvenance "duplicate input section names make LLD contributions ambiguous")
  let found ← sections.zipIdx.foldlM (readSectionRelocations tables header) ⟨[], [], []⟩
  failIf (repeats (fun _ ↦ false) ((found.sites.map toLex).insertionSort (· ≤ ·)))
    (invalidProvenance "duplicate input relocation sites are ambiguous")
  let cursor ← readSymbols tables sections symbolCount
    ⟨found.references.insertionSort fun left right ↦ left.symbol ≤ right.symbol, [],
      found.relocations⟩ 0
  failIf (!cursor.references.isEmpty || cursor.relocations.any (·.target.isNone))
    (invalidProvenance "input relocation target is missing or auxiliary")
  return ⟨input.ordinal, input.path, sections, cursor.relocations, cursor.definitions⟩

def inspectProvenanceInputs (inputs : List CoffProvenanceInput) (limits : ImageInspectLimits) :
    Inspect (List ProvenanceObject) := do
  failIf (inputs.isEmpty || decide (limits.sections < inputs.length))
    (invalidProvenance "relocation provenance input count is empty or unbounded")
  inputs.zipIdx.mapM fun (input, index) ↦ do
    failIf (decide (input.ordinal ≠ index) || input.file.isEmpty)
      (invalidProvenance "sealed input identity is noncanonical")
    inspectProvenanceInput input

end Wrela.LinkEfi
