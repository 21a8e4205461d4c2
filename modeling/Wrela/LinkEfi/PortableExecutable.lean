import Wrela.LinkEfi.Contributions

/-!
# The header of the image

The sections of the image lie one after the other, in memory and in the file, and the directory of
base relocations is mapped to the file through them.  The fields that hold one constant in every image
only reject it and are left out.
-/

namespace Wrela.LinkEfi

open Wrela.Wire Wrela.Checked

def lldPeOffset : ℕ := 0x78
def peOptionalHeaderBytes : ℕ := 240
def peSectionBytes : ℕ := 40
def peSectionAlignment : ℕ := 4096
def peFileAlignment : ℕ := 512
def maxPeSections : ℕ := 96
def imageDirectoryEntryBasereloc : ℕ := 5
def pe32PlusDataDirectoryOffset : ℕ := 112
def imageScnMemExecute : ℕ := 0x20000000
def imageScnMemRead : ℕ := 0x40000000
def imageScnMemWrite : ℕ := 0x80000000

def alignUp (value alignment : ℕ) : ℕ := (value + (alignment - 1)) / alignment * alignment

def canonicalSectionCharacteristics (name : List UInt8) : Inspect ℕ :=
  if name = ascii ".text" then .ok (imageScnCntCode ||| imageScnMemExecute ||| imageScnMemRead)
  else if name = ascii ".rdata" ∨ name = ascii ".pdata" ∨ name = ascii ".xdata" then
    .ok (imageScnCntInitializedData ||| imageScnMemRead)
  else if name = ascii ".data" then
    .ok (imageScnCntInitializedData ||| imageScnMemRead ||| imageScnMemWrite)
  else if name = ascii ".bss" then
    .ok (imageScnCntUninitializedData ||| imageScnMemRead ||| imageScnMemWrite)
  else if name = ascii ".reloc" then
    .ok (imageScnCntInitializedData ||| imageScnMemRead ||| imageScnMemDiscardable)
  else .error (.nonCanonical "PE image contains an undeclared output section")

def peSectionName (encoded : List UInt8) : Inspect (List UInt8) := do
  let nameEnd := encoded.idxOf 0
  failIf (decide (nameEnd = 0) || (encoded.drop nameEnd).any (· != 0) ||
      encoded.head? == some 0x2f || !(encoded.take nameEnd).all isAsciiGraphic)
    (.nonCanonical "PE section name is empty, long-form, or noncanonical ASCII")
  return encoded.take nameEnd

/-- Where the next section has to lie. -/
structure PeCursor where
  sections : List LinkedSection
  nextVirtualAddress : ℕ
  nextFileOffset : ℕ

def canonicalVirtualSize (name : List UInt8) (virtualBytes : ℕ) : Bool :=
  if name = ascii ".text" ∨ name = ascii ".xdata" then decide (virtualBytes % 4 = 0)
  else if name = ascii ".pdata" then decide (virtualBytes % 8 = 0)
  else true

def canonicalFileLayout (linked : LinkedSection) (nextFileOffset fileBytes : ℕ) : Bool :=
  let follows := decide (linked.fileOffset = nextFileOffset) &&
    decide (linked.fileOffset + linked.fileBytes ≤ fileBytes)
  if linked.name = ascii ".bss" then
    decide (linked.fileBytes = 0) && decide (linked.fileOffset = 0)
  else if linked.name = ascii ".data" then
    decide (linked.fileBytes ≤ alignUp linked.virtualBytes peFileAlignment) &&
      decide (linked.fileBytes % peFileAlignment = 0) &&
      (if linked.fileBytes = 0 then decide (linked.fileOffset = 0) else follows)
  else decide (linked.fileBytes = alignUp linked.virtualBytes peFileAlignment) && follows

def readPeSection (file : List UInt8) (sizeOfImage : ℕ) (cursor : PeCursor) (index : ℕ) :
    Inspect PeCursor := do
  let base := lldPeOffset + 4 + coffHeaderBytes + peOptionalHeaderBytes + index * peSectionBytes
  let record ← readExactAt 40 file base
  let name ← peSectionName (record.take 8)
  let linked : LinkedSection := ⟨name, leField 4 record 12, leField 4 record 8, leField 4 record 20,
    leField 4 record 16, leField 4 record 36⟩
  let characteristics ← canonicalSectionCharacteristics name
  failIf (decide (linked.virtualBytes = 0) || decide (linked.virtualAddress = 0) ||
      decide (linked.virtualAddress ≠ cursor.nextVirtualAddress) ||
      decide (sizeOfImage < linked.virtualAddress + linked.virtualBytes) ||
      decide (linked.characteristics ≠ characteristics) ||
      !canonicalVirtualSize name linked.virtualBytes ||
      decide (leField 4 record 24 ≠ 0) || decide (leField 4 record 28 ≠ 0) ||
      decide (leField 2 record 32 ≠ 0) || decide (leField 2 record 34 ≠ 0) ||
      !canonicalFileLayout linked cursor.nextFileOffset file.length)
    (.nonCanonical "PE section layout is duplicate, overlapping, unaligned, or out of range")
  return ⟨cursor.sections ++ [linked],
    alignUp (linked.virtualAddress + linked.virtualBytes) peSectionAlignment,
    if linked.fileBytes = 0 then cursor.nextFileOffset else linked.fileOffset + linked.fileBytes⟩

structure MappedDirectory where
  rva : ℕ
  bytes : ℕ
  fileOffset : ℕ
  sectionIndex : ℕ

/-- One section of the search; a directory may lie in no more than one. -/
def mapIn (rva bytes fileBytes : ℕ) (mapped : Option MappedDirectory)
    (candidate : LinkedSection × ℕ) : Inspect (Option MappedDirectory) :=
  let (linked, sectionIndex) := candidate
  if rva < linked.virtualAddress ∨ linked.virtualAddress + linked.virtualBytes < rva + bytes then
    .ok mapped
  else do
    let relative := rva - linked.virtualAddress
    failIf (decide (linked.fileBytes < relative + bytes))
      (.nonCanonical "PE data directory escapes initialized section bytes")
    failIf (decide (fileBytes < linked.fileOffset + relative + bytes))
      (.nonCanonical "PE data directory escapes the image file")
    failIf mapped.isSome (.nonCanonical "PE data directory maps to multiple sections")
    return some ⟨rva, bytes, linked.fileOffset + relative, sectionIndex⟩

def mapDirectory (rva bytes : ℕ) (sections : List LinkedSection) (fileBytes : ℕ) :
    Inspect MappedDirectory := do
  failIf (decide (rva = 0) && decide (bytes = 0)) (.nonCanonical "PE data directory is absent")
  let mapped ← sections.zipIdx.foldlM (mapIn rva bytes fileBytes) none
  orFail mapped (.nonCanonical "PE data directory does not map to a section")

def parsePeHeader (file : List UInt8) (limits : ImageInspectLimits) : Inspect ParsedPe := do
  failIf (decide (leField 4 file 0x3c ≠ lldPeOffset) ||
      decide ((file.drop lldPeOffset).take 4 ≠ ascii "PE" ++ [0, 0]))
    .invalidPeSignature
  let coff ← readExactAt 20 file (lldPeOffset + 4)
  let count := leField 2 coff 2
  failIf (decide (count = 0) || decide (limits.sections < count))
    (.limitExceeded "sections" limits.sections count)
  failIf (decide (maxPeSections < count))
    (.nonCanonical "PE section count exceeds the loader's canonical maximum")
  let optional ← readExactAt 240 file (lldPeOffset + 4 + coffHeaderBytes)
  failIf (decide (leField 4 optional 32 ≠ peSectionAlignment))
    (.nonCanonical "PE32+ optional header is not canonical EFI application metadata")
  let sizeOfImage := leField 4 optional 56
  let cursor ← (List.range count).foldlM (readPeSection file sizeOfImage)
    ⟨[], peSectionAlignment, leField 4 optional 60⟩
  failIf (repeats (fun _ ↦ false)
      ((cursor.sections.map LinkedSection.name).insertionSort (· ≤ ·)))
    (.nonCanonical "PE section layout is duplicate, overlapping, unaligned, or out of range")
  let directory := pe32PlusDataDirectoryOffset + imageDirectoryEntryBasereloc * 8
  let relocation ← mapDirectory (leField 4 optional directory) (leField 4 optional (directory + 4))
    cursor.sections file.length
  let linked ← orFail cursor.sections[relocation.sectionIndex]?
    (.nonCanonical "base-relocation directory is not the exact .reloc payload")
  failIf (decide (linked.name ≠ ascii ".reloc") || decide (relocation.rva ≠ linked.virtualAddress) ||
      decide (relocation.bytes ≠ linked.virtualBytes) ||
      decide (relocation.fileOffset ≠ linked.fileOffset))
    (.nonCanonical "base-relocation directory is not the exact .reloc payload")
  return ⟨peSectionAlignment, relocation.fileOffset, relocation.bytes, cursor.sections⟩

def baseRelocationPageBytes : ℕ := 4096
def baseRelocationBlockHeaderBytes : ℕ := 8
def baseRelocationEntryBytes : ℕ := 2
def imageRelBasedAbsolute : ℕ := 0
def imageRelBasedDir64 : ℕ := 10

structure BaseRelocationMeasurements where
  blocks : ℕ
  entries : ℕ
deriving DecidableEq

/-- What the decoding keeps between entries; the two counts are those of the block. -/
structure RelocationCursor where
  reader : List UInt8
  consumed : ℕ
  blocks : ℕ
  entries : ℕ
  previousPageEnd : Option ℕ
  previousTargetEnd : Option ℕ
  sectionIndex : ℕ
  blockRelocations : ℕ
  sawPadding : Bool

def invalidBaseRelocations (reason : String) : InspectError := .invalidBaseRelocations reason

def readRelocationExact (count : ℕ) (reader : List UInt8) :
    Inspect (List UInt8 × List UInt8) :=
  if count ≤ reader.length then .ok (reader.take count, reader.drop count) else .error .truncated

def LinkedSection.endAddress (linked : LinkedSection) : ℕ :=
  linked.virtualAddress + linked.virtualBytes

/-- The section is loaded and stays, and holds the whole target. -/
def LinkedSection.covers (linked : LinkedSection) (target targetEnd : ℕ) : Bool :=
  decide (linked.virtualAddress ≤ target) && decide (targetEnd ≤ linked.endAddress) &&
    decide (linked.characteristics &&& imageScnMemDiscardable = 0) &&
    decide (linked.characteristics &&&
      (imageScnCntCode ||| imageScnCntInitializedData ||| imageScnCntUninitializedData) ≠ 0)

/-- The search among the sections from the given one on. -/
def mappedFrom (target targetEnd : ℕ) : List LinkedSection → ℕ → Inspect (Bool × ℕ)
  | [], sectionIndex => .ok (false, sectionIndex)
  | linked :: sections, sectionIndex => do
    let sectionEnd ← orFail (checkedAdd linked.virtualAddress linked.virtualBytes)
      (invalidBaseRelocations "PE section range overflowed")
    if target < sectionEnd then return (linked.covers target targetEnd, sectionIndex)
    else mappedFrom target targetEnd sections (sectionIndex + 1)

/-- Whether the target is mapped, and the section to begin with for the next one. -/
def relocationTargetIsMapped (sections : List LinkedSection) (sectionIndex target targetEnd : ℕ) :
    Inspect (Bool × ℕ) :=
  mappedFrom target targetEnd (sections.drop sectionIndex) sectionIndex

section Decoding

variable (directoryBytes : ℕ) (sections : List LinkedSection) (expectedSites : Option (List ℕ))
  (limits : ImageInspectLimits)

def parseEntry (pageRva blockEntries : ℕ) (cursor : RelocationCursor) (index : ℕ) :
    Inspect RelocationCursor := do
  let (bytes, reader) ← readRelocationExact 2 cursor.reader
  let encoded := leValue bytes
  let consumed := cursor.consumed + baseRelocationEntryBytes
  if encoded / 4096 = imageRelBasedAbsolute then do
    failIf (decide (encoded ≠ 0) || cursor.sawPadding || decide (index + 1 ≠ blockEntries))
      (invalidBaseRelocations "base-relocation padding is not one final zero entry")
    return { cursor with reader, consumed, sawPadding := true }
  else do
    failIf (decide (encoded / 4096 ≠ imageRelBasedDir64))
      (invalidBaseRelocations "base-relocation type is not ARM64 DIR64")
    let target ← orFail (checkedAdd pageRva (encoded % 4096))
      (invalidBaseRelocations "base-relocation target overflowed")
    let targetEnd ← orFail (checkedAdd target 8)
      (invalidBaseRelocations "base-relocation target overflowed")
    failIf (decide (target % 8 ≠ 0) || cursor.previousTargetEnd.any fun previous ↦ target < previous)
      (invalidBaseRelocations "base-relocation target is unaligned, overlapping, or unmapped")
    let (mapped, sectionIndex) ←
      relocationTargetIsMapped sections cursor.sectionIndex target targetEnd
    failIf (!mapped)
      (invalidBaseRelocations "base-relocation target is unaligned, overlapping, or unmapped")
    failIf (expectedSites.any fun expected ↦ expected[cursor.entries]? != some target)
      (.invalidRelocationProvenance
        "output DIR64 target does not match its reviewed input relocation site")
    failIf (decide (limits.baseRelocations < cursor.entries + 1))
      (.limitExceeded "base relocations" limits.baseRelocations (cursor.entries + 1))
    return { cursor with
      reader, consumed, sectionIndex
      entries := cursor.entries + 1
      blockRelocations := cursor.blockRelocations + 1
      previousTargetEnd := some targetEnd }

def parseBlock (cursor : RelocationCursor) : Inspect RelocationCursor := do
  let remaining := directoryBytes - cursor.consumed
  failIf (decide (remaining < baseRelocationBlockHeaderBytes))
    (invalidBaseRelocations "base-relocation directory ends inside a block header")
  let (header, reader) ← readRelocationExact 8 cursor.reader
  let pageRva := leField 4 header 0
  let blockBytes := leField 4 header 4
  failIf (decide (pageRva % baseRelocationPageBytes ≠ 0) ||
      decide (blockBytes < baseRelocationBlockHeaderBytes + 4) || decide (blockBytes % 4 ≠ 0) ||
      decide (remaining < blockBytes) ||
      cursor.previousPageEnd.any fun previous ↦ pageRva < previous)
    (invalidBaseRelocations "base-relocation block is unaligned, unordered, or out of bounds")
  let blockEntries := (blockBytes - baseRelocationBlockHeaderBytes) / baseRelocationEntryBytes
  let cursor ← (List.range blockEntries).foldlM
    (parseEntry sections expectedSites limits pageRva blockEntries)
    { cursor with
      reader
      consumed := cursor.consumed + baseRelocationBlockHeaderBytes
      blockRelocations := 0
      sawPadding := false }
  failIf (decide (cursor.blockRelocations = 0) ||
      decide (cursor.blockRelocations % 2 = 1) != cursor.sawPadding)
    (invalidBaseRelocations "base-relocation block has noncanonical entries or padding")
  return { cursor with
    blocks := cursor.blocks + 1
    previousPageEnd := some (pageRva + baseRelocationPageBytes) }

/-- The blocks, at most as many as there is fuel. -/
def parseBlocks : ℕ → RelocationCursor → Inspect RelocationCursor
  | 0, cursor => .ok cursor
  | fuel + 1, cursor =>
    if cursor.consumed < directoryBytes then do
      parseBlocks fuel (← parseBlock directoryBytes sections expectedSites limits cursor)
    else .ok cursor

/-- A block has more bytes than one, so the fuel is enough for the directory. -/
def parseBaseRelocations (reader : List UInt8) : Inspect BaseRelocationMeasurements := do
  failIf (decide (directoryBytes < baseRelocationBlockHeaderBytes + 4) ||
      decide (directoryBytes % 4 ≠ 0))
    (invalidBaseRelocations "base-relocation directory size is not canonical")
  let cursor ← parseBlocks directoryBytes sections expectedSites limits directoryBytes
    ⟨reader, 0, 0, 0, none, none, 0, 0, false⟩
  failIf (decide (cursor.consumed ≠ directoryBytes) || decide (cursor.blocks = 0) ||
      decide (cursor.entries = 0))
    (invalidBaseRelocations "base-relocation directory is empty or not consumed exactly")
  failIf (expectedSites.any fun expected ↦ decide (expected.length ≠ cursor.entries))
    (.invalidRelocationProvenance "input and output DIR64 relocation counts differ")
  return ⟨cursor.blocks, cursor.entries⟩

end Decoding

end Wrela.LinkEfi
