import Mathlib.Data.List.Lex
import Wrela.LinkEfi.Objects

/-!
# Contributions of the linker

The map of the linker says where the sections of the inputs went: under each section of the image one
row for each section of an object, named by the path of the object and its own name.  Rows of one name
are matched with the sections of that name in the order of the object.
-/

namespace Wrela.LinkEfi

open Wrela.Wire Wrela.Checked

/-- What the header of the image says that the inspection of fixups depends on. -/
structure ParsedPe where
  sectionAlignment : ℕ
  relocationFileOffset : ℕ
  relocationBytes : ℕ
  sections : List LinkedSection

structure ContributionKey where
  key : List UInt8
  object : ℕ
  sectionIndex : ℕ
  objectOrdinal : ℕ
  sectionOrdinal : ℕ
  bytes : ℕ
  alignment : ℕ
  characteristics : ℕ
  repeatedNameIsSupported : Bool
  retired : Bool
  matched : Bool

structure ContributionMapState where
  sawHeader : Bool
  outputIndex : ℕ
  currentOutput : Option ℕ
  previousContributionEnd : Option ℕ
  keys : List ContributionKey

def contributionKey (path name : List UInt8) : List UInt8 := path ++ ascii ":(" ++ name ++ ascii ")"

/-- Keys are sorted by their text, then by the place of their section. -/
def ContributionKey.rank (candidate : ContributionKey) : List ℕ ×ₗ ℕ ×ₗ ℕ :=
  toLex (candidate.key.map UInt8.toNat, toLex (candidate.objectOrdinal, candidate.sectionOrdinal))

/-- The keys of all sections, before they are sorted. -/
def sectionKeys (objects : List ProvenanceObject) : List ContributionKey :=
  objects.zipIdx.flatMap fun (object, objectIndex) ↦
    object.sections.zipIdx.map fun (source, sectionIndex) ↦
      ⟨contributionKey object.path source.name, objectIndex, sectionIndex, object.ordinal,
        source.ordinal, source.bytes, source.alignment, source.characteristics,
        repeatedProvenanceSectionNameIsSupported source.name, false, false⟩

/-- Neighbours of one key must be sections of one object with a name that may repeat. -/
def checkNeighbours : List ContributionKey → Inspect Unit
  | left :: right :: rest => do
    if left.key = right.key then do
      failIf (decide (left.objectOrdinal ≠ right.objectOrdinal))
        (invalidProvenance "duplicate input contribution identity spans reviewed objects")
      failIf (!left.repeatedNameIsSupported || !right.repeatedNameIsSupported)
        (invalidProvenance "duplicate input contribution identities are ambiguous")
    checkNeighbours (right :: rest)
  | _ => .ok ()

def contributionKeys (objects : List ProvenanceObject) (limits : ImageInspectLimits) :
    Inspect (List ContributionKey) := do
  let count := (objects.map fun object ↦ object.sections.length).sum
  failIf (decide (limits.sections < count)) (.limitExceeded "input COFF sections" limits.sections count)
  let keys := (sectionKeys objects).insertionSort fun left right ↦ left.rank ≤ right.rank
  checkNeighbours keys
  return keys

def isLldHexDigit (byte : UInt8) : Bool :=
  isAsciiDigit byte || (decide (0x61 ≤ byte) && decide (byte ≤ 0x66))

def lldHexDigit (byte : UInt8) : ℕ :=
  if isAsciiDigit byte then byte.toNat - 0x30 else byte.toNat - 0x61 + 10

def parseLldHex (value : List UInt8) : Inspect ℕ := do
  failIf (decide (value.length ≠ 8) || !value.all isLldHexDigit)
    (invalidProvenance "LLD contribution-map hexadecimal field is noncanonical")
  return value.foldl (fun total byte ↦ total * 16 + lldHexDigit byte) 0

structure ContributionRow where
  address : ℕ
  bytes : ℕ
  alignment : ℕ
  rest : List UInt8

def space : UInt8 := 0x20

def parseLldContributionRow (encoded : List UInt8) : Inspect ContributionRow := do
  failIf (decide (encoded.length < 25) || encoded[8]? != some space || encoded[17]? != some space ||
      encoded[23]? != some space)
    (invalidProvenance "LLD contribution-map row has unsupported columns")
  let address ← parseLldHex (encoded.take 8)
  let bytes ← parseLldHex ((encoded.drop 9).take 8)
  let field := (encoded.drop 18).take 5
  let digits := field.dropWhile (· == space)
  failIf digits.isEmpty (invalidProvenance "LLD contribution-map alignment is empty")
  failIf (!digits.all isAsciiDigit || (digits.head? == some 0x30 && decide (digits.length ≠ 1)))
    (invalidProvenance "LLD contribution-map alignment is noncanonical")
  return ⟨address, bytes, digits.foldl (fun total byte ↦ total * 10 + (byte.toNat - 0x30)) 0,
    encoded.drop 24⟩

def ContributionRow.indentation (row : ContributionRow) : ℕ := (row.rest.takeWhile (· == space)).length

def unresolvedKey : InspectError :=
  invalidProvenance "LLD contribution does not resolve in original COFF section order"

def ProvenanceObject.sectionOf? (objects : List ProvenanceObject) (candidate : ContributionKey) :
    Option (ProvenanceObject × ProvenanceSection) := do
  let object ← objects[candidate.object]?
  let source ← object.sections[candidate.sectionIndex]?
  return (object, source)

/-- The candidates of the key are examined in order, up to the first that the row describes. -/
def examine (objects : List ProvenanceObject) (key : List UInt8) (bytes alignment : ℕ) :
    List ContributionKey → Inspect (List ContributionKey × ℕ × ℕ)
  | [] => .error unresolvedKey
  | candidate :: rest =>
    if candidate.key ≠ key ∨ candidate.retired = true then do
      let (rest, place) ← examine objects key bytes alignment rest
      return (candidate :: rest, place)
    else do
      let (object, source) ← orFail (ProvenanceObject.sectionOf? objects candidate)
        (invalidProvenance "LLD contribution identity resolves outside reviewed inputs")
      failIf (decide (object.ordinal ≠ candidate.objectOrdinal) ||
          decide (source.ordinal ≠ candidate.sectionOrdinal) ||
          decide (source.bytes ≠ candidate.bytes) || decide (source.alignment ≠ candidate.alignment) ||
          decide (source.characteristics ≠ candidate.characteristics))
        (invalidProvenance "LLD contribution candidate differs from sealed COFF identity")
      if source.contributionOutput = none ∧ source.contributionRva = none ∧
          bytes = candidate.bytes ∧ alignment = candidate.alignment then
        return ({ candidate with retired := true, matched := true } :: rest,
          candidate.object, candidate.sectionIndex)
      else do
        let (rest, place) ← examine objects key bytes alignment rest
        return ({ candidate with retired := true, matched := false } :: rest, place)

def resolveContributionKey (keys : List ContributionKey) (objects : List ProvenanceObject)
    (key : List UInt8) (bytes alignment : ℕ) : Inspect (List ContributionKey × ℕ × ℕ) := do
  failIf (keys.all fun candidate ↦ decide (candidate.key ≠ key))
    (invalidProvenance "LLD contribution does not name a reviewed input section")
  examine objects key bytes alignment keys

def mapHeader : List UInt8 := ascii "Address  Size     Align Out     In      Symbol"

/-- The section of the object is placed in the output. -/
def ProvenanceObject.place (objects : List ProvenanceObject) (object sectionIndex output address : ℕ) :
    List ProvenanceObject :=
  objects.modify object fun object ↦ { object with
    sections := object.sections.modify sectionIndex fun source ↦ { source with
      contributionOutput := some output, contributionRva := some address } }

def outputRow (pe : ParsedPe) (state : ContributionMapState) (row : ContributionRow) :
    Inspect ContributionMapState := do
  let expected ← orFail pe.sections[state.outputIndex]?
    (invalidProvenance "LLD contribution map contains an extra output section")
  failIf (decide (row.rest ≠ expected.name) || decide (row.address ≠ expected.virtualAddress) ||
      decide (row.bytes ≠ expected.virtualBytes) || decide (row.alignment ≠ pe.sectionAlignment))
    (invalidProvenance "LLD output-section layout disagrees with PE32+")
  return { state with
    currentOutput := some state.outputIndex
    outputIndex := state.outputIndex + 1
    previousContributionEnd := none }

def contributionRow (pe : ParsedPe) (state : ContributionMapState) (objects : List ProvenanceObject)
    (row : ContributionRow) : Inspect (ContributionMapState × List ProvenanceObject) := do
  let outputIndex ← orFail state.currentOutput
    (invalidProvenance "LLD contribution appears before its output section")
  let output ← orFail pe.sections[outputIndex]?
    (invalidProvenance "LLD contribution output index is invalid")
  let key := row.rest.drop 8
  failIf key.isEmpty (invalidProvenance "LLD contribution identity is empty")
  let (keys, object, sectionIndex) ←
    resolveContributionKey state.keys objects key row.bytes row.alignment
  let source ← orFail (objects[object]?.bind fun object ↦ object.sections[sectionIndex]?)
    (invalidProvenance "LLD contribution identity resolves outside reviewed inputs")
  let rowEnd ← orFail (checkedAdd row.address row.bytes)
    (invalidProvenance "LLD contribution range overflows")
  let outputEnd ← orFail (checkedAdd output.virtualAddress output.virtualBytes)
    (invalidProvenance "PE output-section range overflows")
  failIf (source.contributionOutput.isSome || source.contributionRva.isSome ||
      decide (row.bytes ≠ source.bytes) || decide (row.alignment ≠ source.alignment) ||
      decide (row.alignment = 0) || decide (row.address % row.alignment ≠ 0) ||
      decide (row.address < output.virtualAddress) || decide (outputEnd < rowEnd) ||
      state.previousContributionEnd.any fun previous ↦ decide (row.address < previous))
    (invalidProvenance "LLD input contribution is duplicate, substituted, or out of bounds")
  return ({ state with keys, previousContributionEnd := some rowEnd },
    ProvenanceObject.place objects object sectionIndex outputIndex row.address)

def symbolRow (pe : ParsedPe) (state : ContributionMapState) (row : ContributionRow) :
    Inspect Unit := do
  let outputIndex ← orFail state.currentOutput
    (invalidProvenance "LLD symbol appears before its output section")
  let output ← orFail pe.sections[outputIndex]?
    (invalidProvenance "LLD symbol output index is invalid")
  let outputEnd ← orFail (checkedAdd output.virtualAddress output.virtualBytes)
    (invalidProvenance "PE output-section range overflows")
  failIf (decide (row.bytes ≠ 0) || decide (row.alignment ≠ 0) || decide (row.rest.length = 16) ||
      decide (row.address < output.virtualAddress) || decide (outputEnd < row.address))
    (invalidProvenance "LLD contribution-map symbol record is malformed")

def processContributionMapLine (pe : ParsedPe)
    (progress : ContributionMapState × List ProvenanceObject) (line : List UInt8) :
    Inspect (ContributionMapState × List ProvenanceObject) := do
  let (state, objects) := progress
  failIf (line.contains 0x0d || !line.all fun byte ↦ decide (byte < 0x80))
    (invalidProvenance "LLD contribution map is not canonical ASCII")
  if state.sawHeader = false then do
    failIf (decide (line ≠ mapHeader))
      (invalidProvenance "LLD contribution map header is missing or unsupported")
    return ({ state with sawHeader := true }, objects)
  else do
    let row ← parseLldContributionRow line
    match row.indentation with
    | 0 => do
      let state ← outputRow pe state row
      return (state, objects)
    | 8 => contributionRow pe state objects row
    | 16 => do
      symbolRow pe state row
      return (state, objects)
    | _ => .error (invalidProvenance "LLD contribution map contains an unsupported record")

/-- A section that is not empty and shares its key must have been matched. -/
def missingRepeated (keys : List ContributionKey) : Bool :=
  keys.any fun candidate ↦
    decide (1 < (keys.filter fun other ↦ decide (other.key = candidate.key)).length) &&
      candidate.repeatedNameIsSupported && decide (candidate.bytes ≠ 0) && !candidate.matched

/-- The objects with the addresses of their sections. -/
def parseLldContributionMap (text : List UInt8) (pe : ParsedPe) (objects : List ProvenanceObject)
    (limits : ImageInspectLimits) : Inspect (List ProvenanceObject) := do
  let keys ← contributionKeys objects limits
  let lines := text.splitOn 0x0a
  let (state, objects) ← lines.dropLast.foldlM (processContributionMapLine pe)
    (⟨false, 0, none, none, keys⟩, objects)
  failIf text.isEmpty .truncated
  failIf (lines.getLast? != some [])
    (invalidProvenance "LLD contribution map is not canonically LF-terminated")
  failIf (!state.sawHeader || decide (state.outputIndex ≠ pe.sections.length))
    (invalidProvenance "LLD contribution map has missing or extra output sections")
  failIf (missingRepeated state.keys)
    (invalidProvenance "nonempty repeated unwind section is missing from LLD contributions")
  return objects

end Wrela.LinkEfi
