import Wrela.LinkEfi.ContributionLaws

/-!
# Which directories are accepted

A directory is accepted exactly when the expected sites are admissible and it is their canonical
encoding.
-/

namespace Wrela.LinkEfi

open List Wrela.Wire Wrela.Checked

section

variable {sections : List LinkedSection} {expected : List ℕ} {limits : ImageInspectLimits}

section

variable (h : Follows sections expected limits sites later)
include h

theorem Follows.isPrefix : later <+: expected.drop sites.length := by
  induction later generalizing sites with
  | nil => exact nil_prefix
  | cons site later ih =>
    obtain ⟨hnext, hlater⟩ := h
    obtain ⟨hlt, hsite⟩ := List.getElem?_eq_some_iff.1 hnext.expected
    rw [drop_eq_getElem_cons hlt, hsite, prefix_cons_inj]
    simpa using ih hlater

theorem Follows.increasing :
    later.Pairwise (· < ·) ∧ ∀ last ∈ sites.getLast?, ∀ site ∈ later, last < site := by
  induction later generalizing sites with
  | nil => simp
  | cons site later ih =>
    obtain ⟨hnext, hlater⟩ := h
    obtain ⟨hpairs, hafter⟩ := ih hlater
    have hsite : ∀ other ∈ later, site < other := by simpa using hafter
    refine ⟨pairwise_cons.2 ⟨hsite, hpairs⟩, fun last hlast other hother ↦ ?_⟩
    have hapart := hnext.apart last hlast
    rcases mem_cons.1 hother with rfl | hother
    · omega
    · have hlt := hsite other hother
      omega

theorem Follows.next : ∀ site ∈ later, 8 ∣ site ∧ Covered sections site := by
  induction later generalizing sites with
  | nil => simp
  | cons site later ih =>
    intro other hother
    rcases mem_cons.1 hother with rfl | hother
    · exact ⟨h.1.aligned, h.1.covered⟩
    · exact ih h.2 other hother

theorem Follows.room (hlater : later ≠ []) :
    sites.length + later.length ≤ limits.baseRelocations := by
  induction later generalizing sites with
  | nil => exact absurd rfl hlater
  | cons site later ih =>
    obtain ⟨hnext, hrest⟩ := h
    have hroom := hnext.room
    rcases eq_or_ne later [] with rfl | hne
    · simpa using hroom
    · have hlength := ih hrest hne
      simp only [length_append, length_cons, length_nil] at hlength ⊢
      omega

end

/-- Sites that follow each other up to the number of those expected are the expected ones. -/
theorem Follows.admissible (h : Follows sections expected limits [] sites) (hnonempty : sites ≠ [])
    (hlength : expected.length = sites.length) :
    sites = expected ∧ AdmissibleSites sections limits expected := by
  have hsame : sites = expected := h.isPrefix.eq_of_length hlength.symm
  subst hsame
  have hroom := h.room hnonempty
  refine ⟨rfl, hnonempty, by simpa using hroom, h.increasing.1, fun site hsite ↦ (h.next site hsite).1,
    fun site hsite ↦ (h.next site hsite).2⟩

theorem AdmissibleSites.follows (h : AdmissibleSites sections limits expected)
    (hsites : expected = sites ++ later) : Follows sections expected limits sites later := by
  induction later generalizing sites with
  | nil => trivial
  | cons site later ih =>
    have hmem : site ∈ expected := by simp [hsites]
    have hlength : sites.length < expected.length := by simp [hsites]
    refine ⟨⟨h.aligned site hmem, fun last hlast ↦ ?_, h.covered site hmem, by simp [hsites],
      hlength.trans_le h.length_le⟩, ih (by simp [hsites])⟩
    have hlastMem : last ∈ sites := mem_of_getLast? hlast
    have hincreasing := h.increasing
    rw [hsites] at hincreasing
    have hlt : last < site := (pairwise_append.1 hincreasing).2.2 last hlastMem site mem_cons_self
    have hlastAligned := h.aligned last (by simp [hsites, hlastMem])
    have hsiteAligned := h.aligned site hmem
    omega

theorem length_offsets_le {block : RelocationBlock} (hvalid : block.Valid)
    (hincreasing : block.sites.Pairwise (· < ·)) : block.offsets.length ≤ 4096 := by
  have hoffsets : block.offsets.Pairwise (· < ·) :=
    (pairwise_map.1 hincreasing).imp fun hlt ↦ Nat.lt_of_add_lt_add_left hlt
  have hnodup : block.offsets.Nodup := hoffsets.imp Nat.ne_of_lt
  have hsubset : block.offsets ⊆ List.range 4096 :=
    fun offset hoffset ↦ mem_range.2 (hvalid.offset_lt offset hoffset)
  simpa using (hnodup.subperm hsubset).length_le

variable {directoryBytes : ℕ} {cursor cursor' : RelocationCursor} {sites : List ℕ}

theorem parseBlocks_eq_ok (hordered : OrderedSections sections)
    (hpassed : Passed sections cursor sites)
    (h : parseBlocks directoryBytes sections (some expected) limits fuel cursor = .ok cursor') :
    ∃ blocks : List RelocationBlock, (∀ block ∈ blocks, block.Valid) ∧
      (∀ pageEnd ∈ cursor.previousPageEnd, ∀ block ∈ blocks, pageEnd ≤ block.page) ∧
      blocks.Pairwise (fun left right ↦ left.page + 4096 ≤ right.page) ∧
      Follows sections expected limits sites (blocks.flatMap RelocationBlock.sites) ∧
      BlocksRead sections sites blocks cursor cursor' := by
  induction fuel generalizing cursor sites with
  | zero =>
    cases h
    exact ⟨[], by simp, by simp, .nil, trivial, .nil hpassed⟩
  | succ fuel ih =>
    rw [parseBlocks] at h
    split at h
    · obtain ⟨middle, hblock, h⟩ := bind_eq_ok.1 h
      obtain ⟨block, hvalid, hpage, hfollows, hread⟩ := parseBlock_eq_ok hordered hpassed hblock
      have hmiddle : Passed sections middle (sites ++ block.sites) := by simpa using hread.passed
      obtain ⟨blocks, hvalids, hpages, hpairs, hlater, hreads⟩ := ih hmiddle h
      have hend : middle.previousPageEnd = some (block.page + 4096) := by simpa using hread.pageEnd
      have hafter : ∀ other ∈ blocks, block.page + 4096 ≤ other.page := hpages _ hend
      refine ⟨block :: blocks, by simpa using ⟨hvalid, hvalids⟩, fun pageEnd hmem other hother ↦ ?_,
        pairwise_cons.2 ⟨hafter, hpairs⟩, ?_, ?_⟩
      · have hle := hpage pageEnd hmem
        rcases mem_cons.1 hother with rfl | hother
        · exact hle
        · have hlt := hafter other hother
          omega
      · rw [flatMap_cons, follows_append]
        exact ⟨hfollows, hlater⟩
      · exact hread.append (by simpa using hreads)
    · cases h
      exact ⟨[], by simp, by simp, .nil, trivial, .nil hpassed⟩

theorem parseBlocks_run (hordered : OrderedSections sections) (hfuel : blocks.length ≤ fuel)
    (hpassed : Passed sections cursor sites) (hvalid : ∀ block ∈ blocks, block.Valid)
    (hsmall : ∀ block ∈ blocks, block.offsets.length ≤ 4096)
    (hpageEnd : ∀ pageEnd ∈ cursor.previousPageEnd, ∀ block ∈ blocks, pageEnd ≤ block.page)
    (hpairs : blocks.Pairwise fun left right ↦ left.page + 4096 ≤ right.page)
    (hfollows : Follows sections expected limits sites (blocks.flatMap RelocationBlock.sites))
    (hreader : cursor.reader = blocks.flatMap RelocationBlock.encode ++ rest)
    (hroom : cursor.consumed + (blocks.flatMap RelocationBlock.encode).length = directoryBytes) :
    ∃ cursor', parseBlocks directoryBytes sections (some expected) limits fuel cursor =
        .ok cursor' ∧ BlocksRead sections sites blocks cursor cursor' := by
  induction blocks generalizing fuel cursor sites with
  | nil =>
    refine ⟨cursor, ?_, .nil hpassed⟩
    cases fuel with
    | zero => rfl
    | succ fuel =>
      have hdone : ¬cursor.consumed < directoryBytes := by
        rw [flatMap_nil, length_nil] at hroom
        omega
      rw [parseBlocks, if_neg hdone]
  | cons block blocks ih =>
    obtain ⟨fuel, rfl⟩ : ∃ other, fuel = other + 1 :=
      Nat.exists_eq_succ_of_ne_zero (by rw [length_cons] at hfuel; omega)
    have hlength := length_encode block
    rw [flatMap_cons, length_append] at hroom
    rw [flatMap_cons, append_assoc] at hreader
    rw [flatMap_cons, follows_append] at hfollows
    obtain ⟨hafter, hpairs⟩ := pairwise_cons.1 hpairs
    obtain ⟨middle, hblock, hread, hmiddleReader⟩ := parseBlock_run hordered hpassed
      (hvalid block mem_cons_self) (hsmall block mem_cons_self)
      (fun pageEnd hmem ↦ hpageEnd pageEnd hmem block mem_cons_self) hfollows.1 hreader
      (show cursor.consumed + block.encode.length ≤ directoryBytes by omega)
    have hmiddle : Passed sections middle (sites ++ block.sites) := by simpa using hread.passed
    have hend : middle.previousPageEnd = some (block.page + 4096) := by simpa using hread.pageEnd
    have hconsumed : middle.consumed = cursor.consumed + block.encode.length := by
      simpa using hread.consumed
    obtain ⟨cursor', hblocks, hreads⟩ := ih (Nat.le_of_succ_le_succ hfuel) hmiddle
      (fun other hother ↦ hvalid other (mem_cons_of_mem _ hother))
      (fun other hother ↦ hsmall other (mem_cons_of_mem _ hother))
      (by simpa [hend] using hafter) hpairs hfollows.2 hmiddleReader (by omega)
    refine ⟨cursor', ?_, hread.append (by simpa using hreads)⟩
    have hmore : cursor.consumed < directoryBytes := by omega
    rw [parseBlocks, if_pos hmore, hblock]
    exact hblocks

theorem passed_start (reader : List UInt8) :
    Passed sections ⟨reader, 0, 0, 0, none, none, 0, 0, false⟩ [] :=
  ⟨rfl, rfl, Nat.zero_le _, by simp⟩

theorem four_dvd_length_encode (block : RelocationBlock) : 4 ∣ block.encode.length := by
  rw [length_encode, length_words]
  rcases Nat.mod_two_eq_zero_or_one block.offsets.length with heven | hodd
  · simp only [heven, Nat.zero_ne_one, decide_false, Bool.toNat_false]
    omega
  · simp only [hodd, decide_true, Bool.toNat_true]
    omega

theorem length_encode_ge {block : RelocationBlock} (hvalid : block.Valid) :
    12 ≤ block.encode.length := by
  have hpositive := length_pos_of_ne_nil hvalid.nonempty
  have hunits := four_dvd_length_encode block
  have hlength := length_encode block
  rw [length_words] at hlength
  omega

theorem length_flatMap_encode (blocks : List RelocationBlock) :
    8 * blocks.length ≤ (blocks.flatMap RelocationBlock.encode).length := by
  induction blocks with
  | nil => simp
  | cons block blocks ih =>
    rw [flatMap_cons, length_append, length_encode, length_cons]
    omega

theorem parseBaseRelocations_eq_ok (hordered : OrderedSections sections) {payload rest : List UInt8}
    {measurements : BaseRelocationMeasurements}
    (h : parseBaseRelocations payload.length sections (some expected) limits (payload ++ rest) =
      .ok measurements) :
    AdmissibleSites sections limits expected ∧ Canonical payload expected := by
  unfold parseBaseRelocations at h
  obtain ⟨-, h⟩ := unit_bind_eq_ok.1 h
  obtain ⟨final, hblocks, h⟩ := bind_eq_ok.1 h
  obtain ⟨hdone, h⟩ := unit_bind_eq_ok.1 h
  obtain ⟨hcount, -⟩ := unit_bind_eq_ok.1 h
  simp only [failIf_eq_ok, Bool.or_eq_false_iff, decide_eq_false_iff_not, not_not,
    Option.any_some] at hdone hcount
  obtain ⟨blocks, hvalid, -, hpages, hfollows, hread⟩ :=
    parseBlocks_eq_ok hordered (passed_start _) hblocks
  have hentries : final.entries = (blocks.flatMap RelocationBlock.sites).length := by
    simpa using hread.passed.entries
  have hnonempty : blocks.flatMap RelocationBlock.sites ≠ [] := by
    intro hnil
    rw [hnil] at hentries
    exact hdone.2 hentries
  obtain ⟨hsites, hadmissible⟩ := hfollows.admissible hnonempty (hcount.trans hentries)
  have hconsumed : final.consumed = (blocks.flatMap RelocationBlock.encode).length := by
    simpa using hread.consumed
  have hpayload : payload = blocks.flatMap RelocationBlock.encode :=
    append_inj_left hread.reader (hdone.1.1.symm.trans hconsumed)
  exact ⟨hadmissible, blocks, hvalid, hpages.imp fun hle ↦ by omega, hpayload, hsites.symm⟩

theorem parseBaseRelocations_run {payload : List UInt8} (hordered : OrderedSections sections)
    (rest : List UInt8) (hadmissible : AdmissibleSites sections limits expected)
    (hcanonical : Canonical payload expected) :
    ∃ measurements, parseBaseRelocations payload.length sections (some expected) limits
      (payload ++ rest) = .ok measurements := by
  obtain ⟨blocks, hvalid, hpages, rfl, rfl⟩ := hcanonical
  have hapart : blocks.Pairwise fun left right ↦ left.page + 4096 ≤ right.page := by
    refine hpages.imp_of_mem fun {left right} hleft hright hlt ↦ ?_
    obtain ⟨count, hcount⟩ : 4096 ∣ left.page := (hvalid left hleft).aligned
    obtain ⟨count', hcount'⟩ : 4096 ∣ right.page := (hvalid right hright).aligned
    omega
  have hsmall : ∀ block ∈ blocks, block.offsets.length ≤ 4096 := fun block hblock ↦
    length_offsets_le (hvalid block hblock)
      ((pairwise_flatMap.1 hadmissible.increasing).1 block hblock)
  obtain ⟨final, hrun, hread⟩ := parseBlocks_run hordered
    (show blocks.length ≤ (blocks.flatMap RelocationBlock.encode).length by
      have hlength := length_flatMap_encode blocks
      omega)
    (passed_start (blocks.flatMap RelocationBlock.encode ++ rest)) hvalid hsmall (by simp) hapart
    (hadmissible.follows (nil_append _).symm) rfl (Nat.zero_add _)
  obtain ⟨first, others, rfl⟩ : ∃ first others, blocks = first :: others := by
    refine exists_cons_of_ne_nil ?_
    rintro rfl
    exact hadmissible.nonempty rfl
  have hconsumed := hread.consumed
  have hcount := hread.count
  have hentries := hread.passed.entries
  have hpositive := length_pos_of_ne_nil hadmissible.nonempty
  have hleast := length_encode_ge (hvalid first mem_cons_self)
  have hunits : 4 ∣ ((first :: others).flatMap RelocationBlock.encode).length := by
    rw [length_flatMap]
    refine dvd_sum fun length hlength ↦ ?_
    obtain ⟨block, -, rfl⟩ := mem_map.1 hlength
    exact four_dvd_length_encode block
  have hlarge : 12 ≤ ((first :: others).flatMap RelocationBlock.encode).length := by
    rw [flatMap_cons, length_append]
    omega
  simp only [Nat.zero_add, nil_append, length_cons] at hconsumed hcount hentries
  generalize (first :: others).flatMap RelocationBlock.sites = sites at *
  generalize (first :: others).flatMap RelocationBlock.encode = payload at *
  refine ⟨⟨final.blocks, final.entries⟩, ?_⟩
  have hsmallest : ¬payload.length < 12 := by omega
  have hzero : ¬sites.length = 0 := by omega
  unfold parseBaseRelocations
  rw [hrun]
  simp [failIf, baseRelocationBlockHeaderBytes, hsmallest, Nat.mod_eq_zero_of_dvd hunits, hconsumed,
    hcount, hentries, hzero]

end

/-! ## Provenance of the fixups -/

structure ResolvedRelocation where
  sourceObject : ℕ
  sourceSection : ℕ
  sourceOffset : ℕ
  targetObject : ℕ
  targetSection : ℕ
  outputRva : ℕ
deriving DecidableEq

/-- An external definition with the ordinal of its object. -/
structure ReviewedDefinition where
  name : List UInt8
  object : ℕ
  sectionIndex : ℕ

def reviewedDefinitions (objects : List ProvenanceObject) : List ReviewedDefinition :=
  (objects.flatMap fun object ↦ object.definitions.map fun definition ↦
    ⟨definition.name, object.ordinal, definition.sectionIndex⟩).insertionSort
      fun left right ↦ left.name ≤ right.name

/-- The object and the section that the relocation refers to. -/
def resolveTarget (definitions : List ReviewedDefinition) (object : ProvenanceObject)
    (relocation : InputAddr64Relocation) : Inspect (ℕ × ℕ) := do
  let target ← orFail relocation.target (invalidProvenance "ADDR64 target is unresolved")
  match target with
  | .defined sectionIndex => return (object.ordinal, sectionIndex)
  | .undefinedExternal name => do
    let definition ← orFail (definitions.find? fun candidate ↦ decide (candidate.name = name))
      (invalidProvenance "undefined ADDR64 external has no exact reviewed definition")
    return (definition.object, definition.sectionIndex)

def resolveRelocation (definitions : List ReviewedDefinition) (objects : List ProvenanceObject)
    (object : ProvenanceObject) (relocation : InputAddr64Relocation) :
    Inspect ResolvedRelocation := do
  let source ← orFail object.sections[relocation.sourceSection]?
    (invalidProvenance "ADDR64 source section is missing")
  let sourceRva ← orFail source.contributionRva
    (invalidProvenance "ADDR64 source section is missing from LLD's live contributions")
  let (targetObject, targetSection) ← resolveTarget definitions object relocation
  let target ← orFail (objects[targetObject]?.bind fun target ↦ target.sections[targetSection]?)
    (invalidProvenance "ADDR64 target resolves outside reviewed inputs")
  failIf target.contributionRva.isNone
    (invalidProvenance "ADDR64 target section is missing from LLD's live contributions")
  let outputRva ← orFail (checkedAdd sourceRva relocation.sourceOffset)
    (invalidProvenance "ADDR64 output RVA overflows")
  failIf (decide (source.bytes < relocation.sourceOffset + 8))
    (invalidProvenance "ADDR64 source escapes its exact LLD contribution")
  return ⟨object.ordinal, relocation.sourceSection, relocation.sourceOffset, targetObject,
    targetSection, outputRva⟩

/-- Two neighbours whose sites are less than eight bytes apart. -/
def overlapping : List ResolvedRelocation → Bool
  | left :: right :: rest =>
    decide (right.outputRva < left.outputRva + 8) || overlapping (right :: rest)
  | _ => false

def resolveRelocationProvenance (objects : List ProvenanceObject) (limits : ImageInspectLimits) :
    Inspect (List ResolvedRelocation) := do
  let definitions := reviewedDefinitions objects
  failIf (repeats (fun _ ↦ false) (definitions.map ReviewedDefinition.name))
    (invalidProvenance "duplicate external definitions make ADDR64 resolution ambiguous")
  let relocationCount : ℕ := (objects.map fun object ↦ object.relocations.length).sum
  failIf (decide (relocationCount = 0) || decide (limits.baseRelocations < relocationCount))
    (invalidProvenance "reviewed inputs contain no bounded ADDR64 relocation provenance")
  let evidence ← (objects.flatMap fun object ↦ object.relocations.map fun relocation ↦
    (object, relocation)).mapM fun (object, relocation) ↦
      resolveRelocation definitions objects object relocation
  let evidence := evidence.insertionSort fun left right ↦ left.outputRva ≤ right.outputRva
  failIf (overlapping evidence)
    (invalidProvenance "translated ADDR64 output sites are duplicate or overlapping")
  return evidence

/-- What the inspection finds out about the fixups of an image. -/
structure ImageRelocations where
  relocationDirectoryBytes : ℕ
  baseRelocationBlocks : ℕ
  baseRelocations : ℕ
  evidence : List ResolvedRelocation
  sections : List LinkedSection
deriving DecidableEq

/-- The stages of the inspection that the fixups depend on; the other ones only reject an image. -/
def inspectLinkedImage (image contributionMap : List UInt8) (inputs : List CoffProvenanceInput)
    (limits : ImageInspectLimits) : Inspect ImageRelocations := do
  let pe ← parsePeHeader image limits
  let objects ← inspectProvenanceInputs inputs limits
  let objects ← parseLldContributionMap contributionMap pe objects limits
  let evidence ← resolveRelocationProvenance objects limits
  let expectedSites := evidence.map ResolvedRelocation.outputRva
  let relocations ← parseBaseRelocations pe.relocationBytes pe.sections (some expectedSites) limits
    ((image.drop pe.relocationFileOffset).take pe.relocationBytes)
  return ⟨pe.relocationBytes, relocations.blocks, relocations.entries, evidence, pe.sections⟩

end Wrela.LinkEfi

/-!
## Exactness of the provenance

The sites of an accepted image are the translated `ADDR64` relocations of its inputs, each of them
once, and its base relocations are the canonical encoding of these sites.
-/

namespace Wrela.LinkEfi

open List Wrela.Wire Wrela.Checked

/-- An `ADDR64` relocation of the inputs. -/
structure InputSite where
  object : ℕ
  sectionIndex : ℕ
  offset : ℕ

def inputSites (inputs : List CoffProvenanceInput) : List InputSite :=
  inputs.flatMap fun input ↦
    (addr64Records input.file).map fun record ↦ ⟨input.ordinal, record.1, record.2⟩

/-- The address in the image: that of the row of its section, plus the offset. -/
def InputSite.At (placements : List Placement) (site : InputSite) (address : ℕ) : Prop :=
  ∃ placement ∈ placements, placement.place = (site.object, site.sectionIndex) ∧
    address = placement.row.address + site.offset

def objectSites (object : ProvenanceObject) : List InputSite :=
  object.relocations.map fun relocation ↦
    ⟨object.ordinal, relocation.sourceSection, relocation.sourceOffset⟩

theorem flatMap_objectSites (h : List.Forall₂ ProvenanceObject.Fresh objects inputs) :
    objects.flatMap objectSites = inputSites inputs := by
  induction h with
  | nil => rfl
  | @cons object input objects inputs hfresh hrest ih =>
    have hsites : objectSites object =
        (addr64Records input.file).map fun record ↦ ⟨input.ordinal, record.1, record.2⟩ := by
      rw [← hfresh.relocations, ← hfresh.ordinal, map_map]
      rfl
    rw [flatMap_cons, ih, hsites]
    rfl

theorem exists_fresh (h : List.Forall₂ ProvenanceObject.Fresh objects inputs)
    (hobject : object ∈ objects) : ∃ input, object.Fresh input := by
  induction h with
  | nil => cases hobject
  | cons hfresh hrest ih =>
    rcases mem_cons.1 hobject with rfl | hobject
    · exact ⟨_, hfresh⟩
    · exact ih hobject

theorem numbered_of_fresh (h : List.Forall₂ ProvenanceObject.Fresh objects inputs)
    (hordinal : ∀ index (object : ProvenanceObject), objects[index]? = some object →
      object.ordinal = index) : Numbered objects where
  ordinal := hordinal
  sectionOrdinal object hobject sectionIndex source hsource := by
    obtain ⟨input, hfresh⟩ := exists_fresh h hobject
    exact (hfresh.sections sectionIndex source hsource).1

section Resolve

variable {objects : List ProvenanceObject} {inputs : List CoffProvenanceInput}
  {placements : List Placement}

theorem located_objectSites (placements : List Placement) (objects : List ProvenanceObject) :
    (located placements objects).flatMap objectSites = objects.flatMap objectSites := by
  have hmaps : (located placements objects).map objectSites = objects.map objectSites := by
    refine ext_getElem? fun index ↦ ?_
    rw [located, List.getElem?_map, List.getElem?_map, List.getElem?_mapIdx]
    cases objects[index]? <;> rfl
  rw [flatMap_def, flatMap_def, hmaps]

section

variable (hfresh : List.Forall₂ ProvenanceObject.Fresh objects inputs)
  (hordinal : ∀ index (object : ProvenanceObject), objects[index]? = some object → object.ordinal = index)
include hfresh hordinal

theorem resolveRelocation_at (hobject : object ∈ located placements objects)
    (h : resolveRelocation definitions (located placements objects) object relocation = .ok resolved) :
    InputSite.At placements ⟨object.ordinal, relocation.sourceSection, relocation.sourceOffset⟩
      resolved.outputRva := by
  unfold resolveRelocation at h
  obtain ⟨source, hsource, h⟩ := bind_eq_ok.1 h
  obtain ⟨sourceRva, hrva, h⟩ := bind_eq_ok.1 h
  obtain ⟨⟨targetObject, targetSection⟩, -, h⟩ := bind_eq_ok.1 h
  obtain ⟨target, -, h⟩ := bind_eq_ok.1 h
  obtain ⟨-, h⟩ := unit_bind_eq_ok.1 h
  obtain ⟨outputRva, houtput, h⟩ := bind_eq_ok.1 h
  obtain ⟨-, h⟩ := unit_bind_eq_ok.1 h
  cases h
  obtain ⟨rfl, -⟩ := checkedAdd_eq_some.1 (orFail_eq_ok.1 houtput)
  obtain ⟨index, hindex⟩ := mem_iff_getElem?.1 hobject
  have hplaced : ((located placements objects)[index]?.bind fun object ↦
      object.sections[relocation.sourceSection]?) = some source := by
    rw [hindex]
    exact orFail_eq_ok.1 hsource
  obtain ⟨original, unplaced, horiginal, hsection, rfl⟩ := getElem?_located hplaced
  have hsame : object.ordinal = index := by
    rw [located, List.getElem?_mapIdx, horiginal] at hindex
    cases hindex
    exact hordinal index original horiginal
  by_cases hmem : (index, relocation.sourceSection) ∈ placements.map Placement.place
  · obtain ⟨placement, hplacement, hplace, haddress⟩ := locate_of_mem hmem unplaced
    refine ⟨placement, hplacement, by rw [hplace, hsame], ?_⟩
    have hrva' := orFail_eq_ok.1 hrva
    rw [haddress] at hrva'
    cases hrva'
    rfl
  · obtain ⟨input, hinput⟩ := exists_fresh hfresh (mem_of_getElem? horiginal)
    have hnone : placements.find? (fun placement ↦
        decide (placement.place = (index, relocation.sourceSection))) = none := by
      refine List.find?_eq_none.2 fun placement hplacement ↦ ?_
      have hne : placement.place ≠ (index, relocation.sourceSection) :=
        fun hplace ↦ hmem (hplace ▸ mem_map_of_mem hplacement)
      simpa using hne
    have hrva' := orFail_eq_ok.1 hrva
    rw [locate, hnone, (hinput.sections _ unplaced hsection).2.2] at hrva'
    cases hrva'

theorem resolveRelocationProvenance_at
    (h : resolveRelocationProvenance (located placements objects) limits = .ok evidence) :
    ∃ addresses, List.Forall₂ (InputSite.At placements) (inputSites inputs) addresses ∧
      addresses.Perm (evidence.map ResolvedRelocation.outputRva) := by
  unfold resolveRelocationProvenance at h
  iterate 2 obtain ⟨-, h⟩ := unit_bind_eq_ok.1 h
  obtain ⟨resolved, hresolved, h⟩ := bind_eq_ok.1 h
  obtain ⟨-, h⟩ := unit_bind_eq_ok.1 h
  cases h
  refine ⟨resolved.map ResolvedRelocation.outputRva, ?_,
    ((perm_insertionSort _ resolved).map _).symm⟩
  have hsites : (((located placements objects).flatMap fun object ↦
      object.relocations.map fun relocation ↦ (object, relocation)).map fun pair ↦
        InputSite.mk pair.1.ordinal pair.2.sourceSection pair.2.sourceOffset) = inputSites inputs := by
    rw [← flatMap_objectSites hfresh, ← located_objectSites placements, map_flatMap]
    simp only [map_map]
    rfl
  rw [← hsites, List.forall₂_map_left_iff, List.forall₂_map_right_iff]
  have hmem (pair : ProvenanceObject × InputAddr64Relocation)
      (hpair : pair ∈ (located placements objects).flatMap fun object ↦
        object.relocations.map fun relocation ↦ (object, relocation)) :
      pair.1 ∈ located placements objects := by
    obtain ⟨object, hobject, hpair⟩ := mem_flatMap.1 hpair
    obtain ⟨relocation, -, rfl⟩ := mem_map.1 hpair
    exact hobject
  refine ((List.forall₂_and_left _ _).2 ⟨hmem, mapM_eq_ok.1 hresolved⟩).imp ?_
  rintro ⟨object, relocation⟩ resolved ⟨hobject, hresolve⟩
  exact resolveRelocation_at hfresh hordinal hobject hresolve

end

end Resolve

/-- Every `ADDR64` relocation of the inputs has one site in the image and every site is one of them,
at the row of its section; and the base relocations are the encoding of the sites. -/
structure ExactProvenance (image contributionMap : List UInt8) (inputs : List CoffProvenanceInput)
    (limits : ImageInspectLimits) (sites : List ℕ) : Prop where
  increasing : sites.Pairwise (· < ·)
  payload : ∃ pe, parsePeHeader image limits = .ok pe ∧
    Canonical ((image.drop pe.relocationFileOffset).take pe.relocationBytes) sites
  translated : ∃ objects placements addresses, inspectProvenanceInputs inputs limits = .ok objects ∧
    Placements objects (contributionRows (contributionMap.splitOn 0x0a).dropLast) placements ∧
    List.Forall₂ (InputSite.At placements) (inputSites inputs) addresses ∧ addresses.Perm sites

theorem inspectLinkedImage_exact
    (h : inspectLinkedImage image contributionMap inputs limits = .ok measurements) :
    ExactProvenance image contributionMap inputs limits
      (measurements.evidence.map ResolvedRelocation.outputRva) := by
  unfold inspectLinkedImage at h
  obtain ⟨pe, hpe, h⟩ := bind_eq_ok.1 h
  obtain ⟨objects, hobjects, h⟩ := bind_eq_ok.1 h
  obtain ⟨placed, hplaced, h⟩ := bind_eq_ok.1 h
  obtain ⟨evidence, hevidence, h⟩ := bind_eq_ok.1 h
  obtain ⟨relocations, hrelocations, h⟩ := bind_eq_ok.1 h
  cases h
  obtain ⟨hfresh, hordinal⟩ := inspectProvenanceInputs_fresh hobjects
  obtain ⟨placements, rfl, hplacements⟩ :=
    parseLldContributionMap_placed (numbered_of_fresh hfresh hordinal) hplaced
  obtain ⟨addresses, haddresses, hperm⟩ := resolveRelocationProvenance_at hfresh hordinal hevidence
  obtain ⟨hordered, hwithin⟩ := parsePeHeader_eq_ok hpe
  have hlength : ((image.drop pe.relocationFileOffset).take pe.relocationBytes).length =
      pe.relocationBytes := by
    rw [List.length_take, length_drop]
    omega
  have hdirectory := @parseBaseRelocations_eq_ok pe.sections
    (evidence.map ResolvedRelocation.outputRva) limits hordered
    ((image.drop pe.relocationFileOffset).take pe.relocationBytes) [] relocations
  rw [hlength, append_nil] at hdirectory
  obtain ⟨hadmissible, hcanonical⟩ := hdirectory hrelocations
  exact ⟨hadmissible.increasing, ⟨pe, hpe, hcanonical⟩, objects, placements, addresses, hobjects,
    hplacements, haddresses, hperm⟩

end Wrela.LinkEfi

/-!
## Relocation provenance is exact

Base relocations are accepted exactly where they are the one canonical encoding of admissible sites,
and the sites of an accepted image are the translated `ADDR64` relocations of its inputs.
-/

namespace Wrela.LinkEfi

open List Wrela.Wire Wrela.Checked

/-- The sites are multiples of eight; apart from that they are what the encoding lists. -/
theorem relocationProvenance_exact :
    (∀ (sections : List LinkedSection) (limits : ImageInspectLimits) (sites : List ℕ)
        (payload rest : List UInt8), OrderedSections sections →
      ((∃ measurements, parseBaseRelocations payload.length sections (some sites) limits
          (payload ++ rest) = .ok measurements) ↔
        AdmissibleSites sections limits sites ∧ Canonical payload sites ∧
          ∀ payload', Canonical payload' sites → payload' = payload)) ∧
      ∀ (image contributionMap : List UInt8) (inputs : List CoffProvenanceInput)
        (limits : ImageInspectLimits) (measurements : ImageRelocations),
        inspectLinkedImage image contributionMap inputs limits = .ok measurements →
          ExactProvenance image contributionMap inputs limits
            (measurements.evidence.map ResolvedRelocation.outputRva) := by
  refine ⟨fun sections limits sites payload rest hordered ↦ ⟨?_, ?_⟩,
    fun _ _ _ _ _ ↦ inspectLinkedImage_exact⟩
  · rintro ⟨measurements, hparse⟩
    obtain ⟨hadmissible, hcanonical⟩ := parseBaseRelocations_eq_ok hordered hparse
    exact ⟨hadmissible, hcanonical, fun payload' hother ↦ canonical_unique hother hcanonical⟩
  · rintro ⟨hadmissible, hcanonical, -⟩
    exact parseBaseRelocations_run hordered rest hadmissible hcanonical

def textSection : LinkedSection := ⟨ascii ".text", 0x1000, 0x1000, 0x200, 0x200, 0x60000020⟩

/-- The canonical encoding of a single covered site is rejected, for the site is not aligned. -/
theorem unalignedSite_rejected :
    Canonical (RelocationBlock.encode ⟨0x1000, [4]⟩) [0x1004] ∧ OrderedSections [textSection] ∧
      [0x1004].Pairwise (· < ·) ∧ (∀ site ∈ [0x1004], Covered [textSection] site) ∧
      parseBaseRelocations 12 [textSection] (some [0x1004]) ⟨16, 16⟩
          (RelocationBlock.encode ⟨0x1000, [4]⟩) =
        .error (invalidBaseRelocations
          "base-relocation target is unaligned, overlapping, or unmapped") := by
  refine ⟨⟨[⟨0x1000, [4]⟩], ?_, pairwise_singleton .., rfl, rfl⟩,
    ⟨pairwise_singleton .., ?_⟩, pairwise_singleton .., ?_, ?_⟩
  · intro block hblock
    rw [mem_singleton.1 hblock]
    exact ⟨⟨1, rfl⟩, by norm_num, by simp, by decide⟩
  · intro linked hlinked
    rw [mem_singleton.1 hlinked]
    decide
  · intro site hsite
    rw [mem_singleton.1 hsite]
    exact ⟨textSection, mem_cons_self, by decide⟩
  · decide

/-- A record of the section table of the image or of an object. -/
def sectionRecord (name : String) (virtualBytes virtualAddress fileBytes fileOffset relocations count
    characteristics : ℕ) : List UInt8 :=
  ascii name ++ List.replicate (8 - name.length) 0 ++
    [virtualBytes, virtualAddress, fileBytes, fileOffset, relocations, 0].flatMap (leBytes 4) ++
    leBytes 2 count ++ leBytes 2 0 ++ leBytes 4 characteristics

def sampleImage : List UInt8 :=
  List.replicate 0x3c 0 ++ leBytes 4 0x78 ++ List.replicate 0x38 0 ++ ascii "PE" ++ [0, 0] ++
    (leBytes 2 0xaa64 ++ leBytes 2 2 ++ List.replicate 16 0) ++
    (List.replicate 32 0 ++ leBytes 4 4096 ++ List.replicate 20 0 ++ leBytes 4 0x3000 ++
      leBytes 4 512 ++ List.replicate 88 0 ++ leBytes 4 0x2000 ++ leBytes 4 12 ++
      List.replicate 80 0) ++
    sectionRecord ".data" 8 0x1000 0 0 0 0 0xc0000040 ++
    sectionRecord ".reloc" 12 0x2000 512 512 0 0 0x42000040 ++
    List.replicate 48 0 ++ RelocationBlock.encode ⟨0x1000, [0]⟩ ++ List.replicate 500 0

/-- One section of eight bytes, with one relocation to the symbol that it defines. -/
def sampleObject : List UInt8 :=
  leBytes 2 0xaa64 ++ leBytes 2 1 ++ leBytes 4 0 ++ leBytes 4 78 ++ leBytes 4 1 ++ leBytes 4 0 ++
    sectionRecord ".data" 0 0 8 60 68 1 0xc0400040 ++ List.replicate 8 0 ++
    (leBytes 4 0 ++ leBytes 4 0 ++ leBytes 2 0x0e) ++
    (ascii "value" ++ [0, 0, 0] ++ leBytes 4 0 ++ leBytes 2 1 ++ leBytes 2 0 ++ [2, 0]) ++ leBytes 4 4

def sampleMap : List UInt8 :=
  mapHeader ++ [0x0a] ++ ascii "00001000 00000008  4096 .data" ++ [0x0a] ++
    ascii "00001000 00000008     8         a.o:(.data)" ++ [0x0a] ++
    ascii "00002000 0000000c  4096 .reloc" ++ [0x0a]

def sampleInputs : List CoffProvenanceInput := [⟨0, ascii "a.o", sampleObject⟩]

def sampleLimits : ImageInspectLimits := ⟨16, 16⟩

def sampleRelocations : ImageRelocations :=
  ⟨12, 1, 1, [⟨0, 0, 0, 0, 0, 0x1000⟩],
    [⟨ascii ".data", 0x1000, 8, 0, 0, 0xc0000040⟩, ⟨ascii ".reloc", 0x2000, 12, 512, 512, 0x42000040⟩]⟩

theorem relocationProvenance_exact_sample :
    (∃ measurements, parseBaseRelocations 12 sampleRelocations.sections (some [0x1000]) sampleLimits
        (RelocationBlock.encode ⟨0x1000, [0]⟩ ++ [1, 2, 3]) = .ok measurements) ∧
      ExactProvenance sampleImage sampleMap sampleInputs sampleLimits [0x1000] := by
  have hordered : OrderedSections sampleRelocations.sections :=
    ⟨by simp [sampleRelocations, LinkedSection.endAddress],
      by simp [sampleRelocations, LinkedSection.endAddress]⟩
  have hcanonical : Canonical (RelocationBlock.encode ⟨0x1000, [0]⟩) [0x1000] := by
    refine ⟨[⟨0x1000, [0]⟩], fun block hblock ↦ ?_, pairwise_singleton .., rfl, rfl⟩
    rw [mem_singleton.1 hblock]
    exact ⟨⟨1, rfl⟩, by norm_num, by simp, by decide⟩
  have hadmissible : AdmissibleSites sampleRelocations.sections sampleLimits [0x1000] := by
    refine ⟨by simp, by decide, pairwise_singleton .., by decide, fun site hsite ↦ ?_⟩
    rw [mem_singleton.1 hsite]
    exact ⟨_, mem_cons_self, by decide⟩
  refine ⟨(relocationProvenance_exact.1 sampleRelocations.sections sampleLimits [0x1000]
    (RelocationBlock.encode ⟨0x1000, [0]⟩) [1, 2, 3] hordered).2 ⟨hadmissible, hcanonical, ?_⟩,
    relocationProvenance_exact.2 sampleImage sampleMap sampleInputs sampleLimits sampleRelocations
      (by decide +kernel)⟩
  exact fun payload' hother ↦ canonical_unique hother hcanonical

end Wrela.LinkEfi
