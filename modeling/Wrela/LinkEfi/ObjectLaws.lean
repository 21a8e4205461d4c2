import Wrela.LinkEfi.BaseRelocationLaws
import Wrela.Wire.Folds

/-!
# What the headers promise

The sections of an accepted image are ordered, and the relocations that are collected from an accepted
object are those that its section table lists.
-/

namespace Wrela.LinkEfi

open List Wrela.Wire Wrela.Checked

theorem le_alignUp (value : ℕ) (h : 0 < alignment) : value ≤ alignUp value alignment := by
  have hdiv := Nat.div_add_mod (value + (alignment - 1)) alignment
  have hmod := Nat.mod_lt (value + (alignment - 1)) h
  rw [alignUp, mul_comm]
  omega

theorem leField_four_lt : leField 4 bytes offset < 2 ^ 32 := by
  have hvalue := leValue_lt ((bytes.drop offset).take 4)
  have hlength : ((bytes.drop offset).take 4).length ≤ 4 := length_take_le ..
  calc leField 4 bytes offset < 256 ^ ((bytes.drop offset).take 4).length := hvalue
    _ ≤ 256 ^ 4 := Nat.pow_le_pow_right (by norm_num) hlength
    _ = 2 ^ 32 := by norm_num

/-- The sections lie below the address of the next one. -/
def PeCursor.Ordered (cursor : PeCursor) : Prop :=
  OrderedSections cursor.sections ∧
    ∀ linked ∈ cursor.sections, linked.endAddress ≤ cursor.nextVirtualAddress

variable {index : ℕ} {header : List UInt8}

theorem readPeSection_ordered (hsize : sizeOfImage < 2 ^ 32) (hordered : cursor.Ordered)
    (h : readPeSection file sizeOfImage cursor index = .ok cursor') : cursor'.Ordered := by
  unfold readPeSection at h
  obtain ⟨record, -, h⟩ := bind_eq_ok.1 h
  obtain ⟨name, -, h⟩ := bind_eq_ok.1 h
  obtain ⟨characteristics, -, h⟩ := bind_eq_ok.1 h
  obtain ⟨hlayout, h⟩ := unit_bind_eq_ok.1 h
  simp only [failIf_eq_ok, Bool.or_eq_false_iff, decide_eq_false_iff_not, not_not] at hlayout
  cases h
  obtain ⟨⟨⟨⟨⟨⟨⟨⟨⟨⟨-, -⟩, hnext⟩, hend⟩, -⟩, -⟩, -⟩, -⟩, -⟩, -⟩, -⟩ := hlayout
  obtain ⟨⟨hpairs, hbounded⟩, hbelow⟩ := hordered
  refine ⟨⟨?_, ?_⟩, ?_⟩
  · refine pairwise_append.2 ⟨hpairs, pairwise_singleton .., ?_⟩
    intro left hleft right hright
    rw [mem_singleton.1 hright]
    exact (hbelow left hleft).trans_eq hnext.symm
  · intro linked hlinked
    rcases mem_append.1 hlinked with hold | hnew
    · exact hbounded linked hold
    · rw [mem_singleton.1 hnew, LinkedSection.endAddress]
      dsimp only
      omega
  · intro linked hlinked
    have hup := le_alignUp (leField 4 record 12 + leField 4 record 8)
      (show 0 < peSectionAlignment by decide)
    rcases mem_append.1 hlinked with hold | hnew
    · have hle := hbelow linked hold
      dsimp only
      omega
    · rw [mem_singleton.1 hnew, LinkedSection.endAddress]
      exact hup

theorem mapDirectory_within {rva bytes fileBytes : ℕ} {sections : List LinkedSection}
    {mapped : MappedDirectory} (h : mapDirectory rva bytes sections fileBytes = .ok mapped) :
    mapped.fileOffset + mapped.bytes ≤ fileBytes := by
  unfold mapDirectory at h
  obtain ⟨-, h⟩ := unit_bind_eq_ok.1 h
  obtain ⟨found, hfound, h⟩ := bind_eq_ok.1 h
  refine foldlM_induction (fun _ found ↦ ∀ mapped : MappedDirectory, found = some mapped →
    mapped.fileOffset + mapped.bytes ≤ fileBytes) (by simp) ?_ hfound mapped (orFail_eq_ok.1 h)
  intro done candidate rest before after _ hbefore hstep
  unfold mapIn at hstep
  dsimp only at hstep
  split at hstep
  · cases hstep
    exact hbefore
  · obtain ⟨-, hstep⟩ := unit_bind_eq_ok.1 hstep
    obtain ⟨hend, hstep⟩ := unit_bind_eq_ok.1 hstep
    obtain ⟨-, hstep⟩ := unit_bind_eq_ok.1 hstep
    simp only [failIf_eq_ok, decide_eq_false_iff_not, Nat.not_lt] at hend
    cases hstep
    rintro mapped ⟨⟩
    exact hend

/-- The sections are ordered, and the base relocations lie in the file. -/
theorem parsePeHeader_eq_ok (h : parsePeHeader file limits = .ok pe) :
    OrderedSections pe.sections ∧ pe.relocationFileOffset + pe.relocationBytes ≤ file.length := by
  unfold parsePeHeader at h
  obtain ⟨-, h⟩ := unit_bind_eq_ok.1 h
  obtain ⟨coff, -, h⟩ := bind_eq_ok.1 h
  iterate 2 obtain ⟨-, h⟩ := unit_bind_eq_ok.1 h
  obtain ⟨optional, -, h⟩ := bind_eq_ok.1 h
  obtain ⟨-, h⟩ := unit_bind_eq_ok.1 h
  obtain ⟨cursor, hsections, h⟩ := bind_eq_ok.1 h
  obtain ⟨-, h⟩ := unit_bind_eq_ok.1 h
  obtain ⟨relocation, hrelocation, h⟩ := bind_eq_ok.1 h
  obtain ⟨linked, -, h⟩ := bind_eq_ok.1 h
  obtain ⟨-, h⟩ := unit_bind_eq_ok.1 h
  cases h
  have hordered : cursor.Ordered :=
    foldlM_induction (fun _ cursor ↦ cursor.Ordered) ⟨⟨.nil, by simp⟩, by simp⟩
      (fun _ _ _ _ _ _ hcursor hstep ↦ readPeSection_ordered leField_four_lt hcursor hstep) hsections
  exact ⟨hordered.1, mapDirectory_within hrelocation⟩

/-- The `ADDR64` relocations that the section table of an object lists: section and offset. -/
def addr64Records (file : List UInt8) : List (ℕ × ℕ) :=
  (List.range (leField 2 file 2)).flatMap fun sectionIndex ↦
    let base := coffHeaderBytes + sectionIndex * coffSectionBytes
    (List.range (leField 2 file (base + 32))).flatMap fun index ↦
      let record := leField 4 file (base + 24) + index * coffRelocationBytes
      if leField 2 file (record + 8) = imageRelArm64Addr64 then [(sectionIndex, leField 4 file record)]
      else []

def InputAddr64Relocation.source (relocation : InputAddr64Relocation) : ℕ × ℕ :=
  (relocation.sourceSection, relocation.sourceOffset)

variable {tables : CoffTables} {sections : List ProvenanceSection}

theorem readRelocation_sources
    (h : readRelocation tables header source sectionIndex found index = .ok found') :
    found'.relocations.map InputAddr64Relocation.source =
      found.relocations.map InputAddr64Relocation.source ++
        let record := leField 4 header (coffHeaderBytes + sectionIndex * coffSectionBytes + 24) +
          index * coffRelocationBytes
        if leField 2 tables.file (record + 8) = imageRelArm64Addr64 then
          [(sectionIndex, leField 4 tables.file record)] else [] := by
  unfold readRelocation at h
  obtain ⟨record, hrecord, h⟩ := bind_eq_ok.1 h
  obtain ⟨-, rfl⟩ := readExactAt_eq_ok hrecord
  obtain ⟨width, -, h⟩ := bind_eq_ok.1 h
  obtain ⟨-, h⟩ := unit_bind_eq_ok.1 h
  have hkind := @leField_take_drop 10 2 8
    (leField 4 header (coffHeaderBytes + sectionIndex * coffSectionBytes + 24) +
      index * coffRelocationBytes) tables.file (by norm_num)
  have hoffset := @leField_take_drop 10 4 0
    (leField 4 header (coffHeaderBytes + sectionIndex * coffSectionBytes + 24) +
      index * coffRelocationBytes) tables.file (by norm_num)
  rw [hkind, hoffset] at h
  dsimp only
  split at h
  · rename_i haddr64
    obtain ⟨-, h⟩ := unit_bind_eq_ok.1 h
    cases h
    rw [if_pos haddr64]
    simp [InputAddr64Relocation.source]
  · rename_i hother
    cases h
    rw [if_neg hother, append_nil]

theorem readSectionRelocations_sources
    (h : readSectionRelocations tables header found source = .ok found') :
    found'.relocations.map InputAddr64Relocation.source =
      found.relocations.map InputAddr64Relocation.source ++
        let base := coffHeaderBytes + source.2 * coffSectionBytes
        (List.range (leField 2 header (base + 32))).flatMap fun index ↦
          let record := leField 4 header (base + 24) + index * coffRelocationBytes
          if leField 2 tables.file (record + 8) = imageRelArm64Addr64 then
            [(source.2, leField 4 tables.file record)] else [] :=
  foldlM_flatMap (fun found ↦ found.relocations.map InputAddr64Relocation.source) _
    (fun _ _ _ _ hstep ↦ readRelocation_sources hstep) h

theorem setTarget_sources {record : List UInt8}
    {name : Option (List UInt8)} {relocations relocations' : List InputAddr64Relocation}
    {reference : RelocationReference}
    (h : setTarget sections record name relocations reference = .ok relocations') :
    relocations'.map InputAddr64Relocation.source = relocations.map InputAddr64Relocation.source := by
  unfold setTarget at h
  split at h
  · cases h
    rfl
  · rename_i index haddr64
    obtain ⟨target, -, h⟩ := bind_eq_ok.1 h
    obtain ⟨relocation, hrelocation, h⟩ := bind_eq_ok.1 h
    cases h
    obtain ⟨hlt, rfl⟩ := List.getElem?_eq_some_iff.1 (orFail_eq_ok.1 hrelocation)
    rw [map_set]
    refine ext_getElem? fun other ↦ ?_
    rw [List.getElem?_set]
    split
    · rename_i hsame
      subst hsame
      simp [InputAddr64Relocation.source, hlt]
    · rfl

theorem readSymbol_sources {cursor cursor' : SymbolCursor} {symbolIndex next : ℕ}
    (h : readSymbol tables sections cursor symbolIndex = .ok (cursor', next)) :
    cursor'.relocations.map InputAddr64Relocation.source =
      cursor.relocations.map InputAddr64Relocation.source := by
  unfold readSymbol at h
  obtain ⟨-, h⟩ := unit_bind_eq_ok.1 h
  obtain ⟨record, -, h⟩ := bind_eq_ok.1 h
  obtain ⟨-, h⟩ := unit_bind_eq_ok.1 h
  obtain ⟨name, -, h⟩ := bind_eq_ok.1 h
  obtain ⟨definitions, -, h⟩ := bind_eq_ok.1 h
  obtain ⟨relocations, htargets, h⟩ := bind_eq_ok.1 h
  cases h
  exact foldlM_induction (fun _ relocations ↦ relocations.map InputAddr64Relocation.source =
      cursor.relocations.map InputAddr64Relocation.source) rfl
    (fun _ _ _ _ _ _ hsame hset ↦ (setTarget_sources hset).trans hsame) htargets

theorem readSymbols_sources (h : readSymbols tables sections fuel cursor symbolIndex = .ok cursor')
    :
    cursor'.relocations.map InputAddr64Relocation.source =
      cursor.relocations.map InputAddr64Relocation.source := by
  induction fuel generalizing cursor symbolIndex with
  | zero =>
    cases h
    rfl
  | succ fuel ih =>
    rw [readSymbols] at h
    split at h
    · obtain ⟨⟨middle, next⟩, hsymbol, h⟩ := bind_eq_ok.1 h
      exact (ih h).trans (readSymbol_sources hsymbol)
    · cases h
      rfl

/-- A section as it is read from its header, not yet placed. -/
theorem readProvenanceSection_unplaced
    {source : ProvenanceSection} (h : readProvenanceSection tables header index = .ok source) :
    source.ordinal = index ∧ source.contributionOutput = none ∧ source.contributionRva = none := by
  unfold readProvenanceSection at h
  obtain ⟨encoded, -, h⟩ := bind_eq_ok.1 h
  obtain ⟨name, -, h⟩ := bind_eq_ok.1 h
  obtain ⟨-, h⟩ := unit_bind_eq_ok.1 h
  obtain ⟨alignment, -, h⟩ := bind_eq_ok.1 h
  cases h
  exact ⟨rfl, rfl, rfl⟩

/-- What is known of an object that was read: nothing is placed, and no relocation is missing. -/
structure ProvenanceObject.Fresh (object : ProvenanceObject) (input : CoffProvenanceInput) : Prop where
  ordinal : object.ordinal = input.ordinal
  path : object.path = input.path
  sections : ∀ sectionIndex (source : ProvenanceSection), object.sections[sectionIndex]? = some source →
    source.ordinal = sectionIndex ∧ source.contributionOutput = none ∧ source.contributionRva = none
  relocations : object.relocations.map InputAddr64Relocation.source = addr64Records input.file

theorem inspectProvenanceInput_fresh (h : inspectProvenanceInput input = .ok object) :
    object.Fresh input := by
  unfold inspectProvenanceInput at h
  obtain ⟨probe, hprobe, h⟩ := bind_eq_ok.1 h
  obtain ⟨-, rfl⟩ := readExactAt_eq_ok hprobe
  iterate 3 obtain ⟨-, h⟩ := unit_bind_eq_ok.1 h
  obtain ⟨symbolTableEnd, -, h⟩ := bind_eq_ok.1 h
  obtain ⟨stringBytes, -, h⟩ := bind_eq_ok.1 h
  obtain ⟨sections, hsections, h⟩ := bind_eq_ok.1 h
  obtain ⟨-, h⟩ := unit_bind_eq_ok.1 h
  obtain ⟨found, hfound, h⟩ := bind_eq_ok.1 h
  obtain ⟨-, h⟩ := unit_bind_eq_ok.1 h
  obtain ⟨cursor, hcursor, h⟩ := bind_eq_ok.1 h
  obtain ⟨-, h⟩ := unit_bind_eq_ok.1 h
  cases h
  have hcount := @leField_take_drop 20 2 2 0 input.file (by norm_num)
  rw [Nat.zero_add] at hcount
  rw [hcount] at hsections
  have hlength : sections.length = leField 2 input.file 2 := by
    rw [length_of_mapM hsections, length_range]
  refine ⟨rfl, rfl, fun sectionIndex source hsource ↦ ?_, ?_⟩
  · obtain ⟨index, hindex, hread⟩ := getElem?_of_mapM hsections hsource
    obtain ⟨hlt, rfl⟩ := List.getElem?_eq_some_iff.1 hindex
    simpa using readProvenanceSection_unplaced hread
  · have hsources := foldlM_flatMap (fun found ↦ found.relocations.map InputAddr64Relocation.source)
      _ (fun _ _ _ _ hstep ↦ readSectionRelocations_sources hstep) hfound
    have hindices : sections.zipIdx.map Prod.snd = List.range (leField 2 input.file 2) := by
      rw [zipIdx_map_snd, hlength, range_eq_range']
    rw [readSymbols_sources hcursor, hsources, map_nil, nil_append, addr64Records,
      ← hindices, flatMap_map]
    refine flatMap_congr fun source hsource ↦ ?_
    have hindex : source.2 ∈ List.range (leField 2 input.file 2) :=
      hindices ▸ mem_map_of_mem hsource
    have hlt := mem_range.1 hindex
    have hfield {width offset : ℕ} (hwithin : offset + width ≤ 40) :
        leField width (input.file.take (coffHeaderBytes +
            leField 2 input.file 2 * coffSectionBytes))
          (coffHeaderBytes + source.2 * coffSectionBytes + offset) =
        leField width input.file (coffHeaderBytes + source.2 * coffSectionBytes + offset) := by
      have hsame := @leField_take_drop
        (coffHeaderBytes + leField 2 input.file 2 * coffSectionBytes) width
        (coffHeaderBytes + source.2 * coffSectionBytes + offset) 0 input.file
        (by unfold coffHeaderBytes coffSectionBytes; omega)
      rwa [drop_zero, Nat.zero_add] at hsame
    dsimp only
    rw [hcount, hfield (by norm_num), hfield (by norm_num)]

theorem inspectProvenanceInputs_fresh {inputs : List CoffProvenanceInput}
    {limits : ImageInspectLimits} {objects : List ProvenanceObject}
    (h : inspectProvenanceInputs inputs limits = .ok objects) :
    List.Forall₂ ProvenanceObject.Fresh objects inputs ∧
      ∀ index (object : ProvenanceObject), objects[index]? = some object → object.ordinal = index := by
  unfold inspectProvenanceInputs at h
  obtain ⟨-, h⟩ := unit_bind_eq_ok.1 h
  have hread (index : ℕ) (object : ProvenanceObject) (hobject : objects[index]? = some object) :
      ∃ input, inputs[index]? = some input ∧ input.ordinal = index ∧ object.Fresh input := by
    obtain ⟨⟨input, position⟩, hitem, hobject⟩ := getElem?_of_mapM h hobject
    obtain ⟨hlt, hitem⟩ := List.getElem?_eq_some_iff.1 hitem
    rw [getElem_zipIdx] at hitem
    cases hitem
    obtain ⟨hidentity, hobject⟩ := unit_bind_eq_ok.1 hobject
    simp only [failIf_eq_ok, Bool.or_eq_false_iff, decide_eq_false_iff_not, not_not] at hidentity
    rw [length_zipIdx] at hlt
    refine ⟨inputs[index], List.getElem?_eq_getElem hlt, ?_, inspectProvenanceInput_fresh hobject⟩
    simpa using hidentity.1
  refine ⟨?_, fun index object hobject ↦ ?_⟩
  · have hlength := length_of_mapM h
    rw [length_zipIdx] at hlength
    refine List.forall₂_iff_get.2 ⟨hlength, fun index hindex hindex' ↦ ?_⟩
    obtain ⟨input, hinput, -, hfresh⟩ := hread index _ (List.getElem?_eq_getElem hindex)
    obtain ⟨_, rfl⟩ := List.getElem?_eq_some_iff.1 hinput
    exact hfresh
  · obtain ⟨input, -, hordinal, hfresh⟩ := hread index object hobject
    rw [hfresh.ordinal, hordinal]

end Wrela.LinkEfi
