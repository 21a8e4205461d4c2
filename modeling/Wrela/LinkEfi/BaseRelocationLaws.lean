import Wrela.LinkEfi.PortableExecutable

/-!
# Base relocations are decoded exactly

A directory is accepted exactly when it is the canonical encoding of the expected sites: blocks in the
order of their pages, in each the sites of the page, and a pad where their number is odd.
-/

namespace Wrela.LinkEfi

open List Wrela.Wire Wrela.Checked

/-- The sites of one page, by their offsets. -/
structure RelocationBlock where
  page : ℕ
  offsets : List ℕ

namespace RelocationBlock

def sites (block : RelocationBlock) : List ℕ := block.offsets.map fun offset ↦ block.page + offset

/-- The entries: one for each site, and a pad where their number is odd. -/
def words (block : RelocationBlock) : List ℕ :=
  (block.offsets.map fun offset ↦ imageRelBasedDir64 * 4096 + offset) ++
    if block.offsets.length % 2 = 1 then [0] else []

def encode (block : RelocationBlock) : List UInt8 :=
  leBytes 4 block.page ++ leBytes 4 (baseRelocationBlockHeaderBytes + 2 * block.words.length) ++
    block.words.flatMap (leBytes 2)

structure Valid (block : RelocationBlock) : Prop where
  aligned : baseRelocationPageBytes ∣ block.page
  page_lt : block.page < 2 ^ 32
  nonempty : block.offsets ≠ []
  offset_lt : ∀ offset ∈ block.offsets, offset < baseRelocationPageBytes

end RelocationBlock

/-- The payload is a canonical encoding of the sites. -/
def Canonical (payload : List UInt8) (sites : List ℕ) : Prop :=
  ∃ blocks : List RelocationBlock, (∀ block ∈ blocks, block.Valid) ∧
    blocks.Pairwise (fun left right ↦ left.page < right.page) ∧
    payload = blocks.flatMap RelocationBlock.encode ∧
    sites = blocks.flatMap RelocationBlock.sites

/-- A section that is loaded and stays holds the whole site. -/
def Covered (sections : List LinkedSection) (site : ℕ) : Prop :=
  ∃ linked ∈ sections, linked.covers site (site + 8) = true

/-- What the header of the image promises of its sections. -/
structure OrderedSections (sections : List LinkedSection) : Prop where
  ordered : sections.Pairwise fun left right ↦ left.endAddress ≤ right.virtualAddress
  bounded : ∀ linked ∈ sections, linked.endAddress ≤ 2 ^ 32

/-- The sites that an image can be relocated at. -/
structure AdmissibleSites (sections : List LinkedSection) (limits : ImageInspectLimits)
    (sites : List ℕ) : Prop where
  nonempty : sites ≠ []
  length_le : sites.length ≤ limits.baseRelocations
  increasing : sites.Pairwise (· < ·)
  aligned : ∀ site ∈ sites, 8 ∣ site
  covered : ∀ site ∈ sites, Covered sections site

theorem div_of_mem_sites {block : RelocationBlock} (hvalid : block.Valid) {site : ℕ}
    (h : site ∈ block.sites) : site / 4096 * 4096 = block.page := by
  obtain ⟨offset, hoffset, rfl⟩ := mem_map.1 h
  have hlt : offset < 4096 := hvalid.offset_lt offset hoffset
  obtain ⟨count, hcount⟩ : 4096 ∣ block.page := hvalid.aligned
  omega

/-- The sites of a first block are those of its page. -/
theorem filter_sites {block : RelocationBlock} {blocks : List RelocationBlock}
    (hvalid : ∀ other ∈ block :: blocks, other.Valid)
    (hpages : ∀ other ∈ blocks, block.page < other.page) :
    ((block :: blocks).flatMap RelocationBlock.sites).filter
      (fun site ↦ site / 4096 * 4096 = block.page) = block.sites := by
  have hfirst : block.sites.filter (fun site ↦ site / 4096 * 4096 = block.page) = block.sites := by
    refine filter_eq_self.2 fun site hsite ↦ decide_eq_true ?_
    exact div_of_mem_sites (hvalid block mem_cons_self) hsite
  have hrest : (blocks.flatMap RelocationBlock.sites).filter
      (fun site ↦ site / 4096 * 4096 = block.page) = [] := by
    refine filter_eq_nil_iff.2 fun site hsite ↦ ?_
    obtain ⟨other, hother, hsite⟩ := mem_flatMap.1 hsite
    have hpage := div_of_mem_sites (hvalid other (mem_cons_of_mem _ hother)) hsite
    have hlt := hpages other hother
    simp only [decide_eq_true_eq]
    omega
  rw [flatMap_cons, filter_append, hfirst, hrest, append_nil]

theorem blocks_unique {blocks blocks' : List RelocationBlock}
    (hvalid : ∀ block ∈ blocks, block.Valid) (hvalid' : ∀ block ∈ blocks', block.Valid)
    (hpages : blocks.Pairwise fun left right ↦ left.page < right.page)
    (hpages' : blocks'.Pairwise fun left right ↦ left.page < right.page)
    (h : blocks.flatMap RelocationBlock.sites = blocks'.flatMap RelocationBlock.sites) :
    blocks = blocks' := by
  have hhead (block : RelocationBlock) (rest : List RelocationBlock) (hblock : block.Valid) :
      ∃ offset offsets, offset < 4096 ∧
        (block :: rest).flatMap RelocationBlock.sites = (block.page + offset) :: offsets := by
    obtain ⟨offset, offsets, hoffsets⟩ := exists_cons_of_ne_nil hblock.nonempty
    refine ⟨offset, (offsets.map fun offset ↦ block.page + offset) ++
      rest.flatMap RelocationBlock.sites, hblock.offset_lt offset (hoffsets ▸ mem_cons_self), ?_⟩
    rw [flatMap_cons, RelocationBlock.sites, hoffsets, map_cons, cons_append]
  induction blocks generalizing blocks' with
  | nil =>
    cases blocks' with
    | nil => rfl
    | cons block' rest' =>
      obtain ⟨offset, offsets, -, hsites⟩ := hhead block' rest' (hvalid' _ mem_cons_self)
      rw [hsites] at h
      cases h
  | cons block rest ih =>
    cases blocks' with
    | nil =>
      obtain ⟨offset, offsets, -, hsites⟩ := hhead block rest (hvalid _ mem_cons_self)
      rw [hsites] at h
      cases h
    | cons block' rest' =>
      have hblock := hvalid block mem_cons_self
      have hblock' := hvalid' block' mem_cons_self
      have hpage : block.page = block'.page := by
        obtain ⟨offset, offsets, hoffset, hsites⟩ := hhead block rest hblock
        obtain ⟨offset', offsets', hoffset', hsites'⟩ := hhead block' rest' hblock'
        rw [hsites, hsites'] at h
        have hfirst := (List.cons.inj h).1
        obtain ⟨count, hcount⟩ : 4096 ∣ block.page := hblock.aligned
        obtain ⟨count', hcount'⟩ : 4096 ∣ block'.page := hblock'.aligned
        omega
      obtain ⟨hlater, hrest⟩ := pairwise_cons.1 hpages
      obtain ⟨hlater', hrest'⟩ := pairwise_cons.1 hpages'
      have hsites : block.sites = block'.sites := by
        rw [← filter_sites hvalid hlater, ← filter_sites hvalid' hlater', h, hpage]
      have hsame : block = block' := by
        have hoffsets : block.offsets = block'.offsets := by
          rw [RelocationBlock.sites, RelocationBlock.sites, hpage] at hsites
          exact map_injective_iff.2 (fun _ _ ↦ Nat.add_left_cancel) hsites
        cases block
        cases block'
        simp_all
      subst hsame
      rw [flatMap_cons, flatMap_cons] at h
      rw [ih (fun other hother ↦ hvalid other (mem_cons_of_mem _ hother))
        (fun other hother ↦ hvalid' other (mem_cons_of_mem _ hother)) hrest hrest'
        (append_cancel_left h)]

theorem canonical_unique {payload payload' : List UInt8} {sites : List ℕ}
    (h : Canonical payload sites) (h' : Canonical payload' sites) : payload = payload' := by
  obtain ⟨blocks, hvalid, hpages, rfl, hsites⟩ := h
  obtain ⟨blocks', hvalid', hpages', rfl, hsites'⟩ := h'
  rw [blocks_unique hvalid hvalid' hpages hpages' (hsites ▸ hsites')]

section Mapped

variable {sections : List LinkedSection} {target : ℕ}

theorem covers_lt {linked : LinkedSection} (h : linked.covers target (target + 8) = true) :
    linked.virtualAddress ≤ target ∧ target + 8 ≤ linked.endAddress := by
  simp only [LinkedSection.covers, Bool.and_eq_true, decide_eq_true_eq] at h
  exact ⟨h.1.1.1, h.1.1.2⟩

theorem mappedFrom_eq (before : List LinkedSection) {rest : List LinkedSection}
    (hordered : OrderedSections (before ++ rest))
    (hpassed : ∀ linked ∈ before, linked.endAddress ≤ target) :
    ∃ mapped sectionIndex, mappedFrom target (target + 8) rest before.length =
        .ok (mapped, sectionIndex) ∧
      (mapped = true ↔ Covered (before ++ rest) target) ∧
      sectionIndex ≤ (before ++ rest).length ∧
      ∀ linked ∈ (before ++ rest).take sectionIndex, linked.endAddress ≤ target := by
  induction rest generalizing before with
  | nil =>
    refine ⟨false, before.length, rfl, ?_, by simp, ?_⟩
    · refine iff_of_false Bool.false_ne_true ?_
      rintro ⟨linked, hlinked, hcovers⟩
      rw [append_nil] at hlinked
      have hend := hpassed linked hlinked
      have hlt := (covers_lt hcovers).2
      omega
    · simpa using hpassed
  | cons linked rest ih =>
    have hbound := hordered.bounded linked (by simp)
    have hend : checkedAdd linked.virtualAddress linked.virtualBytes = some linked.endAddress :=
      checkedAdd_eq_some.2 ⟨rfl, by rw [LinkedSection.endAddress] at hbound; omega⟩
    rw [mappedFrom, hend]
    simp only [orFail, ok_bind]
    split
    · rename_i hlt
      refine ⟨_, _, rfl, ⟨fun h ↦ ⟨linked, by simp, h⟩, ?_⟩, by simp, by simpa using hpassed⟩
      rintro ⟨other, hother, hcovers⟩
      have hcover := covers_lt hcovers
      rcases mem_append.1 hother with hbefore | hafter
      · have hend' := hpassed other hbefore
        omega
      · rcases mem_cons.1 hafter with rfl | hafter
        · exact hcovers
        · have hpairs := (pairwise_append.1 hordered.ordered).2.1
          have hlater := (pairwise_cons.1 hpairs).1 other hafter
          omega
    · rename_i hge
      have hnext := @ih (before ++ [linked]) (by simpa using hordered) (by
        intro other hother
        rcases mem_append.1 hother with hbefore | hlast
        · exact hpassed other hbefore
        · rw [mem_singleton.1 hlast]
          omega)
      simpa using hnext

theorem relocationTargetIsMapped_eq (hordered : OrderedSections sections)
    (hindex : sectionIndex ≤ sections.length)
    (hpassed : ∀ linked ∈ sections.take sectionIndex, linked.endAddress ≤ target) :
    ∃ mapped sectionIndex', relocationTargetIsMapped sections sectionIndex target (target + 8) =
        .ok (mapped, sectionIndex') ∧ (mapped = true ↔ Covered sections target) ∧
      sectionIndex' ≤ sections.length ∧
      ∀ linked ∈ sections.take sectionIndex', linked.endAddress ≤ target := by
  have hsplit := take_append_drop sectionIndex sections
  have hmapped := @mappedFrom_eq target (sections.take sectionIndex) (sections.drop sectionIndex)
    (hsplit.symm ▸ hordered) hpassed
  rwa [hsplit, List.length_take, Nat.min_eq_left hindex] at hmapped

end Mapped

/-! ## Entries -/

section Entries

variable {sections : List LinkedSection} {expected : List ℕ} {limits : ImageInspectLimits}
  {cursor cursor' : RelocationCursor} {sites : List ℕ} {page site blockEntries index : ℕ}

/-- The site is the next one that is expected, and may follow those before it. -/
structure Next (sections : List LinkedSection) (expected : List ℕ) (limits : ImageInspectLimits)
    (sites : List ℕ) (site : ℕ) : Prop where
  aligned : 8 ∣ site
  apart : ∀ last ∈ sites.getLast?, last + 8 ≤ site
  covered : Covered sections site
  expected : expected[sites.length]? = some site
  room : sites.length < limits.baseRelocations

/-- The cursor has passed the sites. -/
structure Passed (sections : List LinkedSection) (cursor : RelocationCursor) (sites : List ℕ) :
    Prop where
  entries : cursor.entries = sites.length
  targetEnd : cursor.previousTargetEnd = sites.getLast?.map (· + 8)
  index_le : cursor.sectionIndex ≤ sections.length
  passed : ∀ linked ∈ sections.take cursor.sectionIndex,
    ∃ last ∈ sites.getLast?, linked.endAddress ≤ last

theorem readRelocationExact_append (bytes rest : List UInt8) :
    readRelocationExact bytes.length (bytes ++ rest) = .ok (bytes, rest) := by
  simp [readRelocationExact]

variable {rest : List UInt8}

theorem readRelocationExact_eq_ok {count : ℕ} {reader bytes : List UInt8}
    (h : readRelocationExact count reader = .ok (bytes, rest)) :
    bytes.length = count ∧ reader = bytes ++ rest := by
  unfold readRelocationExact at h
  split at h
  · rename_i hle
    cases h
    exact ⟨length_take_of_le hle, (take_append_drop ..).symm⟩
  · cases h

theorem readWord (hword : word < 65536) (rest : List UInt8) :
    readRelocationExact 2 (leBytes 2 word ++ rest) = .ok (leBytes 2 word, rest) ∧
      leValue (leBytes 2 word) = word := by
  refine ⟨?_, ?_⟩
  · have hread := readRelocationExact_append (leBytes 2 word) rest
    rwa [length_leBytes] at hread
  · rw [leValue_leBytes]
    exact Nat.mod_eq_of_lt hword

/-- The cursor after the site. -/
def RelocationCursor.pass (cursor : RelocationCursor) (rest : List UInt8) (site sectionIndex : ℕ) :
    RelocationCursor :=
  { cursor with
    reader := rest
    consumed := cursor.consumed + 2
    sectionIndex
    entries := cursor.entries + 1
    blockRelocations := cursor.blockRelocations + 1
    previousTargetEnd := some (site + 8) }

/-- The cursor after the pad. -/
def RelocationCursor.pad (cursor : RelocationCursor) (rest : List UInt8) : RelocationCursor :=
  { cursor with reader := rest, consumed := cursor.consumed + 2, sawPadding := true }

theorem Passed.pass (hpassed : Passed sections cursor sites)
    (hindex : sectionIndex ≤ sections.length)
    (hended : ∀ linked ∈ sections.take sectionIndex, linked.endAddress ≤ site) :
    Passed sections (cursor.pass rest site sectionIndex) (sites ++ [site]) where
  entries := by simp [RelocationCursor.pass, hpassed.entries]
  targetEnd := by simp [RelocationCursor.pass]
  index_le := hindex
  passed linked hlinked := ⟨site, by simp, hended linked hlinked⟩

/-- The sections that were passed end before a site that may follow. -/
theorem Passed.ended (hpassed : Passed sections cursor sites)
    (hapart : ∀ last ∈ sites.getLast?, last + 8 ≤ site) :
    ∀ linked ∈ sections.take cursor.sectionIndex, linked.endAddress ≤ site := by
  intro linked hlinked
  obtain ⟨last, hlast, hend⟩ := hpassed.passed linked hlinked
  have happart := hapart last hlast
  omega

/-- An entry that is accepted is the last pad or the next site. -/
theorem parseEntry_eq_ok (hordered : OrderedSections sections) (hpassed : Passed sections cursor sites)
    (h : parseEntry sections (some expected) limits page blockEntries cursor index = .ok cursor') :
    ∃ word rest, word < 65536 ∧ cursor.reader = leBytes 2 word ++ rest ∧
      ((word = 0 ∧ cursor.sawPadding = false ∧ index + 1 = blockEntries ∧ cursor' = cursor.pad rest) ∨
        ∃ offset < 4096, word = 40960 + offset ∧
          Next sections expected limits sites (page + offset) ∧
          ∃ sectionIndex, cursor' = cursor.pass rest (page + offset) sectionIndex ∧
            Passed sections cursor' (sites ++ [page + offset])) := by
  unfold parseEntry at h
  obtain ⟨⟨bytes, rest⟩, hread, h⟩ := bind_eq_ok.1 h
  obtain ⟨hlength, hreader⟩ := readRelocationExact_eq_ok hread
  have hbytes : leBytes 2 (leValue bytes) = bytes := by
    rw [← hlength]
    exact leBytes_leValue bytes
  have hlt : leValue bytes < 65536 := by
    have hvalue := leValue_lt bytes
    rwa [hlength] at hvalue
  dsimp only at h
  generalize leValue bytes = word at *
  refine ⟨word, rest, hlt, by rw [hbytes, hreader], ?_⟩
  split at h
  · obtain ⟨hpad, h⟩ := unit_bind_eq_ok.1 h
    simp only [failIf_eq_ok, Bool.or_eq_false_iff, decide_eq_false_iff_not, not_not] at hpad
    cases h
    exact .inl ⟨hpad.1.1, hpad.1.2, hpad.2, rfl⟩
  · obtain ⟨htype, h⟩ := unit_bind_eq_ok.1 h
    obtain ⟨target, htarget, h⟩ := bind_eq_ok.1 h
    obtain ⟨targetEnd, htargetEnd, h⟩ := bind_eq_ok.1 h
    obtain ⟨hplace, h⟩ := unit_bind_eq_ok.1 h
    obtain ⟨⟨mapped, sectionIndex⟩, hmapped, h⟩ := bind_eq_ok.1 h
    obtain ⟨hcovered, h⟩ := unit_bind_eq_ok.1 h
    obtain ⟨hexpected, h⟩ := unit_bind_eq_ok.1 h
    obtain ⟨hroom, h⟩ := unit_bind_eq_ok.1 h
    simp only [failIf_eq_ok, Bool.or_eq_false_iff, decide_eq_false_iff_not, not_not, orFail_eq_ok,
      checkedAdd_eq_some, Option.any_some, bne_eq_false_iff_eq,
      Bool.not_eq_eq_eq_not, Bool.not_false] at htype htarget htargetEnd hplace hcovered hexpected hroom
    have hdir64 : word / 4096 = 10 := htype
    obtain ⟨rfl, -⟩ := htargetEnd
    have hapart : ∀ last ∈ sites.getLast?, last + 8 ≤ target := by
      intro last hlast
      have hend := hplace.2
      rw [hpassed.targetEnd, hlast] at hend
      simpa using hend
    obtain ⟨mapped', sectionIndex', hsame, hcovers, hindex, hended⟩ :=
      relocationTargetIsMapped_eq hordered hpassed.index_le (hpassed.ended hapart)
    cases hsame.symm.trans hmapped
    cases h
    obtain ⟨rfl, -⟩ := htarget
    refine .inr ⟨word % 4096, Nat.mod_lt _ (by norm_num), by omega, ⟨Nat.dvd_of_mod_eq_zero hplace.1,
      hapart, hcovers.1 hcovered, ?_, ?_⟩, sectionIndex, rfl, hpassed.pass hindex hended⟩
    · rw [← hpassed.entries, hexpected]
    · rw [← hpassed.entries]
      omega

theorem parseEntry_pad (hreader : cursor.reader = leBytes 2 0 ++ rest)
    (hpadding : cursor.sawPadding = false) (hlast : index + 1 = blockEntries) :
    parseEntry sections (some expected) limits page blockEntries cursor index =
      .ok (cursor.pad rest) := by
  obtain ⟨hread, hvalue⟩ := readWord (show 0 < 65536 by norm_num) rest
  rw [parseEntry, hreader, hread]
  simp [hvalue, hpadding, hlast, imageRelBasedAbsolute, baseRelocationEntryBytes,
    RelocationCursor.pad]

theorem parseEntry_site (blockEntries index : ℕ) (hordered : OrderedSections sections)
    (hpassed : Passed sections cursor sites)
    {offset : ℕ} (hpage : page < 2 ^ 32) (hoffset : offset < 4096)
    (hreader : cursor.reader = leBytes 2 (40960 + offset) ++ rest)
    (hnext : Next sections expected limits sites (page + offset)) :
    ∃ sectionIndex, parseEntry sections (some expected) limits page blockEntries cursor index =
        .ok (cursor.pass rest (page + offset) sectionIndex) ∧
      Passed sections (cursor.pass rest (page + offset) sectionIndex) (sites ++ [page + offset]) := by
  obtain ⟨hread, hvalue⟩ := readWord (show 40960 + offset < 65536 by omega) rest
  obtain ⟨mapped, sectionIndex, hmapped, hcovers, hindex, hended⟩ :=
    relocationTargetIsMapped_eq hordered hpassed.index_le (hpassed.ended hnext.apart)
  have htype : (40960 + offset) / 4096 = 10 := by omega
  have hrest : (40960 + offset) % 4096 = offset := by omega
  have htarget : checkedAdd page offset = some (page + offset) :=
    checkedAdd_eq_some.2 ⟨rfl, by omega⟩
  have htargetEnd : checkedAdd (page + offset) 8 = some (page + offset + 8) :=
    checkedAdd_eq_some.2 ⟨rfl, by omega⟩
  have haligned : (page + offset) % 8 = 0 := Nat.mod_eq_zero_of_dvd hnext.aligned
  have hprevious : (cursor.previousTargetEnd.any fun previous ↦ decide (page + offset < previous)) =
      false := by
    rw [hpassed.targetEnd]
    cases hlast : sites.getLast? with
    | none => rfl
    | some last => simpa using hnext.apart last hlast
  have hexpected : (expected[cursor.entries]? != some (page + offset)) = false := by
    rw [hpassed.entries, hnext.expected]
    exact bne_self_eq_false _
  have hroom : ¬limits.baseRelocations < cursor.entries + 1 := by
    have hlt := hnext.room
    rw [← hpassed.entries] at hlt
    omega
  refine ⟨sectionIndex, ?_, hpassed.pass hindex hended⟩
  rw [parseEntry, hreader, hread]
  simp only [ok_bind, hvalue, htype, imageRelBasedAbsolute]
  simp [hrest, htarget, htargetEnd, haligned, hprevious, hmapped, hcovers.2 hnext.covered,
    hexpected, hroom, imageRelBasedDir64, orFail]
  rfl

/-- The sites are the next ones, one after the other. -/
def Follows (sections : List LinkedSection) (expected : List ℕ) (limits : ImageInspectLimits) :
    List ℕ → List ℕ → Prop
  | _, [] => True
  | sites, site :: later =>
    Next sections expected limits sites site ∧
      Follows sections expected limits (sites ++ [site]) later

theorem follows_append :
    Follows sections expected limits sites (later ++ later') ↔
      Follows sections expected limits sites later ∧
        Follows sections expected limits (sites ++ later) later' := by
  induction later generalizing sites with
  | nil => simp [Follows]
  | cons site later ih => simp [Follows, ih, and_assoc]

/-- What reading the sites of a page, and the pad, does to the cursor. -/
structure EntriesRead (sections : List LinkedSection) (page : ℕ) (sites offsets : List ℕ) (pad : Bool)
    (cursor cursor' : RelocationCursor) : Prop where
  reader : cursor.reader = ((offsets.map fun offset ↦ 40960 + offset) ++
    if pad then [0] else []).flatMap (leBytes 2) ++ cursor'.reader
  passed : Passed sections cursor' (sites ++ offsets.map fun offset ↦ page + offset)
  consumed : cursor'.consumed = cursor.consumed + 2 * (offsets.length + pad.toNat)
  blocks : cursor'.blocks = cursor.blocks
  pageEnd : cursor'.previousPageEnd = cursor.previousPageEnd
  relocations : cursor'.blockRelocations = cursor.blockRelocations + offsets.length
  padding : cursor'.sawPadding = pad

theorem EntriesRead.none (hpassed : Passed sections cursor sites)
    (hpadding : cursor.sawPadding = false) :
    EntriesRead sections page sites [] false cursor cursor where
  reader := rfl
  passed := by simpa using hpassed
  consumed := rfl
  blocks := rfl
  pageEnd := rfl
  relocations := rfl
  padding := hpadding

theorem EntriesRead.onlyPad (hreader : cursor.reader = leBytes 2 0 ++ rest)
    (hpassed : Passed sections cursor sites) :
    EntriesRead sections page sites [] true cursor (cursor.pad rest) where
  reader := by simpa [RelocationCursor.pad] using hreader
  passed := by
    rw [map_nil, append_nil]
    exact ⟨hpassed.entries, hpassed.targetEnd, hpassed.index_le, hpassed.passed⟩
  consumed := rfl
  blocks := rfl
  pageEnd := rfl
  relocations := rfl
  padding := rfl

theorem EntriesRead.cons {offset : ℕ} {offsets : List ℕ} {pad : Bool}
    {sectionIndex : ℕ} (hreader : cursor.reader = leBytes 2 (40960 + offset) ++ rest)
    (h : EntriesRead sections page (sites ++ [page + offset]) offsets pad
      (cursor.pass rest (page + offset) sectionIndex) cursor') :
    EntriesRead sections page sites (offset :: offsets) pad cursor cursor' where
  reader := by
    have htail := h.reader
    simp only [RelocationCursor.pass] at htail
    rw [hreader, htail]
    simp
  passed := by simpa using h.passed
  consumed := by
    have htail := h.consumed
    simp only [RelocationCursor.pass] at htail
    rw [htail, length_cons]
    omega
  blocks := h.blocks
  pageEnd := h.pageEnd
  relocations := by
    have htail := h.relocations
    simp only [RelocationCursor.pass] at htail
    rw [htail, length_cons]
    omega
  padding := h.padding

theorem entries_eq_ok {count : ℕ} (hordered : OrderedSections sections)
    (hpassed : Passed sections cursor sites) (hpadding : cursor.sawPadding = false)
    (hend : index + count = blockEntries)
    (h : (List.range' index count).foldlM
      (parseEntry sections (some expected) limits page blockEntries) cursor = .ok cursor') :
    ∃ offsets pad, count = offsets.length + pad.toNat ∧ (∀ offset ∈ offsets, offset < 4096) ∧
      Follows sections expected limits sites (offsets.map fun offset ↦ page + offset) ∧
      EntriesRead sections page sites offsets pad cursor cursor' := by
  induction count generalizing index cursor sites with
  | zero =>
    cases h
    exact ⟨[], false, rfl, by simp, trivial, .none hpassed hpadding⟩
  | succ count ih =>
    rw [range'_succ, foldlM_cons] at h
    obtain ⟨middle, hentry, h⟩ := bind_eq_ok.1 h
    obtain ⟨word, rest, -, hreader, hcases⟩ := parseEntry_eq_ok hordered hpassed hentry
    rcases hcases with ⟨rfl, -, hlast, rfl⟩ | ⟨offset, hoffset, rfl, hnext, sectionIndex, rfl, hmiddle⟩
    · obtain rfl : count = 0 := by omega
      cases h
      exact ⟨[], true, rfl, by simp, trivial, .onlyPad hreader hpassed⟩
    · obtain ⟨offsets, pad, hcount, hoffsets, hfollows, hread⟩ :=
        ih hmiddle hpadding (by omega) h
      refine ⟨offset :: offsets, pad, by rw [hcount, length_cons]; omega, ?_,
        ⟨hnext, hfollows⟩, .cons hreader hread⟩
      simpa using ⟨hoffset, hoffsets⟩

theorem entries_run (hordered : OrderedSections sections) (hpage : page < 2 ^ 32)
    (hpassed : Passed sections cursor sites) (hpadding : cursor.sawPadding = false)
    (hend : index + (offsets.length + pad.toNat) = blockEntries)
    (hoffsets : ∀ offset ∈ offsets, offset < 4096)
    (hfollows : Follows sections expected limits sites (offsets.map fun offset ↦ page + offset))
    (hreader : cursor.reader = ((offsets.map fun offset ↦ 40960 + offset) ++
      if pad then [0] else []).flatMap (leBytes 2) ++ rest) :
    ∃ cursor', (List.range' index (offsets.length + pad.toNat)).foldlM
        (parseEntry sections (some expected) limits page blockEntries) cursor = .ok cursor' ∧
      EntriesRead sections page sites offsets pad cursor cursor' ∧ cursor'.reader = rest := by
  induction offsets generalizing index cursor sites with
  | nil =>
    cases pad with
    | false => exact ⟨cursor, rfl, .none hpassed hpadding, hreader⟩
    | true =>
      have hpad : cursor.reader = leBytes 2 0 ++ rest := by simpa using hreader
      refine ⟨cursor.pad rest, ?_, .onlyPad hpad hpassed, rfl⟩
      rw [length_nil, Bool.toNat_true, Nat.zero_add, range'_one, foldlM_cons,
        parseEntry_pad hpad hpadding (by simpa using hend)]
      rfl
  | cons offset offsets ih =>
    obtain ⟨hnext, hfollows⟩ := hfollows
    have hfirst : cursor.reader = leBytes 2 (40960 + offset) ++
        (((offsets.map fun offset ↦ 40960 + offset) ++
          if pad then [0] else []).flatMap (leBytes 2) ++ rest) := by simpa using hreader
    obtain ⟨sectionIndex, hentry, hpass⟩ := parseEntry_site blockEntries index hordered hpassed hpage
      (hoffsets offset mem_cons_self) hfirst hnext
    have hlater : index + 1 + (offsets.length + pad.toNat) = blockEntries := by
      rw [← hend, length_cons]
      omega
    obtain ⟨cursor', hrun, hread, hrest⟩ := ih hpass hpadding hlater
      (fun other hother ↦ hoffsets other (mem_cons_of_mem _ hother)) hfollows rfl
    refine ⟨cursor', ?_, .cons hfirst hread, hrest⟩
    rw [length_cons, Nat.succ_add, range'_succ, foldlM_cons, hentry]
    exact hrun

end Entries

section Blocks

variable {sections : List LinkedSection} {expected : List ℕ} {limits : ImageInspectLimits}
  {cursor cursor' middle : RelocationCursor} {sites : List ℕ} {block : RelocationBlock}
  {blocks blocks' : List RelocationBlock} {directoryBytes : ℕ}

/-- What reading blocks does to the cursor. -/
structure BlocksRead (sections : List LinkedSection) (sites : List ℕ) (blocks : List RelocationBlock)
    (cursor cursor' : RelocationCursor) : Prop where
  reader : cursor.reader = blocks.flatMap RelocationBlock.encode ++ cursor'.reader
  passed : Passed sections cursor' (sites ++ blocks.flatMap RelocationBlock.sites)
  consumed : cursor'.consumed = cursor.consumed + (blocks.flatMap RelocationBlock.encode).length
  count : cursor'.blocks = cursor.blocks + blocks.length
  pageEnd : cursor'.previousPageEnd =
    (blocks.getLast?.map fun block ↦ block.page + 4096).or cursor.previousPageEnd

theorem BlocksRead.nil (hpassed : Passed sections cursor sites) :
    BlocksRead sections sites [] cursor cursor where
  reader := rfl
  passed := by simpa using hpassed
  consumed := rfl
  count := rfl
  pageEnd := rfl

theorem BlocksRead.append (h : BlocksRead sections sites blocks cursor middle)
    (h' : BlocksRead sections (sites ++ blocks.flatMap RelocationBlock.sites) blocks' middle cursor') :
    BlocksRead sections sites (blocks ++ blocks') cursor cursor' where
  reader := by rw [h.reader, h'.reader, flatMap_append, append_assoc]
  passed := by
    rw [flatMap_append, ← append_assoc]
    exact h'.passed
  consumed := by
    rw [h'.consumed, h.consumed, flatMap_append, length_append]
    omega
  count := by
    rw [h'.count, h.count, length_append]
    omega
  pageEnd := by
    rw [h'.pageEnd, h.pageEnd, List.getLast?_append]
    cases blocks'.getLast? <;> simp

theorem length_words (block : RelocationBlock) :
    block.words.length = block.offsets.length + (decide (block.offsets.length % 2 = 1)).toNat := by
  rw [RelocationBlock.words, length_append, length_map]
  split <;> simp [*]

theorem length_flatMap_leBytes (words : List ℕ) :
    (words.flatMap (leBytes 2)).length = 2 * words.length := by
  induction words with
  | nil => rfl
  | cons word words ih =>
    rw [flatMap_cons, length_append, length_leBytes, ih, length_cons]
    omega

theorem length_encode (block : RelocationBlock) :
    block.encode.length = 8 + 2 * block.words.length := by
  simp only [RelocationBlock.encode, length_append, length_leBytes, length_flatMap_leBytes]

/-- The header and the entries are those of one block. -/
theorem EntriesRead.single (h : EntriesRead sections page sites offsets pad
      { cursor with
        reader := body, consumed := cursor.consumed + 8, blockRelocations := 0, sawPadding := false }
      middle) (hpad : pad = decide (offsets.length % 2 = 1))
    (hencode : (RelocationBlock.mk page offsets).encode =
      header ++ ((offsets.map fun offset ↦ 40960 + offset) ++
        if pad then [0] else []).flatMap (leBytes 2)) (hreader : cursor.reader = header ++ body) :
    BlocksRead sections sites [⟨page, offsets⟩] cursor
      { middle with
        blocks := middle.blocks + 1
        previousPageEnd := some (page + baseRelocationPageBytes) } where
  reader := by
    have hrest := h.reader
    simp only at hrest
    simp [hreader, hencode, hrest]
  passed := by
    have hpasses := h.passed
    rw [flatMap_singleton, RelocationBlock.sites]
    exact ⟨hpasses.entries, hpasses.targetEnd, hpasses.index_le, hpasses.passed⟩
  consumed := by
    have hconsumed := h.consumed
    simp only at hconsumed
    rw [flatMap_singleton, length_encode, length_words, ← hpad]
    dsimp only
    omega
  count := by rw [length_singleton, ← h.blocks]
  pageEnd := by simp [baseRelocationPageBytes]

theorem leField_header (hlength : header.length = 8) :
    leBytes 4 (leField 4 header 0) ++ leBytes 4 (leField 4 header 4) = header ∧
      leField 4 header 0 < 2 ^ 32 := by
  have hlow : (header.take 4).length = 4 := by simp [hlength]
  have hhigh : ((header.drop 4).take 4).length = 4 := by simp [hlength]
  have hfirst := leBytes_leValue (header.take 4)
  have hsecond := leBytes_leValue ((header.drop 4).take 4)
  have hlt := leValue_lt (header.take 4)
  rw [hlow] at hfirst hlt
  rw [hhigh] at hsecond
  have hrest : (header.drop 4).take 4 = header.drop 4 := take_of_length_le (by simp [hlength])
  refine ⟨?_, hlt⟩
  rw [leField, leField, drop_zero, hfirst, hsecond, hrest, take_append_drop]

theorem parseBlock_eq_ok (hordered : OrderedSections sections)
    (hpassed : Passed sections cursor sites)
    (h : parseBlock directoryBytes sections (some expected) limits cursor = .ok cursor') :
    ∃ block : RelocationBlock, block.Valid ∧
      (∀ pageEnd ∈ cursor.previousPageEnd, pageEnd ≤ block.page) ∧
      Follows sections expected limits sites block.sites ∧
      BlocksRead sections sites [block] cursor cursor' := by
  unfold parseBlock at h
  obtain ⟨-, h⟩ := unit_bind_eq_ok.1 h
  obtain ⟨⟨header, rest⟩, hread, h⟩ := bind_eq_ok.1 h
  obtain ⟨hlength, hreader⟩ := readRelocationExact_eq_ok hread
  obtain ⟨hfields, hpage⟩ := leField_header hlength
  dsimp only at h
  obtain ⟨hheader, h⟩ := unit_bind_eq_ok.1 h
  obtain ⟨final, hentries, h⟩ := bind_eq_ok.1 h
  obtain ⟨hcounts, hfinal⟩ := unit_bind_eq_ok.1 h
  generalize leField 4 header 0 = page at *
  generalize leField 4 header 4 = blockBytes at *
  simp only [failIf_eq_ok, Bool.or_eq_false_iff, decide_eq_false_iff_not, not_not,
    bne_eq_false_iff_eq] at hheader hcounts
  simp only [baseRelocationPageBytes, baseRelocationBlockHeaderBytes, baseRelocationEntryBytes]
    at hheader hentries
  obtain ⟨⟨⟨⟨haligned, hleast⟩, hfour⟩, -⟩, hpageEnd⟩ := hheader
  rw [range_eq_range'] at hentries
  have hstart : Passed sections
      { cursor with
        reader := rest, consumed := cursor.consumed + 8, blockRelocations := 0, sawPadding := false }
      sites := ⟨hpassed.entries, hpassed.targetEnd, hpassed.index_le, hpassed.passed⟩
  obtain ⟨offsets, pad, hcount, hoffsets, hfollows, hentriesRead⟩ :=
    entries_eq_ok hordered hstart rfl (Nat.zero_add _) hentries
  have hrelocations : final.blockRelocations = offsets.length := by
    simpa using hentriesRead.relocations
  have hpad : pad = decide (offsets.length % 2 = 1) := by
    rw [← hentriesRead.padding, ← hrelocations]
    exact hcounts.2.symm
  have hwords : blockBytes = 8 + 2 * (RelocationBlock.mk page offsets).words.length := by
    rw [length_words, ← hpad]
    dsimp only
    omega
  have hencode : (RelocationBlock.mk page offsets).encode =
      header ++ ((offsets.map fun offset ↦ 40960 + offset) ++
        if pad then [0] else []).flatMap (leBytes 2) := by
    rw [RelocationBlock.encode, baseRelocationBlockHeaderBytes, ← hwords, ← hfields, hpad,
      RelocationBlock.words]
    simp [imageRelBasedDir64]
  cases hfinal
  refine ⟨⟨page, offsets⟩, ⟨Nat.dvd_of_mod_eq_zero haligned, hpage, ?_, hoffsets⟩, ?_, hfollows, ?_⟩
  · rintro rfl
    exact hcounts.1 hrelocations
  · intro pageEnd hmem
    rw [hmem] at hpageEnd
    simpa using hpageEnd
  · exact hentriesRead.single hpad hencode hreader

theorem parseBlock_run (hordered : OrderedSections sections)
    (hpassed : Passed sections cursor sites) (hvalid : block.Valid)
    (hsmall : block.offsets.length ≤ 4096)
    (hpageEnd : ∀ pageEnd ∈ cursor.previousPageEnd, pageEnd ≤ block.page)
    (hfollows : Follows sections expected limits sites block.sites)
    (hreader : cursor.reader = block.encode ++ rest)
    (hroom : cursor.consumed + block.encode.length ≤ directoryBytes) :
    ∃ cursor', parseBlock directoryBytes sections (some expected) limits cursor = .ok cursor' ∧
      BlocksRead sections sites [block] cursor cursor' ∧ cursor'.reader = rest := by
  obtain ⟨page, offsets⟩ := block
  obtain ⟨pad, hpad⟩ : ∃ pad, decide (offsets.length % 2 = 1) = pad := ⟨_, rfl⟩
  have hwords := length_words ⟨page, offsets⟩
  have hlength := length_encode ⟨page, offsets⟩
  obtain ⟨size, hsize⟩ : ∃ size, 8 + 2 * (RelocationBlock.mk page offsets).words.length = size :=
    ⟨_, rfl⟩
  dsimp only at hwords hsmall
  rw [hpad] at hwords
  rw [hsize] at hlength
  have hparity : (offsets.length + pad.toNat) % 2 = 0 := by
    cases pad with
    | false =>
      have heven := of_decide_eq_false hpad
      rw [Bool.toNat_false]
      omega
    | true =>
      have hodd := of_decide_eq_true hpad
      rw [Bool.toNat_true]
      omega
  have hbit := Bool.toNat_le pad
  have hpositive : 0 < offsets.length := length_pos_of_ne_nil hvalid.nonempty
  have hencode : (RelocationBlock.mk page offsets).encode ++ rest =
      leBytes 4 page ++ leBytes 4 size ++
        (((offsets.map fun offset ↦ 40960 + offset) ++
          if pad then [0] else []).flatMap (leBytes 2) ++ rest) := by
    rw [RelocationBlock.encode, baseRelocationBlockHeaderBytes, hsize, RelocationBlock.words, ← hpad]
    simp [imageRelBasedDir64]
  rw [hencode] at hreader
  have hread := readRelocationExact_append (leBytes 4 page ++ leBytes 4 size)
    (((offsets.map fun offset ↦ 40960 + offset) ++ if pad then [0] else []).flatMap (leBytes 2) ++ rest)
  rw [length_append, length_leBytes, length_leBytes, ← hreader] at hread
  have hpage : leField 4 (leBytes 4 page ++ leBytes 4 size) 0 = page := by
    rw [leField, drop_zero, take_left' (length_leBytes ..), leValue_leBytes]
    exact Nat.mod_eq_of_lt hvalid.page_lt
  have hbytes : leField 4 (leBytes 4 page ++ leBytes 4 size) 4 = size := by
    rw [leField, drop_left' (length_leBytes ..), take_of_length_le (by simp), leValue_leBytes]
    exact Nat.mod_eq_of_lt (by omega)
  have hentries : (size - 8) / 2 = offsets.length + pad.toNat := by omega
  have hstart : Passed sections
      { cursor with
        reader := ((offsets.map fun offset ↦ 40960 + offset) ++
          if pad then [0] else []).flatMap (leBytes 2) ++ rest
        consumed := cursor.consumed + 8, blockRelocations := 0, sawPadding := false }
      sites := ⟨hpassed.entries, hpassed.targetEnd, hpassed.index_le, hpassed.passed⟩
  have hremaining : ¬directoryBytes - cursor.consumed < 8 := by omega
  have hunits : size % 4 = 0 := by omega
  have hleast : ¬size < 12 := by omega
  have hfits : ¬directoryBytes - cursor.consumed < size := by omega
  have hpages : (cursor.previousPageEnd.any fun previous ↦ decide (page < previous)) = false := by
    cases hprevious : cursor.previousPageEnd with
    | none => rfl
    | some previous => simpa using hpageEnd previous hprevious
  have haligned : page % 4096 = 0 := Nat.mod_eq_zero_of_dvd hvalid.aligned
  obtain ⟨final, hrun, hentriesRead, hrest⟩ :
      ∃ final, (List.range' 0 (offsets.length + pad.toNat)).foldlM
          (parseEntry sections (some expected) limits page (offsets.length + pad.toNat)) _ = .ok final ∧
        EntriesRead sections page sites offsets pad _ final ∧ final.reader = rest :=
    entries_run hordered hvalid.page_lt hstart rfl (Nat.zero_add _) hvalid.offset_lt hfollows rfl
  have hrelocations : final.blockRelocations = offsets.length := by
    simpa using hentriesRead.relocations
  have hblock : parseBlock directoryBytes sections (some expected) limits cursor =
      .ok { final with blocks := final.blocks + 1, previousPageEnd := some (page + 4096) } := by
    rw [parseBlock, hread]
    simp only [ok_bind, hpage, hbytes, baseRelocationPageBytes, baseRelocationBlockHeaderBytes,
      baseRelocationEntryBytes, hentries, range_eq_range', hrun, hrelocations, hpad,
      hentriesRead.padding, hpages, haligned, hunits]
    simp [failIf, hremaining, hleast, hfits, hvalid.nonempty]
  refine ⟨_, hblock, hentriesRead.single hpad.symm ?_ hreader, hrest⟩
  rw [RelocationBlock.encode, baseRelocationBlockHeaderBytes, hsize, RelocationBlock.words, ← hpad]
  simp [imageRelBasedDir64]

end Blocks

end Wrela.LinkEfi
