import Wrela.LinkEfi.ObjectLaws

/-!
# Where the sections went

The rows of the map are matched one to one with sections of the objects, and each of these sections
gets the address of its row.
-/

namespace Wrela.LinkEfi

open List Wrela.Wire Wrela.Checked

/-! ## Placements -/

/-- A row of the map with the section it was matched with. -/
structure Placement where
  row : ContributionRow
  output : ℕ
  object : ℕ
  sectionIndex : ℕ

def Placement.key (placement : Placement) : List UInt8 := placement.row.rest.drop 8

def Placement.place (placement : Placement) : ℕ × ℕ := (placement.object, placement.sectionIndex)

/-- The row names the section and has its size and alignment. -/
def Placement.Describes (objects : List ProvenanceObject) (placement : Placement) : Prop :=
  ∃ object source, objects[placement.object]? = some object ∧
    object.sections[placement.sectionIndex]? = some source ∧
    placement.key = contributionKey object.path source.name ∧
    placement.row.bytes = source.bytes ∧ placement.row.alignment = source.alignment

/-- The rows of contributions, behind the header of the map. -/
def contributionRow? (line : List UInt8) : Option ContributionRow :=
  match parseLldContributionRow line with
  | .ok row => if row.indentation = 8 then some row else none
  | .error _ => none

def contributionRows (lines : List (List UInt8)) : List ContributionRow :=
  (lines.drop 1).filterMap contributionRow?

/-- The rows are matched with distinct sections; those of one name in the order of the object. -/
structure Placements (objects : List ProvenanceObject) (rows : List ContributionRow)
    (placements : List Placement) : Prop where
  rows : placements.map Placement.row = rows
  described : ∀ placement ∈ placements, placement.Describes objects
  distinct : (placements.map Placement.place).Nodup
  ordered : placements.Pairwise fun left right ↦ left.key = right.key →
    left.object = right.object ∧ left.sectionIndex < right.sectionIndex

def locate (placements : List Placement) (object sectionIndex : ℕ) (source : ProvenanceSection) :
    ProvenanceSection :=
  match placements.find? fun placement ↦ decide (placement.place = (object, sectionIndex)) with
  | some placement => { source with
      contributionOutput := some placement.output, contributionRva := some placement.row.address }
  | none => source

/-- The objects with the sections at the addresses of their rows. -/
def located (placements : List Placement) (objects : List ProvenanceObject) :
    List ProvenanceObject :=
  objects.mapIdx fun index object ↦
    { object with sections := object.sections.mapIdx (locate placements index) }

theorem mapIdx_self {α : Type} (items : List α) : (items.mapIdx fun _ item ↦ item) = items := by
  refine ext_getElem? fun index ↦ ?_
  simp [List.getElem?_mapIdx]

theorem located_nil (objects : List ProvenanceObject) : located [] objects = objects := by
  have hlocate (index : ℕ) : locate [] index = fun _ source ↦ source := rfl
  simp only [located, hlocate, mapIdx_self]

theorem located_append (hnew : placement.place ∉ placements.map Placement.place)
    (objects : List ProvenanceObject) :
    located (placements ++ [placement]) objects =
      ProvenanceObject.place (located placements objects) placement.object placement.sectionIndex
        placement.output placement.row.address := by
  have hlocate (object sectionIndex : ℕ) (source : ProvenanceSection) :
      locate (placements ++ [placement]) object sectionIndex source =
        if placement.place = (object, sectionIndex) then
          { locate placements object sectionIndex source with
            contributionOutput := some placement.output
            contributionRva := some placement.row.address }
        else locate placements object sectionIndex source := by
    rw [locate, locate, List.find?_append]
    split_ifs with hplace
    · have hnone : placements.find? (fun other ↦ decide (other.place = (object, sectionIndex))) =
          none := by
        refine List.find?_eq_none.2 fun other hother ↦ ?_
        have hne : other.place ≠ placement.place := fun hsame ↦ hnew (hsame ▸ mem_map_of_mem hother)
        simpa [← hplace] using hne
      simp [hnone, hplace]
    · simp [hplace]
  refine ext_getElem? fun index ↦ ?_
  rw [ProvenanceObject.place, List.getElem?_modify, located, located, List.getElem?_mapIdx,
    List.getElem?_mapIdx]
  cases objects[index]? with
  | none => rfl
  | some object =>
    simp only [Option.map_some, Option.map_eq_map]
    split_ifs with hobject
    · subst hobject
      simp only [Option.some_inj]
      congr 1
      refine ext_getElem? fun sectionIndex ↦ ?_
      rw [List.getElem?_modify, List.getElem?_mapIdx, List.getElem?_mapIdx]
      cases object.sections[sectionIndex]? with
      | none => rfl
      | some source =>
        simp only [Option.map_some, Option.map_eq_map, hlocate, Placement.place, Prod.mk.injEq,
          true_and]
    · have hother : locate (placements ++ [placement]) index = locate placements index := by
        funext sectionIndex source
        rw [hlocate, if_neg fun hplace ↦ hobject (congrArg Prod.fst hplace)]
      rw [hother]

/-- The candidate is a section of the objects. -/
def ContributionKey.Names (objects : List ProvenanceObject) (candidate : ContributionKey) : Prop :=
  ∃ object source, objects[candidate.object]? = some object ∧
    object.sections[candidate.sectionIndex]? = some source ∧
    candidate.key = contributionKey object.path source.name ∧
    candidate.bytes = source.bytes ∧ candidate.alignment = source.alignment

/-- Candidates of one key stand in the order of their object, and are retired in this order. -/
structure KeysInOrder (objects : List ProvenanceObject) (placements : List Placement)
    (keys : List ContributionKey) : Prop where
  names : ∀ candidate ∈ keys, candidate.Names objects
  sorted : keys.Pairwise fun left right ↦ left.key = right.key →
    left.object = right.object ∧ left.sectionIndex < right.sectionIndex
  retired : keys.Pairwise fun left right ↦ left.key = right.key → right.retired = true →
    left.retired = true
  placed : ∀ placement ∈ placements, ∃ candidate ∈ keys, candidate.retired = true ∧
    candidate.key = placement.key ∧ candidate.object = placement.object ∧
    candidate.sectionIndex = placement.sectionIndex

/-- A candidate that was examined and passed over. -/
def ContributionKey.retire (key : List UInt8) (candidate : ContributionKey) : ContributionKey :=
  if candidate.key ≠ key ∨ candidate.retired = true then candidate
  else { candidate with retired := true, matched := false }

@[simp]
theorem retire_key (key : List UInt8) (candidate : ContributionKey) :
    (candidate.retire key).key = candidate.key := by
  unfold ContributionKey.retire
  split <;> rfl

@[simp]
theorem retire_object (key : List UInt8) (candidate : ContributionKey) :
    (candidate.retire key).object = candidate.object := by
  unfold ContributionKey.retire
  split <;> rfl

@[simp]
theorem retire_sectionIndex (key : List UInt8) (candidate : ContributionKey) :
    (candidate.retire key).sectionIndex = candidate.sectionIndex := by
  unfold ContributionKey.retire
  split <;> rfl

theorem retire_names {objects : List ProvenanceObject} {candidate : ContributionKey}
    (key : List UInt8) (h : candidate.Names objects) : (candidate.retire key).Names objects := by
  unfold ContributionKey.retire
  split <;> exact h

theorem retire_retired {key : List UInt8} {candidate : ContributionKey} :
    (candidate.retire key).retired = true ↔ candidate.retired = true ∨ candidate.key = key := by
  unfold ContributionKey.retire
  split_ifs with hpassed
  · rcases hpassed with hkey | hretired
    · simp [hkey]
    · simp [hretired]
  · push Not at hpassed
    simp [hpassed.1]

variable {keys : List ContributionKey} {done : List (List UInt8)} {pe : ParsedPe}

/-- The row is matched with the first candidate of its key that it describes. -/
theorem examine_eq_ok (h : examine objects key bytes alignment keys = .ok (keys', place)) :
    ∃ before candidate after, keys = before ++ candidate :: after ∧ candidate.key = key ∧
      candidate.retired = false ∧ bytes = candidate.bytes ∧ alignment = candidate.alignment ∧
      place = (candidate.object, candidate.sectionIndex) ∧
      keys' = before.map (ContributionKey.retire key) ++
        { candidate with retired := true, matched := true } :: after := by
  induction keys generalizing keys' with
  | nil => cases h
  | cons candidate rest ih =>
    rw [examine] at h
    split_ifs at h with hpassed
    · obtain ⟨⟨rest', place'⟩, hrest, h⟩ := bind_eq_ok.1 h
      cases h
      obtain ⟨before, other, after, rfl, hkey, hfresh, hbytes, halignment, hplace, rfl⟩ := ih hrest
      refine ⟨candidate :: before, other, after, rfl, hkey, hfresh, hbytes, halignment, hplace, ?_⟩
      rw [map_cons, ContributionKey.retire, if_pos hpassed, cons_append]
    · obtain ⟨⟨object, source⟩, -, h⟩ := bind_eq_ok.1 h
      obtain ⟨-, h⟩ := unit_bind_eq_ok.1 h
      have hhere := hpassed
      push Not at hhere
      split_ifs at h with hmatches
      · cases h
        exact ⟨[], candidate, rest, rfl, hhere.1, by simpa using hhere.2, hmatches.2.2.1,
          hmatches.2.2.2, rfl, rfl⟩
      · obtain ⟨⟨rest', place'⟩, hrest, h⟩ := bind_eq_ok.1 h
        cases h
        obtain ⟨before, other, after, rfl, hkey, hfresh, hbytes, halignment, hplace, rfl⟩ := ih hrest
        refine ⟨candidate :: before, other, after, rfl, hkey, hfresh, hbytes, halignment, hplace, ?_⟩
        rw [map_cons, ContributionKey.retire, if_neg hpassed, cons_append]

section Match

variable {objects : List ProvenanceObject} {placements : List Placement}
  {before after : List ContributionKey} {candidate : ContributionKey} {placement : Placement}

/-- What was placed under the key comes before the next candidate of the key. -/
theorem KeysInOrder.earlier (h : KeysInOrder objects placements (before ++ candidate :: after))
    (hfresh : candidate.retired = false) (hother : other ∈ placements)
    (hkey : other.key = candidate.key) :
    other.object = candidate.object ∧ other.sectionIndex < candidate.sectionIndex := by
  obtain ⟨earlier, hmem, hretired, hsame, hobject, hsection⟩ := h.placed other hother
  have hkeys : earlier.key = candidate.key := hsame.trans hkey
  rw [← hobject, ← hsection]
  rcases mem_append.1 hmem with hbefore | hrest
  · exact (pairwise_append.1 h.sorted).2.2 earlier hbefore candidate mem_cons_self hkeys
  · rcases mem_cons.1 hrest with rfl | hafter
    · exact absurd hretired (by simp [hfresh])
    · have hcandidate := (pairwise_cons.1 (pairwise_append.1 h.retired).2.1).1 earlier
        hafter hkeys.symm hretired
      exact absurd hcandidate (by simp [hfresh])

theorem KeysInOrder.next (h : KeysInOrder objects placements (before ++ candidate :: after))
    (hfresh : candidate.retired = false) (hkey : placement.key = candidate.key)
    (hplace : placement.place = (candidate.object, candidate.sectionIndex)) :
    KeysInOrder objects (placements ++ [placement])
      (before.map (ContributionKey.retire candidate.key) ++
        { candidate with retired := true, matched := true } :: after) where
  names := by
    intro other hother
    rcases mem_append.1 hother with hbefore | hrest
    · obtain ⟨old, hold, rfl⟩ := mem_map.1 hbefore
      exact retire_names _ (h.names old (mem_append_left _ hold))
    · rcases mem_cons.1 hrest with rfl | hafter
      · exact h.names candidate (by simp)
      · exact h.names other (by simp [hafter])
  sorted := by
    have hsorted := h.sorted
    have hfields : (before.map (ContributionKey.retire candidate.key) ++
          { candidate with retired := true, matched := true } :: after).map
            (fun other ↦ (other.key, other.object, other.sectionIndex)) =
        (before ++ candidate :: after).map
          fun other ↦ (other.key, other.object, other.sectionIndex) := by simp
    have hpairs := @pairwise_map _ _ (fun other : ContributionKey ↦
        (other.key, other.object, other.sectionIndex))
      (fun left right ↦ left.1 = right.1 → left.2.1 = right.2.1 ∧ left.2.2 < right.2.2)
    rw [← hpairs] at hsorted ⊢
    rwa [hfields]
  retired := by
    obtain ⟨hbefore, hrest, hcross⟩ := pairwise_append.1 h.retired
    obtain ⟨-, hafter⟩ := pairwise_cons.1 hrest
    refine pairwise_append.2 ⟨pairwise_map.2 (hbefore.imp ?_),
      pairwise_cons.2 ⟨fun _ _ _ _ ↦ rfl, hafter⟩, ?_⟩
    · intro left right hretired hsame hright
      rw [retire_key, retire_key] at hsame
      rw [retire_retired] at hright ⊢
      rcases hright with hright | hright
      · exact .inl (hretired hsame hright)
      · exact .inr (hsame.trans hright)
    · intro left hleft right hright hsame hretired
      obtain ⟨old, hold, rfl⟩ := mem_map.1 hleft
      rw [retire_key] at hsame
      rw [retire_retired]
      rcases mem_cons.1 hright with rfl | hright
      · exact .inr hsame
      · exact .inl (hcross old hold right (mem_cons_of_mem _ hright) hsame hretired)
  placed := by
    intro other hother
    rcases mem_append.1 hother with hold | hnew
    · obtain ⟨earlier, hmem, hretired, hsame⟩ := h.placed other hold
      rcases mem_append.1 hmem with hbefore | hrest
      · refine ⟨earlier.retire candidate.key,
          mem_append_left _ (mem_map_of_mem hbefore), retire_retired.2 (.inl hretired), ?_⟩
        simpa using hsame
      · rcases mem_cons.1 hrest with rfl | hafter
        · exact absurd hretired (by simp [hfresh])
        · exact ⟨earlier, by simp [hafter], hretired, hsame⟩
    · rw [mem_singleton.1 hnew]
      have hfields := Prod.mk.inj hplace
      exact ⟨_, mem_append_right _ mem_cons_self, rfl, hkey.symm, hfields.1.symm, hfields.2.symm⟩

end Match

theorem rank_le {left right : ContributionKey} (h : left.rank ≤ right.rank) :
    left.key.map UInt8.toNat ≤ right.key.map UInt8.toNat ∧
      (left.key = right.key → left.objectOrdinal = right.objectOrdinal →
        left.sectionOrdinal ≤ right.sectionOrdinal) := by
  rw [ContributionKey.rank, ContributionKey.rank, Prod.Lex.toLex_le_toLex] at h
  rcases h with hlt | ⟨hkey, hrest⟩
  · exact ⟨hlt.le, fun hsame ↦ absurd (congrArg (List.map UInt8.toNat) hsame) hlt.ne⟩
  · refine ⟨hkey.le, fun _ hobject ↦ ?_⟩
    rw [Prod.Lex.toLex_le_toLex] at hrest
    rcases hrest with hlt | ⟨-, hle⟩
    · exact absurd hobject (Nat.ne_of_lt hlt)
    · exact hle

theorem key_eq {left right : ContributionKey}
    (h : left.key.map UInt8.toNat = right.key.map UInt8.toNat) : left.key = right.key :=
  map_injective_iff.2 (fun _ _ ↦ UInt8.toNat_inj.1) h

/-- Neighbours of one key are of one object, and so are all the keys between equal ones. -/
theorem checkNeighbours_objects (hsorted : keys.Pairwise fun left right ↦ left.rank ≤ right.rank)
    (h : checkNeighbours keys = .ok ()) :
    keys.Pairwise fun left right ↦ left.key = right.key →
      left.objectOrdinal = right.objectOrdinal := by
  induction keys with
  | nil => exact .nil
  | cons left rest ih =>
    obtain ⟨hleft, hrest⟩ := pairwise_cons.1 hsorted
    cases rest with
    | nil => exact pairwise_singleton ..
    | cons right rest =>
      rw [checkNeighbours] at h
      have hpairs : (right :: rest).Pairwise fun left right ↦ left.key = right.key →
          left.objectOrdinal = right.objectOrdinal := by
        refine ih hrest ?_
        split at h
        · exact (unit_bind_eq_ok.1 (unit_bind_eq_ok.1 h).2).2
        · exact h
      have hneighbour (hkey : left.key = right.key) : left.objectOrdinal = right.objectOrdinal := by
        rw [if_pos hkey] at h
        simpa using (unit_bind_eq_ok.1 h).1
      refine pairwise_cons.2 ⟨fun other hother hkey ↦ ?_, hpairs⟩
      rcases mem_cons.1 hother with rfl | hlater
      · exact hneighbour hkey
      · obtain ⟨hright, -⟩ := pairwise_cons.1 hrest
        have hle := (rank_le (hleft right mem_cons_self)).1
        have hge := (rank_le (hright other hlater)).1
        have hsame : left.key = right.key := key_eq (le_antisymm hle (hkey ▸ hge))
        exact (hneighbour hsame).trans
          ((pairwise_cons.1 hpairs).1 other hlater (hsame.symm.trans hkey))

theorem pairwise_zipIdx {α : Type} (items : List α) :
    items.zipIdx.Pairwise fun left right ↦ left.2 < right.2 := by
  have hindices : (items.zipIdx.map Prod.snd).Pairwise (· < ·) := by
    rw [zipIdx_map_snd]
    exact pairwise_lt_range'
  exact pairwise_map.1 hindices

/-- What the keys of the sections are before any row is read. -/
theorem mem_sectionKeys (h : candidate ∈ sectionKeys objects) :
    candidate.Names objects ∧ candidate.retired = false ∧
      ∃ object source, objects[candidate.object]? = some object ∧
        object.sections[candidate.sectionIndex]? = some source ∧
        candidate.objectOrdinal = object.ordinal ∧ candidate.sectionOrdinal = source.ordinal := by
  obtain ⟨⟨object, index⟩, hobject, h⟩ := mem_flatMap.1 h
  obtain ⟨⟨source, sectionIndex⟩, hsource, rfl⟩ := mem_map.1 h
  have hobject' := mem_zipIdx_iff_getElem?.1 hobject
  have hsource' := mem_zipIdx_iff_getElem?.1 hsource
  exact ⟨⟨object, source, hobject', hsource', rfl, rfl, rfl⟩, rfl, object, source, hobject', hsource',
    rfl, rfl⟩

theorem sectionKeys_distinct (objects : List ProvenanceObject) :
    (sectionKeys objects).Pairwise fun left right ↦
      ¬(left.object = right.object ∧ left.sectionIndex = right.sectionIndex) := by
  refine pairwise_flatMap.2 ⟨fun object _ ↦ ?_, ?_⟩
  · refine pairwise_map.2 ((pairwise_zipIdx _).imp fun hlt hsame ↦ ?_)
    exact hlt.ne hsame.2
  · refine (pairwise_zipIdx _).imp fun hlt left hleft right hright hsame ↦ ?_
    obtain ⟨source, -, rfl⟩ := mem_map.1 hleft
    obtain ⟨source', -, rfl⟩ := mem_map.1 hright
    exact hlt.ne hsame.1

/-- The ordinals of the objects and of their sections are their places. -/
structure Numbered (objects : List ProvenanceObject) : Prop where
  ordinal : ∀ index (object : ProvenanceObject), objects[index]? = some object →
    object.ordinal = index
  sectionOrdinal : ∀ object ∈ objects, ∀ sectionIndex (source : ProvenanceSection),
    object.sections[sectionIndex]? = some source → source.ordinal = sectionIndex

theorem contributionKeys_inOrder {objects : List ProvenanceObject} {limits : ImageInspectLimits}
    (hnumbered : Numbered objects)
    (h : contributionKeys objects limits = .ok keys) : KeysInOrder objects [] keys := by
  unfold contributionKeys at h
  obtain ⟨-, h⟩ := unit_bind_eq_ok.1 h
  obtain ⟨hneighbours, h⟩ := unit_bind_eq_ok.1 h
  cases h
  have hperm := perm_insertionSort (fun left right ↦ left.rank ≤ right.rank)
    (sectionKeys objects)
  have hsorted := pairwise_insertionSort (fun left right ↦ left.rank ≤ right.rank)
    (sectionKeys objects)
  have hobjects := checkNeighbours_objects hsorted hneighbours
  have hdistinct := (hperm.pairwise_iff fun hne hsame ↦ hne ⟨hsame.1.symm, hsame.2.symm⟩).2
    (sectionKeys_distinct objects)
  have hfresh : ∀ candidate ∈ (sectionKeys objects).insertionSort fun left right ↦
      left.rank ≤ right.rank, candidate.Names objects ∧ candidate.retired = false ∧
        candidate.objectOrdinal = candidate.object ∧
        candidate.sectionOrdinal = candidate.sectionIndex := by
    intro candidate hcandidate
    obtain ⟨hnames, hretired, object, source, hobject, hsource, hordinal, hordinal'⟩ :=
      mem_sectionKeys (hperm.mem_iff.1 hcandidate)
    exact ⟨hnames, hretired, hordinal.trans (hnumbered.ordinal _ _ hobject),
      hordinal'.trans (hnumbered.sectionOrdinal object (mem_of_getElem? hobject) _ _ hsource)⟩
  refine ⟨fun candidate hcandidate ↦ (hfresh candidate hcandidate).1, ?_, ?_, by simp⟩
  · refine ((hsorted.and hobjects).and hdistinct).imp_of_mem ?_
    rintro left right hleft hright ⟨⟨hrank, hobject⟩, hne⟩ hkey
    obtain ⟨-, -, hleftObject, hleftSection⟩ := hfresh left hleft
    obtain ⟨-, -, hrightObject, hrightSection⟩ := hfresh right hright
    have hordinal := hobject hkey
    have hle := (rank_le hrank).2 hkey hordinal
    have hsame : left.object = right.object := by
      rw [← hleftObject, hordinal, hrightObject]
    refine ⟨hsame, lt_of_le_of_ne ?_ fun hsection ↦ hne ⟨hsame, hsection⟩⟩
    rwa [hleftSection, hrightSection] at hle
  · refine hsorted.imp_of_mem fun {left right} _ hright _ _ hretired ↦ ?_
    exact absurd hretired (by simp [(hfresh right hright).2.1])

theorem contributionRows_append (hdone : done ≠ []) (line : List UInt8) :
    contributionRows (done ++ [line]) = contributionRows done ++ (contributionRow? line).toList := by
  have hlength := length_pos_of_ne_nil hdone
  rw [contributionRows, contributionRows, drop_append_of_le_length (by omega), filterMap_append]
  cases hrow : contributionRow? line <;> simp [hrow]

/-- What the lines that were read so far did. -/
structure MapRead (objects : List ProvenanceObject) (done : List (List UInt8))
    (progress : ContributionMapState × List ProvenanceObject) : Prop where
  header : progress.1.sawHeader = true ↔ done ≠ []
  placed : ∃ placements, progress.2 = located placements objects ∧
    Placements objects (contributionRows done) placements ∧
    KeysInOrder objects placements progress.1.keys

theorem getElem?_located
    (h : ((located placements objects)[index]?.bind fun object ↦ object.sections[sectionIndex]?) =
      some source) :
    ∃ object original, objects[index]? = some object ∧
      object.sections[sectionIndex]? = some original ∧
      source = locate placements index sectionIndex original := by
  obtain ⟨object, hobject, hsource⟩ := Option.bind_eq_some_iff.1 h
  rw [located, List.getElem?_mapIdx] at hobject
  obtain ⟨object', hobject', rfl⟩ := Option.map_eq_some_iff.1 hobject
  rw [List.getElem?_mapIdx] at hsource
  obtain ⟨original, horiginal, rfl⟩ := Option.map_eq_some_iff.1 hsource
  exact ⟨object', original, hobject', horiginal, rfl⟩

theorem locate_of_mem {placements : List Placement} {index sectionIndex : ℕ}
    (h : (index, sectionIndex) ∈ placements.map Placement.place) (source : ProvenanceSection) :
    ∃ placement ∈ placements, placement.place = (index, sectionIndex) ∧
      (locate placements index sectionIndex source).contributionRva = some placement.row.address := by
  obtain ⟨placement, hmem, hplace⟩ := mem_map.1 h
  cases hfind : placements.find? fun placement ↦
      decide (placement.place = (index, sectionIndex)) with
  | none => exact absurd hplace (by simpa using List.find?_eq_none.1 hfind placement hmem)
  | some found =>
    refine ⟨found, List.mem_of_find?_eq_some hfind, by simpa using List.find?_some hfind, ?_⟩
    rw [locate, hfind]

theorem contributionRow_read (hread : MapRead objects done (state, objects'))
    (hheader : state.sawHeader = true) (hrow : contributionRow? line = some row)
    (h : contributionRow pe state objects' row = .ok (state', objects'')) :
    MapRead objects (done ++ [line]) (state', objects'') := by
  obtain ⟨placements, hobjects, hplacements, hkeys⟩ := hread.placed
  unfold contributionRow at h
  obtain ⟨outputIndex, -, h⟩ := bind_eq_ok.1 h
  obtain ⟨output, -, h⟩ := bind_eq_ok.1 h
  obtain ⟨-, h⟩ := unit_bind_eq_ok.1 h
  obtain ⟨⟨keys, object, sectionIndex⟩, hresolve, h⟩ := bind_eq_ok.1 h
  obtain ⟨source, hsource, h⟩ := bind_eq_ok.1 h
  obtain ⟨rowEnd, -, h⟩ := bind_eq_ok.1 h
  obtain ⟨outputEnd, -, h⟩ := bind_eq_ok.1 h
  obtain ⟨hchecks, h⟩ := unit_bind_eq_ok.1 h
  simp only [failIf_eq_ok, Bool.or_eq_false_iff] at hchecks
  have hunplaced : source.contributionRva = none := by
    simpa using hchecks.1.1.1.1.1.1.1.2
  cases h
  unfold resolveContributionKey at hresolve
  obtain ⟨-, hexamine⟩ := unit_bind_eq_ok.1 hresolve
  obtain ⟨before, candidate, after, hsplit, hkey, hfresh, hbytes, halignment, hplace, rfl⟩ :=
    examine_eq_ok hexamine
  dsimp only at hobjects hkeys hsource
  subst hobjects
  rw [hsplit] at hkeys
  obtain ⟨holdObject, original, -, -, hlocate⟩ := getElem?_located (orFail_eq_ok.1 hsource)
  have hnew : Placement.place ⟨row, outputIndex, object, sectionIndex⟩ ∉
      placements.map Placement.place := by
    intro hmem
    obtain ⟨placement, -, -, hrva⟩ := locate_of_mem hmem original
    rw [← hlocate, hunplaced] at hrva
    cases hrva
  have hdone : done ≠ [] := hread.header.1 hheader
  have hnext := hkeys.next hfresh
    (show Placement.key ⟨row, outputIndex, object, sectionIndex⟩ = candidate.key from hkey.symm) hplace
  refine ⟨⟨fun _ ↦ by simp, fun _ ↦ hheader⟩,
    placements ++ [⟨row, outputIndex, object, sectionIndex⟩], ?_, ?_, ?_⟩
  · exact (located_append hnew objects).symm
  · obtain ⟨hobject, hsection⟩ := Prod.mk.inj hplace
    refine ⟨?_, ?_, ?_, ?_⟩
    · rw [contributionRows_append hdone, hrow, map_append, hplacements.rows]
      rfl
    · intro placement hmem
      rcases mem_append.1 hmem with hold | hlast
      · exact hplacements.described placement hold
      · rw [mem_singleton.1 hlast]
        obtain ⟨named, source', hnamed, hsource', hname, hsize, halign⟩ :=
          hkeys.names candidate (by simp)
        exact ⟨named, source', hobject ▸ hnamed, hsection ▸ hsource', hkey.symm.trans hname,
          hbytes.trans hsize, halignment.trans halign⟩
    · rw [map_append, nodup_append]
      refine ⟨hplacements.distinct, nodup_singleton _, ?_⟩
      rintro place hmem other hother rfl
      rw [mem_singleton.1 hother] at hmem
      exact hnew hmem
    · refine pairwise_append.2 ⟨hplacements.ordered, pairwise_singleton .., ?_⟩
      intro left hleft right hright hsame
      rw [mem_singleton.1 hright] at hsame ⊢
      have hearlier := hkeys.earlier hfresh hleft (hsame.trans hkey.symm)
      exact ⟨hearlier.1.trans hobject.symm, hearlier.2.trans_eq hsection.symm⟩
  · rwa [← hkey]

theorem processContributionMapLine_read (hread : MapRead objects done progress)
    (h : processContributionMapLine pe progress line = .ok progress') :
    MapRead objects (done ++ [line]) progress' := by
  obtain ⟨state, objects'⟩ := progress
  unfold processContributionMapLine at h
  obtain ⟨-, h⟩ := unit_bind_eq_ok.1 h
  split at h
  · rename_i hheader
    obtain ⟨-, h⟩ := unit_bind_eq_ok.1 h
    cases h
    obtain rfl : done = [] := by
      by_contra hdone
      exact absurd (hread.header.2 hdone) (by simp [hheader])
    obtain ⟨placements, hobjects, hplacements, hkeys⟩ := hread.placed
    exact ⟨by simp, placements, hobjects, hplacements, hkeys⟩
  · rename_i hheader
    have hstarted : state.sawHeader = true := by simpa using hheader
    have hdone : done ≠ [] := hread.header.1 hstarted
    obtain ⟨row, hrow, h⟩ := bind_eq_ok.1 h
    -- A row of another kind leaves the keys and the objects as they are.
    have hother (state' : ContributionMapState) (hsaw : state'.sawHeader = state.sawHeader)
        (hkeys' : state'.keys = state.keys) (hkind : row.indentation ≠ 8) :
        MapRead objects (done ++ [line]) (state', objects') := by
      obtain ⟨placements, hobjects, hplacements, hkeys⟩ := hread.placed
      have hnone : contributionRow? line = none := by
        rw [contributionRow?, hrow]
        exact if_neg hkind
      refine ⟨⟨fun _ ↦ by simp, fun _ ↦ hsaw.trans hstarted⟩, placements, hobjects, ?_,
        hkeys' ▸ hkeys⟩
      rwa [contributionRows_append hdone, hnone, Option.toList_none, append_nil]
    split at h
    · rename_i hkind
      obtain ⟨state', houtput, h⟩ := bind_eq_ok.1 h
      cases h
      unfold outputRow at houtput
      obtain ⟨expected, -, houtput⟩ := bind_eq_ok.1 houtput
      obtain ⟨-, houtput⟩ := unit_bind_eq_ok.1 houtput
      cases houtput
      exact hother _ rfl rfl (by rw [hkind]; norm_num)
    · rename_i hkind
      obtain ⟨state', objects''⟩ := progress'
      refine contributionRow_read hread hstarted ?_ h
      rw [contributionRow?, hrow]
      exact if_pos hkind
    · rename_i hkind
      obtain ⟨-, h⟩ := unit_bind_eq_ok.1 h
      cases h
      exact hother _ rfl rfl (by rw [hkind]; norm_num)
    · cases h

/-- The sections of the objects are placed at the rows of the map. -/
theorem parseLldContributionMap_placed (hnumbered : Numbered objects)
    (h : parseLldContributionMap text pe objects limits = .ok placed) :
    ∃ placements, placed = located placements objects ∧
      Placements objects (contributionRows (text.splitOn 0x0a).dropLast) placements := by
  unfold parseLldContributionMap at h
  obtain ⟨keys, hkeys, h⟩ := bind_eq_ok.1 h
  obtain ⟨⟨state, objects'⟩, hlines, h⟩ := bind_eq_ok.1 h
  iterate 4 obtain ⟨-, h⟩ := unit_bind_eq_ok.1 h
  cases h
  have hstart : MapRead objects [] (⟨false, 0, none, none, keys⟩, objects) :=
    ⟨by simp, [], (located_nil objects).symm, ⟨rfl, by simp, .nil, .nil⟩,
      contributionKeys_inOrder hnumbered hkeys⟩
  obtain ⟨placements, hobjects, hplacements, -⟩ := (foldlM_induction (MapRead objects) hstart
    (fun _ _ _ _ _ _ hread hline ↦ processContributionMapLine_read hread hline) hlines).placed
  exact ⟨placements, hobjects, hplacements⟩

end Wrela.LinkEfi
