import Mathlib.Data.List.ReduceOption
import Mathlib.Tactic

/-!
# Open addressing with linear probing

A table is a list of optional slots whose length is a power of two.  A key is looked for from its
home position onwards, wrapping around, until it or an empty slot is met; an entry is placed in the
first empty slot on that path.  `WellFormed` says that every stored entry is on the occupied part
of its own path and that keys do not repeat.  Under it `find` answers membership exactly
(`find_eq_some`), and placing an absent key into a table with an empty slot
succeeds and adds exactly that entry (`place_spec`).
-/

namespace Wrela.OpenAddressing

open List

variable {κ α : Type} (key : α → κ) (home : κ → ℕ)

/-- The search for `k` from `index`, for at most `fuel` probes. -/
def findFrom [DecidableEq κ] (slots : List (Option α)) (k : κ) : ℕ → ℕ → Option ℕ
  | 0, _ => none
  | fuel + 1, index =>
    match slots[index]? with
    | some (some slot) =>
      if key slot = k then some index
      else findFrom slots k fuel ((index + 1) &&& (slots.length - 1))
    | some none | none => none

def find [DecidableEq κ] (slots : List (Option α)) (k : κ) : Option ℕ :=
  if slots.isEmpty then none
  else findFrom key slots k slots.length (home k &&& (slots.length - 1))

/-- Put `slot` into the first empty slot from `index` on, within `fuel` probes. -/
def placeFrom (slots : List (Option α)) (slot : α) : ℕ → ℕ → Option (List (Option α))
  | 0, _ => none
  | fuel + 1, index =>
    match slots[index]? with
    | some none => some (slots.set index (some slot))
    | some (some _) => placeFrom slots slot fuel ((index + 1) &&& (slots.length - 1))
    | none => none

def place (slots : List (Option α)) (slot : α) : Option (List (Option α)) :=
  if slots.isEmpty then none
  else placeFrom slots slot slots.length (home (key slot) &&& (slots.length - 1))

/-- Place the entries one after another, as a rehash does. -/
def placeAll : List (Option α) → List α → Option (List (Option α))
  | slots, [] => some slots
  | slots, entry :: entries => do
    let slots ← place key home slots entry
    placeAll slots entries

/-- The position met after `p` probes from the home position `start`. -/
def slotAt (n start p : ℕ) : ℕ := (start + p) % n

variable {n i : ℕ}

theorem slotAt_lt (hn : 0 < n) (start p : ℕ) : slotAt n start p < n := Nat.mod_lt _ hn

theorem home_and_mask (hn : n = 2 ^ e) (start : ℕ) : start &&& (n - 1) = slotAt n start 0 := by
  rw [hn, Nat.and_two_pow_sub_one_eq_mod, slotAt, Nat.add_zero]

theorem slotAt_succ_and_mask (hn : n = 2 ^ e) (start p : ℕ) :
    (slotAt n start p + 1) &&& (n - 1) = slotAt n start (p + 1) := by
  rw [hn, Nat.and_two_pow_sub_one_eq_mod, slotAt, slotAt, Nat.mod_add_mod, Nat.add_assoc]

theorem slotAt_inj (hp : p < n) (hq : q < n) (h : slotAt n start p = slotAt n start q) : p = q := by
  have hmod : p ≡ q [MOD n] := Nat.ModEq.add_left_cancel' start h
  exact Nat.ModEq.eq_of_lt_of_lt hmod hp hq

/-- Every position lies on every probe path. -/
theorem exists_slotAt (start : ℕ) (hi : i < n) : ∃ p < n, slotAt n start p = i := by
  have hn : 0 < n := by omega
  refine ⟨(i + (n - start % n)) % n, Nat.mod_lt _ hn, ?_⟩
  have hstart := Nat.mod_lt start hn
  have hsum : start % n + (i + (n - start % n)) = i + n := by omega
  rw [slotAt, Nat.add_mod, Nat.mod_mod, ← Nat.add_mod, ← Nat.mod_add_mod, hsum,
    Nat.add_mod_right, Nat.mod_eq_of_lt hi]

def Occupied (slots : List (Option α)) (i : ℕ) : Prop := ∃ a, slots[i]? = some (some a)

/-- Every entry sits on the occupied part of its own probe path, and no key is stored twice. -/
structure WellFormed (slots : List (Option α)) : Prop where
  powerOfTwo : ∃ e, slots.length = 2 ^ e
  reachable : ∀ (i : ℕ) a, slots[i]? = some (some a) →
    ∃ p < slots.length, slotAt slots.length (home (key a)) p = i ∧
      ∀ q < p, Occupied slots (slotAt slots.length (home (key a)) q)
  unique : ∀ (i j : ℕ) a b, slots[i]? = some (some a) → slots[j]? = some (some b) →
    key a = key b → i = j

theorem wellFormed_replicate (e : ℕ) : WellFormed key home (List.replicate (2 ^ e) none) where
  powerOfTwo := ⟨e, length_replicate⟩
  reachable i a h := by
    rw [List.getElem?_replicate] at h
    split at h <;> simp at h
  unique i j a b h := by
    rw [List.getElem?_replicate] at h
    split at h <;> simp at h

variable {key home}

namespace WellFormed

variable {slots : List (Option α)}

theorem length_pos (h : WellFormed key home slots) : 0 < slots.length := by
  obtain ⟨e, he⟩ := h.powerOfTwo
  rw [he]
  exact Nat.two_pow_pos e

theorem not_isEmpty (h : WellFormed key home slots) : slots.isEmpty = false := by
  have hpos := h.length_pos
  cases slots with
  | nil => simp at hpos
  | cons => rfl

variable {i P : ℕ} {a : α}

theorem findFrom_sound [DecidableEq κ] (h : findFrom key slots k fuel index = some i) :
    ∃ a, slots[i]? = some (some a) ∧ key a = k := by
  induction fuel generalizing index with
  | zero => cases h
  | succ fuel ih =>
    unfold findFrom at h
    split at h
    · rename_i slot hslot
      split at h
      · rename_i hkey
        cases h
        exact ⟨slot, hslot, hkey⟩
      · exact ih h
    · cases h
    · cases h

/-- The search reaches an entry at probe `P` through occupied slots with other keys. -/
theorem findFrom_reaches [DecidableEq κ] (hlength : slots.length = 2 ^ e)
    (ha : slots[slotAt slots.length start P]? = some (some a)) (hkey : key a = k)
    (hpath : ∀ q < P, ∃ b, slots[slotAt slots.length start q]? = some (some b) ∧ key b ≠ k)
    (fuel p : ℕ) (hp : p ≤ P) (hfuel : P < p + fuel) :
    findFrom key slots k fuel (slotAt slots.length start p) =
      some (slotAt slots.length start P) := by
  induction fuel generalizing p with
  | zero => omega
  | succ fuel ih =>
    rw [findFrom]
    rcases hp.eq_or_lt with rfl | hlt
    · simp [ha, hkey]
    · obtain ⟨b, hb, hne⟩ := hpath p hlt
      simp only [hb, if_neg hne]
      rw [slotAt_succ_and_mask hlength]
      exact ih (p + 1) hlt (by omega)

/-- `find` returns the position of the one entry with the key. -/
theorem find_eq_some [DecidableEq κ] (h : WellFormed key home slots) :
    find key home slots k = some i ↔ ∃ a, slots[i]? = some (some a) ∧ key a = k := by
  obtain ⟨e, he⟩ := h.powerOfTwo
  rw [find, h.not_isEmpty, if_neg (by simp), home_and_mask he]
  constructor
  · exact findFrom_sound
  · rintro ⟨a, ha, rfl⟩
    obtain ⟨P, hP, hslot, hoccupied⟩ := h.reachable i a ha
    rw [← hslot] at ha ⊢
    refine findFrom_reaches he ha rfl (fun q hq ↦ ?_) _ 0 (Nat.zero_le P) (by omega)
    obtain ⟨b, hb⟩ := hoccupied q hq
    refine ⟨b, hb, fun hkey ↦ ?_⟩
    have hsame := slotAt_inj (hq.trans hP) hP (h.unique _ _ b a hb ha hkey)
    omega

theorem placeFrom_reaches (hlength : slots.length = 2 ^ e)
    (hempty : slots[slotAt slots.length start P]? = some none)
    (hpath : ∀ q < P, Occupied slots (slotAt slots.length start q)) (fuel p : ℕ) (hp : p ≤ P)
    (hfuel : P < p + fuel) :
    placeFrom slots slot fuel (slotAt slots.length start p) =
      some (slots.set (slotAt slots.length start P) (some slot)) := by
  induction fuel generalizing p with
  | zero => omega
  | succ fuel ih =>
    rw [placeFrom]
    rcases hp.eq_or_lt with rfl | hlt
    · simp [hempty]
    · obtain ⟨b, hb⟩ := hpath p hlt
      simp only [hb]
      rw [slotAt_succ_and_mask hlength]
      exact ih (p + 1) hlt (by omega)

/-- The first empty slot on a probe path, when the table has an empty slot at all. -/
theorem exists_first_empty (start : ℕ) (hempty : none ∈ slots) :
    ∃ P < slots.length, slots[slotAt slots.length start P]? = some none ∧
      ∀ q < P, Occupied slots (slotAt slots.length start q) := by
  classical
  obtain ⟨i, hi⟩ := mem_iff_getElem?.1 hempty
  have hlt : i < slots.length := (List.getElem?_eq_some_iff.1 hi).1
  obtain ⟨p, hp, rfl⟩ := exists_slotAt start hlt
  have hexists : ∃ P, slots[slotAt slots.length start P]? = some none := ⟨p, hi⟩
  refine ⟨Nat.find hexists, (Nat.find_min' hexists hi).trans_lt hp, Nat.find_spec hexists,
    fun q hq ↦ ?_⟩
  have hne := Nat.find_min hexists hq
  have hbound := slotAt_lt (n := slots.length) (by omega) start q
  obtain ⟨slot, hslot⟩ : ∃ slot, slots[slotAt slots.length start q]? = some slot :=
    ⟨_, List.getElem?_eq_getElem hbound⟩
  cases slot with
  | none => exact absurd hslot hne
  | some a => exact ⟨a, hslot⟩

theorem occupied_set (h : Occupied slots i) (hj : j < slots.length) :
    Occupied (slots.set j (some a)) i := by
  obtain ⟨b, hb⟩ := h
  by_cases hij : j = i
  · exact ⟨a, by rw [← hij, List.getElem?_set_self hj]⟩
  · exact ⟨b, by rw [List.getElem?_set_ne hij, hb]⟩

/-- Writing an entry at a slot keeps the table well formed when the entry belongs there: its path
up to the slot is occupied, and no other slot holds its key. -/
theorem set (h : WellFormed key home slots) (hP : P < slots.length)
    (hi : slotAt slots.length (home (key a)) P = i)
    (hpath : ∀ q < P, Occupied slots (slotAt slots.length (home (key a)) q))
    (hfresh : ∀ (j : ℕ) b, slots[j]? = some (some b) → key b = key a → j = i) :
    WellFormed key home (slots.set i (some a)) := by
  have hbound : i < slots.length := hi ▸ slotAt_lt h.length_pos _ _
  have hget (j : ℕ) (b : α) (hb : (slots.set i (some a))[j]? = some (some b)) :
      (j = i ∧ b = a) ∨ slots[j]? = some (some b) := by
    by_cases hij : i = j
    · rw [← hij, List.getElem?_set_self hbound] at hb
      simp only [Option.some.injEq] at hb
      exact .inl ⟨hij.symm, hb.symm⟩
    · rw [List.getElem?_set_ne hij] at hb
      exact .inr hb
  refine ⟨by simpa using h.powerOfTwo, fun j b hb ↦ ?_, fun j k b c hb hc hkey ↦ ?_⟩
  · rw [length_set]
    rcases hget j b hb with ⟨rfl, rfl⟩ | hb
    · exact ⟨P, hP, hi, fun q hq ↦ occupied_set (hpath q hq) hbound⟩
    · obtain ⟨p, hp, hj, hoccupied⟩ := h.reachable j b hb
      exact ⟨p, hp, hj, fun q hq ↦ occupied_set (hoccupied q hq) hbound⟩
  · rcases hget j b hb with ⟨hj, rfl⟩ | hold <;> rcases hget k c hc with ⟨hk, rfl⟩ | hold'
    · rw [hj, hk]
    · rw [hj, hfresh k c hold' hkey.symm]
    · rw [hk, hfresh j b hold hkey]
    · exact h.unique j k b c hold hold' hkey

/-- Placing a key that is not stored succeeds when the table has an empty slot. -/
theorem place_spec (h : WellFormed key home slots) (hempty : none ∈ slots)
    (hfresh : ∀ b, some b ∈ slots → key b ≠ key a) :
    ∃ i, slots[i]? = some none ∧ place key home slots a = some (slots.set i (some a)) ∧
      WellFormed key home (slots.set i (some a)) := by
  obtain ⟨e, he⟩ := h.powerOfTwo
  obtain ⟨P, hP, hslot, hpath⟩ := exists_first_empty (home (key a)) hempty
  refine ⟨_, hslot, ?_, h.set hP rfl hpath fun j b hb hkey ↦ ?_⟩
  · rw [place, h.not_isEmpty, if_neg (by simp), home_and_mask he]
    exact placeFrom_reaches he hslot hpath _ 0 (Nat.zero_le P) (by omega)
  · exact absurd hkey (hfresh b (mem_of_getElem? hb))

/-- Replacing an entry by one with the same key keeps the table well formed. -/
theorem replace (h : WellFormed key home slots) (ha : slots[i]? = some (some a))
    (hkey : key b = key a) :
    WellFormed key home (slots.set i (some b)) := by
  obtain ⟨P, hP, hi, hpath⟩ := h.reachable i a ha
  rw [← hkey] at hi hpath
  exact h.set hP hi hpath fun j c hc hc' ↦ h.unique j i c a hc ha (hc'.trans hkey)

end WellFormed

/-- The stored entries, in slot order. -/
def contents (slots : List (Option α)) : List α := slots.reduceOption

theorem mem_contents : a ∈ contents slots ↔ some a ∈ slots := reduceOption_mem_iff

theorem contents_split (h : slots[i]? = some slot) :
    contents slots = contents (slots.take i) ++ (slot.toList ++ contents (slots.drop (i + 1))) := by
  obtain ⟨hlt, hget⟩ := List.getElem?_eq_some_iff.1 h
  have hsplit : slots.take i ++ slot :: slots.drop (i + 1) = slots := by
    rw [← hget, getElem_cons_drop, take_append_drop]
  calc
    contents slots = (slots.take i ++ slot :: slots.drop (i + 1)).reduceOption := by
      rw [hsplit, contents]
    _ = contents (slots.take i) ++ (slot.toList ++ contents (slots.drop (i + 1))) := by
      rw [reduceOption_append]
      cases slot <;> rfl

theorem contents_set {slots : List (Option α)} (h : i < slots.length) (slot : Option α) :
    contents (slots.set i slot) =
      contents (slots.take i) ++ (slot.toList ++ contents (slots.drop (i + 1))) := by
  have hsplit := contents_split (List.getElem?_set_self h (a := slot))
  rwa [take_set_of_le le_rfl, drop_set_of_lt (Nat.lt_succ_self i)] at hsplit

theorem contents_set_perm (hi : slots[i]? = some none) :
    (contents (slots.set i (some a))).Perm (a :: contents slots) := by
  obtain ⟨hlt, -⟩ := List.getElem?_eq_some_iff.1 hi
  rw [contents_set hlt, contents_split hi]
  exact perm_middle

theorem none_mem_of_length_contents_lt (h : (contents slots).length < slots.length) :
    none ∈ slots :=
  reduceOption_length_lt_iff.1 h

/-- A rehash succeeds when there is room, and keeps exactly the entries. -/
theorem placeAll_spec (h : WellFormed key home slots) (entries : List α)
    (hroom : (contents slots).length + entries.length ≤ slots.length)
    (hnodup : (entries.map key).Nodup) (hfresh : ∀ a ∈ entries, ∀ b ∈ contents slots, key b ≠ key a)
    :
    ∃ slots', placeAll key home slots entries = some slots' ∧ WellFormed key home slots' ∧
      slots'.length = slots.length ∧ (contents slots').Perm (contents slots ++ entries) := by
  induction entries generalizing slots with
  | nil => exact ⟨slots, rfl, h, rfl, by simp⟩
  | cons a entries ih =>
    simp only [length_cons] at hroom
    rw [map_cons, nodup_cons] at hnodup
    obtain ⟨i, hi, hplace, hwell⟩ := h.place_spec
      (none_mem_of_length_contents_lt (by omega))
      fun b hb ↦ hfresh a (by simp) b (mem_contents.2 hb)
    have hperm := contents_set_perm hi (a := a)
    have hlength := hperm.length_eq
    rw [length_cons] at hlength
    obtain ⟨slots', hall, hwell', hlength', hperm'⟩ := ih hwell
      (by rw [hlength, length_set]; omega) hnodup.2 (fun b hb c hc ↦ by
        rcases mem_cons.1 (hperm.mem_iff.1 hc) with rfl | hc
        · exact fun hkey ↦ hnodup.1 (mem_map.2 ⟨b, hb, hkey.symm⟩)
        · exact hfresh b (by simp [hb]) c hc)
    refine ⟨slots', by rw [placeAll, hplace]; exact hall, hwell', by simpa using hlength', ?_⟩
    exact hperm'.trans ((hperm.append_right entries).trans perm_middle.symm)

theorem WellFormed.nodup_keys (h : WellFormed key home slots) :
    ((contents slots).map key).Nodup := by
  have hunique := h.unique
  clear h
  rw [contents]
  induction slots with
  | nil => simp [List.reduceOption]
  | cons slot slots ih =>
    have htail := ih fun i j a b ha hb hkey ↦ by
      simpa using hunique (i + 1) (j + 1) a b (by simpa using ha) (by simpa using hb) hkey
    cases slot with
    | none => rwa [reduceOption_cons_of_none]
    | some a =>
      rw [reduceOption_cons_of_some, map_cons, nodup_cons]
      refine ⟨fun hmem ↦ ?_, htail⟩
      obtain ⟨b, hb, hkey⟩ := mem_map.1 hmem
      obtain ⟨j, hj⟩ := mem_iff_getElem?.1 (reduceOption_mem_iff.1 hb)
      have hzero := hunique 0 (j + 1) a b (by simp) (by simpa using hj) hkey.symm
      omega

end Wrela.OpenAddressing
