import Mathlib.Tactic

/-!
# Numbering what is kept

A list of marks says which positions of a list are kept.  The rank of a position is how many are
kept before it: ranks number the kept positions in their order and without gaps.
-/

namespace Wrela.Ranking

open List

variable {α : Type}

def rank (keep : List Bool) (index : ℕ) : ℕ := (keep.take index).count true

/-- The kept items with their positions. -/
def kept (keep : List Bool) (items : List α) : List (α × ℕ) :=
  items.zipIdx.filter fun item ↦ keep.getD item.2 false

@[simp]
theorem rank_zero (keep : List Bool) : rank keep 0 = 0 := rfl

@[simp]
theorem rank_cons_succ (mark : Bool) (keep : List Bool) (index : ℕ) :
    rank (mark :: keep) (index + 1) = mark.toNat + rank keep index := by
  cases mark <;> simp [rank, Nat.add_comm]

variable {keep : List Bool}

variable {index : ℕ} {items : List α} {β : Type}

theorem rank_succ_of_kept (h : keep.getD index false = true) :
    rank keep (index + 1) = rank keep index + 1 := by
  rw [getD_eq_getElem?_getD] at h
  cases hmark : keep[index]? with
  | none => simp [hmark] at h
  | some mark =>
    obtain rfl : mark = true := by simpa [hmark] using h
    simp [rank, take_add_one, hmark]

theorem rank_mono (keep : List Bool) : Monotone (rank keep) := by
  intro left right hle
  exact (take_sublist_take_left hle).count_le true

theorem rank_lt_rank (hlt : left < right) (h : keep.getD left false = true) :
    rank keep left < rank keep right := by
  have hnext := rank_mono keep (Nat.succ_le_of_lt hlt)
  rw [Nat.succ_eq_add_one, rank_succ_of_kept h] at hnext
  exact hnext

theorem strictMonoOn_rank (keep : List Bool) :
    StrictMonoOn (rank keep) {index | keep.getD index false = true} :=
  fun _ h _ _ hlt ↦ rank_lt_rank hlt h

theorem rank_lt_count (h : keep.getD index false = true) : rank keep index < keep.count true := by
  have hnext := rank_lt_rank (Nat.lt_succ_self index) h
  exact hnext.trans_le ((take_sublist _ _).count_le true)

theorem rank_succ_of_dropped (h : keep.getD index false = false) :
    rank keep (index + 1) = rank keep index := by
  rw [getD_eq_getElem?_getD] at h
  cases hmark : keep[index]? with
  | none => simp [rank, take_add_one, hmark]
  | some mark =>
    obtain rfl : mark = false := by simpa [hmark] using h
    simp [rank, take_add_one, hmark]

theorem kept_append_singleton (keep : List Bool) (items : List α) (item : α) :
    kept keep (items ++ [item]) =
      kept keep items ++ if keep.getD items.length false then [(item, items.length)] else [] := by
  simp only [kept, zipIdx_append, filter_append, zipIdx_cons, zipIdx_nil, Nat.zero_add]
  rw [filter_cons]
  rfl

theorem length_kept (keep : List Bool) (items : List α) :
    (kept keep items).length = rank keep items.length := by
  induction items using List.reverseRecOn with
  | nil => rfl
  | append_singleton items item ih =>
    rw [kept_append_singleton, length_append, ih, length_append, length_singleton]
    cases h : keep.getD items.length false with
    | false => rw [rank_succ_of_dropped h]; rfl
    | true => rw [rank_succ_of_kept h]; rfl

/-- There are not more marks than positions that may be marked. -/
theorem count_le_of_getD (h : ∀ index, keep.getD index false = true → index < bound) :
    keep.count true ≤ bound := by
  have hrest : (keep.drop bound).count true = 0 := by
    rw [count_eq_zero]
    intro hmem
    obtain ⟨index, hindex⟩ := mem_iff_getElem?.1 hmem
    rw [List.getElem?_drop] at hindex
    have hlt := h (bound + index) (by rw [getD_eq_getElem?_getD, hindex]; rfl)
    omega
  have hsplit := congrArg (List.count true) (take_append_drop bound keep)
  rw [count_append, hrest, Nat.add_zero] at hsplit
  rw [← hsplit]
  exact (count_le_length ..).trans (length_take_le ..)

/-- The kept items have the ranks `0, 1, 2, …`. -/
theorem map_rank_kept (keep : List Bool) (items : List α) :
    (kept keep items).map (fun item ↦ rank keep item.2) = List.range (kept keep items).length := by
  induction items using List.reverseRecOn with
  | nil => rfl
  | append_singleton items item ih =>
    rw [kept_append_singleton, map_append, ih, length_append]
    cases h : keep.getD items.length false with
    | false => simp
    | true => simp [range_succ, length_kept]

/-- When every position is marked, every item is kept. -/
theorem kept_of_all (hlength : keep.length = items.length)
    (h : keep.all (·) = true) : kept keep items = items.zipIdx := by
  refine filter_eq_self.2 fun item hitem ↦ ?_
  have hlt := snd_lt_of_mem_zipIdx hitem
  rw [Nat.add_zero, ← hlength] at hlt
  rw [getD_eq_getElem?_getD, List.getElem?_eq_getElem hlt]
  exact all_eq_true.1 h _ (getElem_mem hlt)

/-- Related items are kept at the same positions. -/
theorem forall₂_kept {relation : α → β → Prop} {images : List β}
    (keep : List Bool) (h : List.Forall₂ relation items images) :
    List.Forall₂ (fun item image ↦ relation item.1 image.1 ∧ item.2 = image.2) (kept keep items)
      (kept keep images) := by
  have hzip (start : ℕ) : List.Forall₂ (fun item image ↦ relation item.1 image.1 ∧ item.2 = image.2)
      (items.zipIdx start) (images.zipIdx start) := by
    induction h generalizing start with
    | nil => exact .nil
    | cons hhead _ ih => exact .cons ⟨hhead, rfl⟩ (ih (start + 1))
  refine rel_filter (fun {_ _} hitem ↦ ?_) (hzip 0)
  dsimp only
  rw [hitem.2]

theorem flatMap_ite (p : α → Bool) (each : α → List β) (items : List α) :
    (items.flatMap fun item ↦ if p item then each item else []) =
      (items.filter p).flatMap each := by
  induction items with
  | nil => rfl
  | cons item items ih =>
    rw [flatMap_cons, ih, filter_cons]
    cases p item <;> rfl

/-- What stands beside an item in a list of the same length, by position. -/
theorem zip_eq_map_zipIdx (fallback : β) (h : marks.length = items.length) :
    items.zip marks = items.zipIdx.map fun item ↦ (item.1, marks.getD item.2 fallback) := by
  apply ext_getElem
  · simp [h]
  · intro index hleft hright
    have hlt : index < marks.length := by
      rw [length_zip, h, min_self] at hleft
      omega
    simp [hlt]

theorem flatMap_zip_kept (each : α → List β) (h : keep.length = items.length) :
    ((items.zip keep).flatMap fun item ↦ if item.2 then each item.1 else []) =
      (kept keep items).flatMap fun item ↦ each item.1 := by
  rw [zip_eq_map_zipIdx false h, flatMap_map, kept, ← flatMap_ite]

end Wrela.Ranking
