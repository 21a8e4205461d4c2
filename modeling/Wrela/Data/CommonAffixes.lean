import Mathlib.Data.List.DropRight
import Mathlib.Data.List.Infix

/-!
# Common affixes

The longest common prefix of two lists, the longest common suffix, and the parts in which the lists
differ: what is left of each when first the common prefix and then the common suffix of the rest are
taken away.
-/

namespace Wrela.CommonAffixes

open List

variable {α : Type} [DecidableEq α]

def commonPrefix : List α → List α → List α
  | a :: xs, b :: ys => if a = b then a :: commonPrefix xs ys else []
  | _, _ => []

def commonSuffix (xs ys : List α) : List α := (commonPrefix xs.reverse ys.reverse).reverse

/-- The parts of two lists between their longest common prefix and the longest common suffix of what
follows it. -/
def differing (xs ys : List α) : List α × List α :=
  let front := (commonPrefix xs ys).length
  let back := (commonSuffix (xs.drop front) (ys.drop front)).length
  ((xs.drop front).rdrop back, (ys.drop front).rdrop back)

theorem commonPrefix_comm (xs ys : List α) : commonPrefix xs ys = commonPrefix ys xs := by
  fun_induction commonPrefix xs ys with
  | case1 xs b ys ih => rw [commonPrefix, if_pos rfl, ih]
  | case2 a xs b ys hne => rw [commonPrefix, if_neg (Ne.symm hne)]
  | case3 xs ys h =>
    rw [commonPrefix]
    intro b ys a xs hys hxs
    exact h a xs b ys hxs hys

theorem commonPrefix_prefix_left (xs ys : List α) : commonPrefix xs ys <+: xs := by
  fun_induction commonPrefix xs ys with
  | case1 xs b ys ih => exact (prefix_cons_inj b).2 ih
  | case2 => exact nil_prefix
  | case3 => exact nil_prefix

theorem commonPrefix_prefix_right (xs ys : List α) : commonPrefix xs ys <+: ys :=
  commonPrefix_comm xs ys ▸ commonPrefix_prefix_left ys xs

/-- Every common prefix is a prefix of the longest one. -/
theorem prefix_commonPrefix {front xs ys : List α} (hxs : front <+: xs) (hys : front <+: ys) :
    front <+: commonPrefix xs ys := by
  induction front generalizing xs ys with
  | nil => exact nil_prefix
  | cons a front ih =>
    obtain ⟨xs, rfl⟩ := hxs
    obtain ⟨ys, rfl⟩ := hys
    simp only [cons_append, commonPrefix, if_true]
    exact (prefix_cons_inj a).2 (ih (prefix_append _ _) (prefix_append _ _))

theorem commonSuffix_suffix_left (xs ys : List α) : commonSuffix xs ys <:+ xs := by
  have h := reverse_suffix.2 (commonPrefix_prefix_left xs.reverse ys.reverse)
  rwa [reverse_reverse] at h

theorem commonSuffix_suffix_right (xs ys : List α) : commonSuffix xs ys <:+ ys := by
  have h := reverse_suffix.2 (commonPrefix_prefix_right xs.reverse ys.reverse)
  rwa [reverse_reverse] at h

/-- Every common suffix is a suffix of the longest one. -/
theorem suffix_commonSuffix {back xs ys : List α} (hxs : back <:+ xs) (hys : back <:+ ys) :
    back <:+ commonSuffix xs ys := by
  rw [← reverse_prefix, commonSuffix, reverse_reverse]
  exact prefix_commonPrefix ( reverse_prefix.2 hxs) ( reverse_prefix.2 hys)

theorem length_takeWhile_zip (xs ys : List α) :
    ((xs.zip ys).takeWhile fun pair ↦ pair.1 == pair.2).length = (commonPrefix xs ys).length := by
  fun_induction commonPrefix xs ys with
  | case1 xs b ys ih => simp [ih]
  | case2 a xs b ys hne => simp [hne]
  | case3 xs ys h =>
    cases xs with
    | nil => rfl
    | cons a xs =>
      cases ys with
      | nil => rfl
      | cons b ys => exact absurd rfl (h a xs b ys rfl)

/-- The count stops early when no more than `limit` pairs are compared. -/
theorem length_takeWhile_take_zip (xs ys : List α) (limit : ℕ) :
    (((xs.zip ys).take limit).takeWhile fun pair ↦ pair.1 == pair.2).length =
      min limit (commonPrefix xs ys).length := by
  induction limit generalizing xs ys with
  | zero => simp
  | succ limit ih =>
    cases xs with
    | nil => simp [commonPrefix]
    | cons a xs =>
      cases ys with
      | nil => simp [commonPrefix]
      | cons b ys =>
        by_cases hab : a = b
        · simp [commonPrefix, hab, ih]
        · simp [commonPrefix, hab]

theorem commonPrefix_append_left (front xs ys : List α) :
    commonPrefix (front ++ xs) (front ++ ys) = front ++ commonPrefix xs ys := by
  induction front with
  | nil => rfl
  | cons a front ih => simp [commonPrefix, ih]

variable (xs ys : List α)

theorem commonPrefix_append_drop :
    commonPrefix xs ys ++ xs.drop (commonPrefix xs ys).length = xs := by
  have htake := prefix_iff_eq_take.1 (commonPrefix_prefix_left xs ys)
  conv_lhs => rw [htake]
  rw [List.length_take, Nat.min_eq_left (commonPrefix_prefix_left xs ys).length_le,
    take_append_drop]

theorem rdrop_append_commonSuffix :
    xs.rdrop (commonSuffix xs ys).length ++ commonSuffix xs ys = xs := by
  obtain ⟨front, hfront⟩ := commonSuffix_suffix_left xs ys
  have hrdrop : xs.rdrop (commonSuffix xs ys).length = front := by
    generalize commonSuffix xs ys = back at hfront ⊢
    rw [← hfront, rdrop_append_length]
  rw [hrdrop, hfront]

theorem commonSuffix_comm : commonSuffix xs ys = commonSuffix ys xs := by
  rw [commonSuffix, commonPrefix_comm, commonSuffix]

/-- Both lists are their common front, the part of their own, and their common back. -/
theorem exists_differing : ∃ front back, xs = front ++ (differing xs ys).1 ++ back ∧
    ys = front ++ (differing xs ys).2 ++ back ∧ front = commonPrefix xs ys ∧
    back = commonSuffix (xs.drop front.length) (ys.drop front.length) := by
  refine ⟨commonPrefix xs ys, _, ?_, ?_, rfl, rfl⟩
  · rw [append_assoc, differing, rdrop_append_commonSuffix, commonPrefix_append_drop]
  · conv_lhs => rw [← commonPrefix_append_drop ys xs]
    rw [append_assoc, differing, commonSuffix_comm, rdrop_append_commonSuffix, commonPrefix_comm]

theorem differing_self : differing xs xs = ([], []) := by
  have hprefix : commonPrefix xs xs = xs :=
    (commonPrefix_prefix_left xs xs).eq_of_length_le
      (prefix_commonPrefix (prefix_refl xs) (prefix_refl xs)).length_le
  simp [differing, hprefix, rdrop_nil]

/-- The longer of two stretches goes on, after the shorter one, with the element that follows both.
The elements after the stretches then agree further than the stretches tell. -/
def Slides (xs ys after : List α) : Prop :=
  ∃ a rest more, after = a :: rest ∧ (xs = ys ++ a :: more ∨ ys = xs ++ a :: more)

variable {xs ys} {after : List α}

omit [DecidableEq α] in
theorem Slides.symm (h : Slides xs ys after) : Slides ys xs after := by
  obtain ⟨a, rest, more, hafter, h⟩ := h
  exact ⟨a, rest, more, hafter, h.symm⟩

omit [DecidableEq α] in
theorem not_slides_self : ¬ Slides xs xs after := by
  rintro ⟨a, rest, more, -, h | h⟩ <;> simp at h

/-- The shorter stretch ends before the common prefix only when the stretches slide. -/
theorem slides_of_lt (hne : xs ≠ ys) (hle : xs.length ≤ ys.length)
    (hlt : xs.length < (commonPrefix (xs ++ after) (ys ++ after)).length) :
    Slides xs ys after := by
  have hleft := commonPrefix_prefix_left (xs ++ after) (ys ++ after)
  have hright := commonPrefix_prefix_right (xs ++ after) (ys ++ after)
  have hxs : xs <+: ys :=
    prefix_of_prefix_length_le
      ((prefix_of_prefix_length_le (prefix_append xs after) hleft hlt.le).trans hright)
      (prefix_append ys after) hle
  obtain ⟨more, rfl⟩ := hxs
  obtain ⟨a, more, rfl⟩ : ∃ a tail, more = a :: tail := by
    apply exists_cons_of_ne_nil
    rintro rfl
    exact hne (append_nil xs).symm
  obtain ⟨shared, hshared⟩ := prefix_of_prefix_length_le (prefix_append xs after) hleft
    hlt.le
  rw [← hshared] at hleft hright hlt
  rw [prefix_append_right_inj] at hleft
  rw [append_assoc, prefix_append_right_inj] at hright
  obtain ⟨b, shared, rfl⟩ : ∃ b tail, shared = b :: tail := by
    apply exists_cons_of_ne_nil
    rintro rfl
    simp at hlt
  obtain ⟨rest, rfl⟩ := hleft
  have hab : b = a := by
    simpa using (cons_prefix_cons.1 (by simpa using hright)).1
  exact ⟨a, shared ++ rest, more, by rw [hab, cons_append], .inr rfl⟩

theorem lt_of_slides (h : Slides xs ys after) :
    min xs.length ys.length < (commonPrefix (xs ++ after) (ys ++ after)).length := by
  obtain ⟨a, rest, more, rfl, rfl | rfl⟩ := h
  · have hcommon : ys ++ [a] <+: commonPrefix (ys ++ a :: more ++ a :: rest) (ys ++ a :: rest) := by
      apply prefix_commonPrefix
      · exact ⟨more ++ a :: rest, by simp⟩
      · exact ⟨rest, by simp⟩
    have hlength := hcommon.length_le
    simp only [length_append, length_cons, length_nil] at hlength ⊢
    omega
  · have hcommon : xs ++ [a] <+: commonPrefix (xs ++ a :: rest) (xs ++ a :: more ++ a :: rest) := by
      apply prefix_commonPrefix
      · exact ⟨rest, by simp⟩
      · exact ⟨more ++ a :: rest, by simp⟩
    have hlength := hcommon.length_le
    simp only [length_append, length_cons, length_nil] at hlength ⊢
    omega

/-- The common prefix stays within both stretches exactly when they do not slide. -/
theorem le_length_iff_not_slides (hne : xs ≠ ys) :
    (commonPrefix (xs ++ after) (ys ++ after)).length ≤ min xs.length ys.length ↔
      ¬ Slides xs ys after := by
  constructor
  · intro hle hslides
    exact absurd (lt_of_slides hslides) (not_lt.2 hle)
  · intro hslides
    by_contra hlt
    rcases Nat.le_total xs.length ys.length with hle | hle
    · exact hslides (slides_of_lt hne hle (by omega))
    · rw [commonPrefix_comm] at hlt
      exact hslides (slides_of_lt hne.symm hle (by omega)).symm

/-- What follows two stretches is inside the common back exactly when the stretches do not slide. -/
theorem suffix_back_iff_not_slides (before : List α) (hne : xs ≠ ys) {front : List α}
    (hfront : front = commonPrefix (before ++ (xs ++ after)) (before ++ (ys ++ after))) :
    (after <:+ commonSuffix ((before ++ (xs ++ after)).drop front.length)
      ((before ++ (ys ++ after)).drop front.length)) ↔ ¬ Slides xs ys after := by
  rw [commonPrefix_append_left] at hfront
  rw [← le_length_iff_not_slides hne, hfront, length_append, ← drop_drop,
    ← drop_drop, drop_left, drop_left]
  have hxs := (commonPrefix_prefix_left (xs ++ after) (ys ++ after)).length_le
  have hys := (commonPrefix_prefix_right (xs ++ after) (ys ++ after)).length_le
  generalize commonPrefix (xs ++ after) (ys ++ after) = front at hxs hys ⊢
  constructor
  · intro hback
    have hleft := (hback.trans (commonSuffix_suffix_left _ _)).length_le
    have hright := (hback.trans (commonSuffix_suffix_right _ _)).length_le
    simp only [length_drop, length_append] at hleft hright hxs hys
    omega
  · intro hle
    apply suffix_commonSuffix
    · rw [drop_append_of_le_length (by omega)]
      exact suffix_append _ _
    · rw [drop_append_of_le_length (by omega)]
      exact suffix_append _ _

end Wrela.CommonAffixes
