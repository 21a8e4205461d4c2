import Mathlib.Data.List.Infix

/-!
# Nested marks in a list

A list with opening and closing marks is built from left to right, and its depth says how many marks
are open at its end.  No front of such a list closes more than it opens.
-/

namespace Wrela.Nesting

open List

variable {α : Type} {opening closing : α}

/-- The marks of the list nest, and `depth` of them are open at its end. -/
inductive Nested (opening closing : α) : List α → ℕ → Prop where
  | nil : Nested opening closing [] 0
  | opens {list : List α} {depth : ℕ} (h : Nested opening closing list depth) :
      Nested opening closing (list ++ [opening]) (depth + 1)
  | closes {list : List α} {depth : ℕ} (h : Nested opening closing list (depth + 1)) :
      Nested opening closing (list ++ [closing]) depth
  | other {list : List α} {depth : ℕ} {element : α} (hopening : element ≠ opening)
      (hclosing : element ≠ closing) (h : Nested opening closing list depth) :
      Nested opening closing (list ++ [element]) depth

variable {list more : List α} {depth count : ℕ}

/-- Elements that are no marks change no depth. -/
theorem Nested.append_other (h : Nested opening closing list depth)
    (hmore : opening ∉ more ∧ closing ∉ more) : Nested opening closing (list ++ more) depth := by
  induction more generalizing list with
  | nil =>
    rw [append_nil]
    exact h
  | cons element more ih =>
    simp only [mem_cons, not_or] at hmore
    rw [append_cons]
    exact ih (.other (Ne.symm hmore.1.1) (Ne.symm hmore.2.1) h) ⟨hmore.1.2, hmore.2.2⟩

/-- Close `count` marks, each with the same elements after it. -/
theorem Nested.append_closes (hothers : opening ∉ others ∧ closing ∉ others)
    (h : Nested opening closing list (depth + count)) :
    Nested opening closing (list ++ (List.replicate count (closing :: others)).flatten) depth := by
  induction count generalizing list with
  | zero =>
    rw [replicate_zero, flatten_nil, append_nil]
    exact h
  | succ count ih =>
    rw [replicate_succ, flatten_cons, ← append_assoc, append_cons]
    exact ih (h.closes.append_other hothers)

/-- Every front of the list nests as well. -/
theorem Nested.of_prefix (h : Nested opening closing list depth) (hfront : front <+: list) :
    ∃ depth', Nested opening closing front depth' := by
  induction h with
  | nil => exact ⟨0, prefix_nil.mp hfront ▸ .nil⟩
  | @opens list depth h ih =>
    cases prefix_concat_iff.mp hfront with
    | inl hwhole => exact ⟨_, hwhole ▸ h.opens⟩
    | inr hinner => exact ih hinner
  | @closes list depth h ih =>
    cases prefix_concat_iff.mp hfront with
    | inl hwhole => exact ⟨_, hwhole ▸ h.closes⟩
    | inr hinner => exact ih hinner
  | @other list depth element hopening hclosing h ih =>
    cases prefix_concat_iff.mp hfront with
    | inl hwhole => exact ⟨_, hwhole ▸ h.other hopening hclosing⟩
    | inr hinner => exact ih hinner

section Count

variable [DecidableEq α]

theorem Nested.count_eq (hne : opening ≠ closing) (h : Nested opening closing list depth) :
    list.count opening = list.count closing + depth := by
  induction h with
  | nil => rfl
  | opens h ih =>
    rw [count_append, count_append, count_singleton_self,
      count_singleton, if_neg (by simpa using hne)]
    omega
  | closes h ih =>
    rw [count_append, count_append, count_singleton_self,
      count_singleton, if_neg (by simpa using hne.symm)]
    omega
  | other hopening hclosing h ih =>
    rw [count_append, count_append, count_singleton, count_singleton,
      if_neg (by simpa using hopening), if_neg (by simpa using hclosing)]
    omega

/-- No front of the list closes more marks than it opens. -/
theorem Nested.count_le (hne : opening ≠ closing) (h : Nested opening closing list depth)
    (hfront : front <+: list) : front.count closing ≤ front.count opening := by
  obtain ⟨depth', hnested⟩ := h.of_prefix hfront
  rw [hnested.count_eq hne]
  exact Nat.le_add_right _ _

end Count

end Wrela.Nesting
