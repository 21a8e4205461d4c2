import Mathlib.Data.List.Lex
import Mathlib.Order.Monotone.Basic
import Mathlib.Tactic

/-!
# Lexicographic order of composed words

How words over a linear order compare when they are put together from parts: parts of one length,
parts of a fixed width each, and parts that are closed by a separator below every letter.
-/

namespace Wrela.Data

open List

variable {α β : Type} [LinearOrder α] [LinearOrder β]

variable {left right front front' : List α}

theorem append_left_lt_iff (front : List α) : front ++ left < front ++ right ↔ left < right := by
  induction front with
  | nil => rfl
  | cons letter front ih => simp [ih]

/-- Fronts of one length decide first. -/
theorem append_lt_append_iff (hlength : front.length = front'.length) :
    front ++ left < front' ++ right ↔ front < front' ∨ front = front' ∧ left < right := by
  induction front generalizing front' with
  | nil => simp [eq_nil_of_length_eq_zero hlength.symm]
  | cons letter front ih =>
    obtain ⟨letter', front', rfl⟩ := exists_cons_of_length_eq_add_one hlength.symm
    have htail := ih (Nat.succ.inj hlength)
    simp only [cons_append, cons_lt_cons_iff, htail, List.cons.injEq]
    tauto

/-- Fronts that are closed by separators below their letters decide first, whatever their
lengths. -/
theorem append_cons_lt_append_cons_iff (hfront : ∀ letter ∈ front, separator' < letter)
    (hfront' : ∀ letter ∈ front', separator < letter) :
    front ++ separator :: left < front' ++ separator' :: right ↔
      front < front' ∨ front = front' ∧ separator :: left < separator' :: right := by
  induction front generalizing front' with
  | nil =>
    cases front' with
    | nil => simp
    | cons letter' front' => simp [cons_lt_cons_iff, hfront' letter' mem_cons_self]
  | cons letter front ih =>
    cases front' with
    | nil =>
      have hbelow := hfront letter mem_cons_self
      simp [cons_lt_cons_iff, hbelow.not_gt, hbelow.ne']
    | cons letter' front' =>
      have htail := @ih front' (fun next hnext ↦ hfront next (mem_cons_of_mem _ hnext))
        fun next hnext ↦ hfront' next (mem_cons_of_mem _ hnext)
      simp only [cons_append, cons_lt_cons_iff, htail, List.cons.injEq]
      tauto

/-- A front that is closed by a separator below every letter can be read off. -/
theorem front_eq_of_append_cons_eq (hfront : ∀ letter ∈ front, separator < letter)
    (hfront' : ∀ letter ∈ front', separator < letter)
    (h : front ++ separator :: left = front' ++ separator :: right) : front = front' := by
  rcases lt_trichotomy front front' with hlt | heq | hlt
  · exact absurd h ((append_cons_lt_append_cons_iff hfront hfront').2 (.inl hlt)).ne
  · exact heq
  · exact absurd h ((append_cons_lt_append_cons_iff hfront' hfront).2 (.inl hlt)).ne'

/-- A code of fixed positive width that keeps the order of letters keeps the order of words. -/
theorem flatMap_strictMono {code : α → List β} {width : ℕ} (hwidth : 0 < width)
    (hlength : ∀ letter, (code letter).length = width) (hcode : StrictMono code) :
    StrictMono fun word : List α ↦ word.flatMap code := by
  intro word
  induction word with
  | nil =>
    rintro (_ | ⟨letter', word'⟩) hlt
    · exact absurd hlt (lt_irrefl _)
    · obtain ⟨first, rest, hfirst⟩ := exists_cons_of_length_pos
        ((hlength letter').symm ▸ hwidth)
      simp [hfirst]
  | cons letter word ih =>
    rintro (_ | ⟨letter', word'⟩) hlt
    · exact absurd hlt (by simp)
    · simp only [flatMap_cons]
      rw [append_lt_append_iff ((hlength letter).trans (hlength letter').symm)]
      rcases cons_lt_cons_iff.1 hlt with hletter | ⟨rfl, hword⟩
      · exact .inl (hcode hletter)
      · exact .inr ⟨rfl, ih hword⟩

end Wrela.Data
