import Mathlib.Tactic

/-!
# Integers of a fixed width

A word of `width` bits is a natural number below `2 ^ width`.  It is read as an integer with or
without a sign, and an integer is written as the word it is congruent to.
-/

namespace Wrela.Data

/-- The integer a word stands for. -/
def interpret (signed : Bool) (width word : ℕ) : ℤ :=
  if signed ∧ 2 ^ (width - 1) ≤ word then (word : ℤ) - 2 ^ width else word

/-- The word of an integer, modulo the width. -/
def encode (width : ℕ) (value : ℤ) : ℕ := (value % 2 ^ width).toNat

/-- The integers a word can stand for. -/
def Fits (signed : Bool) (width : ℕ) (value : ℤ) : Prop :=
  if signed then -2 ^ (width - 1) ≤ value ∧ value < 2 ^ (width - 1)
  else 0 ≤ value ∧ value < 2 ^ width

instance (signed : Bool) (width : ℕ) (value : ℤ) : Decidable (Fits signed width value) := by
  unfold Fits
  infer_instance

section Laws

variable {signed : Bool} {width word : ℕ} {value : ℤ}

theorem two_pow_split (hwidth : 0 < width) : 2 ^ width = 2 * 2 ^ (width - 1) := by
  rw [← pow_succ', Nat.sub_add_cancel hwidth]

theorem encode_cast (width : ℕ) (value : ℤ) : (encode width value : ℤ) = value % 2 ^ width :=
  Int.toNat_of_nonneg (Int.emod_nonneg _ (by positivity))

theorem encode_lt (width : ℕ) (value : ℤ) : encode width value < 2 ^ width := by
  have hlt : value % 2 ^ width < 2 ^ width := Int.emod_lt_of_pos _ (by positivity)
  rw [← encode_cast] at hlt
  exact_mod_cast hlt

theorem fits_interpret (hwidth : 0 < width) (hword : word < 2 ^ width) :
    Fits signed width (interpret signed width word) := by
  have hsplit : (2 : ℤ) ^ width = 2 * 2 ^ (width - 1) := by exact_mod_cast two_pow_split hwidth
  have hpos : (0 : ℤ) < 2 ^ (width - 1) := by positivity
  have hword' : (word : ℤ) < 2 ^ width := by exact_mod_cast hword
  unfold Fits interpret
  cases signed with
  | false => simp [hword']
  | true =>
    simp only [true_and, if_true]
    split
    · rename_i hhigh
      have hhigh' : (2 : ℤ) ^ (width - 1) ≤ word := by exact_mod_cast hhigh
      constructor <;> omega
    · rename_i hlow
      have hlow' : (word : ℤ) < 2 ^ (width - 1) := by exact_mod_cast not_le.1 hlow
      constructor <;> omega

theorem encode_interpret (hword : word < 2 ^ width) :
    encode width (interpret signed width word) = word := by
  have hword' : (word : ℤ) < 2 ^ width := by exact_mod_cast hword
  have hmod : (word : ℤ) % 2 ^ width = word := Int.emod_eq_of_lt (by positivity) hword'
  unfold encode interpret
  split
  · rw [Int.sub_emod_right, hmod, Int.toNat_natCast]
  · rw [hmod, Int.toNat_natCast]

theorem interpret_encode (hwidth : 0 < width) (hfits : Fits signed width value) :
    interpret signed width (encode width value) = value := by
  have hsplit : (2 : ℤ) ^ width = 2 * 2 ^ (width - 1) := by exact_mod_cast two_pow_split hwidth
  have hpos : (0 : ℤ) < 2 ^ (width - 1) := by positivity
  have hcast := encode_cast width value
  have hhigh : 2 ^ (width - 1) ≤ encode width value ↔
      (2 : ℤ) ^ (width - 1) ≤ value % 2 ^ width := by
    rw [← hcast]
    norm_cast
  unfold Fits at hfits
  unfold interpret
  simp only [hcast, hhigh]
  cases signed with
  | false =>
    simp only [Bool.false_eq_true, false_and, if_false] at hfits ⊢
    exact Int.emod_eq_of_lt hfits.1 hfits.2
  | true =>
    simp only [if_true, true_and] at hfits ⊢
    rcases le_or_gt 0 value with hnonneg | hneg
    · have hmod : value % 2 ^ width = value := Int.emod_eq_of_lt hnonneg (by omega)
      rw [hmod, if_neg (by omega)]
    · have hmod : value % 2 ^ width = value + 2 ^ width := by
        rw [← Int.add_emod_right]
        exact Int.emod_eq_of_lt (by omega) (by omega)
      rw [hmod, if_pos (by omega)]
      omega

/-- Words agree with the integers they stand for, modulo the width. -/
theorem interpret_emod (signed : Bool) (width word : ℕ) :
    interpret signed width word % 2 ^ width = (word : ℤ) % 2 ^ width := by
  unfold interpret
  split
  · rw [Int.sub_emod_right]
  · rfl

theorem encode_congr (h : left % 2 ^ width = right % 2 ^ width) :
    encode width left = encode width right := by
  rw [encode, encode, h]

end Laws

/-- The number that the first `k` bits of a dividend form. -/
def leadingPart (width dividend k : ℕ) : ℕ := dividend / 2 ^ (width - k)

section Laws

variable {width dividend divisor k candidate bit : ℕ}

theorem leadingPart_zero (h : dividend < 2 ^ width) : leadingPart width dividend 0 = 0 :=
  Nat.div_eq_of_lt h

@[simp]
theorem leadingPart_self : leadingPart width dividend width = dividend := by
  simp [leadingPart]

theorem leadingPart_succ (h : k < width) :
    leadingPart width dividend (k + 1) =
      2 * leadingPart width dividend k + dividend / 2 ^ (width - 1 - k) % 2 := by
  have hsplit : 2 ^ (width - k) = 2 ^ (width - 1 - k) * 2 := by
    rw [← pow_succ]
    congr 1
    omega
  have hsame : width - (k + 1) = width - 1 - k := by omega
  rw [leadingPart, leadingPart, hsame, hsplit, ← Nat.div_div_eq_div_mul]
  omega

theorem leadingPart_lt (hdividend : dividend < 2 ^ width) (h : k ≤ width) :
    leadingPart width dividend k < 2 ^ k := by
  have hsplit : 2 ^ width = 2 ^ (width - k) * 2 ^ k := by
    rw [← pow_add]
    congr 1
    omega
  exact Nat.div_lt_of_lt_mul (hsplit ▸ hdividend)

/-- One more bit leaves the candidate and a multiple of the divisor. -/
theorem two_mul_add_eq (hcandidate : candidate = 2 * (dividend % divisor) + bit) :
    2 * dividend + bit = candidate + divisor * (2 * (dividend / divisor)) := by
  have hdivision := Nat.div_add_mod dividend divisor
  rw [hcandidate]
  nlinarith

/-- The remainder after one more bit. -/
theorem mod_two_mul_add (hdivisor : 0 < divisor) (hbit : bit < 2)
    (hcandidate : candidate = 2 * (dividend % divisor) + bit) :
    (2 * dividend + bit) % divisor =
      if divisor ≤ candidate then candidate - divisor else candidate := by
  have hlt := Nat.mod_lt dividend hdivisor
  rw [two_mul_add_eq hcandidate, Nat.add_mul_mod_self_left]
  split
  · rename_i henough
    rw [Nat.mod_eq_sub_mod henough, Nat.mod_eq_of_lt (by omega)]
  · rename_i hshort
    exact Nat.mod_eq_of_lt (not_le.1 hshort)

/-- The quotient after one more bit. -/
theorem div_two_mul_add (hdivisor : 0 < divisor) (hbit : bit < 2)
    (hcandidate : candidate = 2 * (dividend % divisor) + bit) :
    (2 * dividend + bit) / divisor =
      2 * (dividend / divisor) + if divisor ≤ candidate then 1 else 0 := by
  have hlt := Nat.mod_lt dividend hdivisor
  rw [two_mul_add_eq hcandidate, Nat.add_mul_div_left _ _ hdivisor, add_comm]
  congr 1
  split
  · rename_i henough
    rw [Nat.div_eq_sub_div hdivisor henough, Nat.div_eq_of_lt (by omega)]
  · rename_i hshort
    exact Nat.div_eq_of_lt (not_le.1 hshort)

end Laws

end Wrela.Data
