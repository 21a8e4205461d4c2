import Mathlib.Data.BitVec
import Mathlib.Data.List.GetD
import Mathlib.Tactic

/-!
# Cyclic redundancy checks

A check is computed by a register that takes in a message bit by bit and divides by a polynomial.
The register is linear (`feed_xor`), and when the polynomial has its top bit a step loses nothing
(`shiftOut_injective`).  So two messages that differ only within as many consecutive bits as the
register has leave it in different states (`feed_ne_of_burst`).
-/

namespace Wrela.ShiftRegister

open List

variable {w : ℕ}

/-- Move the register on by one bit; the bit that falls out decides whether the polynomial is
added. -/
def shiftOut (polynomial register : BitVec w) : BitVec w :=
  (register >>> 1) ^^^ (if register.getLsbD 0 then polynomial else 0#w)

/-- The register with a bit added to its end. -/
def push (register : BitVec w) (bit : Bool) : BitVec w :=
  register ^^^ (BitVec.ofBool bit).setWidth w

/-- Take in a message, its first bit first. -/
def feed (polynomial : BitVec w) : BitVec w → List Bool → BitVec w :=
  List.foldl fun register bit ↦ shiftOut polynomial (push register bit)

@[simp]
theorem feed_nil (polynomial register : BitVec w) : feed polynomial register [] = register := rfl

@[simp]
theorem feed_cons (polynomial register : BitVec w) (bit : Bool) (bits : List Bool) :
    feed polynomial register (bit :: bits) =
      feed polynomial (shiftOut polynomial (push register bit)) bits := rfl

theorem feed_append (polynomial register : BitVec w) (front back : List Bool) :
    feed polynomial register (front ++ back) =
      feed polynomial (feed polynomial register front) back := foldl_append

theorem getLsbD_shiftOut (polynomial register : BitVec w) (i : ℕ) :
    (shiftOut polynomial register).getLsbD i =
      (register.getLsbD (i + 1) ^^ (register.getLsbD 0 && polynomial.getLsbD i)) := by
  rw [shiftOut, BitVec.getLsbD_xor, BitVec.getLsbD_ushiftRight, Nat.add_comm 1 i]
  split <;> simp_all

theorem getLsbD_push_zero (hw : 0 < w) (register : BitVec w) (bit : Bool) :
    (push register bit).getLsbD 0 = (register.getLsbD 0 ^^ bit) := by
  simp [push, hw]

theorem getLsbD_push_succ (register : BitVec w) (bit : Bool) (i : ℕ) :
    (push register bit).getLsbD (i + 1) = register.getLsbD (i + 1) := by
  simp [push]

theorem shiftOut_xor (polynomial left right : BitVec w) :
    shiftOut polynomial (left ^^^ right) =
      shiftOut polynomial left ^^^ shiftOut polynomial right := by
  apply BitVec.eq_of_getLsbD_eq
  intro i _
  simp only [getLsbD_shiftOut, BitVec.getLsbD_xor]
  cases left.getLsbD 0 <;> cases right.getLsbD 0 <;> cases polynomial.getLsbD i <;>
    cases left.getLsbD (i + 1) <;> cases right.getLsbD (i + 1) <;> rfl

theorem push_xor (left right : BitVec w) (bit bit' : Bool) :
    push (left ^^^ right) (bit ^^ bit') = push left bit ^^^ push right bit' := by
  apply BitVec.eq_of_getLsbD_eq
  intro i hi
  cases i with
  | zero =>
    simp only [BitVec.getLsbD_xor, getLsbD_push_zero hi]
    cases left.getLsbD 0 <;> cases right.getLsbD 0 <;> cases bit <;> cases bit' <;> rfl
  | succ i => simp only [BitVec.getLsbD_xor, getLsbD_push_succ]

variable {message : List Bool} {polynomial : BitVec w}

/-- The register is linear in its state and in the message. -/
theorem feed_xor (polynomial : BitVec w) (hlength : message.length = message'.length)
    (register register' : BitVec w) :
    feed polynomial (register ^^^ register') (message.zipWith (· ^^ ·) message') =
      feed polynomial register message ^^^ feed polynomial register' message' := by
  induction message generalizing message' register register' with
  | nil =>
    obtain rfl := length_eq_zero_iff.1 hlength.symm
    rfl
  | cons bit message ih =>
    cases message' with
    | nil => cases hlength
    | cons bit' message' =>
      have htail : message.length = message'.length := Nat.succ_inj.1 hlength
      rw [zipWith_cons_cons, feed_cons, push_xor, shiftOut_xor, ih htail]
      rfl

theorem eq_zero_of_shiftOut {register : BitVec w} (htop : polynomial.msb = true)
    (h : shiftOut polynomial register = 0#w) : register = 0#w := by
  have hw : 0 < w := by
    rcases Nat.eq_zero_or_pos w with rfl | hw
    · simp [BitVec.msb] at htop
    · exact hw
  have hbits (i : ℕ) :
      (register.getLsbD (i + 1) ^^ (register.getLsbD 0 && polynomial.getLsbD i)) = false := by
    rw [← getLsbD_shiftOut, h, BitVec.getLsbD_zero]
  have hlast : register.getLsbD 0 = false := by
    have htopBit := hbits (w - 1)
    rw [BitVec.msb_eq_getLsbD_last] at htop
    rw [Nat.sub_add_cancel hw, BitVec.getLsbD_of_ge _ _ le_rfl, htop] at htopBit
    simpa using htopBit
  apply BitVec.eq_of_getLsbD_eq
  intro i _
  rw [BitVec.getLsbD_zero]
  cases i with
  | zero => exact hlast
  | succ i => simpa [hlast] using hbits i

theorem shiftOut_injective (htop : polynomial.msb = true) :
    Function.Injective (shiftOut polynomial) := by
  intro left right h
  have hzero : shiftOut polynomial (left ^^^ right) = 0#w := by
    rw [shiftOut_xor, h]
    exact BitVec.xor_self
  exact BitVec.xor_eq_zero_iff.1 (eq_zero_of_shiftOut htop hzero)

theorem push_injective (bit : Bool) : Function.Injective fun register : BitVec w ↦
    push register bit := fun _ _ h ↦ (BitVec.xor_left_inj _).1 h

/-- Two states that differ still differ after the same message. -/
theorem feed_injective (htop : polynomial.msb = true)
    (message : List Bool) : Function.Injective fun register ↦ feed polynomial register message := by
  induction message with
  | nil => exact Function.injective_id
  | cons bit message ih =>
    intro left right h
    exact push_injective bit (shiftOut_injective htop (ih h))

/-- A message no longer than the register that empties it was in the register already. -/
theorem getLsbD_of_feed (htop : polynomial.msb = true) (hlength : message.length ≤ w)
    (h : feed polynomial register message = 0#w) (i : ℕ) (hi : i < w) :
    register.getLsbD i = message.getD i false := by
  induction message generalizing register i with
  | nil =>
    rw [feed_nil] at h
    rw [h, BitVec.getLsbD_zero]
    rfl
  | cons bit message ih =>
    rw [length_cons] at hlength
    have hbits (j : ℕ) (hj : j < w) : ((push register bit).getLsbD (j + 1) ^^
        ((push register bit).getLsbD 0 && polynomial.getLsbD j)) = message.getD j false := by
      rw [← getLsbD_shiftOut]
      exact ih (by omega) h j hj
    -- The top bit is still free, so nothing fell out.
    have hlast : (push register bit).getLsbD 0 = false := by
      have htopBit := hbits (w - 1) (by omega)
      rw [BitVec.msb_eq_getLsbD_last] at htop
      rw [Nat.sub_add_cancel (by omega), BitVec.getLsbD_of_ge _ _ le_rfl, htop,
        getD_eq_default _ _ (by omega)] at htopBit
      simpa using htopBit
    cases i with
    | zero =>
      rw [getLsbD_push_zero hi] at hlast
      simpa using hlast
    | succ i =>
      have hbit := hbits i (by omega)
      rw [hlast, Bool.false_and, Bool.xor_false, getLsbD_push_succ] at hbit
      rw [hbit, getD_cons_succ]

theorem eq_of_zipWith_xor (hlength : message.length = message'.length)
    (h : ∀ i, (message.zipWith (· ^^ ·) message').getD i false = false) : message = message' := by
  apply ext_getElem hlength
  intro i hi hi'
  have hbit := h i
  rw [getD_eq_getElem _ _ (by rw [length_zipWith]; omega), getElem_zipWith] at hbit
  simpa using hbit

/-- Messages that differ only within `w` consecutive bits leave different registers. -/
theorem feed_ne_of_burst (htop : polynomial.msb = true) (hlength : burst.length = burst'.length)
    (hburst : burst.length ≤ w) (hne : burst ≠ burst') (register : BitVec w) :
    feed polynomial register (front ++ burst ++ back) ≠
      feed polynomial register (front ++ burst' ++ back) := by
  intro h
  rw [feed_append, feed_append _ _ _ back, feed_append, feed_append _ _ front burst'] at h
  have hmiddle := feed_injective htop back h
  have hzero := feed_xor polynomial hlength (feed polynomial register front)
    (feed polynomial register front)
  rw [hmiddle, BitVec.xor_self, BitVec.xor_self] at hzero
  apply hne
  apply eq_of_zipWith_xor hlength
  intro i
  rcases lt_or_ge i w with hi | hi
  · rw [← getLsbD_of_feed htop (by rw [length_zipWith]; omega) hzero i hi]
    exact BitVec.getLsbD_zero
  · exact getD_eq_default _ _ (by rw [length_zipWith]; omega)

/-- The word whose bits, from the lowest on, are those of a message. -/
def word (w : ℕ) : List Bool → BitVec w
  | [] => 0#w
  | bit :: bits => push (word w bits <<< 1) bit

theorem getLsbD_word (bits : List Bool) (hi : i < w) :
    (word w bits).getLsbD i = bits.getD i false := by
  induction bits generalizing i with
  | nil => exact BitVec.getLsbD_zero
  | cons bit bits ih =>
    cases i with
    | zero => rw [word, getLsbD_push_zero hi]; simp
    | succ i =>
      rw [word, getLsbD_push_succ, BitVec.getLsbD_shiftLeft, getD_cons_succ]
      simp [hi, ih (Nat.lt_of_succ_lt hi)]

theorem shiftOut_shiftLeft_word (hlength : bits.length < w) (polynomial : BitVec w) :
    shiftOut polynomial (word w bits <<< 1) = word w bits := by
  apply BitVec.eq_of_getLsbD_eq
  intro i hi
  rw [getLsbD_shiftOut, getLsbD_word bits hi]
  rcases Nat.lt_or_ge (i + 1) w with hnext | hnext
  · rw [BitVec.getLsbD_shiftLeft, Nat.add_sub_cancel, getLsbD_word bits hi]
    simp [hnext]
  · rw [BitVec.getLsbD_of_ge _ _ hnext, getD_eq_default _ _ (by omega)]
    simp

/-- Adding a whole word and then shifting is the same as taking in its bits one by one. -/
theorem iterate_shiftOut (polynomial : BitVec w) (hlength : bits.length ≤ w) (register : BitVec w) :
    (shiftOut polynomial)^[bits.length] (register ^^^ word w bits) =
      feed polynomial register bits := by
  induction bits generalizing register with
  | nil => exact BitVec.xor_zero
  | cons bit bits ih =>
    rw [length_cons] at hlength
    have hpush : register ^^^ word w (bit :: bits) = push register bit ^^^ (word w bits <<< 1) := by
      rw [word, push, push, BitVec.xor_comm (word w bits <<< 1), BitVec.xor_assoc]
    calc (shiftOut polynomial)^[bits.length + 1] (register ^^^ word w (bit :: bits))
        = (shiftOut polynomial)^[bits.length]
            (shiftOut polynomial (push register bit) ^^^ word w bits) := by
          rw [Function.iterate_succ_apply, hpush, shiftOut_xor, shiftOut_shiftLeft_word (by omega)]
      _ = feed polynomial register (bit :: bits) := ih (by omega) _

end Wrela.ShiftRegister
