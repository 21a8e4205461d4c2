import Wrela.Data.FixedWidth
import Wrela.Ieee.Format
import Mathlib.Logic.Function.Basic

/-!
# Operations of LLVM

A word of `iN` is a natural number below `2 ^ N`.  An operation has no result where the language
reference leaves its behaviour undefined or its result poison: a division by zero, a signed division
or remainder that overflows, and a shift by the width or more.
-/

namespace Wrela.Llvm

open Wrela.Data Wrela.Ieee

inductive BinaryOperator where
  | add | sub | mul | udiv | sdiv | urem | srem | shl | lshr | ashr | and | or | xor

/-- A signed division whose result is not representable. -/
def DivisionOverflows (width left right : ℕ) : Prop :=
  left = 2 ^ (width - 1) ∧ interpret true width right = -1

instance (width left right : ℕ) : Decidable (DivisionOverflows width left right) := by
  unfold DivisionOverflows
  infer_instance

def BinaryOperator.eval (operator : BinaryOperator) (width left right : ℕ) : Option ℕ :=
  match operator with
  | .add => some (encode width (left + right))
  | .sub => some (encode width (left - right))
  | .mul => some (encode width (left * right))
  | .udiv => if right = 0 then none else some (left / right)
  | .urem => if right = 0 then none else some (left % right)
  | .sdiv =>
    if right = 0 ∨ DivisionOverflows width left right then none
    else some (encode width ((interpret true width left).tdiv (interpret true width right)))
  | .srem =>
    if right = 0 ∨ DivisionOverflows width left right then none
    else some (encode width ((interpret true width left).tmod (interpret true width right)))
  | .shl => if width ≤ right then none else some (encode width (left * 2 ^ right))
  | .lshr => if width ≤ right then none else some (left / 2 ^ right)
  | .ashr =>
    if width ≤ right then none else some (encode width (interpret true width left / 2 ^ right))
  | .and => some (left &&& right)
  | .or => some (left ||| right)
  | .xor => some (left ^^^ right)

inductive Predicate where
  | eq | ne | ult | ule | ugt | uge | slt | sle | sgt | sge

def Predicate.holds (predicate : Predicate) (width left right : ℕ) : Bool :=
  match predicate with
  | .eq => decide (left = right)
  | .ne => decide (left ≠ right)
  | .ult => decide (left < right)
  | .ule => decide (left ≤ right)
  | .ugt => decide (left > right)
  | .uge => decide (left ≥ right)
  | .slt => decide (interpret true width left < interpret true width right)
  | .sle => decide (interpret true width left ≤ interpret true width right)
  | .sgt => decide (interpret true width left > interpret true width right)
  | .sge => decide (interpret true width left ≥ interpret true width right)

inductive Cast where
  | trunc | zext | sext | bitcast

def Cast.eval (cast : Cast) (source target word : ℕ) : ℕ :=
  match cast with
  | .trunc => word % 2 ^ target
  | .zext | .bitcast => word
  | .sext => encode target (interpret true source word)

/-- The number of zero bits above the highest set one; `width` for zero. -/
def leadingZeros (width word : ℕ) : ℕ := width - word.size

inductive FloatPredicate where
  | oeq | one | olt | ogt | oge

def FloatPredicate.holds (predicate : FloatPredicate) (left right : Datum) : Bool :=
  match predicate with
  | .oeq => left.equal right
  | .one => left.less right || right.less left
  | .olt => left.less right
  | .ogt => right.less left
  | .oge => right.less left || left.equal right

/-- The whole number towards zero, where the width can stand for it. -/
def floatToInteger (signed : Bool) (width : ℕ) : Datum → Option ℕ
  | .finite value =>
    if Fits signed width (truncate value) then some (encode width (truncate value)) else none
  | _ => none

end Wrela.Llvm

/-!
## Laws of integer operations

Extended to a width that holds the exact result of an operation, words compute with the integers
they stand for; what then survives being cut to the width and extended again fits the width.
-/

namespace Wrela.Llvm

open Wrela.Data

variable {signed : Bool} {width wide word left right : ℕ} {value : ℤ}

section Defined

variable (width left right)

@[simp]
theorem eval_add : BinaryOperator.add.eval width left right = some (encode width (left + right)) :=
  rfl

@[simp]
theorem eval_sub : BinaryOperator.sub.eval width left right = some (encode width (left - right)) :=
  rfl

@[simp]
theorem eval_mul : BinaryOperator.mul.eval width left right = some (encode width (left * right)) :=
  rfl

@[simp]
theorem eval_and : BinaryOperator.and.eval width left right = some (left &&& right) := rfl

@[simp]
theorem eval_or : BinaryOperator.or.eval width left right = some (left ||| right) := rfl

@[simp]
theorem eval_xor : BinaryOperator.xor.eval width left right = some (left ^^^ right) := rfl

end Defined

theorem eval_shl (h : right < width) :
    BinaryOperator.shl.eval width left right = some (encode width (left * 2 ^ right)) := by
  rw [BinaryOperator.eval, if_neg (by omega)]

theorem eval_lshr (h : right < width) :
    BinaryOperator.lshr.eval width left right = some (left / 2 ^ right) := by
  rw [BinaryOperator.eval, if_neg (by omega)]

theorem eval_ashr (h : right < width) :
    BinaryOperator.ashr.eval width left right =
      some (encode width (interpret true width left / 2 ^ right)) := by
  rw [BinaryOperator.eval, if_neg (by omega)]

theorem encode_natCast (hword : word < 2 ^ width) : encode width word = word := by
  have h := @encode_interpret false width word hword
  simpa [interpret] using h

theorem encode_natCast_sub (hle : right ≤ left) (hleft : left < 2 ^ width) :
    encode width ((left : ℤ) - right) = left - right := by
  rw [← Nat.cast_sub hle, encode_natCast ((Nat.sub_le ..).trans_lt hleft)]

@[simp]
theorem encode_zero : encode width 0 = 0 := by
  simp [encode]

theorem encode_add (left right : ℤ) :
    encode width (encode width left + encode width right) = encode width (left + right) :=
  encode_congr (by simp [encode_cast])

theorem encode_sub (left right : ℤ) :
    encode width (encode width left - encode width right) = encode width (left - right) :=
  encode_congr (by simp [encode_cast])

theorem encode_mul (left right : ℤ) :
    encode width (encode width left * encode width right) = encode width (left * right) :=
  encode_congr (by simp [encode_cast, ← Int.mul_emod])

theorem encode_mod (hwidth : width ≤ wide) (value : ℤ) :
    encode wide value % 2 ^ width = encode width value := by
  have hdvd : (2 : ℤ) ^ width ∣ 2 ^ wide := pow_dvd_pow 2 hwidth
  have hcast : ((encode wide value % 2 ^ width : ℕ) : ℤ) = encode width value := by
    push_cast
    rw [encode_cast, encode_cast, Int.emod_emod_of_dvd _ hdvd]
  exact_mod_cast hcast

theorem abs_interpret_lt (hwidth : 0 < width) (hword : word < 2 ^ width) :
    |interpret signed width word| < 2 ^ width := by
  have hfits := @fits_interpret signed width word hwidth hword
  have hsplit : (2 : ℤ) ^ width = 2 * 2 ^ (width - 1) := by exact_mod_cast two_pow_split hwidth
  have hpos : (0 : ℤ) < 2 ^ (width - 1) := by positivity
  rw [abs_lt]
  unfold Fits at hfits
  cases signed with
  | false =>
    simp only [Bool.false_eq_true, if_false] at hfits
    omega
  | true =>
    simp only [if_true] at hfits
    omega

theorem interpret_eq_zero_iff (hword : word < 2 ^ width) :
    interpret signed width word = 0 ↔ word = 0 := by
  constructor
  · intro h
    have hencode := @encode_interpret signed width word hword
    rw [h, encode_zero] at hencode
    exact hencode.symm
  · rintro rfl
    simp [interpret]

@[simp]
theorem interpret_zero (signed : Bool) (width : ℕ) : interpret signed width 0 = 0 := by
  simp [interpret]

@[simp]
theorem toNat_lor (first second : Bool) :
    first.toNat ||| second.toNat = (first || second).toNat := by
  cases first <;> cases second <;> rfl

@[simp]
theorem toNat_land (first second : Bool) :
    first.toNat &&& second.toNat = (first && second).toNat := by
  cases first <;> cases second <;> rfl

@[simp]
theorem toNat_xor (first second : Bool) :
    first.toNat ^^^ second.toNat = (first ^^ second).toNat := by
  cases first <;> cases second <;> rfl

@[simp]
theorem toNat_xor_one (flag : Bool) : flag.toNat ^^^ 1 = (!flag).toNat := by
  cases flag <;> rfl

/-- Bits below the ones of the other word are added to it. -/
theorem lor_low {low count : ℕ} (word : ℕ) (h : low < 2 ^ count) :
    word * 2 ^ count ||| low = word * 2 ^ count + low := by
  rw [mul_comm, Nat.two_pow_add_eq_or_of_lt h]

/-- The extension of a word stands for the same integer. -/
theorem eval_extension (hwidth : width ≤ wide) (hword : word < 2 ^ width) :
    (if signed then Cast.sext else .zext).eval width wide word =
      encode wide (interpret signed width word) := by
  cases signed with
  | true => rfl
  | false =>
    have hlt : word < 2 ^ wide := hword.trans_le (Nat.pow_le_pow_right (by norm_num) hwidth)
    simp [Cast.eval, interpret, encode_natCast hlt]

/-- A result survives being cut to the width and extended again when it fits the width. -/
theorem encode_roundtrip_iff (hwidth : 0 < width) (hbound : |value| + 2 ^ width ≤ 2 ^ wide) :
    encode wide value = encode wide (interpret signed width (encode width value)) ↔
      Fits signed width value := by
  constructor
  · intro h
    have hword := encode_lt width value
    have habs := @abs_interpret_lt signed width _ hwidth hword
    have hfits := @fits_interpret signed width _ hwidth hword
    generalize interpret signed width (encode width value) = back at *
    have hcast : (value : ℤ) % 2 ^ wide = back % 2 ^ wide := by
      rw [← encode_cast, ← encode_cast, h]
    have hdvd : (2 : ℤ) ^ wide ∣ value - back := Int.dvd_of_emod_eq_zero
      (Int.emod_eq_emod_iff_emod_sub_eq_zero.1 hcast)
    have hlt : |value - back| < 2 ^ wide := by
      have htriangle := abs_sub value back
      linarith
    have hzero := Int.eq_zero_of_abs_lt_dvd hdvd hlt
    rwa [show value = back by omega]
  · intro h
    rw [interpret_encode hwidth h]

open Wrela.Ieee

inductive Operand (ν : Type) where
  | name (name : ν)
  | constant (word : ℕ)

inductive Operation (ν : Type) where
  | binary (operator : BinaryOperator) (width : ℕ) (left right : Operand ν)
  | compare (predicate : Predicate) (width : ℕ) (left right : Operand ν)
  | select (condition : Operand ν) (width : ℕ) (whenTrue whenFalse : Operand ν)
  | cast (operator : Cast) (source target : ℕ) (value : Operand ν)
  | leadingZeros (width : ℕ) (value : Operand ν)
  | floatCompare (predicate : FloatPredicate) (format : Format) (left right : Operand ν)
  | floatConvert (source target : Format) (value : Operand ν)
  | integerToFloat (signed : Bool) (width : ℕ) (format : Format) (value : Operand ν)
  | floatToInteger (signed : Bool) (format : Format) (width : ℕ) (value : Operand ν)

abbrev Environment (ν : Type) := ν → Option ℕ

variable {ν lbl : Type}

def Operand.eval (env : Environment ν) : Operand ν → Option ℕ
  | .name register => env register
  | .constant word => some word

@[simp]
theorem Operand.eval_name (env : Environment ν) (register : ν) :
    (Operand.name register).eval env = env register := rfl

@[simp]
theorem Operand.eval_constant (env : Environment ν) (word : ℕ) :
    (Operand.constant word).eval env = some word := rfl

def Operation.eval (env : Environment ν) : Operation ν → Option ℕ
  | .binary operator width left right => do
    operator.eval width (← left.eval env) (← right.eval env)
  | .compare predicate width left right => do
    return (predicate.holds width (← left.eval env) (← right.eval env)).toNat
  | .select condition _ whenTrue whenFalse => do
    if (← condition.eval env) = 0 then whenFalse.eval env else whenTrue.eval env
  | .cast operator source target value => do
    return operator.eval source target (← value.eval env)
  | .leadingZeros width value => do return Llvm.leadingZeros width (← value.eval env)
  | .floatCompare predicate format left right => do
    return (predicate.holds (format.decode (← left.eval env))
      (format.decode (← right.eval env))).toNat
  | .floatConvert source target value => do return source.convert target (← value.eval env)
  | .integerToFloat signed width format value => do
    return format.round (interpret signed width (← value.eval env))
  | .floatToInteger signed format width value => do
    Llvm.floatToInteger signed width (format.decode (← value.eval env))

inductive Line (ν lbl : Type) where
  | label (name : lbl)
  | assign (name : ν) (operation : Operation ν)
  | branch (condition : Operand ν) (whenTrue whenFalse : lbl)
  | call (callee : String) (arguments : List (Operand ν))
  | unreachable

inductive Outcome (ν lbl : Type) where
  | ends (env : Environment ν)
  | leaves (label : lbl) (env : Environment ν)
  | calls (callee : String) (arguments : List ℕ)
  | undefined

variable [DecidableEq ν] [DecidableEq lbl]

def Environment.set (env : Environment ν) (name : ν) (word : ℕ) : Environment ν :=
  Function.update env name (some word)

/-- Run a piece of code, from the given label of it if there is one. -/
def run : Option lbl → List (Line ν lbl) → Environment ν → Outcome ν lbl
  | none, [], env => .ends env
  | some target, [], env => .leaves target env
  | some target, .label name :: lines, env =>
    run (if name = target then none else some target) lines env
  | some target, _ :: lines, env => run (some target) lines env
  | none, .assign name operation :: lines, env =>
    match operation.eval env with
    | some word => run none lines (env.set name word)
    | none => .undefined
  | none, .branch condition whenTrue whenFalse :: lines, env =>
    match condition.eval env with
    | some word => run (some (if word = 0 then whenFalse else whenTrue)) lines env
    | none => .undefined
  | none, .call callee arguments :: _, env =>
    match arguments.mapM (Operand.eval env) with
    | some words => .calls callee words
    | none => .undefined
  -- a block ends in a terminator, so control does not fall into the next label
  | none, .label _ :: _, _ => .undefined
  | none, .unreachable :: _, _ => .undefined

variable {env env' : Environment ν} {name other : ν} {word : ℕ}

@[simp]
theorem Environment.set_apply :
    (env.set name word) other = if other = name then some word else env other := by
  rw [Environment.set, Function.update_apply]

variable {lines : List (Line ν lbl)}

theorem run_assign (h : operation.eval env = some word) :
    run none (.assign name operation :: lines) env = run none lines (env.set name word) := by
  rw [run, h]

/-- A piece that ends is followed by the next one. -/
theorem run_append {target : Option lbl} {first second : List (Line ν lbl)}
    (h : run target first env = .ends env') :
    run target (first ++ second) env = run none second env' := by
  fun_induction run target first env with
  | case1 => cases h; rfl
  | case3 env target name lines ih => rw [List.cons_append, run, ih h]
  | case4 target line lines env hline ih =>
    rw [List.cons_append, run.eq_4 _ _ _ _ hline, ih h]
  | case5 name operation lines env word hword ih =>
    rw [List.cons_append, run_assign hword, ih h]
  | case7 condition whenTrue whenFalse lines env word hword ih =>
    rw [List.cons_append, run, hword]
    exact ih h
  | case2 | case6 | case8 | case9 | case10 | case11 | case12 => cases h

/-- The lines end, in an environment with the property. -/
def EndsIn (lines : List (Line ν lbl)) (env : Environment ν) (post : Environment ν → Prop) : Prop :=
  ∃ env', run none lines env = .ends env' ∧ post env'

variable {post : Environment ν → Prop}

@[simp]
theorem endsIn_nil : EndsIn ([] : List (Line ν lbl)) env post ↔ post env := by
  simp [EndsIn, run]

@[simp]
theorem endsIn_assign :
    EndsIn (.assign name operation :: lines) env post ↔
      ∃ word, operation.eval env = some word ∧ EndsIn lines (env.set name word) post := by
  unfold EndsIn
  rw [run]
  cases operation.eval env <;> simp

theorem endsIn_append {first second : List (Line ν lbl)}
    (h : EndsIn first env fun env' ↦ EndsIn second env' post) : EndsIn (first ++ second) env post := by
  obtain ⟨middle, hfirst, last, hsecond, hpost⟩ := h
  exact ⟨last, (run_append hfirst).trans hsecond, hpost⟩

theorem EndsIn.imp {post' : Environment ν → Prop}
    (h : EndsIn lines env post) (himp : ∀ env', post env' → post' env') :
    EndsIn lines env post' := by
  obtain ⟨last, hrun, hpost⟩ := h
  exact ⟨last, hrun, himp last hpost⟩

end Wrela.Llvm
