import Wrela.Validation.Ssa

/-!
# Bounded strings

What the parts of a bounded string render to, whatever values are interpolated, fits the capacity
of its type: the most digits an integer type needs are those of its largest value, and of its
smallest with a sign.
-/

namespace Wrela.Validation

open List Wrela.Source Wrela.Wire Wrela.Flow

/-- A runtime value that can be interpolated. -/
inductive Interpolated where
  | bool (value : Bool)
  | character (value : Char)
  | integer (value : ℤ)
  | staticString (value : String)

/-- The values of an integer type. -/
def InRange (signed : Bool) (bits : UInt16) (value : ℤ) : Prop :=
  if signed then -2 ^ (bits.toNat - 1) ≤ value ∧ value < 2 ^ (bits.toNat - 1)
  else 0 ≤ value ∧ value < 2 ^ bits.toNat

/-- The values of a type. -/
def Interpolated.HasKind : Interpolated → FlowTypeKind → Prop
  | .bool _, .scalar .bool => True
  | .character _, .scalar .character => True
  | .integer value, .scalar (.integer signed bits) => InRange signed bits value
  | .staticString value, .staticString bytes => byteLength value = bytes.toNat
  | _, _ => False

/-- Booleans by name, characters and strings as they are, integers in decimal. -/
def Interpolated.render : Interpolated → String
  | .bool value => if value then "true" else "false"
  | .character value => String.ofList [value]
  | .integer value => toString value
  | .staticString value => value

def renderPart (environment : ValueId → Interpolated) : BoundedStringPart → String
  | .text value _ => value
  | .bool value _ | .character value _ | .integer value _ _ | .staticString value _ _ =>
    (environment value).render

def renderParts (environment : ValueId → Interpolated) : List BoundedStringPart → String
  | [] => ""
  | part :: parts => renderPart environment part ++ renderParts environment parts

theorem byteLength_append (left right : String) :
    byteLength (left ++ right) = byteLength left + byteLength right := by
  rw [byteLength, byteLength, byteLength, utf8Bytes_append, length_append]

theorem byteLength_of_ascii (h : ∀ character ∈ characters, character.utf8Size = 1) :
    byteLength (String.ofList characters) = characters.length := by
  rw [byteLength, utf8Bytes_ofList, encodeChars, length_flatMap]
  have hsizes : characters.map (fun character ↦ (String.utf8EncodeChar character).length) =
      characters.map fun _ ↦ 1 :=
    map_congr_left fun character hmem ↦ by rw [String.length_utf8EncodeChar, h character hmem]
  rw [hsizes, map_const', sum_replicate, smul_eq_mul, mul_one]

/-- The decimal digits of a number are as many as `decimalDigits` says. -/
theorem length_toDigits (value : ℕ) : (Nat.toDigits 10 value).length = decimalDigits value := by
  have hbound : ∀ count, 0 < count →
      ((Nat.toDigits 10 value).length ≤ count ↔ decimalDigits value ≤ count) := by
    intro count hcount
    rw [Nat.length_toDigits_le_iff (by decide) hcount, decimalDigits, Nat.succ_le_iff]
    exact ⟨Nat.log_lt_of_lt_pow' hcount.ne', Nat.lt_pow_of_log_lt (by decide)⟩
  exact le_antisymm ((hbound _ (Nat.succ_pos _)).2 le_rfl)
    ((hbound _ Nat.length_toDigits_pos).1 le_rfl)

theorem decimalDigits_mono (h : value ≤ other) :
    decimalDigits value ≤ decimalDigits other :=
  Nat.succ_le_succ (Nat.log_mono_right h)

theorem utf8Size_digit (h : character ∈ Nat.toDigits 10 value) : character.utf8Size = 1 := by
  have hdigit := Nat.isDigit_of_mem_toDigits (by decide) (by decide) h
  simp only [Char.isDigit, Bool.and_eq_true, decide_eq_true_eq] at hdigit
  exact Char.utf8Size_eq_one_iff.2 (UInt32.le_trans hdigit.2 (show '9'.val ≤ 127 by decide))

theorem byteLength_natCast (value : ℕ) :
    byteLength (toString (value : ℤ)) = decimalDigits value := by
  change byteLength (Nat.repr value) = _
  rw [Nat.repr_eq_ofList_toDigits, byteLength_of_ascii fun _ h ↦ utf8Size_digit h, length_toDigits]

theorem byteLength_negSucc (value : ℕ) :
    byteLength (toString (Int.negSucc value)) = decimalDigits (value + 1) + 1 := by
  change byteLength ("-" ++ Nat.repr (value + 1)) = _
  rw [byteLength_append, Nat.repr_eq_ofList_toDigits,
    byteLength_of_ascii fun _ h ↦ utf8Size_digit h, length_toDigits, Nat.add_comm]
  rfl

variable {signed : Bool} {bits : UInt16} {maximum : ℕ}

theorem integerMaximumBytes_eq_some :
    integerMaximumBytes signed bits = some maximum ↔
      (bits = 8 ∨ bits = 16 ∨ bits = 32 ∨ bits = 64 ∨ bits = 128) ∧
        maximum = if signed then decimalDigits (2 ^ (bits.toNat - 1)) + 1
          else decimalDigits (2 ^ bits.toNat - 1) := by
  unfold integerMaximumBytes
  split
  · rename_i hbits
    simp only [Bool.or_eq_true, beq_iff_eq, or_assoc] at hbits
    rw [and_iff_right hbits]
    split <;> rw [Option.some.injEq, eq_comm]
  · rename_i hbits
    simp only [Bool.or_eq_true, beq_iff_eq, or_assoc] at hbits
    exact iff_of_false (fun h ↦ by cases h) fun h ↦ hbits h.1

/-- A rendered integer has no more bytes than the maximum of its type. -/
theorem byteLength_integer_le (h : integerMaximumBytes signed bits = some maximum)
    (hrange : InRange signed bits value) : byteLength (toString value) ≤ maximum := by
  obtain ⟨-, rfl⟩ := integerMaximumBytes_eq_some.1 h
  unfold InRange at hrange
  cases signed with
  | true =>
    rw [if_pos rfl] at hrange ⊢
    have hcast : ((2 ^ (bits.toNat - 1) : ℕ) : ℤ) = 2 ^ (bits.toNat - 1) := by push_cast; rfl
    rw [← hcast] at hrange
    cases value with
    | ofNat value =>
      change byteLength (toString (value : ℤ)) ≤ _
      rw [byteLength_natCast]
      have hle : value ≤ 2 ^ (bits.toNat - 1) := by
        have := hrange.2
        rw [Int.ofNat_eq_natCast] at this
        omega
      exact (decimalDigits_mono hle).trans (Nat.le_succ _)
    | negSucc value =>
      rw [byteLength_negSucc]
      have hle : value + 1 ≤ 2 ^ (bits.toNat - 1) := by
        have := hrange.1
        omega
      exact Nat.succ_le_succ (decimalDigits_mono hle)
  | false =>
    rw [if_neg Bool.false_ne_true] at hrange ⊢
    obtain ⟨value, rfl⟩ := Int.eq_ofNat_of_zero_le hrange.1
    rw [byteLength_natCast]
    refine decimalDigits_mono (Nat.le_sub_one_of_lt ?_)
    exact_mod_cast hrange.2

/-- Some integer of the type needs the maximum. -/
theorem exists_byteLength_integer (h : integerMaximumBytes signed bits = some maximum) :
    ∃ value, InRange signed bits value ∧ byteLength (toString value) = maximum := by
  obtain ⟨-, rfl⟩ := integerMaximumBytes_eq_some.1 h
  unfold InRange
  cases signed with
  | true =>
    obtain ⟨magnitude, hmagnitude⟩ : ∃ magnitude, 2 ^ (bits.toNat - 1) = magnitude + 1 :=
      ⟨_, (Nat.succ_pred_eq_of_pos (Nat.two_pow_pos _)).symm⟩
    have hcast : ((2 : ℤ) ^ (bits.toNat - 1)) = magnitude + 1 := by exact_mod_cast hmagnitude
    refine ⟨Int.negSucc magnitude, ?_, ?_⟩
    · rw [if_pos rfl, hcast]
      omega
    · rw [if_pos rfl, byteLength_negSucc, hmagnitude]
  | false =>
    refine ⟨((2 ^ bits.toNat - 1 : ℕ) : ℤ), ?_, ?_⟩
    · rw [if_neg Bool.false_ne_true]
      have hpos := Nat.two_pow_pos bits.toNat
      have hcast : ((2 ^ bits.toNat : ℕ) : ℤ) = 2 ^ bits.toNat := by push_cast; rfl
      rw [← hcast]
      omega
    · rw [if_neg Bool.false_ne_true, byteLength_natCast]

section Parts

variable {module : FlowWir} {function : FlowFunction} {environment : ValueId → Interpolated}

/-- Every interpolated value has the type the function declares for it. -/
def WellTyped (module : FlowWir) (function : FlowFunction) (environment : ValueId → Interpolated)
    (values : List ValueId) : Prop :=
  ∀ value ∈ values, ∀ record, valueRecord module function value = some record →
    (environment value).HasKind record.kind

theorem byteLength_renderPart_le (hsize : boundedStringPartBytes module function part = some size)
    (htyped : WellTyped module function environment part.values) :
    byteLength (renderPart environment part) ≤ size := by
  cases part with
  | text value source =>
    simp only [boundedStringPartBytes, Option.ite_none_right_eq_some] at hsize
    exact (Option.some.inj hsize.2).le
  | bool value source =>
    simp only [boundedStringPartBytes, Option.ite_none_right_eq_some, Bool.and_eq_true,
      valueHasKind, Option.any_eq_true, beq_iff_eq] at hsize
    obtain ⟨⟨-, record, hrecord, hkind⟩, hsize⟩ := hsize
    cases hsize
    have hvalue := htyped value (mem_singleton_self _) record hrecord
    rw [hkind] at hvalue
    rw [renderPart]
    generalize environment value = given at hvalue ⊢
    cases given with
    | bool truth => cases truth <;> decide
    | _ => cases hvalue
  | character value source =>
    simp only [boundedStringPartBytes, Option.ite_none_right_eq_some, Bool.and_eq_true,
      valueHasKind, Option.any_eq_true, beq_iff_eq] at hsize
    obtain ⟨⟨-, record, hrecord, hkind⟩, hsize⟩ := hsize
    cases hsize
    have hvalue := htyped value (mem_singleton_self _) record hrecord
    rw [hkind] at hvalue
    rw [renderPart]
    generalize environment value = given at hvalue ⊢
    cases given with
    | character scalar =>
      rw [Interpolated.render, byteLength, utf8Bytes_ofList]
      exact length_encodeChars_le [scalar]
    | _ => cases hvalue
  | integer value maximumBytes source =>
    simp only [boundedStringPartBytes, Option.ite_none_right_eq_some, Bool.and_eq_true, beq_iff_eq,
      Option.bind_eq_some_iff] at hsize
    obtain ⟨⟨-, record, hrecord, hmaximum⟩, hsize⟩ := hsize
    cases hsize
    split at hmaximum
    · rename_i signed bits hkind
      have hvalue := htyped value (mem_singleton_self _) record hrecord
      rw [hkind] at hvalue
      rw [renderPart]
      generalize environment value = given at hvalue ⊢
      cases given with
      | integer number => exact byteLength_integer_le hmaximum hvalue
      | _ => cases hvalue
    · cases hmaximum
  | staticString value bytes source =>
    simp only [boundedStringPartBytes, Option.ite_none_right_eq_some, Bool.and_eq_true,
      Option.any_eq_true, beq_iff_eq] at hsize
    obtain ⟨⟨-, record, hrecord, ⟨hkind, -⟩, -⟩, hsize⟩ := hsize
    cases hsize
    have hvalue := htyped value (mem_singleton_self _) record hrecord
    rw [hkind] at hvalue
    rw [renderPart]
    generalize environment value = given at hvalue ⊢
    cases given with
    | staticString text => exact (show byteLength text = bytes.toNat from hvalue).le
    | _ => cases hvalue

theorem byteLength_renderParts_le
    (hsizes : parts.mapM (boundedStringPartBytes module function) = some sizes)
    (htyped : WellTyped module function environment (parts.flatMap BoundedStringPart.values)) :
    byteLength (renderParts environment parts) ≤ sizes.sum := by
  induction parts generalizing sizes with
  | nil => exact Nat.zero_le _
  | cons part parts ih =>
    rw [mapM_cons] at hsizes
    obtain ⟨size, hsize, hsizes⟩ := Option.bind_eq_some_iff.1 hsizes
    obtain ⟨rest, hrest, hsizes⟩ := Option.bind_eq_some_iff.1 hsizes
    cases hsizes
    have hpart := byteLength_renderPart_le hsize fun value hvalue ↦
      htyped value (mem_append_left _ hvalue)
    have hparts := ih hrest fun value hvalue ↦ htyped value (mem_append_right _ hvalue)
    rw [renderParts, byteLength_append, sum_cons]
    exact Nat.add_le_add hpart hparts

end Parts

/-- A bounded string of an accepted module never overflows its capacity, and the bytes counted for
an integer are the most that any integer of its type needs. -/
theorem boundedString_fits {module : FlowWir} {limits : ValidationLimits}
    (h : checkWithLimits module limits = .ok ()) :
    (∀ function ∈ module.functions, ∀ block ∈ function.blocks,
      ∀ instruction ∈ block.instructions, ∀ ty parts,
      instruction.operation = .formatBoundedString ty parts →
        ∃ record capacity, ty.lookup module.types = some record ∧
          record.kind = .boundedString capacity ∧
          ∀ environment, WellTyped module function environment
              (parts.flatMap BoundedStringPart.values) →
            byteLength (renderParts environment parts) ≤ capacity.toNat) ∧
    ∀ signed bits,
      (integerMaximumBytes signed bits = none ↔
        ¬ (bits = 8 ∨ bits = 16 ∨ bits = 32 ∨ bits = 64 ∨ bits = 128)) ∧
      ∀ maximum, integerMaximumBytes signed bits = some maximum →
        IsGreatest {length | ∃ value, InRange signed bits value ∧
          byteLength (toString value) = length} maximum := by
  have haccepted := ((checkWithLimits_eq_ok module).1 h).accepted
  constructor
  · intro function hfunction block hblock instruction hinstruction ty parts hoperation
    have hreport := (haccepted.functions function hfunction).operation_report hblock hinstruction
    simp only [validateOperation, hoperation, append_eq_nil_iff, reportIf_eq_nil,
      Bool.not_eq_false', validateBoundedStringOperation, Option.any_eq_true] at hreport
    obtain ⟨-, record, hlookup, hvalid⟩ := hreport
    split at hvalid
    · rename_i capacity hkind
      simp only [Bool.and_eq_true, Option.any_eq_true, beq_iff_eq] at hvalid
      obtain ⟨-, sizes, hsizes, hsum⟩ := hvalid
      refine ⟨record, capacity, hlookup, hkind, fun environment htyped ↦ ?_⟩
      exact hsum ▸ byteLength_renderParts_le hsizes htyped
    · cases hvalid
  · intro signed bits
    constructor
    · unfold integerMaximumBytes
      split
      · rename_i hbits
        simp only [Bool.or_eq_true, beq_iff_eq, or_assoc] at hbits
        exact iff_of_false (by split <;> simp) fun hnot ↦ hnot hbits
      · rename_i hbits
        simp only [Bool.or_eq_true, beq_iff_eq, or_assoc] at hbits
        exact iff_of_true rfl hbits
    · intro maximum hmaximum
      refine ⟨exists_byteLength_integer hmaximum, ?_⟩
      rintro length ⟨value, hrange, rfl⟩
      exact byteLength_integer_le hmaximum hrange

/-- An image whose entry formats a boolean. -/
def formattedParts : List BoundedStringPart := [.text "on=" guardSpan, .bool ⟨0⟩ guardSpan]

def formattedImage : FlowWir :=
  { idleImage with
    types := [⟨⟨0⟩, .scalar .bool, none, true, false⟩, ⟨⟨1⟩, .boundedString 8, none, false, false⟩]
    functions :=
      [{ id := ⟨0⟩, name := "entry", origin := .generatedImageEntry 0 0, role := .imageEntry,
         color := .sync, parameters := [], resultTypes := [],
         values := [⟨⟨0⟩, ⟨0⟩, none, none⟩, ⟨⟨1⟩, ⟨1⟩, none, none⟩],
         blocks :=
           [⟨⟨0⟩, [],
              [⟨⟨0⟩, [⟨0⟩], .immediate (.bool true), none⟩,
                ⟨⟨1⟩, [⟨1⟩], .formatBoundedString ⟨1⟩ formattedParts, none⟩],
              .return [], none⟩],
         entry := ⟨0⟩, stackBound := 0, frameBound := 0, proofs := [], source := none }] }

theorem checkWithLimits_formattedImage : checkWithLimits formattedImage .standard = .ok () := by
  decide +kernel

theorem boundedString_fits_flag :
    byteLength (renderParts (fun _ ↦ .bool false) formattedParts) ≤ 8 := by
  obtain ⟨record, capacity, hlookup, hkind, hfits⟩ :=
    (boundedString_fits checkWithLimits_formattedImage).1 _ mem_cons_self _ mem_cons_self
      _ (mem_cons_of_mem _ mem_cons_self) ⟨1⟩ formattedParts rfl
  cases hlookup
  obtain rfl := FlowTypeKind.boundedString.inj hkind
  refine hfits _ fun value hvalue record hrecord ↦ ?_
  obtain rfl := mem_singleton.1 hvalue
  cases hrecord
  trivial

end Wrela.Validation
