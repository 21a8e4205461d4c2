import Mathlib.Data.List.Basic
import Mathlib.Tactic

/-!
# Byte writers and byte readers

A binary format is given twice, once as a program that appends bytes to a sink and once as a
program that consumes them from a source.  Both thread a meter, the accounting state that lets a
format bound the total size of what it has seen.  This module fixes the two kinds of program and
the two relations between them:

* `Emits w r a`: whatever bytes `w` appends, `r` reads them back as `a`, charging the same meter;
* `Absorbs limit r w`: whatever bytes `r` consumes to produce `a`, `w a` appends exactly those,
  as long as the sink stays within `limit`.

The sequencing rules let both relations be proved by following the text of the two programs.
-/

namespace Wrela.Wire

open List

/-- The bytes written so far together with the accounting kept by the format. -/
structure Sink (μ : Type) where
  bytes : List UInt8
  meter : μ

/-- The bytes still to be read together with the accounting kept by the format. -/
structure Source (μ : Type) where
  rest : List UInt8
  meter : μ

abbrev Put (ε μ : Type) := StateT (Sink μ) (Except ε)

abbrev Get (ε μ : Type) := StateT (Source μ) (Except ε)

variable {ε ε' μ α β σ : Type}

/-- A sequenced program succeeds exactly when both of its parts do. -/
theorem run_bind_eq_ok {x : StateT σ (Except ε) α} {f : α → StateT σ (Except ε) β}
    {s s'' : σ} {b : β} :
    (x >>= f) s = .ok (b, s'') ↔ ∃ a s', x s = .ok (a, s') ∧ f a s' = .ok (b, s'') := by
  change (x s >>= fun p ↦ f p.1 p.2) = .ok (b, s'') ↔ _
  cases x s with
  | error e => simp [bind, Except.bind]
  | ok p =>
    obtain ⟨a, s'⟩ := p
    simp only [bind, Except.bind, Except.ok.injEq, Prod.mk.injEq]
    constructor
    · intro h
      exact ⟨a, s', ⟨rfl, rfl⟩, h⟩
    · rintro ⟨a, s', ⟨rfl, rfl⟩, h⟩
      exact h

/-- A failing step of either kind of program. -/
def fail (error : ε) : StateT σ (Except ε) α := fun _ ↦ .error error

/-- A step that looks at nothing but a value already read. -/
def checked (x : Except ε α) : StateT σ (Except ε) α := fun s ↦ x.map fun a ↦ (a, s)

variable {a : α}

theorem run_checked_eq_ok : checked x s = .ok (a, s') ↔ x = .ok a ∧ s' = s := by
  cases x <;> simp [checked, Except.map, eq_comm]

theorem checked_ok_bind : (checked (.ok a) >>= k) = k a := rfl

/-- Every successful run of `w` appends bytes that `r` consumes again, returning `a` and leaving
the meter where the writer left it. -/
def Emits (w : Put ε μ Unit) (r : Get ε' μ α) (a : α) : Prop :=
  ∀ sink sink', w sink = .ok ((), sink') →
    ∃ bytes, sink'.bytes = sink.bytes ++ bytes ∧
      ∀ rest, r ⟨bytes ++ rest, sink.meter⟩ = .ok (a, ⟨rest, sink'.meter⟩)

theorem Emits.done (a : α) : Emits (pure () : Put ε μ Unit) (pure a : Get ε' μ α) a := by
  intro sink sink' h
  cases h
  exact ⟨[], by simp, fun rest ↦ rfl⟩

variable {r : Get ε' μ β} {k : β → Get ε' μ α} {limit : ℕ} {w : α → Put ε μ Unit} {p : Put ε μ Unit}

theorem Emits.bind {w v : Put ε μ Unit} {b : β} (hr : Emits w r b) (hk : Emits v (k b) a) :
    Emits (w >>= fun _ ↦ v) (r >>= k) a := by
  intro sink sink' h
  obtain ⟨_, mid, hw, hv⟩ := run_bind_eq_ok.1 h
  obtain ⟨first, hfirst, hread⟩ := hr sink mid hw
  obtain ⟨second, hsecond, hrest⟩ := hk mid sink' hv
  refine ⟨first ++ second, ?_, fun rest ↦ ?_⟩
  · rw [hsecond, hfirst, append_assoc]
  · rw [append_assoc]
    exact run_bind_eq_ok.2 ⟨b, _, hread _, hrest rest⟩

/-- The last field of a record is read and the record is returned at once. -/
theorem Emits.last {w : Put ε μ Unit} {b : β}
    (hr : Emits w r b) (hk : k b = pure a) : Emits w (r >>= k) a := by
  intro sink sink' h
  obtain ⟨bytes, hbytes, hread⟩ := hr sink sink' h
  refine ⟨bytes, hbytes, fun rest ↦ ?_⟩
  exact run_bind_eq_ok.2 ⟨b, _, hread rest, by rw [hk]; rfl⟩

/-- A writer that gives up emits nothing, so any reader follows it. -/
theorem Emits.refused (error : ε) (r : Get ε' μ α) (a : α) :
    Emits (fail error : Put ε μ Unit) r a := by
  intro sink sink' h
  cases h

/-- Every successful run of `r` consumes exactly the bytes that `w` writes for its result, after
anything that leaves the sink within `limit`. -/
def Absorbs (limit : ℕ) (r : Get ε' μ α) (w : α → Put ε μ Unit) : Prop :=
  ∀ source a source', r source = .ok (a, source') →
    ∃ bytes, source.rest = bytes ++ source'.rest ∧
      ∀ before, (before ++ bytes).length ≤ limit →
        w a ⟨before, source.meter⟩ = .ok ((), ⟨before ++ bytes, source'.meter⟩)

/-- The values a reader can return. -/
def Returns (r : Get ε' μ α) (a : α) : Prop := ∃ source source', r source = .ok (a, source')

/-- What a sequenced reader returns, its last part returns. -/
theorem Returns.elim_bind {P : Prop} (hk : ∀ b, Returns (k b) a → P) : Returns (r >>= k) a → P := by
  rintro ⟨source, source', h⟩
  obtain ⟨b, mid, -, hrest⟩ := run_bind_eq_ok.1 h
  exact hk b ⟨mid, source', hrest⟩

/-- `Absorbs` in the middle of a record: `p` is what the writer has already done. -/
def AbsorbsAfter (limit : ℕ) (p : Put ε μ Unit) (r : Get ε' μ α) (w : α → Put ε μ Unit) : Prop :=
  ∀ source a source', r source = .ok (a, source') →
    ∃ bytes, source.rest = bytes ++ source'.rest ∧
      ∀ sink sink', p sink = .ok ((), sink') → sink'.meter = source.meter →
        (sink'.bytes ++ bytes).length ≤ limit →
        w a sink = .ok ((), ⟨sink'.bytes ++ bytes, source'.meter⟩)

theorem AbsorbsAfter.start {r : Get ε' μ α}
    (h : AbsorbsAfter limit (pure ()) r w) : Absorbs limit r w := by
  intro source a source' hread
  obtain ⟨bytes, hbytes, hwrite⟩ := h source a source' hread
  refine ⟨bytes, hbytes, fun before hfits ↦ ?_⟩
  exact hwrite ⟨before, source.meter⟩ ⟨before, source.meter⟩ rfl rfl hfits

/-- The sequencing rule when the continuation is only needed for results the first reader can
return. -/
theorem AbsorbsAfter.bindReturns {v : β → Put ε μ Unit} (hr : Absorbs limit r v)
    (hk : ∀ b, Returns r b → AbsorbsAfter limit (p >>= fun _ ↦ v b) (k b) w) :
    AbsorbsAfter limit p (r >>= k) w := by
  intro source a source' hread
  obtain ⟨b, mid, hfirst, hrest⟩ := run_bind_eq_ok.1 hread
  obtain ⟨first, hfirstBytes, hfirstWrite⟩ := hr source b mid hfirst
  obtain ⟨second, hsecondBytes, hwrite⟩ := hk b ⟨source, mid, hfirst⟩ mid a source' hrest
  refine ⟨first ++ second, ?_, fun sink sink' hp hmeter hfits ↦ ?_⟩
  · rw [hfirstBytes, hsecondBytes, append_assoc]
  · have hfirstFits : (sink'.bytes ++ first).length ≤ limit := by
      simp only [length_append] at hfits ⊢
      omega
    have hstep := hfirstWrite sink'.bytes hfirstFits
    rw [← hmeter] at hstep
    have hdone := hwrite sink ⟨sink'.bytes ++ first, mid.meter⟩
      (run_bind_eq_ok.2 ⟨(), sink', hp, hstep⟩) rfl (by simpa using hfits)
    rw [hdone, append_assoc]

theorem AbsorbsAfter.bind {v : β → Put ε μ Unit} (hr : Absorbs limit r v)
    (hk : ∀ b, AbsorbsAfter limit (p >>= fun _ ↦ v b) (k b) w) :
    AbsorbsAfter limit p (r >>= k) w :=
  AbsorbsAfter.bindReturns hr fun b _ ↦ hk b

/-- A record is complete once everything written for it succeeds as the record's writer does. -/
theorem AbsorbsAfter.doneOf
    (h : ∀ sink sink', p sink = .ok ((), sink') → w a sink = .ok ((), sink')) :
    AbsorbsAfter limit p (pure a : Get ε' μ α) w := by
  intro source a' source' hread
  cases hread
  refine ⟨[], rfl, fun sink sink' hp hmeter _ ↦ ?_⟩
  rw [h sink sink' hp, append_nil, ← hmeter]

theorem AbsorbsAfter.done (h : w a = p) : AbsorbsAfter limit p (pure a : Get ε' μ α) w :=
  AbsorbsAfter.doneOf fun sink sink' hp ↦ by rw [h, hp]

theorem AbsorbsAfter.checked {x : Except ε' β} (h : ∀ b, x = .ok b → AbsorbsAfter limit p (k b) w) :
    AbsorbsAfter limit p (Wire.checked x >>= k) w := by
  intro source a source' hread
  obtain ⟨b, mid, hcheck, hrest⟩ := run_bind_eq_ok.1 hread
  obtain ⟨hb, rfl⟩ := run_checked_eq_ok.1 hcheck
  exact h b hb mid a source' hrest

theorem AbsorbsAfter.rejected : AbsorbsAfter limit p (fail error : Get ε' μ α) w := by
  intro source a source' hread
  cases hread

/-- The last field of a record, with the writer of the whole record on the right. -/
theorem AbsorbsAfter.last {r : Get ε' μ α} {v : α → Put ε μ Unit}
    (hr : Absorbs limit r v) (h : ∀ a, w a = (p >>= fun _ ↦ v a)) :
    AbsorbsAfter limit p r w := by
  have hbind : AbsorbsAfter limit p (r >>= pure) w :=
    AbsorbsAfter.bind hr fun a ↦ AbsorbsAfter.done (h a)
  rwa [bind_pure] at hbind

/-- The lines of a text, each of them ended by a line feed; the last one may lack it. -/
def splitTerminator : List Char → List (List Char)
  | [] => []
  | character :: text =>
    if character = '\n' then [] :: splitTerminator text
    else
      match splitTerminator text with
      | [] => [[character]]
      | line :: lines => (character :: line) :: lines

def joinLines (lines : List (List Char)) : List Char := lines.flatMap (· ++ ['\n'])

@[simp]
theorem joinLines_nil : joinLines [] = [] := rfl

@[simp]
theorem joinLines_cons (line : List Char) (lines : List (List Char)) :
    joinLines (line :: lines) = line ++ '\n' :: joinLines lines := by
  simp [joinLines]

@[simp]
theorem joinLines_append (first second : List (List Char)) :
    joinLines (first ++ second) = joinLines first ++ joinLines second := by
  simp [joinLines]

theorem splitTerminator_line (h : '\n' ∉ line) (text : List Char) :
    splitTerminator (line ++ '\n' :: text) = line :: splitTerminator text := by
  induction line with
  | nil => rw [nil_append, splitTerminator, if_pos rfl]
  | cons character line ih =>
    rw [mem_cons, not_or] at h
    rw [cons_append, splitTerminator, if_neg (Ne.symm h.1), ih h.2]

variable {lines : List (List Char)} {value : ℕ}

theorem splitTerminator_joinLines (h : ∀ line ∈ lines, '\n' ∉ line) :
    splitTerminator (joinLines lines) = lines := by
  induction lines with
  | nil => rfl
  | cons line lines ih =>
    rw [joinLines_cons, splitTerminator_line (h line mem_cons_self),
      ih fun other hmem ↦ h other (mem_cons_of_mem _ hmem)]

theorem infix_joinLines (h : line ∈ lines) : line <:+: joinLines lines := by
  obtain ⟨front, back, rfl⟩ := append_of_mem h
  exact ⟨joinLines front, '\n' :: joinLines back, by simp⟩

theorem getLast?_joinLines (h : lines ≠ []) : (joinLines lines).getLast? = some '\n' := by
  obtain ⟨front, last, rfl⟩ := eq_nil_or_concat' lines |>.resolve_left h
  simp

theorem not_mem_joinLines (hcharacter : character ≠ '\n') (h : ∀ line ∈ lines, character ∉ line) :
    character ∉ joinLines lines := by
  simp only [joinLines, mem_flatMap, mem_append, mem_singleton, not_exists, not_and, not_or]
  exact fun line hmem ↦ ⟨h line hmem, hcharacter⟩

def digitValue (digit : Char) : ℕ := digit.toNat - '0'.toNat

/-- The number a run of decimal digits stands for. -/
def decimalValue (digits : List Char) : ℕ :=
  digits.foldl (fun value digit ↦ value * 10 + digitValue digit) 0

theorem digitValue_digitChar (h : digit < 10) : digitValue digit.digitChar = digit := by
  revert digit
  decide

theorem decimalValue_toDigits (value : ℕ) : decimalValue (Nat.toDigits 10 value) = value := by
  induction value using Nat.strong_induction_on with
  | _ value ih =>
    rcases Nat.lt_or_ge value 10 with hlt | hge
    · rw [Nat.toDigits_of_lt_base hlt, decimalValue]
      simp [digitValue_digitChar hlt]
    · have hrest := ih (value / 10) (by omega)
      rw [decimalValue] at hrest
      rw [Nat.toDigits_of_base_le (by omega) hge, decimalValue, foldl_append, hrest]
      simp only [foldl_cons, foldl_nil, digitValue_digitChar (Nat.mod_lt value (by omega))]
      omega

/-- A number that is not zero starts with a digit that is not. -/
theorem toDigits_starts (h : 0 < value) :
    ∃ first rest, Nat.toDigits 10 value = first :: rest ∧ first ≠ '0' := by
  induction value using Nat.strong_induction_on with
  | _ value ih =>
    rcases Nat.lt_or_ge value 10 with hlt | hge
    · have hdigits : ∀ digit < 10, 0 < digit → digit.digitChar ≠ '0' := by decide
      exact ⟨_, [], Nat.toDigits_of_lt_base hlt, hdigits value hlt h⟩
    · obtain ⟨first, rest, hrest, hne⟩ := ih (value / 10) (by omega) (by omega)
      refine ⟨first, rest ++ [(value % 10).digitChar], ?_, hne⟩
      rw [Nat.toDigits_of_base_le (by omega) hge, hrest, cons_append]

theorem isDigit_toDigits (value : ℕ) : ∀ digit ∈ Nat.toDigits 10 value, digit.isDigit = true :=
  fun _ hmem ↦ Nat.isDigit_of_mem_toDigits (by decide) (by decide) hmem

theorem toDigits_ne_nil (value : ℕ) : Nat.toDigits 10 value ≠ [] := by
  have hpositive : 0 < (Nat.toDigits 10 value).length := Nat.length_toDigits_pos
  exact ne_nil_of_length_pos hpositive

/-- The value of a hexadecimal digit of either case. -/
def hexValue (digit : Char) : Option ℕ :=
  if '0' ≤ digit ∧ digit ≤ '9' then some (digit.toNat - '0'.toNat)
  else if 'a' ≤ digit ∧ digit ≤ 'f' then some (digit.toNat - 'a'.toNat + 10)
  else if 'A' ≤ digit ∧ digit ≤ 'F' then some (digit.toNat - 'A'.toNat + 10)
  else none

def lowerHex (value : ℕ) : Char := "0123456789abcdef".toList.getD value '0'

def upperHex (value : ℕ) : Char := "0123456789ABCDEF".toList.getD value '0'

theorem hexValue_lowerHex (h : value < 16) : hexValue (lowerHex value) = some value := by
  revert value
  decide

theorem hexValue_upperHex (h : value < 16) : hexValue (upperHex value) = some value := by
  revert value
  decide

end Wrela.Wire
