import Mathlib.Data.List.Infix
import Mathlib.Data.List.TakeWhile
import Wrela.Syntax.Scanner

/-!
# What literals denote

`BodyDenotes` gives the value of the text between two quotes by the grammar of escapes alone.
Decoding computes exactly this value (`decode_eq_some`), and an escape is read the same way whatever
follows it (`decodeEscape_append`).
-/

namespace Wrela.Syntax

open List

def simpleEscapes : List (Char × Char) :=
  [('\\', '\\'), ('"', '"'), ('\'', '\''), ('n', '\n'), ('r', '\r'), ('t', '\t'), ('0', '\x00')]

/-- The value of an escape, given as the text after its backslash. -/
inductive EscapeDenotes : Bool → List Char → EscapeValue → Prop where
  | text {escaped value : Char} (h : (escaped, value) ∈ simpleEscapes) :
      EscapeDenotes false [escaped] (.scalar value)
  | byteText {escaped value : Char} (h : (escaped, value) ∈ simpleEscapes) :
      EscapeDenotes true [escaped] (.byte (UInt8.ofNat value.toNat))
  | byte {high low : Char} (hhigh : isHexDigit high = true) (hlow : isHexDigit low = true) :
      EscapeDenotes true ['x', high, low] (.byte (UInt8.ofNat (hexValue [high, low])))
  | scalar {digits : List Char} {value : Char} (hpos : digits ≠ []) (hle : digits.length ≤ 6)
      (hdigits : ∀ digit ∈ digits, isHexDigit digit = true)
      (hvalue : charFromU32 (hexValue digits) = some value) :
      EscapeDenotes false ('u' :: '{' :: digits ++ ['}']) (.scalar value)

/-- What the text between two quotes stands for. -/
inductive BodyDenotes {α : Type} (decoder : BodyDecoder α) : List Char → List α → Prop where
  | nil : BodyDenotes decoder [] []
  | plain {character : Char} {body : List Char} {part : α} {value : List α}
      (hplain : character ≠ '\\') (hpart : decoder.plain character = some part)
      (h : BodyDenotes decoder body value) : BodyDenotes decoder (character :: body) (part :: value)
  | escape {text body : List Char} {escape : EscapeValue} {part : α} {value : List α}
      (hescape : EscapeDenotes decoder.byteString text escape)
      (hpart : decoder.escaped escape = some part) (h : BodyDenotes decoder body value) :
      BodyDenotes decoder ('\\' :: (text ++ body)) (part :: value)

variable {escaped : Char} {limit : ℕ}

theorem simpleEscape_eq_some :
    simpleEscape escaped = some value ↔ (escaped, value) ∈ simpleEscapes := by
  simp only [simpleEscapes, mem_cons, not_mem_nil, or_false, Prod.mk.injEq]
  unfold simpleEscape
  split
  all_goals first
    | (constructor
       · intro h
         cases h
         simp
       · rintro (h | h | h | h | h | h | h) <;> simp_all)
    | simp_all

/-! ## Reading an escape -/

theorem hexRun_isPrefix (limit : ℕ) (text : List Char) : hexRun limit text <+: text :=
  ( takeWhile_prefix _).trans ( take_prefix limit text)

variable {front back text : List Char} {byteString : Bool}

theorem hexRun_append (h : (hexRun limit (front ++ back)).length ≤ front.length) :
    hexRun limit front = hexRun limit (front ++ back) := by
  have htake : hexRun limit front = (hexRun limit (front ++ back)).take front.length := by
    conv_lhs => rw [← @take_left _ front back]
    rw [hexRun, hexRun, take_take, Nat.min_comm, ← take_take, take_takeWhile]
  rw [htake, take_of_length_le h]

theorem decodeByteEscape_length (tail : List Char) :
    (decodeByteEscape tail).length = 1 + (hexRun 2 tail).length := by
  simp only [decodeByteEscape]
  split <;> rfl

theorem decodeByteEscape_append (h : (decodeByteEscape (front ++ back)).length ≤ front.length + 1) :
    decodeByteEscape front = decodeByteEscape (front ++ back) := by
  rw [decodeByteEscape_length] at h
  have hrun : hexRun 2 front = hexRun 2 (front ++ back) := hexRun_append (by omega)
  simp only [decodeByteEscape, hrun]

theorem decodeUnicodeDigits_length (digits : List Char) (closed : Bool) :
    (decodeUnicodeDigits digits closed).length = 2 + digits.length + closed.toNat := by
  simp only [decodeUnicodeDigits]
  rw [apply_ite DecodedEscape.length, ite_self]

theorem decodeUnicodeEscape_brace (text : List Char) :
    decodeUnicodeEscape ('{' :: text) = decodeUnicodeDigits (hexRun 7 text)
      (decide ((text.drop (hexRun 7 text).length).head? = some '}')) := rfl

theorem decodeUnicodeEscape_of_ne {first : Char} (h : first ≠ '{') (front back : List Char) :
    decodeUnicodeEscape (first :: front) = decodeUnicodeEscape (first :: back) := by
  rw [decodeUnicodeEscape, decodeUnicodeEscape, if_neg (by simpa using h), if_neg (by simpa using h)]

theorem decodeUnicodeEscape_length_pos (tail : List Char) :
    0 < (decodeUnicodeEscape tail).length := by
  simp only [decodeUnicodeEscape]
  split
  · rw [decodeUnicodeDigits_length]
    omega
  · exact Nat.one_pos

/-- Whether a brace follows the digits of an escape is settled by the text of the escape. -/
theorem closed_append {count : ℕ}
    (h : count + (decide (((front ++ back).drop count).head? = some '}')).toNat ≤ front.length) :
    (front.drop count).head? = some '}' ↔ ((front ++ back).drop count).head? = some '}' := by
  rw [List.head?_drop, List.head?_drop] at *
  by_cases hlt : count < front.length
  · rw [List.getElem?_append_left hlt]
  · have hopen : ¬ (front ++ back)[count]? = some '}' := by
      intro hend
      rw [decide_eq_true hend, Bool.toNat_true] at h
      omega
    simp [hopen, List.getElem?_eq_none (Nat.le_of_not_lt hlt)]

theorem decodeUnicodeEscape_append
    (h : (decodeUnicodeEscape (front ++ back)).length ≤ front.length + 1) :
    decodeUnicodeEscape front = decodeUnicodeEscape (front ++ back) := by
  cases front with
  | nil =>
    cases back with
    | nil => rfl
    | cons first back =>
      rw [nil_append] at h ⊢
      by_cases hbrace : first = '{'
      · subst hbrace
        rw [decodeUnicodeEscape_brace, decodeUnicodeDigits_length, length_nil] at h
        omega
      · rw [decodeUnicodeEscape, decodeUnicodeEscape, if_neg (by simp), if_neg (by simpa using hbrace)]
  | cons first front =>
    rw [cons_append, length_cons] at *
    by_cases hbrace : first = '{'
    · subst hbrace
      rw [decodeUnicodeEscape_brace, decodeUnicodeDigits_length] at h
      have hrun : hexRun 7 front = hexRun 7 (front ++ back) := hexRun_append (by omega)
      have hclosed : (front.drop (hexRun 7 (front ++ back)).length).head? = some '}' ↔
          ((front ++ back).drop (hexRun 7 (front ++ back)).length).head? = some '}' :=
        closed_append (by omega)
      rw [decodeUnicodeEscape_brace, decodeUnicodeEscape_brace, hrun]
      simp only [hclosed]
    · exact decodeUnicodeEscape_of_ne hbrace _ _

theorem decodeEscape_simple (h : simpleEscape escaped = some value) (tail : List Char)
    (byteString : Bool) : decodeEscape (escaped :: tail) byteString =
      ⟨1, some (if byteString then .byte (UInt8.ofNat value.toNat) else .scalar value), none⟩ := by
  rw [decodeEscape, h]

theorem decodeEscape_byte (tail : List Char) :
    decodeEscape ('x' :: tail) true = decodeByteEscape tail := rfl

theorem decodeEscape_unicode (tail : List Char) :
    decodeEscape ('u' :: tail) false = decodeUnicodeEscape tail := rfl

/-- An escape that is neither simple nor a code is rejected by its letter alone. -/
theorem decodeEscape_unknown
    (hsimple : simpleEscape escaped = none) (hbyte : ¬ (escaped = 'x' ∧ byteString = true))
    (hunicode : ¬ (escaped = 'u' ∧ byteString = false)) (tail : List Char) :
    decodeEscape (escaped :: tail) byteString =
      ⟨1, none, some ⟨"syntax-invalid-escape", "escape is not part of Wrela revision 0.1"⟩⟩ := by
  rw [decodeEscape, hsimple]
  simp [hbyte, hunicode]

/-- The ways to read a letter after a backslash. -/
theorem escape_cases (escaped : Char) (byteString : Bool) :
    (∃ value, simpleEscape escaped = some value) ∨ (escaped = 'x' ∧ byteString = true) ∨
      (escaped = 'u' ∧ byteString = false) ∨ (simpleEscape escaped = none ∧
        ¬ (escaped = 'x' ∧ byteString = true) ∧ ¬ (escaped = 'u' ∧ byteString = false)) := by
  cases hsimple : simpleEscape escaped with
  | some value => exact .inl ⟨value, rfl⟩
  | none =>
    by_cases hbyte : escaped = 'x' ∧ byteString = true
    · exact .inr (.inl hbyte)
    · by_cases hunicode : escaped = 'u' ∧ byteString = false
      · exact .inr (.inr (.inl hunicode))
      · exact .inr (.inr (.inr ⟨rfl, hbyte, hunicode⟩))

theorem decodeEscape_length_pos (escaped : Char) (tail : List Char) (byteString : Bool) :
    0 < (decodeEscape (escaped :: tail) byteString).length := by
  obtain ⟨value, hsimple⟩ | ⟨rfl, rfl⟩ | ⟨rfl, rfl⟩ | ⟨hsimple, hbyte, hunicode⟩ :=
    escape_cases escaped byteString
  · rw [decodeEscape_simple hsimple]
    exact Nat.one_pos
  · rw [decodeEscape_byte, decodeByteEscape_length]
    omega
  · exact decodeUnicodeEscape_length_pos tail
  · rw [decodeEscape_unknown hsimple hbyte hunicode]
    exact Nat.one_pos

/-- What follows an escape does not change how it is read. -/
theorem decodeEscape_append (h : (decodeEscape (front ++ back) byteString).length ≤ front.length) :
    decodeEscape front byteString = decodeEscape (front ++ back) byteString := by
  cases front with
  | nil =>
    cases back with
    | nil => rfl
    | cons escaped back =>
      have hpos := decodeEscape_length_pos escaped back byteString
      rw [nil_append, length_nil] at h
      omega
  | cons escaped front =>
    rw [cons_append, length_cons] at *
    obtain ⟨value, hsimple⟩ | ⟨rfl, rfl⟩ | ⟨rfl, rfl⟩ | ⟨hsimple, hbyte, hunicode⟩ :=
      escape_cases escaped byteString
    · rw [decodeEscape_simple hsimple, decodeEscape_simple hsimple]
    · exact decodeByteEscape_append h
    · exact decodeUnicodeEscape_append h
    · rw [decodeEscape_unknown hsimple hbyte hunicode, decodeEscape_unknown hsimple hbyte hunicode]

theorem take_hexRun (limit : ℕ) (text : List Char) :
    text.take (hexRun limit text).length = hexRun limit text :=
  (prefix_iff_eq_take.mp (hexRun_isPrefix limit text)).symm

theorem isHexDigit_of_mem_hexRun (h : digit ∈ hexRun limit text) : isHexDigit digit = true :=
  mem_takeWhile_imp h

theorem hexRun_digits {digits : List Char} {after : Char} (tail : List Char)
    (hdigits : ∀ digit ∈ digits, isHexDigit digit = true) (hlt : digits.length < limit)
    (hafter : isHexDigit after = false) : hexRun limit (digits ++ after :: tail) = digits := by
  obtain ⟨more, hmore⟩ : ∃ more, limit - digits.length = more + 1 :=
    ⟨limit - digits.length - 1, by omega⟩
  rw [hexRun, take_append, take_of_length_le hlt.le, hmore, take_succ_cons,
    takeWhile_append_of_pos hdigits, takeWhile_cons_of_neg (by simp [hafter]),
    append_nil]

theorem decodeByteEscape_denotes {tail : List Char}
    (h : (decodeByteEscape tail).diagnostic = none) :
    ∃ value, (decodeByteEscape tail).value = some value ∧
      EscapeDenotes true ('x' :: tail.take (hexRun 2 tail).length) value := by
  rw [take_hexRun]
  simp only [decodeByteEscape] at h ⊢
  split at h
  · rename_i htwo
    rw [if_pos htwo]
    obtain ⟨high, low, hrun⟩ := length_eq_two.mp htwo
    refine ⟨_, rfl, ?_⟩
    have hdigits : ∀ digit ∈ [high, low], isHexDigit digit = true := by
      rw [← hrun]
      exact fun digit hmem ↦ isHexDigit_of_mem_hexRun hmem
    rw [hrun]
    exact .byte (hdigits high (by simp)) (hdigits low (by simp))
  · cases h

theorem decodeUnicodeDigits_denotes (h : (decodeUnicodeDigits digits closed).diagnostic = none) :
    closed = true ∧ digits ≠ [] ∧ digits.length ≤ 6 ∧
      ∃ value, charFromU32 (hexValue digits) = some value ∧
        (decodeUnicodeDigits digits closed).value = some (.scalar value) := by
  simp only [decodeUnicodeDigits] at h ⊢
  by_cases hvalid : digits ≠ [] ∧ digits.length ≤ 6 ∧ closed = true ∧
      (if digits = [] then none else charFromU32 (hexValue digits)).isSome = true
  · obtain ⟨hne, hle, hclosed, hscalar⟩ := hvalid
    rw [if_neg hne] at hscalar
    obtain ⟨value, hvalue⟩ := Option.isSome_iff_exists.mp hscalar
    refine ⟨hclosed, hne, hle, value, hvalue, ?_⟩
    simp [hne, hle, hclosed, hvalue]
  · rw [if_neg hvalid] at h
    cases h

theorem decodeUnicodeEscape_denotes {tail : List Char}
    (h : (decodeUnicodeEscape tail).diagnostic = none) :
    ∃ value, (decodeUnicodeEscape tail).value = some value ∧
      EscapeDenotes false (('u' :: tail).take (decodeUnicodeEscape tail).length) value := by
  cases tail with
  | nil => cases h
  | cons first text =>
    by_cases hbrace : first = '{'
    · subst hbrace
      rw [decodeUnicodeEscape_brace] at h ⊢
      obtain ⟨hclosed, hne, hle, value, hvalue, hdecoded⟩ := decodeUnicodeDigits_denotes h
      refine ⟨.scalar value, hdecoded, ?_⟩
      have htake : ('u' :: '{' :: text).take (decodeUnicodeDigits (hexRun 7 text)
          (decide ((text.drop (hexRun 7 text).length).head? = some '}'))).length =
          'u' :: '{' :: hexRun 7 text ++ ['}'] := by
        have hsucc : 2 + (hexRun 7 text).length + 1 = (hexRun 7 text).length + 1 + 2 := by omega
        have hend : text[(hexRun 7 text).length]? = some '}' := by
          rw [← List.head?_drop]
          exact of_decide_eq_true hclosed
        rw [decodeUnicodeDigits_length, hclosed, Bool.toNat_true, hsucc, take_succ_cons,
          take_succ_cons, take_add_one, take_hexRun, hend]
        rfl
      rw [htake]
      exact .scalar hne hle (fun digit hmem ↦ isHexDigit_of_mem_hexRun hmem) hvalue
    · rw [decodeUnicodeEscape, if_neg (by simpa using hbrace)] at h
      cases h

/-- An escape that is read without a diagnostic has the value that the grammar gives it. -/
theorem decodeEscape_denotes (h : (decodeEscape text byteString).diagnostic = none) :
    ∃ value, (decodeEscape text byteString).value = some value ∧
      EscapeDenotes byteString (text.take (decodeEscape text byteString).length) value := by
  cases text with
  | nil => cases h
  | cons escaped tail =>
    obtain ⟨value, hsimple⟩ | ⟨rfl, rfl⟩ | ⟨rfl, rfl⟩ | ⟨hsimple, hbyte, hunicode⟩ :=
      escape_cases escaped byteString
    · rw [decodeEscape_simple hsimple]
      refine ⟨_, rfl, ?_⟩
      cases byteString with
      | false => exact .text (simpleEscape_eq_some.mp hsimple)
      | true => exact .byteText (simpleEscape_eq_some.mp hsimple)
    · rw [decodeEscape_byte] at h ⊢
      rw [decodeByteEscape_length, Nat.add_comm, take_succ_cons]
      exact decodeByteEscape_denotes h
    · exact decodeUnicodeEscape_denotes h
    · rw [decodeEscape_unknown hsimple hbyte hunicode] at h
      cases h

/-- An escape of the grammar is read with its value, whatever follows it. -/
theorem EscapeDenotes.decodeEscape_eq {value : EscapeValue}
    (h : EscapeDenotes byteString text value) (tail : List Char) :
    decodeEscape (text ++ tail) byteString = ⟨text.length, some value, none⟩ := by
  cases h with
  | text h => exact decodeEscape_simple (simpleEscape_eq_some.mpr h) tail false
  | byteText h => exact decodeEscape_simple (simpleEscape_eq_some.mpr h) tail true
  | @byte high low hhigh hlow =>
    have hrun : hexRun 2 (high :: low :: tail) = [high, low] := by
      rw [hexRun, take_succ_cons, take_succ_cons, take_zero,
        takeWhile_cons_of_pos hhigh, takeWhile_cons_of_pos hlow, takeWhile_nil]
    change decodeByteEscape (high :: low :: tail) = _
    simp only [decodeByteEscape, hrun]
    rfl
  | @scalar digits value hpos hle hdigits hvalue =>
    have hrun : hexRun 7 (digits ++ '}' :: tail) = digits :=
      hexRun_digits tail hdigits (by omega) rfl
    have hclosed : ((digits ++ '}' :: tail).drop digits.length).head? = some '}' := by
      rw [drop_left, List.head?_cons]
    have happend : 'u' :: '{' :: digits ++ ['}'] ++ tail = 'u' :: '{' :: (digits ++ '}' :: tail) := by
      simp
    rw [happend, decodeEscape_unicode, decodeUnicodeEscape_brace, hrun, decide_eq_true hclosed]
    simp only [decodeUnicodeDigits]
    rw [if_neg hpos, if_pos ⟨hpos, hle, trivial, by rw [hvalue, Option.isSome_some]⟩, hvalue]
    simp only [Option.map_some, length_append, length_cons, length_nil,
      Bool.toNat_true, DecodedEscape.mk.injEq, and_true]
    omega

theorem decodeUnicodeEscape_length_le (tail : List Char) :
    (decodeUnicodeEscape tail).length ≤ tail.length + 1 := by
  cases tail with
  | nil => exact le_rfl
  | cons first text =>
    by_cases hbrace : first = '{'
    · subst hbrace
      rw [decodeUnicodeEscape_brace, decodeUnicodeDigits_length, length_cons]
      have hrun := (hexRun_isPrefix 7 text).length_le
      cases hclosed : decide ((text.drop (hexRun 7 text).length).head? = some '}') with
      | false =>
        rw [Bool.toNat_false]
        omega
      | true =>
        have hend := of_decide_eq_true hclosed
        rw [List.head?_drop] at hend
        have hlt := (List.getElem?_eq_some_iff.mp hend).1
        rw [Bool.toNat_true]
        omega
    · rw [decodeUnicodeEscape, if_neg (by simpa using hbrace)]
      exact Nat.le_add_left 1 _

theorem decodeEscape_length_le (text : List Char) (byteString : Bool) :
    (decodeEscape text byteString).length ≤ text.length := by
  cases text with
  | nil => exact le_rfl
  | cons escaped tail =>
    rw [length_cons]
    obtain ⟨value, hsimple⟩ | ⟨rfl, rfl⟩ | ⟨rfl, rfl⟩ | ⟨hsimple, hbyte, hunicode⟩ :=
      escape_cases escaped byteString
    · rw [decodeEscape_simple hsimple]
      exact Nat.le_add_left 1 _
    · rw [decodeEscape_byte, decodeByteEscape_length]
      have hrun := (hexRun_isPrefix 2 tail).length_le
      omega
    · rw [decodeEscape_unicode]
      exact decodeUnicodeEscape_length_le tail
    · rw [decodeEscape_unknown hsimple hbyte hunicode]
      exact Nat.le_add_left 1 _

section Decode

variable {α : Type} {decoder : BodyDecoder α}

theorem BodyDecoder.decode_plain (h : character ≠ '\\') (turns : ℕ) (rest : List Char) :
    decoder.decode (turns + 1) (character :: rest) =
      (decoder.plain character).bind fun part ↦ (decoder.decode turns rest).map (part :: ·) := by
  rw [BodyDecoder.decode, if_neg h]

theorem BodyDecoder.decode_escape
    (hdiagnostic : (decodeEscape rest decoder.byteString).diagnostic = none)
    (hvalue : (decodeEscape rest decoder.byteString).value = some escape) (turns : ℕ) :
    decoder.decode (turns + 1) ('\\' :: rest) = (decoder.escaped escape).bind fun part ↦
      (decoder.decode turns (rest.drop (decodeEscape rest decoder.byteString).length)).map
        (part :: ·) := by
  rw [BodyDecoder.decode, if_pos rfl]
  simp only [hdiagnostic, if_true, hvalue, Option.bind_some]

theorem BodyDecoder.decode_invalid (h : (decodeEscape rest decoder.byteString).diagnostic ≠ none)
    (turns : ℕ) :
    decoder.decode (turns + 1) ('\\' :: rest) = none := by
  rw [BodyDecoder.decode, if_pos rfl]
  simp only [h, if_false, Option.bind_none]

theorem BodyDecoder.denotes_of_decode (turns : ℕ) (text : List Char) (value : List α)
    (h : decoder.decode turns text = some value) : BodyDenotes decoder text value := by
  induction turns generalizing text value with
  | zero =>
    cases text with
    | nil =>
      cases h
      exact .nil
    | cons character rest => cases h
  | succ turns ih =>
    cases text with
    | nil =>
      cases h
      exact .nil
    | cons character rest =>
      by_cases hplain : character = '\\'
      · subst hplain
        by_cases hdiagnostic : (decodeEscape rest decoder.byteString).diagnostic = none
        · obtain ⟨escape, hvalue, hdenotes⟩ := decodeEscape_denotes hdiagnostic
          rw [decode_escape hdiagnostic hvalue] at h
          obtain ⟨part, hpart, hrest⟩ := Option.bind_eq_some_iff.mp h
          obtain ⟨parts, hparts, rfl⟩ := Option.map_eq_some_iff.mp hrest
          have hbody := BodyDenotes.escape hdenotes hpart (ih _ _ hparts)
          rwa [take_append_drop] at hbody
        · rw [decode_invalid hdiagnostic] at h
          cases h
      · rw [decode_plain hplain] at h
        obtain ⟨part, hpart, hrest⟩ := Option.bind_eq_some_iff.mp h
        obtain ⟨parts, hparts, rfl⟩ := Option.map_eq_some_iff.mp hrest
        exact .plain hplain hpart (ih _ _ hparts)

theorem BodyDenotes.decode_eq (h : BodyDenotes decoder text value) (hturns : text.length ≤ turns) :
    decoder.decode turns text = some value := by
  induction h generalizing turns with
  | nil =>
    cases turns with
    | zero => rfl
    | succ turns => rfl
  | plain hplain hpart h ih =>
    obtain ⟨turns, rfl⟩ := Nat.exists_eq_succ_of_ne_zero (Nat.ne_zero_of_lt hturns)
    rw [BodyDecoder.decode_plain hplain, hpart, ih (Nat.le_of_succ_le_succ hturns)]
    rfl
  | @escape escaped body escape part value hescape hpart h ih =>
    obtain ⟨turns, rfl⟩ := Nat.exists_eq_succ_of_ne_zero (Nat.ne_zero_of_lt hturns)
    have hread := hescape.decodeEscape_eq body
    rw [length_cons, length_append] at hturns
    rw [BodyDecoder.decode_escape (by rw [hread]) (by rw [hread]), hpart, hread, drop_left,
      ih (by omega)]
    rfl

/-- Decoding computes the value of the text. -/
theorem BodyDecoder.decode_eq_some :
    decoder.decode text.length text = some value ↔ BodyDenotes decoder text value :=
  ⟨decoder.denotes_of_decode _ _ _, fun h ↦ h.decode_eq le_rfl⟩

end Decode

end Wrela.Syntax
