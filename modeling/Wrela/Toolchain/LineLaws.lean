import Wrela.Toolchain.BasicString
import Wrela.Wire.Folds

/-!
# The lines of a manifest

A manifest is written as lines.  Neither the comment of a line nor the blanks around its two sides
take anything away from what the encoder writes, so the decoder finds every key and every value as
they are; strings, digests and numbers are then got back from their values.
-/

namespace Wrela.Toolchain

open List Wrela.Source Wrela.BuildModel Wrela.Package Wrela.Wire Wrela.Checked

-- whatever the elements are, only those of the list are tried
open scoped Wrela.FiniteChecks

theorem byteLength_ofList (characters : List Char) :
    byteLength (String.ofList characters) = textBytes characters := by
  rw [byteLength, utf8Bytes_ofList, textBytes]

theorem textBytes_toList (value : String) : textBytes value.toList = byteLength value := by
  rw [← byteLength_ofList, String.ofList_toList]

/-- The text of a digest. -/
def digestText (digest : Sha256Digest) : List Char := '"' :: (digestDigits digest ++ ['"'])

def byteDigits (bytes : List UInt8) : List Char :=
  bytes.flatMap fun byte : UInt8 ↦ [lowerHex (byte.toNat / 16), lowerHex (byte.toNat % 16)]

theorem digestDigits_eq (digest : Sha256Digest) : digestDigits digest = byteDigits digest.bytes := rfl

theorem byteDigits_cons (byte : UInt8) (bytes : List UInt8) :
    byteDigits (byte :: bytes) =
      lowerHex (byte.toNat / 16) :: lowerHex (byte.toNat % 16) :: byteDigits bytes := rfl

theorem digestText_eq_basicString (digest : Sha256Digest) :
    digestText digest = basicString (String.ofList (digestDigits digest)) := by
  have hplain : ∀ value < 16, basicEscape (lowerHex value) = [lowerHex value] := by decide
  have hdigits (bytes : List UInt8) :
      (byteDigits bytes).flatMap basicEscape = byteDigits bytes := by
    induction bytes with
    | nil => rfl
    | cons byte bytes ih =>
      have hbyte := byte.toNat_lt
      rw [byteDigits_cons, flatMap_cons, flatMap_cons, ih, hplain _ (by omega), hplain _ (by omega)]
      rfl
  rw [basicString, String.toList_ofList, digestDigits_eq, hdigits, digestText, digestDigits_eq]

theorem exists_values_byteDigits (bytes : List UInt8) :
    ∃ values : List ℕ, (byteDigits bytes).map hexValue = values.map some := by
  induction bytes with
  | nil => exact ⟨[], rfl⟩
  | cons byte bytes ih =>
    have hbyte := byte.toNat_lt
    obtain ⟨values, hvalues⟩ := ih
    refine ⟨byte.toNat / 16 :: byte.toNat % 16 :: values, ?_⟩
    rw [byteDigits_cons, map_cons, map_cons, hvalues, hexValue_lowerHex (by omega),
      hexValue_lowerHex (by omega)]
    rfl

theorem byteLength_digestDigits (digest : Sha256Digest) :
    byteLength (String.ofList (digestDigits digest)) = digestBytes := by
  have hlength (bytes : List UInt8) : (byteDigits bytes).length = 2 * bytes.length := by
    induction bytes with
    | nil => rfl
    | cons byte bytes ih =>
      rw [byteDigits_cons, length_cons, length_cons, ih, length_cons]
      omega
  obtain ⟨values, hvalues⟩ := exists_values_byteDigits digest.bytes
  rw [byteLength_ofList, digestDigits_eq, textBytes_hexDigits hvalues, hlength, digest.length_eq]
  rfl

theorem digestPairs_byteDigits (byteOffset : ℕ) (bytes : List UInt8) :
    digestPairs byteOffset (byteDigits bytes) = .ok bytes := by
  induction bytes generalizing byteOffset with
  | nil => rfl
  | cons byte bytes ih =>
    have hbyte := byte.toNat_lt
    have hvalue : UInt8.ofNat (byte.toNat / 16 * 16 + byte.toNat % 16) = byte := by
      rw [Nat.div_add_mod', UInt8.ofNat_toNat]
    rw [byteDigits_cons, digestPairs, hexValue_lowerHex (by omega), hexValue_lowerHex (by omega), ih]
    exact congrArg (fun first ↦ Except.ok (first :: bytes)) hvalue

theorem parseDigest_digestDigits (digest : Sha256Digest) (byteOffset : ℕ) :
    parseDigest (String.ofList (digestDigits digest)) byteOffset = .ok digest := by
  have hlength := byteLength_digestDigits digest
  rw [digestBytes] at hlength
  rw [parseDigest, if_neg (by simp [hlength]), String.toList_ofList]
  refine bind_eq_ok.2 ⟨digest.bytes, digestPairs_byteDigits byteOffset digest.bytes, ?_⟩
  rw [dif_pos digest.length_eq]
  rfl

theorem le_foldl_digits (digits : List Char) (start : ℕ) :
    start ≤ digits.foldl (fun value digit ↦ value * 10 + digitValue digit) start := by
  induction digits generalizing start with
  | nil => exact le_refl _
  | cons digit digits ih =>
    have hrest := ih (start * 10 + digitValue digit)
    rw [foldl_cons]
    omega

theorem parseDigits_eq {digits : List Char} (hdigits : ∀ digit ∈ digits, digit.isDigit = true)
    {byteOffset : ℕ} {run : DigitRun}
    (hfits : digits.foldl (fun value digit ↦ value * 10 + digitValue digit) run.result <
      UInt64.size) :
    parseDigits byteOffset run digits = .ok
      ⟨digits.foldl (fun value digit ↦ value * 10 + digitValue digit) run.result,
        run.previousWasDigit || !digits.isEmpty, run.digitCount + digits.length⟩ := by
  induction digits generalizing byteOffset run with
  | nil => simp [parseDigits]
  | cons digit digits ih =>
    have hdigit := hdigits digit mem_cons_self
    have hunderscore : digit ≠ '_' := by
      rintro rfl
      exact absurd hdigit (by decide)
    rw [foldl_cons] at hfits
    have hstep : run.result * 10 + digitValue digit < UInt64.size :=
      lt_of_le_of_lt (le_foldl_digits digits _) hfits
    rw [parseDigits, if_neg hunderscore, if_neg (by simp [hdigit]), if_pos hstep,
      ih (fun other hmem ↦ hdigits other (mem_cons_of_mem _ hmem)) hfits]
    simp only [Bool.true_or, isEmpty_cons, Bool.not_false, Bool.or_true, foldl_cons,
      length_cons, Except.ok.injEq, DigitRun.mk.injEq, true_and]
    omega

theorem parseU64_toDigits (value : UInt64) (byteOffset : ℕ) :
    parseU64 (Nat.toDigits 10 value.toNat) byteOffset = .ok value := by
  have hdigits := isDigit_toDigits value.toNat
  have hne := toDigits_ne_nil value.toNat
  have hvalue := decimalValue_toDigits value.toNat
  have hfits := value.toNat_lt
  have hhead : (Nat.toDigits 10 value.toNat).head? ≠ some '_' := fun hhead ↦
    absurd (hdigits '_' (mem_of_mem_head? hhead)) (by decide)
  have hlast : (Nat.toDigits 10 value.toNat).getLast? ≠ some '_' := fun hlast ↦
    absurd (hdigits '_' (mem_of_getLast? hlast)) (by decide)
  have hzero : (Nat.toDigits 10 value.toNat).length > 1 →
      (Nat.toDigits 10 value.toNat).head? ≠ some '0' := by
    intro hlong hstart
    rcases Nat.eq_zero_or_pos value.toNat with hnone | hpositive
    · rw [hnone] at hlong
      exact absurd hlong (by decide)
    · obtain ⟨first, rest, heq, hfirst⟩ := toDigits_starts hpositive
      rw [heq] at hstart
      exact hfirst (Option.some.inj hstart)
  rw [decimalValue] at hvalue
  have hrun := @parseDigits_eq _ hdigits byteOffset ⟨0, false, 0⟩ (by rw [hvalue]; exact hfits)
  rw [hvalue] at hrun
  rw [parseU64, if_neg (by simp [hne, hhead, hlast]), hrun]
  refine bind_eq_ok.2 ⟨_, rfl, ?_⟩
  rw [if_neg, UInt64.ofNat_toNat]
  · rfl
  · simpa [hne] using hzero

theorem parseU32_toDigits (value : UInt32) (byteOffset : ℕ) :
    parseU32 (Nat.toDigits 10 value.toNat) byteOffset = .ok value := by
  have hfits := value.toNat_lt
  have hwide : value.toUInt64.toNat = value.toNat := UInt32.toNat_toUInt64 value
  have hread := parseU64_toDigits value.toUInt64 byteOffset
  rw [hwide] at hread
  refine bind_eq_ok.2 ⟨_, hread, ?_⟩
  rw [if_pos (by rw [hwide]; exact hfits)]
  exact congrArg Except.ok (UInt32.toUInt32_toUInt64 value)

/-- The line of one assignment. -/
def assignmentLine (key : String) (value : List Char) : List Char :=
  key.toList ++ " = ".toList ++ value

theorem assignment_eq (key : String) (value : List Char) :
    assignment key value = joinLines [assignmentLine key value] := by
  simp [assignment, assignmentLine]

/-- The characters of keys and numbers. -/
def isWordCharacter (character : Char) : Bool := character.isAlphanum || character == '_'

variable {character : Char} {text : List Char}

theorem ne_of_isWordCharacter (h : isWordCharacter character = true)
    (hother : isWordCharacter other = false) : character ≠ other := by
  rintro rfl
  rw [h] at hother
  cases hother

theorem stripCommentFrom_append {front : List Char}
    (h : ∀ character ∈ front, character ≠ '"' ∧ character ≠ '#') (rest : List Char) :
    stripCommentFrom false false (front ++ rest) = front ++ stripCommentFrom false false rest := by
  induction front with
  | nil => rfl
  | cons character front ih =>
    obtain ⟨⟨hquote, hmark⟩, hfront⟩ := forall_mem_cons.1 h
    rw [cons_append, stripCommentFrom, if_neg (by simp), if_neg (by simp), if_neg hquote,
      if_neg (by simp [hmark]), ih hfront, cons_append]

/-- Within a string the comment scanner follows the escapes. -/
theorem stripCommentFrom_basicCharacter (h : BasicCharacter text character) (rest : List Char) :
    stripCommentFrom true false (text ++ rest) = text ++ stripCommentFrom true false rest := by
  cases h with
  | plain hquote hbackslash hcontrol =>
    rw [singleton_append, stripCommentFrom, if_neg (by simp), if_neg (by simp [hbackslash]),
      if_neg hquote, if_neg (by simp), singleton_append]
  | short hmem =>
    rw [cons_append, singleton_append, stripCommentFrom, if_neg (by simp),
      if_pos (by simp), stripCommentFrom, if_pos (by simp)]
    rfl
  | @unicode mark _ digits values hmem hvalues hvalue =>
    have hdigits (digits : List Char) (values : List ℕ)
        (hvalues : digits.map hexValue = values.map some) :
        stripCommentFrom true false (digits ++ rest) =
          digits ++ stripCommentFrom true false rest := by
      induction digits generalizing values with
      | nil => rfl
      | cons digit digits ih =>
        obtain _ | ⟨number, values⟩ := values
        · cases hvalues
        rw [map_cons, map_cons, List.cons.injEq] at hvalues
        have hquote : digit ≠ '"' := by
          rintro rfl
          exact absurd hvalues.1 (by simp [hexValue])
        rw [cons_append, stripCommentFrom, if_neg (by simp),
          if_neg (by simp [hexValue_ne_backslash hvalues.1]), if_neg hquote, if_neg (by simp),
          ih values hvalues.2, cons_append]
    rw [cons_append, cons_append, stripCommentFrom, if_neg (by simp),
      if_pos (by simp), stripCommentFrom, if_pos (by simp), hdigits digits values hvalues]
    rfl

theorem stripCommentFrom_basicString (h : BasicString text value) :
    stripCommentFrom false false text = text := by
  obtain ⟨body, rfl, hbody⟩ := h
  have hinner : stripCommentFrom true false (body ++ ['"']) = body ++ ['"'] := by
    generalize value.toList = decoded at hbody
    induction hbody with
    | nil => rfl
    | cons hcharacter hrest ih =>
      rw [append_assoc, stripCommentFrom_basicCharacter hcharacter, ih]
  rw [stripCommentFrom, if_neg (by simp), if_neg (by simp), if_pos rfl]
  exact congrArg _ hinner

theorem trimTomlWhitespace_eq
    (hfirst : ∀ character, value.head? = some character → isTomlWhitespace character = false)
    (hlast : ∀ character, value.getLast? = some character → isTomlWhitespace character = false) :
    trimTomlWhitespace value = value := by
  obtain _ | ⟨first, rest⟩ := value
  · rfl
  have hdrop : (first :: rest).dropWhile isTomlWhitespace = first :: rest := by
    rw [dropWhile_cons_of_neg]
    simp [hfirst first rfl]
  rw [trimTomlWhitespace, hdrop, rdropWhile_eq_self_iff]
  intro hne
  have hend := hlast _ (List.getLast?_eq_some_getLast hne)
  simp [hend]

/-- What may stand to the right of an equals sign: the comment scanner keeps it whole, and it starts
and ends with characters that are not blank. -/
structure ValueText (value : List Char) : Prop where
  strip : stripCommentFrom false false value = value
  ne_nil : value ≠ []
  first : ∀ character, value.head? = some character → isTomlWhitespace character = false
  last : ∀ character, value.getLast? = some character → isTomlWhitespace character = false

theorem valueText_of_basicString (h : BasicString text value) : ValueText text := by
  have hstrip := stripCommentFrom_basicString h
  obtain ⟨body, rfl, -⟩ := h
  refine ⟨hstrip, cons_ne_nil _ _, ?_, ?_⟩
  · rintro _ ⟨⟩
    rfl
  · intro character hlast
    rw [← cons_append, List.getLast?_append] at hlast
    cases hlast
    rfl

theorem valueText_basicString (value : String) : ValueText (basicString value) :=
  valueText_of_basicString (basicString_basicString value)

theorem isTomlWhitespace_of_word (h : isWordCharacter character = true) :
    isTomlWhitespace character = false := by
  have hspace := ne_of_isWordCharacter h (by decide : isWordCharacter ' ' = false)
  have htab := ne_of_isWordCharacter h (by decide : isWordCharacter '\t' = false)
  have hreturn := ne_of_isWordCharacter h (by decide : isWordCharacter '\r' = false)
  simp [isTomlWhitespace, hspace, htab, hreturn]

theorem valueText_toDigits (value : ℕ) : ValueText (Nat.toDigits 10 value) := by
  have hword : ∀ digit ∈ Nat.toDigits 10 value, isWordCharacter digit = true := by
    intro digit hmem
    simp [isWordCharacter, Char.isAlphanum, isDigit_toDigits value digit hmem]
  refine ⟨?_, toDigits_ne_nil value, ?_, ?_⟩
  · have hstrip := @stripCommentFrom_append (Nat.toDigits 10 value) (fun digit hmem ↦
      ⟨ne_of_isWordCharacter (hword digit hmem) (by decide),
        ne_of_isWordCharacter (hword digit hmem) (by decide)⟩) []
    rwa [stripCommentFrom, append_nil] at hstrip
  · exact fun digit hhead ↦ isTomlWhitespace_of_word (hword digit (mem_of_mem_head? hhead))
  · exact fun digit hlast ↦ isTomlWhitespace_of_word (hword digit (mem_of_getLast? hlast))

/-- A key is a word. -/
def IsKey (key : String) : Prop :=
  key.toList ≠ [] ∧ ∀ character ∈ key.toList, isWordCharacter character = true

instance (key : String) : Decidable (IsKey key) :=
  inferInstanceAs (Decidable (key.toList ≠ [] ∧ ∀ character ∈ key.toList, _))

section Parsing

variable {U : Unicode} {limits : ToolchainDecodeLimits}

theorem splitOnceEquals_append (h : '=' ∉ key) (value : List Char) :
    splitOnceEquals (key ++ '=' :: value) = some (key, value) := by
  have hspan : (key ++ '=' :: value).span (· != '=') = (key, '=' :: value) := by
    rw [span_eq_takeWhile_dropWhile]
    have hall : ∀ character ∈ key, (character != '=') = true := by
      intro character hmem
      simp only [bne_iff_ne, ne_eq]
      rintro rfl
      exact h hmem
    rw [takeWhile_append_of_pos hall, dropWhile_append_of_pos hall]
    simp
  rw [splitOnceEquals, hspan]

/-- The decoder finds the key and the value of an assignment. -/
theorem parseLine_assignmentLine (hkey : IsKey key) (hvalue : ValueText value) (byteOffset : ℕ)
    (parser : Parser) :
    parser.parseLine U limits (assignmentLine key value) byteOffset =
      parser.parseField U limits value byteOffset key := by
  obtain ⟨hne, hword⟩ := hkey
  obtain ⟨first, rest, hfirst⟩ := exists_cons_of_ne_nil hne
  have hfirstWord : isWordCharacter first = true := hword first (by rw [hfirst]; simp)
  have hstrip : stripComment (assignmentLine key value) = assignmentLine key value := by
    rw [stripComment, assignmentLine, stripCommentFrom_append, hvalue.strip]
    intro character hmem
    rcases mem_append.1 hmem with hmem | hmem
    · exact ⟨ne_of_isWordCharacter (hword character hmem) (by decide),
        ne_of_isWordCharacter (hword character hmem) (by decide)⟩
    · have hequals : ∀ character ∈ " = ".toList, character ≠ '"' ∧ character ≠ '#' := by decide
      exact hequals character hmem
  have hline : assignmentLine key value = (key.toList ++ [' ']) ++ '=' :: (' ' :: value) := by
    simp [assignmentLine]
  have htrim : trimTomlWhitespace (assignmentLine key value) = assignmentLine key value := by
    refine trimTomlWhitespace_eq ?_ fun character hlast ↦ hvalue.last character ?_
    · rw [assignmentLine, hfirst]
      rintro _ ⟨⟩
      exact isTomlWhitespace_of_word hfirstWord
    · rwa [assignmentLine, List.getLast?_append_of_ne_nil _ hvalue.ne_nil] at hlast
  have hkeyTrim : trimTomlWhitespace (key.toList ++ [' ']) = key.toList := by
    rw [trimTomlWhitespace, hfirst, cons_append, dropWhile_cons_of_neg
      (by simp [isTomlWhitespace_of_word hfirstWord]), ← cons_append, ← hfirst,
      rdropWhile_concat_pos _ _ _ (by decide), rdropWhile_eq_self_iff]
    intro hkeyne
    simp [isTomlWhitespace_of_word (hword _ (getLast_mem hkeyne))]
  have hvalueTrim : trimTomlWhitespace (' ' :: value) = value := by
    have hself := trimTomlWhitespace_eq hvalue.first hvalue.last
    rw [trimTomlWhitespace] at hself ⊢
    rwa [dropWhile_cons_of_pos (by decide)]
  have hsplit : splitOnceEquals (assignmentLine key value) =
      some (key.toList ++ [' '], ' ' :: value) := by
    rw [hline, splitOnceEquals_append]
    intro hmem
    rcases mem_append.1 hmem with hmem | hmem
    · exact absurd (hword _ hmem) (by decide)
    · exact absurd hmem (by decide)
  have hbracket : (assignmentLine key value).head? ≠ some '[' := by
    rw [assignmentLine, hfirst]
    exact fun hhead ↦ ne_of_isWordCharacter hfirstWord (by decide) (Option.some.inj hhead)
  have hnil : assignmentLine key value ≠ [] := by
    rw [assignmentLine, hfirst]
    exact cons_ne_nil _ _
  simp only [Parser.parseLine, hstrip, htrim, if_neg hnil, if_neg hbracket, hsplit, orFail, ok_bind,
    hkeyTrim, if_neg hne, hvalueTrim, String.ofList_toList]

end Parsing

end Wrela.Toolchain
