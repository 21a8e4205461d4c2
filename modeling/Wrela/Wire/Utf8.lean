import Mathlib.Tactic

/-!
# UTF-8 runs

Text is a Lean `String`; on the wire it is the list of its UTF-8 bytes.  A reader that copies a
long run in bounded chunks must cut it between characters.  `copyChunks` is that loop with the
choice of the next cut left open, and `copyChunks_utf8Bytes` says when it accepts every valid run.
-/

namespace Wrela.Wire

open List

def utf8Bytes (text : String) : List UInt8 := text.toByteArray.data.toList

/-- The text encoded by `bytes`, when they are valid UTF-8. -/
def fromUtf8 (bytes : List UInt8) : Option String := String.fromUTF8? ⟨bytes.toArray⟩

/-- The UTF-8 bytes of a list of characters. -/
def encodeChars (chars : List Char) : List UInt8 := chars.flatMap String.utf8EncodeChar

theorem fromUtf8_eq_some : fromUtf8 bytes = some text ↔ utf8Bytes text = bytes := by
  unfold fromUtf8 String.fromUTF8? utf8Bytes
  constructor
  · intro h
    split at h
    · cases h
      rfl
    · cases h
  · rintro rfl
    have hvalid : (⟨text.toByteArray.data.toList.toArray⟩ : ByteArray).IsValidUTF8 := by
      simpa using text.isValidUTF8
    rw [dif_pos hvalid]
    rfl

theorem utf8Bytes_injective (h : utf8Bytes left = utf8Bytes right) : left = right := by
  have hleft := fromUtf8_eq_some.2 h
  have hright := fromUtf8_eq_some.2 (rfl : utf8Bytes right = utf8Bytes right)
  exact Option.some.inj (hleft.symm.trans hright)

@[simp]
theorem utf8Bytes_append (left right : String) :
    utf8Bytes (left ++ right) = utf8Bytes left ++ utf8Bytes right := by
  simp [utf8Bytes]

theorem utf8Bytes_ofList (chars : List Char) :
    utf8Bytes (String.ofList chars) = encodeChars chars := by
  simp [utf8Bytes, encodeChars, List.utf8Encode]

theorem utf8Bytes_eq_encodeChars (text : String) : utf8Bytes text = encodeChars text.toList := by
  rw [← utf8Bytes_ofList, String.ofList_toList]

theorem encodeChars_append (left right : List Char) :
    encodeChars (left ++ right) = encodeChars left ++ encodeChars right :=
  flatMap_append

theorem length_encodeChars_le (characters : List Char) :
    (encodeChars characters).length ≤ 4 * characters.length := by
  induction characters with
  | nil => rfl
  | cons character characters ih =>
    have hcharacter : (String.utf8EncodeChar character).length ≤ 4 := by
      simpa using character.utf8Size_le_four
    rw [encodeChars, flatMap_cons, length_append, length_cons]
    rw [encodeChars] at ih
    omega

/-- A byte that continues a character begun earlier. -/
def isContinuation (byte : UInt8) : Bool := byte &&& 0xc0 == 0x80

theorem isContinuation_ofNat (h : value < 256) :
    isContinuation (UInt8.ofNat value) = decide (128 ≤ value ∧ value < 192) := by
  revert value
  decide +kernel

/-- A character starts with one byte that is not a continuation and has at most three that are. -/
theorem utf8EncodeChar_shape (char : Char) :
    ∃ first rest, String.utf8EncodeChar char = first :: rest ∧ isContinuation first = false ∧
      (∀ byte ∈ rest, isContinuation byte = true) ∧ rest.length ≤ 3 := by
  unfold String.utf8EncodeChar
  have hmax : char.val.toNat < 1114112 := by
    have := char.valid
    unfold UInt32.isValidChar Nat.isValidChar at this
    omega
  have hcontinue (value : ℕ) : isContinuation (UInt8.ofNat (value % 64 + 128)) = true := by
    rw [isContinuation_ofNat (by omega)]
    simp
    omega
  have hfirst (value : ℕ) (hlt : value < 256) (h : value < 128 ∨ 192 ≤ value) :
      isContinuation (UInt8.ofNat value) = false := by
    rw [isContinuation_ofNat hlt]
    simp
    omega
  simp only
  split
  · exact ⟨_, _, rfl, hfirst _ (by omega) (by omega), by simp, by simp⟩
  · split
    · refine ⟨_, _, rfl, hfirst _ (by omega) (by omega), ?_, by simp⟩
      simp only [forall_mem_cons]
      exact ⟨hcontinue _, by simp⟩
    · split
      · refine ⟨_, _, rfl, hfirst _ (by omega) (by omega), ?_, by simp⟩
        simp only [forall_mem_cons]
        exact ⟨hcontinue _, hcontinue _, by simp⟩
      · refine ⟨_, _, rfl, hfirst _ (by omega) (by omega), ?_, by simp⟩
        simp only [forall_mem_cons]
        exact ⟨hcontinue _, hcontinue _, hcontinue _, by simp⟩

/-- The bytes of a character are not below it, and those of a character outside ASCII are not
ASCII. -/
theorem min_le_of_mem_utf8EncodeChar (h : byte ∈ String.utf8EncodeChar char) :
    min char.toNat 128 ≤ byte.toNat := by
  unfold String.utf8EncodeChar at h
  have hval : char.toNat = char.val.toNat := rfl
  simp only at h
  split_ifs at h <;> simp only [mem_cons, not_mem_nil, or_false] at h
  · subst h
    simp
    omega
  all_goals
    rcases h with rfl | h
    · simp
      omega
    · rcases h with rfl | rfl | rfl <;> simp <;> omega

/-- A cut of an encoded run that does not fall before a continuation byte falls between
characters. -/
theorem encodeChars_split (hle : cut ≤ (encodeChars chars).length)
    (hcut : ∀ byte, (encodeChars chars)[cut]? = some byte → isContinuation byte = false) :
    ∃ front back, chars = front ++ back ∧ (encodeChars front).length = cut := by
  induction chars generalizing cut with
  | nil => exact ⟨[], [], rfl, by simpa [encodeChars, eq_comm] using hle⟩
  | cons char chars ih =>
    obtain ⟨first, rest, hshape, -, hrest, -⟩ := utf8EncodeChar_shape char
    have hencode : encodeChars (char :: chars) = first :: (rest ++ encodeChars chars) := by
      simp [encodeChars, hshape]
    rcases Nat.eq_zero_or_pos cut with rfl | hpos
    · exact ⟨[], char :: chars, rfl, rfl⟩
    by_cases hinside : cut ≤ rest.length
    · have hget : (encodeChars (char :: chars))[cut]? = some (rest[cut - 1]) := by
        rw [hencode, List.getElem?_cons, if_neg (by omega),
          List.getElem?_append_left (by omega), List.getElem?_eq_getElem]
      have hcontinue := hrest _ (getElem_mem (by omega : cut - 1 < rest.length))
      rw [hcut _ hget] at hcontinue
      cases hcontinue
    · have hlength : (encodeChars (char :: chars)).length =
          rest.length + 1 + (encodeChars chars).length := by
        rw [hencode]
        simp
        omega
      have htail (byte : UInt8)
          (hbyte : (encodeChars chars)[cut - (rest.length + 1)]? = some byte) :
          isContinuation byte = false := by
        refine hcut byte ?_
        rw [hencode, List.getElem?_cons, if_neg (by omega),
          List.getElem?_append_right (by omega), ← hbyte]
        congr 1
        omega
      obtain ⟨front, back, hsplit, hfront⟩ := ih (by omega) htail
      refine ⟨char :: front, back, by rw [hsplit, cons_append], ?_⟩
      have : encodeChars (char :: front) = first :: (rest ++ encodeChars front) := by
        simp [encodeChars, hshape]
      rw [this]
      simp
      omega

/-- The element right after a `takeWhile` run stops it. -/
theorem getElem?_length_takeWhile {α : Type} {p : α → Bool} {l : List α} {a : α}
    (h : l[(l.takeWhile p).length]? = some a) : p a = false := by
  induction l with
  | nil => simp at h
  | cons b l ih =>
    cases hb : p b with
    | false =>
      simp [hb] at h
      rw [← h, hb]
    | true => exact ih (by simpa [hb] using h)

/-- Copy a run chunk by chunk.  `next` looks at what is left and chooses how much of it to convert;
`fuel` bounds the number of chunks. -/
def copyChunks (next : List UInt8 → Option ℕ) : ℕ → List UInt8 → Option String
  | _, [] => some ""
  | 0, _ :: _ => none
  | fuel + 1, byte :: bytes => do
    let count ← next (byte :: bytes)
    let chunk ← fromUtf8 ((byte :: bytes).take count)
    let rest ← copyChunks next fuel ((byte :: bytes).drop count)
    pure (chunk ++ rest)

theorem utf8Bytes_of_copyChunks {next : List UInt8 → Option ℕ} {fuel : ℕ} {bytes : List UInt8}
    {text : String} (h : copyChunks next fuel bytes = some text) : utf8Bytes text = bytes := by
  fun_induction copyChunks next fuel bytes generalizing text with
  | case1 => cases h; rfl
  | case2 => cases h
  | case3 fuel byte bytes ih =>
    simp only [Option.bind_eq_bind, Option.bind_eq_some_iff, Option.pure_def,
      Option.some.injEq] at h
    obtain ⟨count, -, chunk, hchunk, rest, hrest, rfl⟩ := h
    rw [utf8Bytes_append, fromUtf8_eq_some.1 hchunk, ih count hrest, take_append_drop]

/-- When `next` always cuts a valid run after at least one character, the copy is exact. -/
theorem copyChunks_utf8Bytes {next : List UInt8 → Option ℕ}
    (hnext : ∀ chars, chars ≠ [] → ∃ front back, chars = front ++ back ∧ front ≠ [] ∧
      next (encodeChars chars) = some (encodeChars front).length)
    {text : String} {fuel : ℕ} (hfuel : (utf8Bytes text).length ≤ fuel) :
    copyChunks next fuel (utf8Bytes text) = some text := by
  suffices hchars : ∀ (fuel : ℕ) (chars : List Char), (encodeChars chars).length ≤ fuel →
      copyChunks next fuel (encodeChars chars) = some (String.ofList chars) by
    have htext : utf8Bytes text = encodeChars text.toList := by
      rw [← utf8Bytes_ofList, String.ofList_toList]
    rw [htext, hchars fuel text.toList (htext ▸ hfuel), String.ofList_toList]
  intro fuel
  induction fuel with
  | zero =>
    intro chars hle
    cases chars with
    | nil => rfl
    | cons char chars =>
      obtain ⟨first, rest, hshape, -⟩ := utf8EncodeChar_shape char
      simp [encodeChars, hshape] at hle
  | succ fuel ih =>
    intro chars hle
    cases hbytes : encodeChars chars with
    | nil =>
      cases chars with
      | nil => rfl
      | cons char chars =>
        obtain ⟨first, rest, hshape, -⟩ := utf8EncodeChar_shape char
        simp [encodeChars, hshape] at hbytes
    | cons byte bytes =>
      have hne : chars ≠ [] := by
        rintro rfl
        simp [encodeChars] at hbytes
      obtain ⟨front, back, hsplit, hfront, hcount⟩ := hnext chars hne
      have happend : encodeChars chars = encodeChars front ++ encodeChars back := by
        rw [hsplit, encodeChars, flatMap_append]
        rfl
      have hpos : 0 < (encodeChars front).length := by
        obtain ⟨char, front, rfl⟩ := exists_cons_of_ne_nil hfront
        obtain ⟨first, rest, hshape, -⟩ := utf8EncodeChar_shape char
        simp [encodeChars, hshape]
      have hback : (encodeChars back).length ≤ fuel := by
        rw [happend, length_append] at hle
        omega
      have hchunk : fromUtf8 ((encodeChars chars).take (encodeChars front).length) =
          some (String.ofList front) := by
        rw [happend, take_left, fromUtf8_eq_some, utf8Bytes_ofList]
      have hrest : copyChunks next fuel ((encodeChars chars).drop (encodeChars front).length) =
          some (String.ofList back) := by
        rw [happend, drop_left, ih back hback]
      rw [hbytes] at hcount hchunk hrest
      simp only [copyChunks, hcount, hchunk, hrest, Option.bind_eq_bind, Option.bind_some,
        Option.pure_def]
      rw [hsplit, String.ofList_append]

end Wrela.Wire
