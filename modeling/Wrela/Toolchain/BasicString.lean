import Wrela.Toolchain.Codec

/-!
# Basic strings

What a basic string is, as a grammar: an opening quote, characters and escapes, a closing quote that
no escape takes.  The scanner reads every basic string as what it stands for.  Besides, it takes a
text whose last quote belongs to an escape.
-/

namespace Wrela.Toolchain

open List Wrela.Source Wrela.BuildModel Wrela.Wire Wrela.Checked

/-- The escapes of one character after the backslash. -/
def shortEscapes : List (Char × Char) :=
  [('"', '"'), ('\\', '\\'), ('b', '\x08'), ('t', '\t'), ('n', '\n'), ('f', '\x0c'), ('r', '\r')]

/-- How one character may stand in a basic string. -/
inductive BasicCharacter : List Char → Char → Prop
  | plain {character : Char} : character ≠ '"' → character ≠ '\\' → isControl character = false →
      BasicCharacter [character] character
  | short {mark character : Char} : (mark, character) ∈ shortEscapes →
      BasicCharacter ['\\', mark] character
  | unicode {mark character : Char} {digits : List Char} {values : List ℕ} :
      (mark, digits.length) ∈ [('u', 4), ('U', 8)] → digits.map hexValue = values.map some →
      values.foldl (fun value digit ↦ value * 16 + digit) 0 = character.toNat →
      BasicCharacter ('\\' :: mark :: digits) character

inductive BasicCharacters : List Char → List Char → Prop
  | nil : BasicCharacters [] []
  | cons {text rest decoded : List Char} {character : Char} : BasicCharacter text character →
      BasicCharacters rest decoded → BasicCharacters (text ++ rest) (character :: decoded)

/-- A complete basic string, and the string it stands for. -/
def BasicString (text : List Char) (value : String) : Prop :=
  ∃ body, text = '"' :: (body ++ ['"']) ∧ BasicCharacters body value.toList

/-- After the text a backslash is left that no backslash before it takes. -/
def endsEscaped (text : List Char) : Bool :=
  text.foldl (fun escaped character ↦ !escaped && character == '\\') false

/-- The last character of the text belongs to an escape: an odd number of backslashes stands right
before it. -/
def hangs (text : List Char) : Bool := endsEscaped text.dropLast

theorem textBytes_append (first second : List Char) :
    textBytes (first ++ second) = textBytes first + textBytes second := by
  rw [textBytes, encodeChars_append, length_append, textBytes, textBytes]

theorem textBytes_cons_pos (character : Char) (rest : List Char) :
    0 < textBytes (character :: rest) := by
  have hsize : 0 < (String.utf8EncodeChar character).length := by
    rw [String.length_utf8EncodeChar]
    exact character.utf8Size_pos
  rw [textBytes, encodeChars, flatMap_cons, length_append]
  omega

variable {value byteOffset : ℕ} {text left decoded : List Char} {character : Char}

theorem lt_of_hexValue (h : hexValue digit = some value) : digit.toNat < 128 := by
  unfold hexValue at h
  split at h
  · rename_i hrange
    have hle : digit.toNat ≤ 57 := hrange.2
    omega
  split at h
  · rename_i hrange
    have hle : digit.toNat ≤ 102 := hrange.2
    omega
  split at h
  · rename_i hrange
    have hle : digit.toNat ≤ 70 := hrange.2
    omega
  · cases h

theorem hexValue_ne_backslash (h : hexValue digit = some value) : digit ≠ '\\' := by
  rintro rfl
  exact absurd h (by simp [hexValue])

/-- Hexadecimal digits take one byte each. -/
theorem textBytes_hexDigits {digits : List Char} {values : List ℕ}
    (h : digits.map hexValue = values.map some) : textBytes digits = digits.length := by
  induction digits generalizing values with
  | nil => rfl
  | cons digit digits ih =>
    obtain _ | ⟨value, values⟩ := values
    · cases h
    rw [map_cons, map_cons, List.cons.injEq] at h
    have hone : (String.utf8EncodeChar digit).length = 1 := by
      have hsmall := lt_of_hexValue h.1
      rw [String.length_utf8EncodeChar, Char.utf8Size, if_pos]
      have hle : digit.toNat ≤ 127 := by omega
      exact hle
    have hrest := ih h.2
    rw [textBytes] at hrest ⊢
    rw [encodeChars, flatMap_cons, ← encodeChars, length_append, hone, hrest,
      length_cons, Nat.add_comm]

theorem hexDigitsFrom_eq_ok {count start : ℕ} {message : String} {rest : List Char} :
    hexDigitsFrom byteOffset message count start text = .ok (value, rest) ↔
      ∃ (digits : List Char) (values : List ℕ), text = digits ++ rest ∧ digits.length = count ∧
        digits.map hexValue = values.map some ∧
        value = values.foldl (fun value digit ↦ value * 16 + digit) start := by
  induction count generalizing byteOffset start text with
  | zero =>
    rw [hexDigitsFrom, Except.ok.injEq, Prod.mk.injEq]
    constructor
    · rintro ⟨rfl, rfl⟩
      exact ⟨[], [], rfl, rfl, rfl, rfl⟩
    · rintro ⟨digits, values, rfl, hlength, hvalues, rfl⟩
      obtain rfl := eq_nil_of_length_eq_zero hlength
      obtain rfl : values = [] := by simpa using hvalues.symm
      exact ⟨rfl, rfl⟩
  | succ count ih =>
    obtain _ | ⟨digit, text⟩ := text
    · rw [hexDigitsFrom]
      constructor
      · rintro ⟨⟩
      · rintro ⟨digits, values, hnil, hlength, -, -⟩
        obtain ⟨rfl, rfl⟩ := append_eq_nil_iff.1 hnil.symm
        cases hlength
    · rw [hexDigitsFrom]
      constructor
      · intro h
        cases hdigit : hexValue digit with
        | none => simp [hdigit] at h
        | some number =>
          simp only [hdigit] at h
          obtain ⟨digits, values, rfl, hlength, hvalues, rfl⟩ := ih.1 h
          exact ⟨digit :: digits, number :: values, rfl, by simp [hlength], by simp [hdigit, hvalues],
            rfl⟩
      · rintro ⟨digits, values, htext, hlength, hvalues, rfl⟩
        obtain _ | ⟨digit', digits⟩ := digits
        · cases hlength
        obtain _ | ⟨number, values⟩ := values
        · cases hvalues
        obtain ⟨rfl, rfl⟩ := List.cons.inj htext
        rw [map_cons, map_cons, List.cons.injEq] at hvalues
        simp only [hvalues.1]
        exact ih.2 ⟨digits, values, rfl, Nat.succ.inj hlength, hvalues.2, rfl⟩

theorem toNat_isValidChar (character : Char) : character.toNat.isValidChar := character.valid

theorem toNat_ofNat (h : value.isValidChar) : (Char.ofNat value).toNat = value := by
  rw [Char.ofNat, dif_pos h]
  rfl

theorem parseUnicodeEscape_eq_ok {rest : List Char} {count : ℕ} (hcount : 0 < count) :
    parseUnicodeEscape rest byteOffset count = .ok (character, left) ↔
      ∃ (digits : List Char) (values : List ℕ), rest = digits ++ left ∧ digits.length = count ∧
        digits.map hexValue = values.map some ∧ left ≠ [] ∧
        values.foldl (fun value digit ↦ value * 16 + digit) 0 = character.toNat := by
  unfold parseUnicodeEscape
  constructor
  · intro h
    split at h
    · cases h
    rename_i hlong
    obtain ⟨⟨value, rest'⟩, hdigits, h⟩ := bind_eq_ok.1 h
    obtain ⟨digits, values, rfl, hlength, hvalues, rfl⟩ := hexDigitsFrom_eq_ok.1 hdigits
    dsimp only at h
    split at h
    · rename_i hvalid
      cases h
      refine ⟨digits, values, rfl, hlength, hvalues, ?_, ?_⟩
      · rintro rfl
        rw [append_nil, textBytes_hexDigits hvalues] at hlong
        omega
      · exact (toNat_ofNat hvalid).symm
    · cases h
  · rintro ⟨digits, values, rfl, hlength, hvalues, hleft, hvalue⟩
    obtain ⟨last, left, rfl⟩ := exists_cons_of_ne_nil hleft
    have hpositive := textBytes_cons_pos last left
    have hlong : ¬ count > textBytes (digits ++ last :: left) - 1 := by
      rw [textBytes_append, textBytes_hexDigits hvalues]
      omega
    rw [if_neg hlong]
    refine bind_eq_ok.2 ⟨_, hexDigitsFrom_eq_ok.2 ⟨digits, values, rfl, hlength, hvalues, rfl⟩, ?_⟩
    simp only [hvalue, if_pos (toNat_isValidChar character), Char.ofNat_toNat]
    rfl

/-- An escape is one of the grammar, and its last character is the last one left only when it is an
escape of one character. -/
theorem parseEscape_sound {characters : List Char}
    (h : parseEscape characters byteOffset = .ok (character, left)) :
    ∃ more, characters = more ++ left ∧ BasicCharacter ('\\' :: more) character ∧
      (left = [] → more.length = 1) := by
  obtain _ | ⟨mark, rest⟩ := characters
  · cases h
  have hshort {decoded : Char} (hmem : (mark, decoded) ∈ shortEscapes)
      (heq : (Except.ok (decoded, rest) : Except ToolchainDecodeError _) = .ok (character, left)) :
      ∃ more, mark :: rest = more ++ left ∧ BasicCharacter ('\\' :: more) character ∧
        (left = [] → more.length = 1) := by
    cases heq
    exact ⟨[mark], rfl, .short hmem, fun _ ↦ rfl⟩
  have hunicode {count : ℕ} (hmem : (mark, count) ∈ [('u', 4), ('U', 8)])
      (heq : parseUnicodeEscape rest byteOffset count = .ok (character, left)) :
      ∃ more, mark :: rest = more ++ left ∧ BasicCharacter ('\\' :: more) character ∧
        (left = [] → more.length = 1) := by
    have hcount : 0 < count := by
      simp only [mem_cons, Prod.mk.injEq, not_mem_nil, or_false] at hmem
      omega
    obtain ⟨digits, values, rfl, rfl, hvalues, hleft, hvalue⟩ :=
      (parseUnicodeEscape_eq_ok hcount).1 heq
    exact ⟨mark :: digits, rfl, .unicode hmem hvalues hvalue, fun hnil ↦ absurd hnil hleft⟩
  unfold parseEscape at h
  dsimp only at h
  iterate 7
    split at h
    · rename_i hmark
      subst hmark
      exact hshort (by decide) h
  split at h
  · rename_i hmark
    subst hmark
    exact hunicode (by decide) h
  split at h
  · rename_i hmark
    subst hmark
    exact hunicode (by decide) h
  · cases h

/-- Every escape of the grammar is read, when something follows it. -/
theorem parseEscape_complete {more : List Char}
    (h : BasicCharacter ('\\' :: more) character) (hleft : left ≠ []) (byteOffset : ℕ) :
    parseEscape (more ++ left) byteOffset = .ok (character, left) := by
  generalize htext : '\\' :: more = text at h
  cases h with
  | plain hquote hbackslash hcontrol =>
    obtain ⟨rfl, -⟩ := List.cons.inj htext
    exact absurd rfl hbackslash
  | @short mark _ hmem =>
    obtain ⟨-, rfl⟩ := List.cons.inj htext
    fin_cases hmem <;> rfl
  | @unicode mark _ digits values hmem hvalues hvalue =>
    obtain ⟨-, rfl⟩ := List.cons.inj htext
    have hread (count : ℕ) (hcount : 0 < count) (hlength : digits.length = count) :
        parseUnicodeEscape (digits ++ left) byteOffset count = .ok (character, left) :=
      (parseUnicodeEscape_eq_ok hcount).2
        ⟨digits, values, rfl, hlength, hvalues, hleft, hvalue⟩
    simp only [mem_cons, Prod.mk.injEq, not_mem_nil, or_false] at hmem
    rcases hmem with ⟨rfl, hlength⟩ | ⟨rfl, hlength⟩
    · exact hread 4 (by decide) hlength
    · exact hread 8 (by decide) hlength

/-- Every string of the grammar is read. -/
theorem scanCharacters_complete (h : BasicCharacters body decoded) (hfuel : body.length ≤ fuel)
    (byteOffset : ℕ) (last : Char) :
    scanCharacters fuel byteOffset (body ++ [last]) = .ok decoded := by
  induction h generalizing fuel byteOffset with
  | nil => cases fuel <;> rfl
  | @cons text rest decoded character hcharacter hrest ih =>
    have hescape {more : List Char} (hescaped : BasicCharacter ('\\' :: more) character)
        (htext : text = '\\' :: more) :
        scanCharacters fuel byteOffset (text ++ rest ++ [last]) = .ok (character :: decoded) := by
      subst htext
      rw [cons_append, length_cons, length_append] at hfuel
      have hread := parseEscape_complete hescaped (show rest ++ [last] ≠ [] by simp) byteOffset
      obtain ⟨next, following, hnext⟩ : ∃ next following,
          more ++ (rest ++ [last]) = next :: following :=
        exists_cons_of_ne_nil (by simp)
      obtain _ | fuel := fuel
      · omega
      rw [cons_append, cons_append, append_assoc, hnext, scanCharacters,
        if_neg (by decide), if_pos rfl, ← hnext, hread]
      refine bind_eq_ok.2 ⟨_, rfl, bind_eq_ok.2 ⟨decoded, ih (by omega) _, rfl⟩⟩
    cases hcharacter with
    | plain hquote hbackslash hcontrol =>
      rw [cons_append, nil_append, length_cons] at hfuel
      obtain ⟨next, following, hnext⟩ : ∃ next following, rest ++ [last] = next :: following :=
        exists_cons_of_ne_nil (by simp)
      obtain _ | fuel := fuel
      · omega
      rw [cons_append, nil_append, cons_append, hnext, scanCharacters,
        if_neg hquote, if_neg hbackslash, if_neg (by simp [hcontrol]), ← hnext]
      exact bind_eq_ok.2 ⟨decoded, ih (by omega) _, rfl⟩
    | short hmem => exact hescape (.short hmem) rfl
    | unicode hmem hvalues hvalue => exact hescape (.unicode hmem hvalues hvalue) rfl

/-- What the scanner takes: the characters of a basic string before the last one, or an escape that
takes the last one itself. -/
theorem scanCharacters_sound (h : scanCharacters fuel byteOffset text = .ok decoded)
    (hne : text ≠ []) :
    (∃ body last, text = body ++ [last] ∧ BasicCharacters body decoded) ∨
      ∃ body last front, text = body ++ ['\\', last] ∧ BasicCharacters body front := by
  induction fuel generalizing byteOffset text decoded with
  | zero =>
    obtain _ | ⟨character, _ | ⟨next, rest⟩⟩ := text
    · exact absurd rfl hne
    · cases h
      exact .inl ⟨[], character, rfl, .nil⟩
    · cases h
  | succ fuel ih =>
    obtain _ | ⟨character, _ | ⟨next, rest⟩⟩ := text
    · exact absurd rfl hne
    · cases h
      exact .inl ⟨[], character, rfl, .nil⟩
    rw [scanCharacters] at h
    split at h
    · cases h
    rename_i hquote
    split at h
    · rename_i hbackslash
      subst hbackslash
      obtain ⟨⟨first, left⟩, hescape, h⟩ := bind_eq_ok.1 h
      obtain ⟨more, hmore, h⟩ := bind_eq_ok.1 h
      cases h
      obtain ⟨escaped, htext, hcharacter, hlast⟩ := parseEscape_sound hescape
      rw [htext]
      rcases eq_or_ne left [] with rfl | hleft
      · obtain ⟨last, rfl⟩ := length_eq_one_iff.1 (hlast rfl)
        exact .inr ⟨[], last, [], rfl, .nil⟩
      · rcases ih hmore hleft with ⟨body, last, rfl, hbody⟩ | ⟨body, last, front, rfl, hbody⟩
        · exact .inl ⟨'\\' :: escaped ++ body, last, by simp, BasicCharacters.cons hcharacter hbody⟩
        · exact .inr ⟨'\\' :: escaped ++ body, last, _, by simp,
            BasicCharacters.cons hcharacter hbody⟩
    · rename_i hbackslash
      split at h
      · cases h
      rename_i hcontrol
      obtain ⟨more, hmore, h⟩ := bind_eq_ok.1 h
      cases h
      have hcharacter : BasicCharacter [character] character :=
        .plain hquote hbackslash (by simpa using hcontrol)
      rcases ih hmore (by simp) with ⟨body, last, hrest, hbody⟩ | ⟨body, last, front, hrest, hbody⟩
      · exact .inl ⟨character :: body, last, by rw [hrest, cons_append], .cons hcharacter hbody⟩
      · exact .inr ⟨character :: body, last, character :: front, by rw [hrest, cons_append],
          .cons hcharacter hbody⟩

/-- A backslash is left, after one was left or not. -/
def escapes (escaped : Bool) (character : Char) : Bool := !escaped && character == '\\'

theorem endsEscaped_eq (text : List Char) : endsEscaped text = text.foldl escapes false := rfl

theorem BasicCharacter.foldl_escapes
    (h : BasicCharacter text character) : text.foldl escapes false = false := by
  cases h with
  | plain hquote hbackslash hcontrol => simp [escapes, hbackslash]
  | short hmem => simp [escapes]
  | @unicode mark _ digits values hmem hvalues hvalue =>
    rw [foldl_cons, foldl_cons]
    have hmark : escapes (escapes false '\\') mark = false := by simp [escapes]
    rw [hmark]
    clear hmem hvalue
    induction digits generalizing values with
    | nil => rfl
    | cons digit digits ih =>
      obtain _ | ⟨number, values⟩ := values
      · cases hvalues
      rw [map_cons, map_cons, List.cons.injEq] at hvalues
      have hdigit : escapes false digit = false := by
        simp [escapes, hexValue_ne_backslash hvalues.1]
      rw [foldl_cons, hdigit]
      exact ih hvalues.2

theorem BasicCharacters.foldl_escapes (h : BasicCharacters body decoded) :
    body.foldl escapes false = false := by
  induction h with
  | nil => rfl
  | cons hcharacter hrest ih => rw [foldl_append, hcharacter.foldl_escapes, ih]

/-- The closing quote of a basic string is not part of an escape. -/
theorem BasicString.hangs_eq_false {value : String} (h : BasicString text value) :
    hangs text = false := by
  obtain ⟨body, rfl, hbody⟩ := h
  rw [hangs, ← cons_append, dropLast_concat, endsEscaped_eq, foldl_cons]
  exact hbody.foldl_escapes

/-- Every basic string is read as the string it stands for. -/
theorem BasicString.scanBasicString_eq {value : String}
    (h : BasicString text value) (byteOffset : ℕ) :
    scanBasicString text byteOffset = .ok value.toList := by
  obtain ⟨body, rfl, hbody⟩ := h
  have hlong : ¬ textBytes ('"' :: (body ++ ['"'])) < 2 := by
    have hfirst := textBytes_cons_pos '"' []
    have hlast : 0 < textBytes (body ++ ['"']) := by
      rw [textBytes_append]
      omega
    rw [← singleton_append, textBytes_append]
    omega
  have hends : ('"' :: (body ++ ['"'])).getLast? = some '"' := by
    rw [← cons_append, List.getLast?_append]
    rfl
  rw [scanBasicString, if_neg (by simp [hlong, hends]), tail_cons]
  refine scanCharacters_complete hbody ?_ _ _
  rw [length_cons, length_append]
  omega

/-- What is read is a basic string, unless its last quote belongs to an escape. -/
theorem basicString_of_scanBasicString
    (h : scanBasicString text byteOffset = .ok decoded) (hhangs : hangs text = false) :
    BasicString text (String.ofList decoded) := by
  unfold scanBasicString at h
  split at h
  · cases h
  rename_i hquotes
  push Not at hquotes
  obtain ⟨hlong, hfirst, hlast⟩ := hquotes
  obtain _ | ⟨first, rest⟩ := text
  · cases hfirst
  obtain rfl : first = '"' := Option.some.inj hfirst
  have hrest : rest ≠ [] := by
    rintro rfl
    exact absurd hlong (by decide)
  rcases scanCharacters_sound h hrest with ⟨body, last, heq, hbody⟩ | ⟨body, last, _, heq, hbody⟩
  · rw [tail_cons] at heq
    subst heq
    obtain rfl : last = '"' := by
      rw [← cons_append, List.getLast?_append] at hlast
      simpa using hlast
    exact ⟨body, rfl, by rwa [String.toList_ofList]⟩
  · rw [tail_cons] at heq
    subst heq
    have hdrop : ('"' :: (body ++ ['\\', last])).dropLast = '"' :: (body ++ ['\\']) := by
      rw [← cons_append, dropLast_append_of_ne_nil (by simp)]
      rfl
    rw [hangs, hdrop, endsEscaped_eq, foldl_cons, foldl_append] at hhangs
    have hfront : body.foldl escapes (escapes false '"') = false := hbody.foldl_escapes
    rw [hfront] at hhangs
    cases hhangs

/-- Whatever fails is reported as malformed. -/
def OnlyMalformed {α : Type} (result : Except ToolchainDecodeError α) : Prop :=
  ∀ error, result = .error error → ∃ offset message, error = .malformed offset message

section OnlyMalformed

variable {α β : Type}

theorem OnlyMalformed.ok (value : α) : OnlyMalformed (.ok value) := fun _ h ↦ by cases h

theorem OnlyMalformed.malformed (offset : ℕ) (message : String) :
    OnlyMalformed (.error (malformed offset message) : Except ToolchainDecodeError α) := by
  rintro error ⟨⟩
  exact ⟨offset, message, rfl⟩

theorem OnlyMalformed.bind {first : Except ToolchainDecodeError α}
    {next : α → Except ToolchainDecodeError β} (hfirst : OnlyMalformed first)
    (hnext : ∀ value, OnlyMalformed (next value)) : OnlyMalformed (first >>= next) := by
  cases first with
  | ok value => exact hnext value
  | error error =>
    rintro _ ⟨⟩
    exact hfirst error rfl

theorem onlyMalformed_hexDigitsFrom (byteOffset : ℕ) (message : String) (count value : ℕ)
    (text : List Char) : OnlyMalformed (hexDigitsFrom byteOffset message count value text) := by
  induction count generalizing byteOffset value text with
  | zero => exact .ok _
  | succ count ih =>
    obtain _ | ⟨digit, text⟩ := text
    · exact .malformed _ _
    · rw [hexDigitsFrom]
      split
      · exact .malformed _ _
      · exact ih _ _ _

theorem onlyMalformed_parseUnicodeEscape (rest : List Char) (byteOffset count : ℕ) :
    OnlyMalformed (parseUnicodeEscape rest byteOffset count) := by
  unfold parseUnicodeEscape
  split
  · exact .malformed _ _
  · refine (onlyMalformed_hexDigitsFrom _ _ _ _ _).bind fun read ↦ ?_
    dsimp only
    split
    · exact .ok _
    · exact .malformed _ _

theorem onlyMalformed_parseEscape (characters : List Char) (byteOffset : ℕ) :
    OnlyMalformed (parseEscape characters byteOffset) := by
  unfold parseEscape
  split
  · exact .malformed _ _
  iterate 7
    split
    · exact .ok _
  split
  · exact onlyMalformed_parseUnicodeEscape _ _ _
  split
  · exact onlyMalformed_parseUnicodeEscape _ _ _
  · exact .malformed _ _

theorem onlyMalformed_scanCharacters (fuel byteOffset : ℕ) (text : List Char) :
    OnlyMalformed (scanCharacters fuel byteOffset text) := by
  induction fuel generalizing byteOffset text with
  | zero =>
    obtain _ | ⟨character, _ | ⟨next, rest⟩⟩ := text
    · exact .ok _
    · exact .ok _
    · exact .malformed _ _
  | succ fuel ih =>
    obtain _ | ⟨character, _ | ⟨next, rest⟩⟩ := text
    · exact .ok _
    · exact .ok _
    rw [scanCharacters]
    split
    · exact .malformed _ _
    split
    · exact (onlyMalformed_parseEscape _ _).bind fun _ ↦ (ih _ _).bind fun _ ↦ .ok _
    split
    · exact .malformed _ _
    · exact (ih _ _).bind fun _ ↦ .ok _

/-- Every refusal of a string says that it is malformed. -/
theorem onlyMalformed_scanBasicString (text : List Char) (byteOffset : ℕ) :
    OnlyMalformed (scanBasicString text byteOffset) := by
  unfold scanBasicString
  split
  · exact .malformed _ _
  · exact onlyMalformed_scanCharacters _ _ _

end OnlyMalformed

theorem basicCharacter_unicodeEscape (h : isControl character = true) :
    BasicCharacter (unicodeEscape character) character := by
  have hsmall : character.toNat ≤ 0x9f := by
    simp only [isControl, Bool.or_eq_true, decide_eq_true_eq] at h
    rcases h with hle | ⟨-, hle⟩
    · have hle : character.toNat ≤ 0x1f := hle
      omega
    · exact hle
  have hhex (value : ℕ) := hexValue_upperHex (Nat.mod_lt value (by decide : 16 > 0))
  have hvalue : (((0 * 16 + character.toNat / 4096 % 16) * 16 + character.toNat / 256 % 16) * 16 +
      character.toNat / 16 % 16) * 16 + character.toNat % 16 = character.toNat := by omega
  have htext : unicodeEscape character = ['\\', 'u', upperHex (character.toNat / 4096 % 16),
      upperHex (character.toNat / 256 % 16), upperHex (character.toNat / 16 % 16),
      upperHex (character.toNat % 16)] := by
    rw [unicodeEscape, if_pos (by omega)]
    simp [range_succ]
  rw [htext]
  refine @BasicCharacter.unicode 'u' character _ [character.toNat / 4096 % 16,
    character.toNat / 256 % 16, character.toNat / 16 % 16, character.toNat % 16] (by simp) ?_ hvalue
  simp only [map_cons, map_nil, hhex]

theorem basicCharacter_basicEscape (character : Char) :
    BasicCharacter (basicEscape character) character := by
  unfold basicEscape
  iterate 7
    split
    · rename_i heq
      subst heq
      exact .short (by decide)
  split
  · rename_i hcontrol
    exact basicCharacter_unicodeEscape hcontrol
  · rename_i hquote hbackslash _ _ _ _ _ hcontrol
    exact .plain hquote hbackslash (by simpa using hcontrol)

/-- What is written for a string is a basic string that stands for it. -/
theorem basicString_basicString (value : String) : BasicString (basicString value) value := by
  refine ⟨value.toList.flatMap basicEscape, rfl, ?_⟩
  induction value.toList with
  | nil => exact .nil
  | cons character characters ih => exact .cons (basicCharacter_basicEscape character) ih

end Wrela.Toolchain
