import Wrela.Syntax.LiteralLaws

/-!
# Quoted text

`QuotedItems` is the text between two quotes as a scan splits it, with the number of its parts and
whether every part is legal.  Such a text has a value exactly when every part is legal
(`QuotedItems.exists_denotes_iff`), also when the closing quote is missing and the last part happens to
end with one (`QuotedItems.not_denotes_of_unterminated`).
-/

namespace Wrela.Syntax

open List

/-- Text that a scan reads up to `quote`, a character or an escape at a time. -/
inductive QuotedItems (quote : Char) (byteString : Bool) : List Char → ℕ → Bool → Prop where
  | nil : QuotedItems quote byteString [] 0 true
  | plain {character : Char} {text : List Char} {count : ℕ} {legal : Bool}
      (hplain : character ≠ '\\') (hquote : character ≠ quote)
      (h : QuotedItems quote byteString text count legal) :
      QuotedItems quote byteString (character :: text) (count + 1)
        (!(byteString && decide (128 ≤ character.toNat)) && legal)
  | escape {escape text : List Char} {count : ℕ} {legal : Bool}
      (hescape : (decodeEscape (escape ++ text) byteString).length = escape.length)
      (h : QuotedItems quote byteString text count legal) :
      QuotedItems quote byteString ('\\' :: (escape ++ text)) (count + 1)
        ((decodeEscape (escape ++ text) byteString).diagnostic.isNone && legal)

/-- A decoder that gives a value to every part that a scan accepts. -/
structure BodyDecoder.Faithful {α : Type} (decoder : BodyDecoder α) : Prop where
  plain : ∀ character, (decoder.plain character).isSome =
    !(decoder.byteString && decide (128 ≤ character.toNat))
  escaped : ∀ text value, EscapeDenotes decoder.byteString text value →
    (decoder.escaped value).isSome = true

theorem textDecoder_faithful : textDecoder.Faithful where
  plain character := rfl
  escaped text value h := by
    cases h with
    | text h => rfl
    | scalar hpos hle hdigits hvalue => rfl

theorem byteDecoder_faithful : byteDecoder.Faithful where
  plain character := by
    by_cases h : character.toNat < 128
    · simp [byteDecoder, asciiByte, h]
    · simp [byteDecoder, asciiByte, h, Nat.le_of_not_lt h]
  escaped text value h := by
    cases h with
    | byteText h => rfl
    | byte hhigh hlow => rfl

section Decoder

variable {α : Type} {decoder : BodyDecoder α} {quote : Char} {text : List Char} {count : ℕ}
  {legal : Bool}

theorem map_length_cons {part : α} {decoded : Option (List α)}
    (h : decoded.map List.length = if legal then some count else none) :
    decoded.map (List.length ∘ fun parts ↦ part :: parts) =
      if legal then some (count + 1) else none := by
  cases legal with
  | false =>
    rw [if_neg Bool.false_ne_true, Option.map_eq_none_iff] at h ⊢
    exact h
  | true =>
    rw [if_pos rfl] at h ⊢
    obtain ⟨parts, hparts, hlength⟩ := Option.map_eq_some_iff.mp h
    rw [hparts, Option.map_some, Function.comp_apply, length_cons, hlength]

/-- Decoding gives one part for each item, or nothing when some item is not legal. -/
theorem QuotedItems.decode_length (h : QuotedItems quote decoder.byteString text count legal)
    (hfaithful : decoder.Faithful) (hturns : text.length ≤ turns) :
    (decoder.decode turns text).map List.length = if legal then some count else none := by
  induction h generalizing turns with
  | nil =>
    cases turns with
    | zero => rfl
    | succ turns => rfl
  | @plain character text count legal hplain hquote h ih =>
    obtain ⟨turns, rfl⟩ := Nat.exists_eq_succ_of_ne_zero (Nat.ne_zero_of_lt hturns)
    have hrest := ih (Nat.le_of_succ_le_succ hturns)
    have hpart := hfaithful.plain character
    rw [BodyDecoder.decode_plain hplain, ← hpart]
    cases hvalue : decoder.plain character with
    | none => rfl
    | some part =>
      simp only [Option.bind_some, Option.map_map, Option.isSome_some, Bool.true_and]
      exact map_length_cons hrest
  | @escape escape text count legal hescape h ih =>
    obtain ⟨turns, rfl⟩ := Nat.exists_eq_succ_of_ne_zero (Nat.ne_zero_of_lt hturns)
    rw [length_cons, length_append] at hturns
    have hrest : (decoder.decode turns text).map List.length = if legal then some count else none :=
      ih (by omega)
    by_cases hdiagnostic : (decodeEscape (escape ++ text) decoder.byteString).diagnostic = none
    · obtain ⟨value, hvalue, hdenotes⟩ := decodeEscape_denotes hdiagnostic
      obtain ⟨part, hpart⟩ := Option.isSome_iff_exists.mp (hfaithful.escaped _ _ hdenotes)
      rw [BodyDecoder.decode_escape hdiagnostic hvalue, hpart, hescape, drop_left, hdiagnostic]
      simp only [Option.bind_some, Option.map_map, Option.isNone_none, Bool.true_and]
      exact map_length_cons hrest
    · rw [BodyDecoder.decode_invalid hdiagnostic, Option.isNone_eq_false_iff.mpr
        (Option.isSome_iff_ne_none.mpr hdiagnostic)]
      rfl

/-- A text has a value of `count` parts exactly when all its items are legal. -/
theorem QuotedItems.exists_denotes_iff (h : QuotedItems quote decoder.byteString text count legal)
    (hfaithful : decoder.Faithful) (accepts : ℕ → Prop) :
    (∃ value, BodyDenotes decoder text value ∧ accepts value.length) ↔
      legal = true ∧ accepts count := by
  have hlength := h.decode_length hfaithful le_rfl
  constructor
  · intro hvalue
    obtain ⟨value, hdenotes, haccepts⟩ := hvalue
    rw [hdenotes.decode_eq le_rfl] at hlength
    cases legal with
    | false => cases hlength
    | true =>
      rw [Option.map_some, if_pos rfl, Option.some.injEq] at hlength
      exact ⟨rfl, hlength ▸ haccepts⟩
  · intro hlegal
    rw [if_pos hlegal.1] at hlength
    obtain ⟨value, hvalue, hcount⟩ := Option.map_eq_some_iff.mp hlength
    exact ⟨value, BodyDecoder.decode_eq_some.mp hvalue, hcount ▸ hlegal.2⟩

end Decoder

/-- The quotes of literals. -/
def isQuote (character : Char) : Prop := character = '"' ∨ character = '\''

theorem isQuote_not_hexDigit (h : isQuote quote) : isHexDigit quote = false := by
  obtain rfl | rfl := h
  · rfl
  · rfl

theorem hexRun_getLast (hquote : isQuote quote) (hall : (hexRun limit text).length = text.length) :
    text.getLast? ≠ some quote := by
  have heq : hexRun limit text = text := (hexRun_isPrefix limit text).eq_of_length hall
  intro hlast
  have hdigit : isHexDigit quote = true := isHexDigit_of_mem_hexRun (heq ▸ mem_of_getLast? hlast)
  rw [isQuote_not_hexDigit hquote] at hdigit
  cases hdigit

theorem decodeUnicodeEscape_getLast {tail : List Char} {quote : Char} (hquote : isQuote quote)
    (hne : tail ≠ []) (hall : (decodeUnicodeEscape tail).length = tail.length + 1) :
    tail.getLast? ≠ some quote := by
  cases tail with
  | nil => exact absurd rfl hne
  | cons first text =>
    by_cases hbrace : first = '{'
    · subst hbrace
      rw [decodeUnicodeEscape_brace, decodeUnicodeDigits_length, length_cons] at hall
      intro hlast
      cases hclosed : decide ((text.drop (hexRun 7 text).length).head? = some '}') with
      | false =>
        rw [hclosed, Bool.toNat_false] at hall
        cases text with
        | nil =>
          cases hlast
          obtain h | h := hquote
          · cases h
          · cases h
        | cons second text =>
          have hrun : (hexRun 7 (second :: text)).length = (second :: text).length := by omega
          rw [List.getLast?_cons_cons] at hlast
          exact hexRun_getLast hquote hrun hlast
      | true =>
        have hend := of_decide_eq_true hclosed
        rw [hclosed, Bool.toNat_true] at hall
        rw [List.head?_drop] at hend
        have hindex : (hexRun 7 text).length = text.length - 1 := by omega
        rw [hindex, ← List.getLast?_eq_getElem?] at hend
        rw [List.getLast?_cons, hend, Option.getD_some, Option.some.injEq] at hlast
        subst hlast
        obtain h | h := hquote
        · cases h
        · cases h
    · rw [decodeUnicodeEscape, if_neg (by simpa using hbrace)] at hall
      have hlength : 1 = text.length + 1 + 1 := hall
      omega

/-- An escape that ends with a quote is that quote alone. -/
theorem decodeEscape_getLast {escape : List Char} {byteString : Bool} {quote : Char}
    (hquote : isQuote quote) (hall : (decodeEscape escape byteString).length = escape.length)
    (hlast : escape.getLast? = some quote) : escape.length = 1 := by
  cases escape with
  | nil => cases hlast
  | cons escaped tail =>
    cases tail with
    | nil => rfl
    | cons second tail =>
      rw [List.getLast?_cons_cons] at hlast
      obtain ⟨value, hsimple⟩ | ⟨rfl, rfl⟩ | ⟨rfl, rfl⟩ | ⟨hsimple, hbyte, hunicode⟩ :=
        escape_cases escaped byteString
      · rw [decodeEscape_simple hsimple] at hall
        exact hall.symm
      · rw [decodeEscape_byte, decodeByteEscape_length, length_cons] at hall
        have hrun : (hexRun 2 (second :: tail)).length = (second :: tail).length := by omega
        exact absurd hlast (hexRun_getLast hquote hrun)
      · rw [decodeEscape_unicode] at hall
        exact absurd hlast (decodeUnicodeEscape_getLast hquote (cons_ne_nil _ _) hall)
      · rw [decodeEscape_unknown hsimple hbyte hunicode] at hall
        exact hall.symm

section Unterminated

variable {α : Type} {decoder : BodyDecoder α} {quote : Char} {text : List Char} {count : ℕ}
  {legal : Bool}

theorem bind_map_cons_none (part : Option α) :
    (part.bind fun part ↦ (none : Option (List α)).map (part :: ·)) = none := by
  cases part with
  | none => rfl
  | some part => rfl

/-- Without its closing quote a text may still end with a quote, but only with an escaped one. -/
theorem QuotedItems.decode_dropLast (h : QuotedItems quote decoder.byteString text count legal)
    (hquote : isQuote quote) (hlast : text.getLast? = some quote) (turns : ℕ) :
    decoder.decode turns text.dropLast = none := by
  induction h generalizing turns with
  | nil => cases hlast
  | @plain character text count legal hplain hdiffers h ih =>
    cases text with
    | nil =>
      cases hlast
      exact absurd rfl hdiffers
    | cons next text =>
      rw [List.getLast?_cons_cons] at hlast
      rw [dropLast_cons_cons]
      cases turns with
      | zero => rfl
      | succ turns => rw [BodyDecoder.decode_plain hplain, ih hlast, bind_map_cons_none]
  | @escape escape text count legal hescape h ih =>
    by_cases htext : text = []
    · subst htext
      rw [append_nil] at hescape hlast ⊢
      cases escape with
      | nil =>
        cases hlast
        obtain h | h := hquote
        · cases h
        · cases h
      | cons escaped tail =>
        rw [List.getLast?_cons_cons] at hlast
        have hone := decodeEscape_getLast hquote hescape hlast
        obtain rfl : tail = [] := length_eq_zero_iff.mp (Nat.succ.inj hone)
        cases turns with
        | zero => rfl
        | succ turns => rfl
    · have hend : text.dropLast ++ [quote] = text := by
        rw [List.getLast?_cons, List.getLast?_append_of_ne_nil _ htext,
          List.getLast?_eq_some_getLast htext, Option.getD_some, Option.some.injEq] at hlast
        rw [← hlast, dropLast_append_getLast htext]
      have hread : decodeEscape (escape ++ text.dropLast) decoder.byteString =
          decodeEscape (escape ++ text) decoder.byteString := by
        have hsplit : escape ++ text = escape ++ text.dropLast ++ [quote] := by
          rw [append_assoc, hend]
        rw [hsplit] at hescape ⊢
        exact decodeEscape_append (by rw [hescape, length_append]; omega)
      rw [dropLast_cons_of_ne_nil (by simp [htext]), dropLast_append_of_ne_nil htext]
      cases turns with
      | zero => rfl
      | succ turns =>
        by_cases hdiagnostic : (decodeEscape (escape ++ text) decoder.byteString).diagnostic = none
        · obtain ⟨value, hvalue, hdenotes⟩ := decodeEscape_denotes hdiagnostic
          rw [BodyDecoder.decode_escape (hread ▸ hdiagnostic) (hread ▸ hvalue), hread, hescape,
            drop_left, ih (by rw [← hend]; exact List.getLast?_concat), bind_map_cons_none]
        · exact BodyDecoder.decode_invalid (hread ▸ hdiagnostic) turns

theorem QuotedItems.not_denotes_of_unterminated
    (h : QuotedItems quote decoder.byteString (body ++ [quote]) count legal)
    (hquote : isQuote quote) (value : List α) : ¬ BodyDenotes decoder body value := by
  intro hdenotes
  have hnone := h.decode_dropLast hquote List.getLast?_concat body.length
  rw [dropLast_concat, hdenotes.decode_eq le_rfl] at hnone
  cases hnone

end Unterminated

def openingOf : LiteralKind → List Char
  | .byteString => ['b', '"']
  | .character => ['\'']
  | _ => ['"']

def quoteOf : LiteralKind → Char
  | .character => '\''
  | _ => '"'

/-- The kinds of literal that stand between quotes. -/
def IsQuoted (kind : LiteralKind) : Prop := kind = .string ∨ kind = .byteString ∨ kind = .character

/-- The value of the text between the quotes of a literal. -/
inductive BodyValue : LiteralKind → List Char → LiteralValue → Prop where
  | string {body value : List Char} (h : BodyDenotes textDecoder body value) :
      BodyValue .string body (.text value)
  | byteString {body : List Char} {value : List UInt8} (h : BodyDenotes byteDecoder body value) :
      BodyValue .byteString body (.bytes value)
  | character {body : List Char} {value : Char} (h : BodyDenotes textDecoder body [value]) :
      BodyValue .character body (.character value)

/-- The value of a quoted literal by its spelling. -/
def LiteralDenotes (kind : LiteralKind) (spelling : List Char) (value : LiteralValue) : Prop :=
  ∃ body, spelling = openingOf kind ++ (body ++ [quoteOf kind]) ∧ BodyValue kind body value

variable {spelling body : List Char} {kind : LiteralKind}

theorem stripQuotes_eq_some {opening : List Char} {closing : Char} :
    stripQuotes opening closing spelling = some body ↔ spelling = opening ++ (body ++ [closing]) := by
  simp only [stripQuotes]
  constructor
  · intro h
    split at h
    · rename_i hprefix
      obtain ⟨tail, rfl⟩ := isPrefixOf_iff_prefix.mp hprefix
      rw [drop_left] at h
      split at h
      · rename_i hlast
        cases h
        rw [append_right_inj]
        exact (dropLast_append_getLast? closing hlast).symm
      · cases h
    · cases h
  · intro h
    subst h
    rw [if_pos ( isPrefixOf_iff_prefix.mpr (prefix_append _ _)), drop_left,
      if_pos List.getLast?_concat, dropLast_concat]

theorem decodeTextBody_eq_some :
    decodeTextBody body = some value ↔ BodyDenotes textDecoder body value :=
  BodyDecoder.decode_eq_some

theorem decodeByteBody_eq_some :
    decodeByteBody body = some value ↔ BodyDenotes byteDecoder body value :=
  BodyDecoder.decode_eq_some

theorem onlyScalar_eq_some : onlyScalar value = some scalar ↔ value = [scalar] := by
  cases value with
  | nil => simp [onlyScalar]
  | cons first others =>
    cases others with
    | nil => simp [onlyScalar]
    | cons second others => simp [onlyScalar]

/-- The decoded body of a quoted literal. -/
def decodeBody : LiteralKind → List Char → Option LiteralValue
  | .byteString, body => (decodeByteBody body).map .bytes
  | .character, body => ((decodeTextBody body).bind onlyScalar).map .character
  | _, body => (decodeTextBody body).map .text

variable {value : LiteralValue}

theorem decodeBody_eq_some (hkind : IsQuoted kind)
    : decodeBody kind body = some value ↔ BodyValue kind body value := by
  obtain rfl | rfl | rfl := hkind
  · change (decodeTextBody body).map LiteralValue.text = some value ↔ _
    rw [Option.map_eq_some_iff]
    constructor
    · intro h
      obtain ⟨text, htext, rfl⟩ := h
      exact .string (decodeTextBody_eq_some.mp htext)
    · intro h
      cases h with
      | string h => exact ⟨_, decodeTextBody_eq_some.mpr h, rfl⟩
  · rw [decodeBody, Option.map_eq_some_iff]
    constructor
    · intro h
      obtain ⟨text, htext, rfl⟩ := h
      exact .byteString (decodeByteBody_eq_some.mp htext)
    · intro h
      cases h with
      | byteString h => exact ⟨_, decodeByteBody_eq_some.mpr h, rfl⟩
  · rw [decodeBody, Option.map_eq_some_iff]
    constructor
    · intro h
      obtain ⟨scalar, hscalar, rfl⟩ := h
      obtain ⟨text, htext, honly⟩ := Option.bind_eq_some_iff.mp hscalar
      obtain rfl := onlyScalar_eq_some.mp honly
      exact .character (decodeTextBody_eq_some.mp htext)
    · intro h
      cases h with
      | character h => exact ⟨_, by rw [decodeTextBody_eq_some.mpr h]; rfl, rfl⟩

theorem decodeLiteralSpelling_eq (hkind : IsQuoted kind) (spelling : List Char) :
    decodeLiteralSpelling kind spelling =
      ((stripQuotes (openingOf kind) (quoteOf kind) spelling).bind (decodeBody kind)).getD
        .invalid := by
  obtain rfl | rfl | rfl := hkind <;> rfl

theorem BodyValue.ne_invalid (h : BodyValue kind body value) : value ≠ .invalid := by
  cases h <;> exact LiteralValue.noConfusion

/-- Decoding a spelling computes what it denotes. -/
theorem LiteralDenotes.decode_eq (hkind : IsQuoted kind) (h : LiteralDenotes kind spelling value) :
    decodeLiteralSpelling kind spelling = value := by
  obtain ⟨body, hspelling, hvalue⟩ := h
  rw [decodeLiteralSpelling_eq hkind, stripQuotes_eq_some.mpr hspelling, Option.bind_some,
    (decodeBody_eq_some hkind).mpr hvalue, Option.getD_some]

/-- A spelling without a value decodes to the invalid literal. -/
theorem decodeLiteralSpelling_eq_invalid
    (hkind : IsQuoted kind) (h : ¬ ∃ value, LiteralDenotes kind spelling value) :
    decodeLiteralSpelling kind spelling = .invalid := by
  rw [decodeLiteralSpelling_eq hkind]
  cases hdecoded : (stripQuotes (openingOf kind) (quoteOf kind) spelling).bind (decodeBody kind) with
  | none => rfl
  | some value =>
    obtain ⟨body, hbody, hvalue⟩ := Option.bind_eq_some_iff.mp hdecoded
    exact absurd ⟨value, body, stripQuotes_eq_some.mp hbody, (decodeBody_eq_some hkind).mp hvalue⟩ h

/-- A spelling that a scan may leave, and whether it has nothing to report about it. -/
inductive ScannedLiteral (kind : LiteralKind) : List Char → Bool → Prop where
  | terminated {text : List Char} {count : ℕ} {legal : Bool}
      (h : QuotedItems (quoteOf kind) (kind == .byteString) text count legal) :
      ScannedLiteral kind (openingOf kind ++ (text ++ [quoteOf kind]))
        (legal && (kind != .character || count == 1))
  | unterminated {text : List Char} {count : ℕ} {legal : Bool}
      (h : QuotedItems (quoteOf kind) (kind == .byteString) text count legal) :
      ScannedLiteral kind (openingOf kind ++ text) false

theorem QuotedItems.exists_bodyValue_iff (hkind : IsQuoted kind)
    {text : List Char} {count : ℕ} {legal : Bool}
    (h : QuotedItems (quoteOf kind) (kind == .byteString) text count legal) :
    (∃ value, BodyValue kind text value) ↔ (legal && (kind != .character || count == 1)) = true := by
  obtain rfl | rfl | rfl := hkind
  · have hitems : QuotedItems '"' textDecoder.byteString text count legal := h
    have hiff := hitems.exists_denotes_iff textDecoder_faithful fun _ ↦ True
    constructor
    · intro hvalue
      obtain ⟨value, hvalue⟩ := hvalue
      cases hvalue with
      | string hbody => exact Bool.and_eq_true_iff.mpr ⟨(hiff.mp ⟨_, hbody, trivial⟩).1, rfl⟩
    · intro hlegal
      obtain ⟨value, hbody, _⟩ := hiff.mpr ⟨(Bool.and_eq_true_iff.mp hlegal).1, trivial⟩
      exact ⟨_, .string hbody⟩
  · have hitems : QuotedItems '"' byteDecoder.byteString text count legal := h
    have hiff := hitems.exists_denotes_iff byteDecoder_faithful fun _ ↦ True
    constructor
    · intro hvalue
      obtain ⟨value, hvalue⟩ := hvalue
      cases hvalue with
      | byteString hbody => exact Bool.and_eq_true_iff.mpr ⟨(hiff.mp ⟨_, hbody, trivial⟩).1, rfl⟩
    · intro hlegal
      obtain ⟨value, hbody, _⟩ := hiff.mpr ⟨(Bool.and_eq_true_iff.mp hlegal).1, trivial⟩
      exact ⟨_, .byteString hbody⟩
  · have hitems : QuotedItems '\'' textDecoder.byteString text count legal := h
    have hiff := hitems.exists_denotes_iff textDecoder_faithful (· = 1)
    constructor
    · intro hvalue
      obtain ⟨value, hvalue⟩ := hvalue
      cases hvalue with
      | character hbody =>
        have hlegal := hiff.mp ⟨_, hbody, rfl⟩
        exact Bool.and_eq_true_iff.mpr ⟨hlegal.1, beq_iff_eq.mpr hlegal.2⟩
    · intro hlegal
      obtain ⟨hlegal, hcount⟩ := Bool.and_eq_true_iff.mp hlegal
      obtain ⟨value, hbody, hone⟩ := hiff.mpr ⟨hlegal, beq_iff_eq.mp hcount⟩
      obtain ⟨scalar, rfl⟩ := length_eq_one_iff.mp hone
      exact ⟨_, .character hbody⟩

theorem QuotedItems.not_bodyValue {count : ℕ} {legal : Bool}
    (h : QuotedItems (quoteOf kind) (kind == .byteString) (body ++ [quoteOf kind]) count legal)
    (value : LiteralValue) : ¬ BodyValue kind body value := by
  intro hvalue
  cases hvalue with
  | string hbody =>
    have hitems : QuotedItems '"' textDecoder.byteString (body ++ ['"']) count legal := h
    exact hitems.not_denotes_of_unterminated (.inl rfl) _ hbody
  | byteString hbody =>
    have hitems : QuotedItems '"' byteDecoder.byteString (body ++ ['"']) count legal := h
    exact hitems.not_denotes_of_unterminated (.inl rfl) _ hbody
  | character hbody =>
    have hitems : QuotedItems '\'' textDecoder.byteString (body ++ ['\'']) count legal := h
    exact hitems.not_denotes_of_unterminated (.inr rfl) _ hbody

/-- A scanned literal has a value exactly when the scan has nothing to report about it. -/
theorem ScannedLiteral.exists_denotes_iff (h : ScannedLiteral kind spelling legal)
    (hkind : IsQuoted kind) :
    (∃ value, LiteralDenotes kind spelling value) ↔ legal = true := by
  cases h with
  | @terminated text count legal h =>
    rw [← h.exists_bodyValue_iff hkind]
    constructor
    · intro hvalue
      obtain ⟨value, body, hspelling, hbody⟩ := hvalue
      rw [append_right_inj, append_left_inj] at hspelling
      exact ⟨value, hspelling ▸ hbody⟩
    · intro hvalue
      obtain ⟨value, hbody⟩ := hvalue
      exact ⟨value, text, rfl, hbody⟩
  | @unterminated text count legal h =>
    constructor
    · intro hvalue
      obtain ⟨value, body, hspelling, hbody⟩ := hvalue
      obtain rfl := append_cancel_left hspelling
      exact absurd hbody (h.not_bodyValue value)
    · intro hlegal
      cases hlegal

end Wrela.Syntax
