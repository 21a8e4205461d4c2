import Wrela.TestModel.ScenarioLines

/-!
# Laws of the scenario codec

Every field is read back from its line, every step from its lines, and the decoder gives back each
scenario that the encoder writes.
-/

namespace Wrela.TestModel

open List Wrela.Source Wrela.BuildModel Wrela.Wire Wrela.Checked

section Strings

variable (id : ScenarioId)

theorem decodeUnicodeEscape_upperHex (character : Char) (hsmall : character.toNat < 65536)
    (rest : List Char) :
    let value := character.toNat
    decodeUnicodeEscape id 4 0 (upperHex (value / 4096 % 16) :: upperHex (value / 256 % 16) ::
      upperHex (value / 16 % 16) :: upperHex (value % 16) :: rest) = .ok (character, rest) := by
  have hhex (value : ℕ) := hexValue_upperHex (Nat.mod_lt value (by decide : 16 > 0))
  have hvalue : (((0 * 16 + character.toNat / 4096 % 16) * 16 + character.toNat / 256 % 16) * 16 +
      character.toNat / 16 % 16) * 16 + character.toNat % 16 = character.toNat := by omega
  simp only [decodeUnicodeEscape, hhex]
  rw [if_pos (by simp only [UInt32.size]; omega), if_pos (by simp only [UInt32.size]; omega),
    if_pos (by simp only [UInt32.size]; omega), if_pos (by simp only [UInt32.size]; omega), hvalue]
  have hvalid : character.toNat.isValidChar := character.valid
  rw [if_pos hvalid, Char.ofNat_toNat]

/-- What stands for a character is read back as that character. -/
theorem decodeCharacter_escape (character : Char) (rest : List Char) :
    ∃ first more, escape character = first :: more ∧
      decodeCharacter id first (more ++ rest) = .ok (character, rest) := by
  unfold escape
  iterate 7
    split
    · rename_i heq
      subst heq
      exact ⟨_, _, rfl, rfl⟩
  split
  · rename_i hcontrol
    have hsmall : character.toNat < 65536 := by
      rcases hcontrol with hle | rfl
      · have hle : character.toNat ≤ 31 := hle
        omega
      · decide
    exact ⟨_, _, rfl, decodeUnicodeEscape_upperHex id character hsmall rest⟩
  · rename_i hquote hbackslash _ _ _ _ _ hcontrol
    refine ⟨character, [], rfl, ?_⟩
    rw [decodeCharacter, if_neg hbackslash, if_neg (by tauto), nil_append]

theorem walkBasicString_escape (hfuel : (characters.flatMap escape).length ≤ fuel) :
    walkBasicString id fuel (characters.flatMap escape) = .ok characters := by
  induction characters generalizing fuel with
  | nil => cases fuel <;> rfl
  | cons character characters ih =>
    obtain ⟨first, more, hescape, hdecode⟩ :=
      decodeCharacter_escape id character (characters.flatMap escape)
    rw [flatMap_cons, hescape, cons_append, length_cons, length_append] at hfuel
    cases fuel with
    | zero => omega
    | succ fuel =>
      rw [flatMap_cons, hescape, cons_append, walkBasicString, hdecode]
      change (walkBasicString id fuel (characters.flatMap escape) >>= _) = _
      rw [ih (by omega)]
      rfl

theorem stripQuotes_quoted (inner : List Char) :
    stripQuotes ('"' :: (inner ++ ['"'])) = some inner := by
  simp [stripQuotes]

theorem enforceLength_of_le {length : ℕ} {limit : UInt64} {resource : String}
    (h : length ≤ limit.toNat) : enforceLength length limit resource = .ok () := by
  simp [enforceLength, failIf_eq_ok, h]

/-- A string between quotes is read back, when it keeps within its limit. -/
theorem decodeBasicString_quotedText {value : String} {limit : UInt64} (resource : String)
    (h : byteLength value ≤ limit.toNat) :
    decodeBasicString id (quotedText value) limit resource = .ok value := by
  have hwalk := walkBasicString_escape id (le_refl (value.toList.flatMap escape).length)
  have hlength : (encodeChars value.toList).length ≤ limit.toNat := by
    rwa [← utf8Bytes_eq_encodeChars]
  refine bind_eq_ok.2 ⟨_, orFail_eq_ok.2 (stripQuotes_quoted _), ?_⟩
  refine bind_eq_ok.2 ⟨_, hwalk, unit_bind_eq_ok.2 ⟨enforceLength_of_le hlength, ?_⟩⟩
  refine bind_eq_ok.2 ⟨_, hwalk, unit_bind_eq_ok.2 ⟨failIf_eq_ok.2 (by simp), ?_⟩⟩
  rw [String.ofList_toList]
  rfl

/-- A name that is shorter than its text is a literal. -/
theorem decodeLiteral_quotedText
    (h : byteLength value ≤ (UInt64.ofNat (encodeChars (quotedText value)).length).toNat) :
    decodeLiteral id (quotedText value) = .ok value :=
  decodeBasicString_quotedText id scenarioBytesResource h

end Strings

section Numbers

variable (id : ScenarioId)

theorem head?_toDigits_ne (h : sign.isDigit = false) :
    (Nat.toDigits 10 value).head? ≠ some sign := by
  intro hhead
  have hdigit := isDigit_toDigits value sign (mem_of_mem_head? hhead)
  rw [h] at hdigit
  cases hdigit

/-- A number of more than one digit does not start with a zero. -/
theorem toDigits_canonical (h : (Nat.toDigits 10 value).head? = some '0') :
    Nat.toDigits 10 value = ['0'] := by
  rcases Nat.eq_zero_or_pos value with rfl | hpositive
  · rfl
  · obtain ⟨first, rest, hdigits, hne⟩ := toDigits_starts hpositive
    rw [hdigits] at h
    exact absurd (Option.some.inj h) hne

theorem parseCanonicalU64_decimalText (value : UInt64) :
    parseCanonicalU64 id (decimalText value.toNat) = .ok value := by
  have hlength : (Nat.toDigits 10 value.toNat).length ≤ 20 :=
    (Nat.length_toDigits_le_iff (by decide) (by decide)).2 (by have := value.toNat_lt; omega)
  have hzero : ¬ ((Nat.toDigits 10 value.toNat).length > 1 ∧
      (Nat.toDigits 10 value.toNat).head? = some '0') := by
    rintro ⟨hlong, hhead⟩
    rw [toDigits_canonical hhead] at hlong
    exact absurd hlong (by decide)
  have hdigits : (Nat.toDigits 10 value.toNat).all Char.isDigit = true :=
    all_eq_true.2 (isDigit_toDigits value.toNat)
  rw [decimalText, parseCanonicalU64, if_neg, decimalValue_toDigits,
    if_pos (by have := value.toNat_lt; simp only [UInt64.size]; omega), UInt64.ofNat_toNat]
  simp only [hdigits, toDigits_ne_nil, head?_toDigits_ne (by decide : '+'.isDigit = false), hzero]
  simpa using hlength

theorem parseCanonicalI32_signedDigits (value : Int32) :
    parseCanonicalI32 id (signedDigits value) = .ok value := by
  have hlow := Int32.le_toInt value
  have hhigh := Int32.toInt_lt value
  have hround : Int32.ofInt value.toInt = value := Int32.ofInt_toInt value
  have hlength (magnitude : ℕ) (h : magnitude ≤ 2 ^ 31) :
      (Nat.toDigits 10 magnitude).length ≤ 10 :=
    (Nat.length_toDigits_le_iff (by decide) (by decide)).2 (by omega)
  have hdigits (magnitude : ℕ) : (Nat.toDigits 10 magnitude).all Char.isDigit = true :=
    all_eq_true.2 (isDigit_toDigits magnitude)
  rw [signedDigits]
  cases hvalue : value.toInt with
  | ofNat magnitude =>
    rw [hvalue, Int.ofNat_eq_natCast] at hlow hhigh
    have hminus : (Nat.toDigits 10 magnitude).head? ≠ some '-' := head?_toDigits_ne (by decide)
    have hplus : (Nat.toDigits 10 magnitude).head? ≠ some '+' := head?_toDigits_ne (by decide)
    have hsigned : Nat.toDigits 10 magnitude ≠ ['-', '0'] := fun h ↦ hminus (by rw [h]; rfl)
    have hzeros : (Nat.toDigits 10 magnitude).take 2 ≠ ['0', '0'] := by
      intro htake
      have hhead : (Nat.toDigits 10 magnitude).head? = some '0' := by
        have htaken := List.head?_take (i := 2) (l := Nat.toDigits 10 magnitude)
        rw [htake] at htaken
        exact htaken.symm
      rw [toDigits_canonical hhead] at htake
      exact absurd htake (by decide)
    have hmagnitude : magnitudeOf (Nat.toDigits 10 magnitude) = Nat.toDigits 10 magnitude :=
      if_neg hminus
    have hshort := hlength magnitude (by omega)
    simp only [parseCanonicalI32, hmagnitude, hdigits, decimalValue_toDigits, hminus, hplus, hsigned,
      hzeros, toDigits_ne_nil, false_and, or_false, Bool.not_true, Bool.false_eq_true, if_false]
    rw [if_neg (by omega), if_pos (by constructor <;> omega), ← hround, hvalue]
    rfl
  | negSucc magnitude =>
    rw [hvalue, Int.negSucc_eq] at hlow
    obtain ⟨first, rest, hstart, hne⟩ := toDigits_starts (Nat.succ_pos magnitude)
    have hmagnitude : magnitudeOf ('-' :: Nat.toDigits 10 (magnitude + 1)) =
        Nat.toDigits 10 (magnitude + 1) := rfl
    have hsigned : '-' :: Nat.toDigits 10 (magnitude + 1) ≠ ['-', '0'] := by
      rw [hstart]
      simp [hne]
    have hzero : ('-' :: Nat.toDigits 10 (magnitude + 1))[1]? ≠ some '0' := by
      rw [hstart]
      simpa using hne
    have hshort := hlength (magnitude + 1) (by omega)
    have hzeros : ('-' :: Nat.toDigits 10 (magnitude + 1)).take 2 ≠ ['0', '0'] := by simp
    have hplus : some '-' ≠ some '+' := by decide
    simp only [parseCanonicalI32, hmagnitude, hdigits, decimalValue_toDigits, hsigned, hzero, hzeros,
      hplus, toDigits_ne_nil, length_cons, List.head?_cons, and_false, or_false, Bool.not_true,
      Bool.false_eq_true, reduceCtorEq, if_true, if_false]
    rw [if_neg (by omega), if_pos (by constructor <;> omega), ← hround, hvalue]
    rfl

end Numbers

section Bytes

theorem hexPairs_hexDigits (bytes : List UInt8) : hexPairs (hexDigits bytes) = some bytes := by
  induction bytes with
  | nil => rfl
  | cons byte bytes ih =>
    have hbyte := byte.toNat_lt
    have hvalue : UInt8.ofNat (byte.toNat / 16 * 16 + byte.toNat % 16) = byte := by
      rw [Nat.div_add_mod', UInt8.ofNat_toNat]
    rw [hexDigits, flatMap_cons, ← hexDigits, cons_append, cons_append,
      nil_append, hexPairs, hexValue_lowerHex (by omega), hexValue_lowerHex (by omega), ih]
    exact congrArg (fun first ↦ some (first :: bytes)) hvalue

/-- Hexadecimal digits are written between quotes as they are. -/
theorem hexText_eq_quotedText (bytes : List UInt8) :
    hexText bytes = quotedText (String.ofList (hexDigits bytes)) := by
  have hplain : ∀ value < 16, escape (lowerHex value) = [lowerHex value] := by decide
  have hdigits : (hexDigits bytes).flatMap escape = hexDigits bytes := by
    induction bytes with
    | nil => rfl
    | cons byte bytes ih =>
      have hbyte := byte.toNat_lt
      rw [hexDigits, flatMap_cons, ← hexDigits, flatMap_append, ih]
      simp [hplain (byte.toNat / 16) (by omega), hplain (byte.toNat % 16) (by omega)]
  rw [quotedText, String.toList_ofList, hdigits, hexText]

theorem byteLength_hexDigits (bytes : List UInt8) :
    byteLength (String.ofList (hexDigits bytes)) = 2 * bytes.length := by
  have hone : ∀ value < 16, (String.utf8EncodeChar (lowerHex value)).length = 1 := by
    decide
  rw [byteLength, utf8Bytes_ofList]
  induction bytes with
  | nil => rfl
  | cons byte bytes ih =>
    have hbyte := byte.toNat_lt
    rw [hexDigits, flatMap_cons, ← hexDigits, encodeChars_append, length_append, ih]
    simp only [encodeChars, flatMap_cons, flatMap_nil, append_nil,
      length_append, length_cons, hone (byte.toNat / 16) (by omega),
      hone (byte.toNat % 16) (by omega)]
    omega

/-- A payload is read back, when its digits can be counted in 64 bits. -/
theorem decodeHex_hexText (id : ScenarioId) {bytes : List UInt8} {maximumStepBytes : UInt64}
    (hne : bytes ≠ []) (hlimit : bytes.length ≤ maximumStepBytes.toNat)
    (hcount : 2 * bytes.length < UInt64.size) :
    decodeHex id maximumStepBytes (hexText bytes) = .ok bytes := by
  have hlength := byteLength_hexDigits bytes
  have hlarge : byteLength (String.ofList (hexDigits bytes)) ≤
      (saturatingDouble maximumStepBytes).toNat := by
    rw [saturatingDouble, UInt64.toNat_ofNat_of_lt' (by omega)]
    omega
  have hempty : (String.ofList (hexDigits bytes)).isEmpty = false := by
    rw [String.isEmpty_eq_false_iff]
    intro hnil
    rw [hnil] at hlength
    have hzero : byteLength "" = 0 := rfl
    exact hne (eq_nil_of_length_eq_zero (by omega))
  rw [hexText_eq_quotedText]
  refine bind_eq_ok.2 ⟨_, mapError_eq_ok.2 (decodeBasicString_quotedText id _ hlarge), ?_⟩
  refine unit_bind_eq_ok.2 ⟨failIf_eq_ok.2 ?_, ?_⟩
  · rw [hlength, hempty]
    simp
  refine unit_bind_eq_ok.2 ⟨enforceLength_of_le (by omega), ?_⟩
  rw [String.toList_ofList]
  exact orFail_eq_ok.2 (hexPairs_hexDigits bytes)

end Bytes

/-- The lines are read as `a`, whatever lines follow. -/
def ReadsLines {α : Type} (r : LineReader α) (lines : List (List Char)) (a : α) : Prop :=
  ∀ rest, r (lines ++ rest) = .ok (a, rest)

section Lines

variable {α β : Type} {id : ScenarioId}

theorem ReadsLines.pure (a : α) : ReadsLines (pure a) [] a := fun _ ↦ rfl

theorem ReadsLines.bind (hr : ReadsLines r first b) (hk : ReadsLines (k b) second a) :
    ReadsLines (r >>= k) (first ++ second) a := by
  intro rest
  rw [append_assoc]
  exact run_bind_eq_ok.2 ⟨b, _, hr _, hk rest⟩

theorem ReadsLines.checked (hx : x = .ok b) (hk : ReadsLines (k b) lines a) :
    ReadsLines (checked x >>= k) lines a := by
  rw [hx, checked_ok_bind]
  exact hk

theorem exactValue_fieldLine (key : String) (value : List Char) :
    exactValue id (fieldLine key value) key = .ok value := by
  have hstarts : (key.toList ++ " = ".toList).isPrefixOf (fieldLine key value) = true := by
    rw [ isPrefixOf_iff_prefix]
    exact prefix_append _ _
  rw [exactValue, if_pos hstarts, fieldLine, drop_left]

theorem readsLines_line (line : List Char) : ReadsLines (LineReader.line id) [line] line :=
  fun _ ↦ rfl

theorem readsLines_field (key : String) (value : List Char) :
    ReadsLines (LineReader.field id key) [fieldLine key value] value := by
  intro rest
  refine run_bind_eq_ok.2 ⟨_, rest, rfl, run_checked_eq_ok.2 ⟨exactValue_fieldLine key value, rfl⟩⟩

/-- A field that can be read back, whether it is there or not, before lines without its key. -/
theorem ReadsLines.optional {key : String} {r : LineReader β} {write : β → List Char}
    {k : Option β → LineReader α} {lines : List (List Char)} {value : Option β} {a : α}
    (hr : ∀ b, value = some b → ReadsLines r [fieldLine key (write b)] b)
    (hother : ∀ rest, hasKey key (lines ++ rest) = false)
    (hk : ReadsLines (k value) lines a) :
    ReadsLines (LineReader.optionalField key r >>= k) (optionalLine key write value ++ lines) a := by
  intro rest
  rw [append_assoc]
  refine run_bind_eq_ok.2 ⟨value, lines ++ rest, ?_, hk rest⟩
  cases value with
  | none =>
    rw [optionalLine, nil_append, LineReader.optionalField, if_neg (by simp [hother])]
  | some b =>
    have hfield : hasKey key ([fieldLine key (write b)] ++ (lines ++ rest)) = true := by
      simp [hasKey, fieldLine]
    rw [optionalLine, LineReader.optionalField, if_pos hfield]
    exact run_bind_eq_ok.2 ⟨b, _, hr b rfl _, rfl⟩

end Lines

section Steps

variable {id : ScenarioId} {maximumStepBytes : UInt64}

theorem readsLines_u64 (key : String) (value : UInt64) :
    ReadsLines (decodeU64Field id key) [fieldLine key (decimalText value.toNat)] value :=
  (readsLines_field key _).bind fun _ ↦
    run_checked_eq_ok.2 ⟨parseCanonicalU64_decimalText id value, rfl⟩

theorem readsLines_u32 (key : String) (value : UInt32) :
    ReadsLines (decodeU32Field id key) [fieldLine key (decimalText value.toNat)] value := by
  have hvalue := @readsLines_u64 id key value.toUInt64
  have hsmall : value.toUInt64.toNat < UInt32.size := by
    rw [UInt32.toNat_toUInt64]
    exact value.toNat_lt
  rw [UInt32.toNat_toUInt64] at hvalue
  rw [← append_nil [fieldLine key (decimalText value.toNat)]]
  refine hvalue.bind ?_
  rw [if_pos hsmall]
  exact fun rest ↦ by rw [UInt32.toUInt32_toUInt64]; rfl

theorem readsLines_i32 (key : String) (value : Int32) :
    ReadsLines (decodeI32Field id key) [fieldLine key (signedDigits value)] value :=
  (readsLines_field key _).bind fun _ ↦
    run_checked_eq_ok.2 ⟨parseCanonicalI32_signedDigits id value, rfl⟩

theorem readsLines_test (test : TestId) :
    ReadsLines (decodeTestField id) [fieldLine "test" (decimalText test.val.toNat)] test :=
  (readsLines_u32 "test" test.val).bind (ReadsLines.pure _)

theorem readsLines_hex (key : String) {bytes : List UInt8} (hne : bytes ≠ [])
    (hlimit : bytes.length ≤ maximumStepBytes.toNat) (hcount : 2 * bytes.length < UInt64.size) :
    ReadsLines (decodeHexField id maximumStepBytes key) [fieldLine key (hexText bytes)] bytes :=
  (readsLines_field key _).bind fun _ ↦
    run_checked_eq_ok.2 ⟨decodeHex_hexText id hne hlimit hcount, rfl⟩

theorem readsLines_message (hlimit : byteLength message ≤ maximumStepBytes.toNat) :
    ReadsLines (decodeMessageField id maximumStepBytes)
      [fieldLine "message_contains" (quotedText message)] message :=
  (readsLines_field _ _).bind fun _ ↦
    run_checked_eq_ok.2 ⟨decodeBasicString_quotedText id stepBytesResource hlimit, rfl⟩

theorem eventOfName_eventName (kind : ExpectedScenarioEvent) :
    eventOfName (eventName kind) = some kind := by
  cases kind <;> rfl

theorem decodeLiteral_eventName (kind : ExpectedScenarioEvent) :
    decodeLiteral id (quotedText (eventName kind)) = .ok (eventName kind) := by
  refine decodeLiteral_quotedText id ?_
  cases kind <;> decide

/-- The opening line and the kind of a step lead to what is left of it. -/
theorem readsLines_kind
    (hkind : byteLength kind ≤ (UInt64.ofNat (encodeChars (quotedText kind)).length).toNat)
    (h : ReadsLines (decodeStepOfKind id maximumStepBytes kind) lines step) :
    ReadsLines (decodeStep id maximumStepBytes)
      ("[[step]]".toList :: fieldLine "kind" (quotedText kind) :: lines) step := by
  refine (readsLines_line "[[step]]".toList).bind ?_
  rw [if_neg (by simp)]
  exact (readsLines_field "kind" _).bind (.checked (decodeLiteral_quotedText id hkind) h)

theorem readsLines_step (hvalid : invalidScenarioStep step = false)
    (hlimit : step.payloadBytes ≤ maximumStepBytes.toNat)
    (hcount : ∀ bytes, fieldLine "bytes_hex" (hexText bytes) ∈ stepLines step →
      2 * bytes.length < UInt64.size) :
    ReadsLines (decodeStep id maximumStepBytes) (stepBlock step) step := by
  cases step with
  | sendSerial bytes =>
    have hne : bytes ≠ [] := by simpa [invalidScenarioStep] using hvalid
    have hbytes := @readsLines_hex id _ "bytes_hex" _ hne hlimit
      (hcount bytes (by simp [stepLines]))
    exact readsLines_kind (by decide) (hbytes.bind (.pure _))
  | expectSerial bytes timeoutNs =>
    have hne : bytes ≠ [] := by
      rintro rfl
      simp [invalidScenarioStep] at hvalid
    have hbytes := @readsLines_hex id _ "bytes_hex" _ hne hlimit
      (hcount bytes (by simp [stepLines]))
    exact readsLines_kind (by decide) (hbytes.bind ((readsLines_u64 _ timeoutNs).bind (.pure _)))
  | expectTestEvent kind test messageContains timeoutNs =>
    have hblock : stepBlock (.expectTestEvent kind test messageContains timeoutNs) =
        "[[step]]".toList :: fieldLine "kind" (quotedText "expect-test-event") ::
          ([fieldLine "event" (quotedText (eventName kind))] ++
            (optionalLine "test" (fun test : TestId ↦ decimalText test.val.toNat) test ++
              (optionalLine "message_contains" quotedText messageContains ++
                [fieldLine "timeout_ns" (decimalText timeoutNs.toNat)]))) := by
      simp only [stepBlock, stepLines, cons_append, nil_append, append_assoc]
    rw [hblock]
    refine readsLines_kind (by decide) ((readsLines_field "event" _).bind
      (.checked (decodeLiteral_eventName kind) (.checked
        (orFail_eq_ok.2 (eventOfName_eventName kind)) ?_)))
    have hmessage (message : String) (h : messageContains = some message) :
        ReadsLines (decodeMessageField id maximumStepBytes)
          [fieldLine "message_contains" (quotedText message)] message := by
      rw [h] at hlimit
      exact readsLines_message hlimit
    refine ReadsLines.optional (fun test _ ↦ readsLines_test test) ?_
      (.optional hmessage ?_ ((readsLines_u64 _ timeoutNs).bind (.pure _)))
    · intro rest
      cases messageContains <;> rfl
    · intro rest
      rfl
  | expectExit code timeoutNs =>
    refine readsLines_kind (by decide) (ReadsLines.optional
      (fun code _ ↦ readsLines_i32 "code" code) ?_ ((readsLines_u64 _ timeoutNs).bind (.pure _)))
    intro rest
    rfl
  | requestShutdown timeoutNs =>
    exact readsLines_kind (by decide) ((readsLines_u64 _ timeoutNs).bind (.pure _))

/-- Steps one after the other, with one blank line between two of them. -/
theorem decodeSteps_blocks {first : ImageScenarioStep} {steps : List ImageScenarioStep} {fuel : ℕ}
    (hsteps : ∀ step ∈ first :: steps,
      ReadsLines (decodeStep id maximumStepBytes) (stepBlock step) step)
    (hfuel : steps.length < fuel) :
    decodeSteps id maximumStepBytes fuel
      (stepBlock first ++ steps.flatMap fun step ↦ [] :: stepBlock step) = .ok (first :: steps) := by
  induction steps generalizing first fuel with
  | nil =>
    obtain ⟨fuel, rfl⟩ := Nat.exists_eq_succ_of_ne_zero (Nat.ne_of_gt hfuel)
    have hfirst := hsteps first mem_cons_self []
    rw [stepBlock] at hfirst
    refine bind_eq_ok.2 ⟨_, hfirst, rfl⟩
  | cons next steps ih =>
    obtain ⟨fuel, rfl⟩ := Nat.exists_eq_succ_of_ne_zero (Nat.ne_of_gt (Nat.zero_lt_of_lt hfuel))
    have hfirst := hsteps first mem_cons_self
      ([] :: (stepBlock next ++ steps.flatMap fun step ↦ [] :: stepBlock step))
    have hrest := ih (fun step hstep ↦ hsteps step (mem_cons_of_mem _ hstep))
      (Nat.lt_of_succ_lt_succ hfuel)
    rw [stepBlock] at hfirst
    refine bind_eq_ok.2 ⟨_, hfirst, ?_⟩
    refine (if_neg (by simp [stepBlock])).trans (bind_eq_ok.2 ⟨_, hrest, rfl⟩)

end Steps

section RoundTrip

theorem length_utf8EncodeChar_le_escape (character : Char) :
    (String.utf8EncodeChar character).length ≤ (encodeChars (escape character)).length := by
  unfold escape
  iterate 7
    split
    · rename_i heq
      subst heq
      decide
  split
  · rename_i hcontrol
    have hsmall : character.toNat ≤ 0x7f := by
      rcases hcontrol with hle | rfl
      · have hle : character.toNat ≤ 31 := hle
        omega
      · decide
    rw [String.length_utf8EncodeChar, Char.utf8Size_eq_one_iff.2 hsmall]
    exact length_pos_of_ne_nil (by simp [encodeChars])
  · simp [encodeChars]

/-- Nothing that stands for a character is shorter than the character. -/
theorem byteLength_le_escape (value : String) :
    byteLength value ≤ (encodeChars (value.toList.flatMap escape)).length := by
  rw [byteLength, utf8Bytes_eq_encodeChars]
  induction value.toList with
  | nil => rfl
  | cons character characters ih =>
    have hcharacter := length_utf8EncodeChar_le_escape character
    rw [flatMap_cons, encodeChars_append, encodeChars, flatMap_cons, ← encodeChars,
      length_append, length_append]
    omega

/-- What an encoding that succeeds says about its scenario. -/
theorem encodeCanonical_eq_ok (h : encodeCanonical scenario limits = .ok bytes) :
    validateLimits limits = .ok () ∧ encodeScenario scenario limits = .ok bytes ∧
      scenario.validateShape = .ok () ∧
      scenario.steps.length ≤ limits.maximumSteps.toNat ∧
      (∀ step ∈ scenario.steps, step.payloadBytes ≤ limits.maximumStepBytes.toNat) ∧
      bytes = encodeChars (joinLines (scenarioLines scenario)) ∧
      bytes.length ≤ limits.maximumBytes.toNat := by
  obtain ⟨hlimits, hencode⟩ := unit_bind_eq_ok.1 h
  refine ⟨hlimits, hencode, ?_⟩
  obtain ⟨hshape, h⟩ := unit_bind_eq_ok.1 hencode
  obtain ⟨hsteps, h⟩ := unit_bind_eq_ok.1 h
  obtain ⟨hpayloads, h⟩ := unit_bind_eq_ok.1 h
  obtain ⟨counter, hcounter, h⟩ := bind_eq_ok.1 h
  obtain ⟨⟨_, sink⟩, hsink, h⟩ := bind_eq_ok.1 h
  obtain ⟨-, h⟩ := unit_bind_eq_ok.1 h
  cases h
  obtain ⟨hbytes, hfits⟩ := writes_scenario scenario _ _ hsink
  refine ⟨hshape, by simpa using hsteps, fun step hstep ↦ ?_, by simpa using hbytes,
    hfits (Nat.zero_le _)⟩
  simpa [enforceLength] using forAll_eq_ok.1 hpayloads step hstep

theorem encodeChars_length_mono {inner outer : List Char} (h : inner <:+: outer) :
    (encodeChars inner).length ≤ (encodeChars outer).length := by
  obtain ⟨front, back, rfl⟩ := h
  rw [encodeChars_append, encodeChars_append, length_append, length_append]
  omega

theorem infix_fieldLine {key : String} {value inner : List Char} (h : inner <:+: value) :
    inner <:+: fieldLine key value :=
  h.trans (suffix_append (key.toList ++ " = ".toList) value).isInfix

theorem copyText_eq (id : ScenarioId) (source : String) : copyText id source = .ok source :=
  orFail_eq_ok.2 (copyChunks_utf8Bytes (fun _ hne ↦ nextPiece_cuts hne) (le_refl _))

/-- What is decoded from the text of a scenario, before it is encoded again. -/
theorem decodeScenarioText_lines {scenario : ImageScenario} {limits : ScenarioLimits}
    {bytes : List UInt8} (h : encodeCanonical scenario limits = .ok bytes) :
    decodeScenarioText (joinLines (scenarioLines scenario))
      ⟨scenario.id, scenario.name, scenario.sourcePath, bytes, scenario.digest, limits⟩ =
        .ok scenario := by
  obtain ⟨-, -, hshape, hsteps, hpayloads, rfl, hlimit⟩ := encodeCanonical_eq_ok h
  obtain ⟨hvalid, hwhole⟩ := unit_bind_eq_ok.1 hshape
  have hinside (inner line : List Char) (hinner : inner <:+: line)
      (hline : line ∈ scenarioLines scenario) :
      (encodeChars inner).length ≤ limits.maximumBytes.toNat :=
    (encodeChars_length_mono (hinner.trans (infix_joinLines hline))).trans hlimit
  have hname : byteLength scenario.name ≤ limits.maximumBytes.toNat :=
    (byteLength_le_escape scenario.name).trans (hinside
      _ (fieldLine "name" (quotedText scenario.name)) (infix_fieldLine ⟨['"'], ['"'], rfl⟩)
      (by simp [scenarioLines]))
  have hread (step : ImageScenarioStep) (hstep : step ∈ scenario.steps) :
      ReadsLines (decodeStep scenario.id limits.maximumStepBytes) (stepBlock step) step := by
    refine readsLines_step ?_ (hpayloads step hstep) fun bytes hbytes ↦ ?_
    · have hall := failIf_eq_ok.1 hvalid
      exact Bool.eq_false_iff.2 (any_eq_false.1 hall step hstep)
    · have hdigits := hinside (hexDigits bytes) _ (infix_fieldLine ⟨['"'], ['"'], rfl⟩)
        (mem_append_right _ (mem_flatMap.2 ⟨step, hstep, mem_cons_of_mem _
          (mem_cons_of_mem _ hbytes)⟩))
      have hlength := byteLength_hexDigits bytes
      rw [byteLength, utf8Bytes_ofList] at hlength
      have := limits.maximumBytes.toNat_lt
      simp only [UInt64.size]
      omega
  simp only [failIf_eq_ok, Bool.or_eq_false_iff, bne_eq_false_iff_eq] at hwhole
  obtain ⟨⟨⟨⟨⟨hschema, -⟩, -⟩, hnonempty⟩, -⟩, -⟩ := hwhole
  obtain ⟨first, steps, hlist⟩ : ∃ first steps, scenario.steps = first :: steps :=
    exists_cons_of_ne_nil (by simpa using hnonempty)
  have hcount := count_opening_scenarioLines scenario
  have hlines := length_scenarioLines scenario
  have hpositive : 0 < scenario.steps.length := by rw [hlist]; exact Nat.succ_pos _
  have hblocks : (scenarioLines scenario).drop 3 =
      stepBlock first ++ steps.flatMap fun step ↦ [] :: stepBlock step := by
    rw [scenarioLines, hlist]
    rfl
  have hends : (joinLines (scenarioLines scenario)).getLast? = some '\n' :=
    getLast?_joinLines (by simp [scenarioLines])
  have htext : joinLines (scenarioLines scenario) ≠ [] := by
    intro hnil
    rw [hnil] at hends
    cases hends
  rw [decodeScenarioText]
  simp only [splitTerminator_scenarioLines, hcount]
  refine unit_bind_eq_ok.2 ⟨?_, unit_bind_eq_ok.2 ⟨?_, unit_bind_eq_ok.2 ⟨?_,
    unit_bind_eq_ok.2 ⟨?_, unit_bind_eq_ok.2 ⟨?_, ?_⟩⟩⟩⟩⟩
  · simp [hends, htext, carriageReturn_not_mem]
  · exact enforceLength_of_le (by rwa [UInt32.toNat_toUInt64])
  · simp [Nat.ne_of_gt hpositive]
  · rw [failIf_eq_ok, Bool.or_eq_false_iff, decide_eq_false_iff_not, decide_eq_false_iff_not]
    omega
  · rw [scenarioLines, hschema]
    rfl
  refine bind_eq_ok.2 ⟨fieldLine "name" (quotedText scenario.name), orFail_eq_ok.2 rfl, ?_⟩
  refine bind_eq_ok.2 ⟨_, exactValue_fieldLine "name" _, ?_⟩
  refine bind_eq_ok.2 ⟨_, decodeBasicString_quotedText _ _ hname, ?_⟩
  refine unit_bind_eq_ok.2 ⟨by simp, unit_bind_eq_ok.2 ⟨by rw [scenarioLines, hlist]; rfl, ?_⟩⟩
  rw [hblocks]
  refine bind_eq_ok.2 ⟨scenario.steps, ?_, unit_bind_eq_ok.2 ⟨by simp, ?_⟩⟩
  · rw [hlist] at hlines hread ⊢
    exact decodeSteps_blocks hread (by rw [length_cons] at hlines; omega)
  · refine bind_eq_ok.2 ⟨_, copyText_eq _ _, ?_⟩
    rw [← hschema]
    rfl

/-- Every scenario that has a canonical text is got back from it exactly. -/
theorem decodeScenario_encodeCanonical {scenario : ImageScenario} {limits : ScenarioLimits}
    {bytes : List UInt8} (h : encodeCanonical scenario limits = .ok bytes) :
    decodeScenario
      ⟨scenario.id, scenario.name, scenario.sourcePath, bytes, scenario.digest, limits⟩ =
        .ok scenario := by
  obtain ⟨hlimits, hencode, hshape, -, -, hbytes, hlimit⟩ := encodeCanonical_eq_ok h
  have htext : fromUtf8 bytes = some (String.ofList (joinLines (scenarioLines scenario))) := by
    rw [fromUtf8_eq_some, utf8Bytes_ofList, hbytes]
  refine unit_bind_eq_ok.2 ⟨hlimits, unit_bind_eq_ok.2 ⟨enforceLength_of_le hlimit, ?_⟩⟩
  refine bind_eq_ok.2 ⟨_, orFail_eq_ok.2 htext, ?_⟩
  rw [String.toList_ofList]
  refine bind_eq_ok.2 ⟨scenario, decodeScenarioText_lines h, unit_bind_eq_ok.2 ⟨hshape, ?_⟩⟩
  exact bind_eq_ok.2 ⟨bytes, hencode, unit_bind_eq_ok.2 ⟨failIf_eq_ok.2 (by simp), rfl⟩⟩

/-- A scenario whose strings hold a quote, a backslash, line breaks, a line that opens a step, a
control character and a character outside ASCII. -/
def awkwardScenario : ImageScenario where
  id := ⟨7⟩
  schema := 1
  name := "a \"name\"\n[[step]]\n"
  sourcePath := "fixtures/é.toml"
  digest := .repeated 0x5a
  steps := [.sendSerial [0x00, 0xff, 0x0a],
    .expectTestEvent .log (some ⟨4294967295⟩) (some "\\ = \r\u0000é") 18446744073709551614,
    .expectExit (some (-2147483648)) 1]

theorem decodeScenario_encodeCanonical_awkward :
    ∃ bytes, decodeScenario ⟨awkwardScenario.id, awkwardScenario.name, awkwardScenario.sourcePath,
      bytes, awkwardScenario.digest, ⟨1024, 8, 16⟩⟩ = .ok awkwardScenario := by
  have hencode : (encodeCanonical awkwardScenario ⟨1024, 8, 16⟩).toOption.isSome := by
    decide +kernel
  cases h : encodeCanonical awkwardScenario ⟨1024, 8, 16⟩ with
  | error error => rw [h] at hencode; cases hencode
  | ok bytes => exact ⟨bytes, decodeScenario_encodeCanonical h⟩

end RoundTrip

end Wrela.TestModel
