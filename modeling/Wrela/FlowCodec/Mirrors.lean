import Wrela.Validation.Report
import Wrela.Wire.Number

/-!
# Fields of the FlowWir encoding

The writer and the reader of the canonical encoding share a meter that bounds the strings and the
collections they have seen.  This module has their primitive fields, texts, options and vectors,
and the class `Mirrors`: a reader mirrors a writer when it reads back everything the writer writes
and accepts nothing else.  Records are then covered field by field.
-/

namespace Wrela.FlowCodec

open Wrela.Source Wrela.BuildModel Wrela.TestModel Wrela.Flow Wrela.Wire

def flowWirWireVersion : UInt32 := 19

def flowWirMagic : List UInt8 := [0x57, 0x52, 0x45, 0x4c, 0x46, 0x4c, 0x4f, 0x00]

structure CodecLimits where
  frameBytes : UInt64
  stringBytes : UInt32
  vectorItems : UInt32
  functions : UInt32
  tests : UInt32
  blocks : UInt64
  instructions : UInt64
  nestingDepth : UInt32
  validationWork : UInt64
  validationErrors : UInt32
  testPlan : TestPlanLimits

def CodecLimits.standard : CodecLimits where
  frameBytes := 4 * 1024 * 1024 * 1024
  stringBytes := 1024 * 1024
  vectorItems := 16000000
  functions := 1000000
  tests := 1000000
  blocks := 16000000
  instructions := 256000000
  nestingDepth := 1024
  validationWork := 1100000000000
  validationErrors := 100000
  testPlan := .standard

inductive CodecError where
  | invalidLimits
  | invalidMagic
  | unsupportedWireVersion (version : UInt32)
  | unsupportedFlowWirVersion (version : UInt32)
  | buildIdentityMismatch
  | unexpectedEnd
  | invalidUtf8
  | invalidEnumTag (kind : String) (tag : UInt64)
  | nonCanonical (reason : String)
  | lengthOverflow
  | resourceLimit (resource : String) (limit : UInt64) (actual : ℕ)
  | validationResourceLimit (resource : String) (limit : UInt64)
  | trailingBytes
  | invalidFlowWir (errors : Validation.Report)

def CodecLimits.isValid (limits : CodecLimits) : Bool :=
  limits.frameBytes != 0 && limits.stringBytes != 0 && limits.vectorItems != 0 &&
    limits.functions != 0 && limits.tests != 0 && limits.blocks != 0 &&
    limits.instructions != 0 && limits.nestingDepth != 0 &&
    !decide (limits.nestingDepth > 1024) && limits.validationWork != 0 &&
    limits.validationErrors != 0 && limits.testPlan.isValid

def CodecLimits.validate (limits : CodecLimits) : Except CodecError Unit :=
  Checked.failIf (!limits.isValid) .invalidLimits

structure Meter where
  stringBytes : ℕ
  vectorItems : ℕ
  functions : ℕ
  blocks : ℕ
  instructions : ℕ
  tests : ℕ

def Meter.default : Meter := ⟨0, 0, 0, 0, 0, 0⟩

inductive VectorKind where
  | general | functions | blocks | instructions | tests

def enforce (resource : String) (limit : UInt64) (actual : ℕ) : Except CodecError Unit :=
  if actual > limit.toNat then .error (.resourceLimit resource limit actual) else .ok ()

/-- Add to a 64-bit counter and enforce its limit. -/
def advance (resource : String) (limit : UInt64) (counter amount : ℕ) : Except CodecError ℕ := do
  if counter + amount ≥ UInt64.size then .error .lengthOverflow
  else do
    enforce resource limit (counter + amount)
    pure (counter + amount)

def Meter.chargeString (limits : CodecLimits) (amount : ℕ) (meter : Meter) :
    Except CodecError Meter := do
  let stringBytes ← advance "aggregate string bytes" limits.stringBytes.toUInt64 meter.stringBytes
    amount
  pure { meter with stringBytes }

def Meter.chargeVector (limits : CodecLimits) (kind : VectorKind) (amount : ℕ) (meter : Meter) :
    Except CodecError Meter := do
  let vectorItems ← advance "aggregate vector items" limits.vectorItems.toUInt64 meter.vectorItems
    amount
  match kind with
  | .general => pure { meter with vectorItems }
  | .functions => do
    let functions ← advance "functions" limits.functions.toUInt64 meter.functions amount
    pure { meter with vectorItems, functions }
  | .blocks => do
    let blocks ← advance "blocks" limits.blocks meter.blocks amount
    pure { meter with vectorItems, blocks }
  | .instructions => do
    let instructions ← advance "instructions" limits.instructions meter.instructions amount
    pure { meter with vectorItems, instructions }
  | .tests => do
    let tests ← advance "tests" limits.tests.toUInt64 meter.tests amount
    pure { meter with vectorItems, tests }

abbrev Writer := Put CodecError Meter

abbrev Reader := Get CodecError Meter

namespace Writer

variable {α : Type} (limits : CodecLimits)

def frameLimit : ℕ := limits.frameBytes.toNat

def tooLarge (actual : ℕ) : CodecError :=
  .resourceLimit "FlowWir frame bytes" limits.frameBytes actual

def raw (value : List UInt8) : Writer Unit := append (frameLimit limits) (tooLarge limits) value

def u8 (value : UInt8) : Writer Unit := putLe (frameLimit limits) (tooLarge limits) 1 value.toNat

def bool (value : Bool) : Writer Unit := u8 limits value.toUInt8

def u16 (value : UInt16) : Writer Unit := putLe (frameLimit limits) (tooLarge limits) 2 value.toNat

def u32 (value : UInt32) : Writer Unit := putLe (frameLimit limits) (tooLarge limits) 4 value.toNat

def u64 (value : UInt64) : Writer Unit := putLe (frameLimit limits) (tooLarge limits) 8 value.toNat

def u128 (value : BitVec 128) : Writer Unit :=
  putLe (frameLimit limits) (tooLarge limits) 16 value.toNat

def id {arena : Arena} (id : Id arena) : Writer Unit := u32 limits id.val

def digest (value : Sha256Digest) : Writer Unit := raw limits value.bytes

/-- A length prefix, refused when it does not fit 32 bits. -/
def length (value : ℕ) : Writer Unit :=
  if value ≥ UInt32.size then fail .lengthOverflow else u32 limits (UInt32.ofNat value)

def string (value : String) : Writer Unit := do
  charge (Meter.chargeString limits (byteLength value))
  length limits (byteLength value)
  raw limits (utf8Bytes value)

def bytes (value : List UInt8) : Writer Unit := do
  charge (Meter.chargeVector limits .general value.length)
  length limits value.length
  raw limits value

def vector (kind : VectorKind) (encode : α → Writer Unit) (values : List α) : Writer Unit := do
  charge (Meter.chargeVector limits kind values.length)
  length limits values.length
  putAll encode values

def option (encode : α → Writer Unit) : Option α → Writer Unit
  | none => u8 limits 0
  | some value => do
    u8 limits 1
    encode value

def idVector {arena : Arena} (values : List (Id arena)) : Writer Unit :=
  vector limits .general (id limits) values

def span (span : Span) : Writer Unit := do
  u32 limits span.file.val
  u32 limits span.range.start
  u32 limits span.range.stop

end Writer

def cancellableCodecChunkBytes : ℕ := 64 * 1024

/-- The last position from `stop` backwards that does not split a character. -/
def cutBack (bytes : List UInt8) : ℕ → Option ℕ
  | 0 => none
  | stop + 1 => if bytes[stop + 1]?.any isContinuation then cutBack bytes stop else some (stop + 1)

/-- How much of a run `copyUtf8` converts next: one chunk, cut back over the continuation bytes of
the character it would otherwise split. -/
def nextChunk (bytes : List UInt8) : Option ℕ :=
  if cancellableCodecChunkBytes < bytes.length then cutBack bytes cancellableCodecChunkBytes
  else some bytes.length

def copyUtf8 (bytes : List UInt8) : Option String := copyChunks nextChunk bytes.length bytes

def invalidTag (kind : String) (tag : UInt8) : CodecError := .invalidEnumTag kind tag.toUInt64

namespace Reader

variable {α : Type} (limits : CodecLimits)

def raw (length : ℕ) : Reader (List UInt8) := take .unexpectedEnd length

def u8 : Reader UInt8 := getLe .unexpectedEnd 1 UInt8.ofNat

def bool : Reader Bool := do
  match ← u8 with
  | 0 => pure false
  | 1 => pure true
  | tag => fail (invalidTag "boolean" tag)

def u16 : Reader UInt16 := getLe .unexpectedEnd 2 UInt16.ofNat

def u32 : Reader UInt32 := getLe .unexpectedEnd 4 UInt32.ofNat

def u64 : Reader UInt64 := getLe .unexpectedEnd 8 UInt64.ofNat

def u128 : Reader (BitVec 128) := getLe .unexpectedEnd 16 (BitVec.ofNat 128)

def id {arena : Arena} : Reader (Id arena) := do
  let value ← u32
  pure ⟨value⟩

def digest : Reader Sha256Digest := do
  let bytes ← raw 32
  if h : bytes.length = 32 then pure ⟨bytes, h⟩ else fail .unexpectedEnd

/-- The text of a string field, once its length is known. -/
def text (length : ℕ) : Reader String := do
  let bytes ← raw length
  match copyUtf8 bytes with
  | some value => pure value
  | none => fail .invalidUtf8

def string : Reader String := do
  let length ← u32
  account (Meter.chargeString limits length.toNat)
  text length.toNat

def bytes : Reader (List UInt8) := do
  let length ← u32
  account (Meter.chargeVector limits .general length.toNat)
  raw length.toNat

def vector (kind : VectorKind) (decode : Reader α) : Reader (List α) := do
  let length ← u32
  account (Meter.chargeVector limits kind length.toNat)
  getMany decode length.toNat

def option (decode : Reader α) : Reader (Option α) := do
  match ← u8 with
  | 0 => pure none
  | 1 => do
    let value ← decode
    pure (some value)
  | tag => fail (invalidTag "option" tag)

def idVector {arena : Arena} : Reader (List (Id arena)) := vector limits .general id

def span : Reader Span := do
  let file ← u32
  let start ← u32
  let stop ← u32
  pure ⟨⟨file⟩, ⟨start, stop⟩⟩

/-- A plain enumeration, read through its tag table. -/
def tagged (kind : String) (ofTag : UInt8 → Option α) : Reader α := do
  let tag ← u8
  match ofTag tag with
  | some value => pure value
  | none => fail (invalidTag kind tag)

end Reader

/-! ## Readers that mirror writers -/

/-- The reader `r` accepts exactly what the writer `w` writes, and charges the meter alike. -/
class Mirrors (limits : CodecLimits) {α : Type} (w : outParam (α → Writer Unit))
    (r : Reader α) : Prop where
  emits : ∀ value, Emits (w value) r value
  absorbs : Absorbs (Writer.frameLimit limits) r w

section Rules

variable {α β : Type} {limits : CodecLimits} {w : β → Writer Unit} {r : Reader β}

variable {k : β → Reader α}

theorem emitsField (limits : CodecLimits) [h : Mirrors limits w r] {value : β} {v : Writer Unit}
    {a : α} (hk : Emits v (k value) a) :
    Emits (w value >>= fun _ ↦ v) (r >>= k) a :=
  (h.emits value).bind hk

theorem emitsLast (limits : CodecLimits) [h : Mirrors limits w r] {value : β}
    {a : α} (hk : k value = pure a) : Emits (w value) (r >>= k) a :=
  (h.emits value).last hk

theorem absorbsField [h : Mirrors limits w r] {p : Writer Unit} {v : α → Writer Unit}
    (hk : ∀ b, AbsorbsAfter (Writer.frameLimit limits) (p >>= fun _ ↦ w b) (k b) v) :
    AbsorbsAfter (Writer.frameLimit limits) p (r >>= k) v :=
  AbsorbsAfter.bind h.absorbs hk

end Rules

variable (limits : CodecLimits)

instance mirrors_u8 : Mirrors limits (Writer.u8 limits) Reader.u8 :=
  ⟨fun value ↦ Wire.emits_u8 _ value, Wire.absorbs_u8 _⟩

instance mirrors_u16 : Mirrors limits (Writer.u16 limits) Reader.u16 :=
  ⟨fun value ↦ Wire.emits_u16 _ value, Wire.absorbs_u16 _⟩

instance mirrors_u32 : Mirrors limits (Writer.u32 limits) Reader.u32 :=
  ⟨fun value ↦ Wire.emits_u32 _ value, Wire.absorbs_u32 _⟩

instance mirrors_u64 : Mirrors limits (Writer.u64 limits) Reader.u64 :=
  ⟨fun value ↦ Wire.emits_u64 _ value, Wire.absorbs_u64 _⟩

instance mirrors_u128 : Mirrors limits (Writer.u128 limits) Reader.u128 :=
  ⟨fun value ↦ Wire.emits_u128 _ value, Wire.absorbs_u128 _⟩

/-- A constructor without fields is its tag alone. -/
theorem emitsTag {α : Type} {tag : UInt8} {k : UInt8 → Reader α} {a : α} (hk : k tag = pure a) :
    Emits (Writer.u8 limits tag) (Reader.u8 >>= k) a :=
  ((mirrors_u8 limits).emits tag).last hk

instance mirrors_bool : Mirrors limits (Writer.bool limits) Reader.bool where
  emits value := by
    cases value
    · exact emitsTag limits rfl
    · exact emitsTag limits rfl
  absorbs := by
    refine AbsorbsAfter.start (absorbsField fun tag ↦ ?_)
    split
    · exact AbsorbsAfter.done (by rw [pure_bind]; rfl)
    · exact AbsorbsAfter.done (by rw [pure_bind]; rfl)
    · exact AbsorbsAfter.rejected

instance mirrors_id {arena : Arena} :
    Mirrors limits (Writer.id limits) (Reader.id : Reader (Id arena)) where
  emits value := Emits.last ((mirrors_u32 limits).emits value.val) rfl
  absorbs := AbsorbsAfter.start (absorbsField fun value ↦
    AbsorbsAfter.done (by rw [pure_bind]; rfl))

instance mirrors_digest : Mirrors limits (Writer.digest limits) Reader.digest where
  emits value := Emits.last (emits_append value.length_eq) (by rw [dif_pos value.length_eq])
  absorbs := by
    refine AbsorbsAfter.start
      (AbsorbsAfter.bind (absorbs_take (Writer.tooLarge limits)) fun bytes ↦ ?_)
    split
    · exact AbsorbsAfter.done (by rw [pure_bind]; rfl)
    · exact AbsorbsAfter.rejected

instance mirrors_span : Mirrors limits (Writer.span limits) Reader.span where
  emits value := emitsField limits (emitsField limits (emitsLast limits rfl))
  absorbs := AbsorbsAfter.start (absorbsField fun file ↦ absorbsField fun start ↦
    absorbsField fun stop ↦ AbsorbsAfter.done (by simp [Writer.span]))

/-- A plain enumeration mirrors its tag table when the table is one to one. -/
theorem mirrors_tagged {α : Type} {kind : String} {tag : α → UInt8} {ofTag : UInt8 → Option α}
    (hread : ∀ value, ofTag (tag value) = some value)
    (hwrite : ∀ byte value, ofTag byte = some value → tag value = byte) :
    Mirrors limits (fun value ↦ Writer.u8 limits (tag value)) (Reader.tagged kind ofTag) where
  emits value := emitsTag limits (by rw [hread value])
  absorbs := by
    refine AbsorbsAfter.start (absorbsField fun byte ↦ ?_)
    split
    · rename_i value hvalue
      exact AbsorbsAfter.done (by rw [pure_bind, hwrite byte value hvalue])
    · exact AbsorbsAfter.rejected

instance mirrors_option {α : Type} {w : α → Writer Unit} {r : Reader α} [h : Mirrors limits w r] :
    Mirrors limits (Writer.option limits w) (Reader.option r) where
  emits value := by
    cases value with
    | none => exact emitsTag limits rfl
    | some value => exact emitsField limits (emitsLast limits rfl)
  absorbs := by
    refine AbsorbsAfter.start (absorbsField fun tag ↦ ?_)
    split
    · exact AbsorbsAfter.done (by simp [Writer.option])
    · exact absorbsField fun value ↦ AbsorbsAfter.done (by simp [Writer.option])
    · exact AbsorbsAfter.rejected

variable {length : ℕ}

theorem toNat_ofNat_length (h : ¬ length ≥ UInt32.size) : (UInt32.ofNat length).toNat = length := by
  rw [UInt32.toNat_ofNat', Nat.mod_eq_of_lt (by simpa [UInt32.size] using h)]

/-- A length prefix is charged before it is written and after it is read; the order does not
matter to either side. -/
theorem emits_prefixed {α : Type} {step : ℕ → Meter → Except CodecError Meter}
    {v : Writer Unit} {k : ℕ → Reader α} {a : α} (hk : Emits v (k length) a) :
    Emits (do charge (step length); Writer.length limits length; v)
      (do let value ← Reader.u32; account (step value.toNat); k value.toNat) a := by
  unfold Writer.length
  split
  · intro sink sink' h
    obtain ⟨_, mid, -, hrest⟩ := run_bind_eq_ok.1 h
    obtain ⟨_, last, hfail, -⟩ := run_bind_eq_ok.1 hrest
    cases hfail
  · rename_i hshort
    intro sink sink' h
    have hstarts : Emits (do Writer.u32 limits (UInt32.ofNat length); charge (step length); v)
        (do let value ← Reader.u32; account (step value.toNat); k value.toNat) a := by
      refine emitsField limits ?_
      rw [toNat_ofNat_length hshort]
      exact Emits.bind (emits_charge _) hk
    exact hstarts sink sink' (charge_append_comm.1 h)

/-- The converse of `emits_prefixed`. -/
theorem absorbs_prefixed {α : Type} {step : ℕ → Meter → Except CodecError Meter}
    {k : ℕ → Reader α} {w : α → Writer Unit} {v : α → Writer Unit} {size : α → ℕ}
    (hw : ∀ a, w a = do charge (step (size a)); Writer.length limits (size a); v a)
    (hk : ∀ length, Absorbs (Writer.frameLimit limits) (k length) v)
    (hsize : ∀ length a, Returns (k length) a → size a = length) :
    Absorbs (Writer.frameLimit limits)
      (do let value ← Reader.u32; account (step value.toNat); k value.toNat) w := by
  refine AbsorbsAfter.start (absorbsField fun length ↦ AbsorbsAfter.bind (absorbs_account _)
    fun _ ↦ ?_)
  rw [← bind_pure (k length.toNat)]
  refine AbsorbsAfter.bindReturns (hk length.toNat) fun a ha ↦ AbsorbsAfter.doneOf ?_
  intro sink sink' h
  have hlength := hsize _ a ha
  have hshort : ¬ length.toNat ≥ UInt32.size := by
    have hlt := length.toNat_lt
    simpa [UInt32.size] using hlt
  rw [hw, hlength]
  simp only [Writer.length, if_neg hshort, UInt32.ofNat_toNat]
  rw [pure_bind, bind_assoc] at h
  exact charge_append_comm.2 h

instance mirrors_vector {α : Type} {kind : VectorKind} {w : α → Writer Unit} {r : Reader α}
    [h : Mirrors limits w r] :
    Mirrors limits (Writer.vector limits kind w) (Reader.vector limits kind r) where
  emits values := emits_prefixed limits (emits_putAll values fun value _ ↦ h.emits value)
  absorbs := absorbs_prefixed limits (fun _ ↦ rfl) (absorbs_getMany h.absorbs)
    fun _ _ hreturns ↦ hreturns.length_getMany

instance mirrors_idVector {arena : Arena} :
    Mirrors limits (Writer.idVector limits) (Reader.idVector limits : Reader (List (Id arena))) :=
  mirrors_vector limits

instance mirrors_bytes : Mirrors limits (Writer.bytes limits) (Reader.bytes limits) where
  emits _ := emits_prefixed limits (emits_append rfl)
  absorbs := absorbs_prefixed limits (fun _ ↦ rfl)
    (fun _ ↦ absorbs_take (Writer.tooLarge limits)) fun _ _ hreturns ↦ hreturns.length_take

/-- Going back at most three bytes from any position reaches a character boundary. -/
theorem exists_boundary (h : stop < (encodeChars chars).length) :
    ∃ cut ≤ stop, stop ≤ cut + 3 ∧
      ∀ byte, (encodeChars chars)[cut]? = some byte → isContinuation byte = false := by
  induction chars generalizing stop with
  | nil => simp [encodeChars] at h
  | cons char chars ih =>
    obtain ⟨first, rest, hshape, hfirst, -, hlength⟩ := utf8EncodeChar_shape char
    have hencode : encodeChars (char :: chars) = first :: (rest ++ encodeChars chars) := by
      simp [encodeChars, hshape]
    by_cases hinside : stop ≤ rest.length
    · refine ⟨0, Nat.zero_le _, by omega, fun byte hbyte ↦ ?_⟩
      rw [hencode] at hbyte
      cases hbyte
      exact hfirst
    · rw [hencode, List.length_cons, List.length_append] at h
      obtain ⟨cut, hle, hnear, hcut⟩ := ih
        (show stop - (rest.length + 1) < _ by omega)
      refine ⟨cut + (rest.length + 1), by omega, by omega, fun byte hbyte ↦ hcut byte ?_⟩
      rw [hencode, List.getElem?_cons, if_neg (by omega), List.getElem?_append_right (by omega)]
        at hbyte
      rw [← hbyte]
      congr 1
      omega

/-- Cutting back stops at the last boundary. -/
theorem cutBack_eq_some (hpos : 0 < cut) (hle : cut ≤ stop)
    (hcut : ∀ byte, bytes[cut]? = some byte → isContinuation byte = false) :
    ∃ found, cutBack bytes stop = some found ∧ 0 < found ∧ found ≤ stop ∧
      ∀ byte, bytes[found]? = some byte → isContinuation byte = false := by
  induction stop with
  | zero => omega
  | succ stop ih =>
    rw [cutBack]
    split
    · rename_i hcontinue
      have hne : cut ≠ stop + 1 := by
        rintro rfl
        cases hbyte : bytes[stop + 1]? with
        | none => simp [hbyte] at hcontinue
        | some byte =>
          rw [hbyte] at hcontinue
          have := hcut byte hbyte
          simp [this] at hcontinue
      obtain ⟨found, hfound, hfoundPos, hfoundLe, hboundary⟩ := ih (by omega)
      exact ⟨found, hfound, hfoundPos, by omega, hboundary⟩
    · rename_i hboundary
      refine ⟨stop + 1, rfl, Nat.succ_pos _, le_rfl, fun byte hbyte ↦ ?_⟩
      simpa [hbyte] using hboundary

theorem nextChunk_cuts (hne : chars ≠ []) :
    ∃ front back, chars = front ++ back ∧ front ≠ [] ∧
      nextChunk (encodeChars chars) = some (encodeChars front).length := by
  unfold nextChunk
  split
  · rename_i hlong
    obtain ⟨cut, hle, hnear, hcut⟩ := exists_boundary hlong
    have hchunk : cancellableCodecChunkBytes = 65536 := rfl
    obtain ⟨found, hfound, hpos, hfoundLe, hboundary⟩ := cutBack_eq_some (by omega) hle hcut
    obtain ⟨front, back, hsplit, hfront⟩ := encodeChars_split (by omega) hboundary
    refine ⟨front, back, hsplit, ?_, by rw [hfound, hfront]⟩
    rintro rfl
    have hempty : (encodeChars []).length = 0 := rfl
    omega
  · exact ⟨chars, [], by simp, hne, rfl⟩

theorem copyUtf8_eq_some : copyUtf8 bytes = some text ↔ utf8Bytes text = bytes := by
  constructor
  · exact utf8Bytes_of_copyChunks
  · rintro rfl
    exact copyChunks_utf8Bytes (fun chars hne ↦ nextChunk_cuts hne) le_rfl

theorem absorbs_text (length : ℕ) : Absorbs (Writer.frameLimit limits) (Reader.text length)
    fun value ↦ Writer.raw limits (utf8Bytes value) := by
  refine AbsorbsAfter.start
    (AbsorbsAfter.bind (absorbs_take (Writer.tooLarge limits)) fun bytes ↦ ?_)
  split
  · rename_i value hvalue
    exact AbsorbsAfter.done (by rw [pure_bind, copyUtf8_eq_some.1 hvalue]; rfl)
  · exact AbsorbsAfter.rejected

theorem byteLength_of_returns (h : Returns (Reader.text length) value) :
    byteLength value = length := by
  obtain ⟨source, source', hread⟩ := h
  obtain ⟨bytes, mid, htake, hcopy⟩ := run_bind_eq_ok.1 hread
  cases hcopied : copyUtf8 bytes with
  | none =>
    simp only [hcopied] at hcopy
    cases hcopy
  | some copied =>
    simp only [hcopied] at hcopy
    cases hcopy
    rw [byteLength, copyUtf8_eq_some.1 hcopied]
    exact (take_eq_ok.1 htake).1

instance mirrors_string : Mirrors limits (Writer.string limits) (Reader.string limits) where
  emits value := by
    have htext : Emits (Writer.raw limits (utf8Bytes value)) (Reader.text (byteLength value)) value :=
      Emits.last (emits_append rfl) (by rw [copyUtf8_eq_some.2 rfl])
    exact emits_prefixed limits htext
  absorbs := absorbs_prefixed limits (fun _ ↦ rfl) (absorbs_text limits)
    fun _ _ hreturns ↦ byteLength_of_returns hreturns

end Wrela.FlowCodec
