import Mathlib.Data.List.MinMax
import Wrela.Source.Database
import Wrela.Data.CommonAffixes

/-!
# Sealing a formatted file

A formatter returns the whole formatted text together with the edits that make it from the source.
`sealFormatOutput` accepts the pair when each edit cuts the source inside the effective range, the
edits are in order, and replaying them gives the text.  A call ends with an output, with an error,
or with a panic.
-/

namespace Wrela.Formatter

open Wrela.Source Wrela.BuildModel Wrela.Wire Wrela.Checked

inductive LineEnding where
  | lf
  | crLf

structure FormatOptions where
  indentationWidth : UInt8
  maximumLineWidth : UInt16
  lineEnding : LineEnding
  trailingNewline : Bool
  maximumEdits : UInt32
  maximumOutputBytes : UInt64

def FormatOptions.default : FormatOptions where
  indentationWidth := 4
  maximumLineWidth := 100
  lineEnding := .lf
  trailingNewline := true
  maximumEdits := 1000000
  maximumOutputBytes := 256 * 1024 * 1024

inductive FormatError where
  | invalidOptions (reason : String)
  | rangeOutsideFile
  | staleParsedFile
  | incompleteRecovery
  | wrongEffectiveRange
  | invalidEdits
  | inconsistentOutput
  | malformedLosslessAst (reason : String)
  | tooManyEdits (limit : UInt32)
  | outputTooLarge (limit : UInt64)
deriving DecidableEq

/-- How a call ends without a result. -/
inductive Halt where
  | returned (error : FormatError)
  | panicked
deriving DecidableEq

abbrev Outcome := Except Halt

/-- Return `error` when `bad` holds. -/
def returnIf (bad : Bool) (error : FormatError) : Outcome Unit := failIf bad (.returned error)

/-- Machine subtraction, which panics below zero. -/
def checkedSub (left right : ℕ) : Outcome ℕ :=
  if right ≤ left then .ok (left - right) else .error .panicked

def FormatOptions.validate (options : FormatOptions) : Outcome Unit := do
  returnIf (!(1 ≤ options.indentationWidth && options.indentationWidth ≤ 16))
    (.invalidOptions "indentation width must be between 1 and 16")
  returnIf (!(20 ≤ options.maximumLineWidth && options.maximumLineWidth ≤ 1000))
    (.invalidOptions "maximum line width must be between 20 and 1000")
  returnIf (options.maximumOutputBytes == 0)
    (.invalidOptions "maximum output bytes must be nonzero")
  returnIf (options.maximumEdits == 0) (.invalidOptions "maximum edit count must be nonzero")

/-- What the formatter reads of a parsed file. -/
structure ParsedFile where
  file : FileId
  sourceDigest : Sha256Digest
  recoveryComplete : Bool
  nodeRanges : List TextRange

/-- Select the smallest AST node that encloses a requested source range. -/
def ParsedFile.smallestEnclosingNode (parsed : ParsedFile) (requested : TextRange) :
    Option TextRange :=
  (parsed.nodeRanges.filter fun range ↦
    decide (range.start ≤ requested.start) && decide (requested.stop ≤ range.stop)).argmin
      fun range ↦ toLex (range.stop.toNat - range.start.toNat,
        toLex (range.start.toNat, range.stop.toNat))

structure FormatRequest where
  parsed : ParsedFile
  source : SourceFile
  options : FormatOptions
  range : Option TextRange

structure TextEdit where
  file : FileId
  range : TextRange
  replacement : String
deriving DecidableEq

structure FormatOutputCandidate where
  edits : List TextEdit
  formatted : String
  changed : Bool
  effectiveRange : TextRange

structure FormatOutput where
  edits : List TextEdit
  formatted : String
  effectiveRange : TextRange
deriving DecidableEq

/-- Every line feed follows a carriage return and every carriage return precedes a line feed. -/
def pairedEndings : Option UInt8 → List UInt8 → Bool
  | _, [] => true
  | previous, byte :: rest =>
    !((byte == 10 && previous != some 13) || (byte == 13 && rest.head? != some 10)) &&
      pairedEndings (some byte) rest

def lineEndingsMatch (text : String) : LineEnding → Bool
  | .lf => !(utf8Bytes text).contains 13
  | .crLf => pairedEndings none (utf8Bytes text)

def validateLineEndings (text : String) (lineEnding : LineEnding) : Outcome Unit :=
  returnIf (!lineEndingsMatch text lineEnding) .inconsistentOutput

def LineEnding.newline : LineEnding → String
  | .lf => "\n"
  | .crLf => "\r\n"

def validateLinePolicy (text : String) (options : FormatOptions) : Outcome Unit := do
  validateLineEndings text options.lineEnding
  returnIf (options.trailingNewline !=
    (utf8Bytes options.lineEnding.newline).isSuffixOf (utf8Bytes text)) .inconsistentOutput

/-- The slice of a range, or the error the caller gives when there is none. -/
def sliceText (source : SourceFile) (range : TextRange) (error : FormatError) : Outcome String := do
  let slice ← orFail (source.slice range) .panicked
  orFail slice (.returned error)

def FormatRequest.effectiveRange (request : FormatRequest) : Outcome TextRange :=
  match request.range with
  | none => .ok request.source.fullSpan.range
  | some range => do
    let _ ← sliceText request.source range .rangeOutsideFile
    orFail (request.parsed.smallestEnclosingNode range) (.returned .rangeOutsideFile)

/-- The loop over the edits: each is checked against the source, the effective range and the end of
the edit before it.  The result is the total size of the replacements. -/
def checkEdits (request : FormatRequest) (effectiveRange : TextRange) :
    UInt32 → ℕ → List TextEdit → Outcome ℕ
  | _, replacementBytes, [] => .ok replacementBytes
  | previousEnd, replacementBytes, edit :: edits => do
    let original ← sliceText request.source edit.range .invalidEdits
    returnIf (edit.file != request.source.id || edit.range.start < effectiveRange.start ||
      effectiveRange.stop < edit.range.stop || edit.range.start < previousEnd ||
      original == edit.replacement) .invalidEdits
    (if request.range.isSome then
      validateLineEndings edit.replacement request.options.lineEnding else .ok ())
    checkEdits request effectiveRange edit.range.stop
      (replacementBytes + byteLength edit.replacement) edits

/-- The size of the text after the edits. -/
def editedBytes : ℕ → List TextEdit → Outcome ℕ
  | bytes, [] => .ok bytes
  | bytes, edit :: edits => do
    let removed ← checkedSub edit.range.stop.toNat edit.range.start.toNat
    returnIf (bytes < removed) .inconsistentOutput
    editedBytes (bytes - removed + byteLength edit.replacement) edits

/-- Copy the text between the edits and every replacement, from byte `cursor` on. -/
def replay (text : String) : ℕ → List TextEdit → Outcome String
  | cursor, [] => orFail (getText text cursor (byteLength text)) (.returned .invalidEdits)
  | cursor, edit :: edits => do
    let kept ← orFail (getText text cursor edit.range.start.toNat) (.returned .invalidEdits)
    let rest ← replay text edit.range.stop.toNat edits
    .ok (kept ++ edit.replacement ++ rest)

def applyEdits (source : SourceFile) (edits : List TextEdit) (outputBytes : ℕ) :
    Outcome String := do
  let reconstructedBytes ← editedBytes (byteLength source.text) edits
  returnIf (reconstructedBytes != outputBytes) .inconsistentOutput
  replay source.text 0 edits

/-- Cross-check and seal the formatter's redundant text and edits. -/
def sealFormatOutput (request : FormatRequest) (candidate : FormatOutputCandidate) :
    Outcome FormatOutput := do
  request.options.validate
  returnIf (request.parsed.file != request.source.id ||
    request.parsed.sourceDigest != request.source.digest) .staleParsedFile
  returnIf (!request.parsed.recoveryComplete) .incompleteRecovery
  let effectiveRange ← request.effectiveRange
  returnIf (candidate.effectiveRange != effectiveRange) .wrongEffectiveRange
  let formattedBytes := byteLength candidate.formatted
  returnIf (request.options.maximumOutputBytes.toNat < formattedBytes)
    (.outputTooLarge request.options.maximumOutputBytes)
  (if request.range.isNone then validateLinePolicy candidate.formatted request.options else .ok ())
  returnIf (request.options.maximumEdits.toNat < candidate.edits.length)
    (.tooManyEdits request.options.maximumEdits)
  let replacementBytes ← checkEdits request effectiveRange 0 0 candidate.edits
  returnIf (request.options.maximumOutputBytes.toNat < replacementBytes)
    (.outputTooLarge request.options.maximumOutputBytes)
  let reconstructed ← applyEdits request.source candidate.edits formattedBytes
  let changed := candidate.formatted != request.source.text
  returnIf (reconstructed != candidate.formatted || candidate.changed != changed ||
    candidate.edits.isEmpty == changed) .inconsistentOutput
  .ok ⟨candidate.edits, candidate.formatted, effectiveRange⟩

open List

/-- Lower a count until `settled`.  The loops that do so settle at zero, where both texts begin or
both texts end. -/
def retreat (settled : ℕ → Outcome Bool) : ℕ → Outcome ℕ
  | 0 => do
    let _ ← settled 0
    .ok 0
  | count + 1 => do
    if ← settled (count + 1) then .ok (count + 1) else retreat settled count

def prefixSettled (original formatted : String) (count : ℕ) : Outcome Bool :=
  .ok (isCharBoundary original count && isCharBoundary formatted count)

def suffixSettled (original formatted : String) (count : ℕ) : Outcome Bool := do
  let originalEnd ← checkedSub (byteLength original) count
  if isCharBoundary original originalEnd then
    let formattedEnd ← checkedSub (byteLength formatted) count
    .ok (isCharBoundary formatted formattedEnd)
  else .ok false

def minimalEdit (source : SourceFile) (formatted : String) (maximumBytes : UInt64) :
    Outcome (List TextEdit) := do
  if source.text = formatted then .ok []
  else
    let original := utf8Bytes source.text
    let replacement := utf8Bytes formatted
    let front ← retreat (prefixSettled source.text formatted)
      ((original.zip replacement).takeWhile fun pair ↦ pair.1 == pair.2).length
    let maximumSuffix := min original.length replacement.length - front
    let back ← retreat (suffixSettled source.text formatted)
      (((original.reverse.zip replacement.reverse).take maximumSuffix).takeWhile fun pair ↦
        pair.1 == pair.2).length
    let replacementEnd ← checkedSub replacement.length back
    let originalEnd ← checkedSub original.length back
    let text ← orFail (getText formatted front replacementEnd)
      (.returned (.malformedLosslessAst "edit boundary is not UTF-8"))
    returnIf (maximumBytes.toNat < byteLength text) (.outputTooLarge maximumBytes)
    returnIf (2 ^ 32 ≤ front) (.outputTooLarge maximumBytes)
    returnIf (2 ^ 32 ≤ originalEnd) (.outputTooLarge maximumBytes)
    .ok [⟨source.id, ⟨UInt32.ofNat front, UInt32.ofNat originalEnd⟩, text⟩]

end Wrela.Formatter

/-!
## What the minimal edit is

Both loops of `minimalEdit` count equal bytes and then move the count to a boundary of the two texts.
The result is the longest common prefix of the characters and the longest common suffix of the rest
(`minimalEdit_eq`), so nothing about the edit depends on the encoding.
-/

namespace Wrela.Formatter

open List Wrela.Source Wrela.Wire Wrela.Checked Wrela.CommonAffixes

/-- The loop stops at the greatest settled count below its start. -/
theorem retreat_eq_ok (holds : ℕ → Bool)
    (hsettled : ∀ count ≤ start, settled count = .ok (holds count)) (hstop : holds stop = true)
    (hle : stop ≤ start) (hmax : ∀ count ≤ start, holds count = true → count ≤ stop) :
    retreat settled start = .ok stop := by
  induction start with
  | zero =>
    obtain rfl := Nat.le_zero.1 hle
    rw [retreat, hsettled 0 le_rfl, ok_bind]
  | succ start ih =>
    rw [retreat, hsettled _ le_rfl, ok_bind]
    rcases Nat.lt_or_eq_of_le hle with hlt | rfl
    · have hnot : ¬ holds (start + 1) = true := by
        intro hholds
        have := hmax _ le_rfl hholds
        omega
      rw [if_neg hnot]
      exact ih (fun count hcount ↦ hsettled count (by omega)) (by omega)
        fun count hcount ↦ hmax count (by omega)
    · rw [if_pos hstop]

variable {left right : List Char} {text : String}

theorem encodeChars_injective (h : encodeChars left = encodeChars right) : left = right := by
  rw [← utf8Bytes_ofList, ← utf8Bytes_ofList] at h
  exact String.ofList_injective (utf8Bytes_injective h)

theorem encodeChars_prefix_mono (h : left <+: right) : encodeChars left <+: encodeChars right := by
  obtain ⟨rest, rfl⟩ := h
  rw [encodeChars_append]
  exact prefix_append _ _

theorem encodeChars_suffix_mono (h : left <:+ right) : encodeChars left <:+ encodeChars right := by
  obtain ⟨rest, rfl⟩ := h
  rw [encodeChars_append]
  exact suffix_append _ _

theorem length_encodeChars_append (left right : List Char) :
    (encodeChars (left ++ right)).length =
      (encodeChars left).length + (encodeChars right).length := by
  rw [encodeChars_append, length_append]

/-- Among the ends of one text the longer one in bytes is the longer one in characters. -/
theorem suffix_of_length_le {text : List Char} (hleft : left <:+ text) (hright : right <:+ text)
    (hle : (encodeChars left).length ≤ (encodeChars right).length) : left <:+ right := by
  obtain h | ⟨extra, rfl⟩ := suffix_or_suffix_of_suffix hleft hright
  · exact h
  · rw [length_encodeChars_append] at hle
    have hextra : encodeChars extra = encodeChars [] := by
      apply eq_nil_of_length_eq_zero
      omega
    rw [encodeChars_injective hextra, nil_append]

theorem isCharBoundary_iff_toList :
    isCharBoundary text index = true ↔
      ∃ front back, text.toList = front ++ back ∧ (encodeChars front).length = index := by
  rw [isCharBoundary_iff]
  constructor
  · rintro ⟨front, back, rfl, rfl⟩
    exact ⟨front.toList, back.toList, String.toList_append, (byteLength_eq front).symm⟩
  · rintro ⟨front, back, htext, rfl⟩
    refine ⟨String.ofList front, String.ofList back, ?_, byteLength_ofList front⟩
    rw [← String.ofList_append, ← htext, String.ofList_toList]

variable {original formatted : String}

theorem retreat_prefixSettled (original formatted : String) :
    retreat (prefixSettled original formatted)
      (((utf8Bytes original).zip (utf8Bytes formatted)).takeWhile fun pair ↦
        pair.1 == pair.2).length =
      .ok (encodeChars (commonPrefix original.toList formatted.toList)).length := by
  have hleft := commonPrefix_prefix_left original.toList formatted.toList
  have hright := commonPrefix_prefix_right original.toList formatted.toList
  rw [length_takeWhile_zip, utf8Bytes_eq_encodeChars, utf8Bytes_eq_encodeChars]
  apply retreat_eq_ok
    (fun count ↦ isCharBoundary original count && isCharBoundary formatted count)
    (fun _ _ ↦ rfl)
  · obtain ⟨rest, horiginal⟩ := hleft
    obtain ⟨rest', hformatted⟩ := hright
    rw [Bool.and_eq_true]
    exact ⟨isCharBoundary_iff_toList.2 ⟨_, rest, horiginal.symm, rfl⟩,
      isCharBoundary_iff_toList.2 ⟨_, rest', hformatted.symm, rfl⟩⟩
  · exact (prefix_commonPrefix (encodeChars_prefix_mono hleft) (encodeChars_prefix_mono hright)).length_le
  · intro count hcount hholds
    rw [Bool.and_eq_true] at hholds
    obtain ⟨front, back, horiginal, hfront⟩ := isCharBoundary_iff_toList.1 hholds.1
    obtain ⟨front', back', hformatted, hfront'⟩ := isCharBoundary_iff_toList.1 hholds.2
    -- both fronts are the bytes the two texts agree on, up to `count`
    have hsame : encodeChars front = encodeChars front' := by
      have htake := prefix_of_prefix_length_le
        (encodeChars_prefix_mono (horiginal ▸ prefix_append front back))
        (commonPrefix_prefix_left _ (encodeChars formatted.toList)) (by rwa [hfront])
      have htake' := prefix_of_prefix_length_le
        (encodeChars_prefix_mono (hformatted ▸ prefix_append front' back'))
        (commonPrefix_prefix_right (encodeChars original.toList) _) (by rwa [hfront'])
      exact (prefix_of_prefix_length_le htake htake' (by rw [hfront, hfront'])).eq_of_length
        (by rw [hfront, hfront'])
    obtain rfl := encodeChars_injective hsame
    rw [← hfront]
    refine (encodeChars_prefix_mono (prefix_commonPrefix ?_ ?_)).length_le
    · exact ⟨back, horiginal.symm⟩
    · exact ⟨back', hformatted.symm⟩

theorem suffixSettled_eq {count : ℕ} (hle : count ≤ byteLength original)
    (hle' : count ≤ byteLength formatted) :
    suffixSettled original formatted count =
      .ok (isCharBoundary original (byteLength original - count) &&
        isCharBoundary formatted (byteLength formatted - count)) := by
  unfold suffixSettled checkedSub
  rw [if_pos hle, if_pos hle', ok_bind, ok_bind]
  cases isCharBoundary original (byteLength original - count) <;> rfl

/-- A boundary from the end is the length of a text that ends the text. -/
theorem exists_back {count : ℕ} (hle : count ≤ byteLength text)
    (h : isCharBoundary text (byteLength text - count) = true) :
    ∃ front back, text.toList = front ++ back ∧ (encodeChars back).length = count := by
  obtain ⟨front, back, htext, hfront⟩ := isCharBoundary_iff_toList.1 h
  refine ⟨front, back, htext, ?_⟩
  have hlength := byteLength_eq text
  rw [htext, length_encodeChars_append] at hlength
  omega

theorem boundary_of_back (htext : text.toList = front ++ back) :
    isCharBoundary text (byteLength text - (encodeChars back).length) = true := by
  refine isCharBoundary_iff_toList.2 ⟨front, back, htext, ?_⟩
  rw [byteLength_eq, htext, length_encodeChars_append]
  omega

theorem retreat_suffixSettled {front middle middle' back : List Char}
    (horiginal : original.toList = front ++ middle ++ back)
    (hformatted : formatted.toList = front ++ middle' ++ back)
    (hback : back = commonSuffix (middle ++ back) (middle' ++ back)) :
    retreat (suffixSettled original formatted)
      ((((utf8Bytes original).reverse.zip (utf8Bytes formatted).reverse).take
        (min (utf8Bytes original).length (utf8Bytes formatted).length -
          (encodeChars front).length)).takeWhile fun pair ↦ pair.1 == pair.2).length =
      .ok (encodeChars back).length := by
  have hlengths : byteLength original = (encodeChars front).length +
      (encodeChars (middle ++ back)).length := by
    rw [byteLength_eq, horiginal, append_assoc, length_encodeChars_append]
  have hlengths' : byteLength formatted = (encodeChars front).length +
      (encodeChars (middle' ++ back)).length := by
    rw [byteLength_eq, hformatted, append_assoc, length_encodeChars_append]
  have hback_le : (encodeChars back).length ≤ (encodeChars (middle ++ back)).length :=
    (encodeChars_suffix_mono (suffix_append middle back)).length_le
  have hback_le' : (encodeChars back).length ≤ (encodeChars (middle' ++ back)).length :=
    (encodeChars_suffix_mono (suffix_append middle' back)).length_le
  have hshared : encodeChars back <:+ commonSuffix (utf8Bytes original) (utf8Bytes formatted) := by
    rw [utf8Bytes_eq_encodeChars, utf8Bytes_eq_encodeChars]
    apply suffix_commonSuffix
    · rw [horiginal]
      exact encodeChars_suffix_mono (suffix_append _ _)
    · rw [hformatted]
      exact encodeChars_suffix_mono (suffix_append _ _)
  have hcount : (commonPrefix (utf8Bytes original).reverse (utf8Bytes formatted).reverse).length =
      (commonSuffix (utf8Bytes original) (utf8Bytes formatted)).length := by
    rw [commonSuffix, length_reverse]
  rw [length_takeWhile_take_zip, hcount]
  change retreat _ (min (min (byteLength original) (byteLength formatted) - _) _) = _
  apply retreat_eq_ok (fun count ↦ isCharBoundary original (byteLength original - count) &&
    isCharBoundary formatted (byteLength formatted - count))
  · intro count hle
    exact suffixSettled_eq (by omega) (by omega)
  · rw [Bool.and_eq_true]
    exact ⟨boundary_of_back horiginal, boundary_of_back hformatted⟩
  · have := hshared.length_le
    omega
  · intro count hle hholds
    rw [Bool.and_eq_true] at hholds
    obtain ⟨before, after, hsplit, hafter⟩ := exists_back (by omega) hholds.1
    obtain ⟨before', after', hsplit', hafter'⟩ := exists_back (by omega) hholds.2
    have hend := suffix_append before after
    have hend' := suffix_append before' after'
    rw [← hsplit] at hend
    rw [← hsplit'] at hend'
    -- both ends are the bytes the two texts agree on, from `count` on
    have hsame : encodeChars after = encodeChars after' := by
      have hbytes := encodeChars_suffix_mono hend
      have hbytes' := encodeChars_suffix_mono hend'
      rw [← utf8Bytes_eq_encodeChars] at hbytes hbytes'
      have htake := suffix_of_suffix_length_le hbytes
        (commonSuffix_suffix_left (utf8Bytes original) (utf8Bytes formatted)) (by omega)
      have htake' := suffix_of_suffix_length_le hbytes'
        (commonSuffix_suffix_right (utf8Bytes original) (utf8Bytes formatted)) (by omega)
      exact (suffix_of_suffix_length_le htake htake' (by omega)).eq_of_length (by omega)
    obtain rfl := encodeChars_injective hsame
    have hinside : after <:+ middle ++ back := by
      refine suffix_of_length_le hend ?_ (by omega)
      rw [horiginal, append_assoc]
      exact suffix_append _ _
    have hinside' : after <:+ middle' ++ back := by
      refine suffix_of_length_le hend' ?_ (by omega)
      rw [hformatted, append_assoc]
      exact suffix_append _ _
    have hlast := encodeChars_suffix_mono (suffix_commonSuffix hinside hinside')
    rw [← hback] at hlast
    have := hlast.length_le
    omega

/-- The one edit between two texts: its range spans the part of the source in which they differ and
its replacement is that part of the output. -/
def differingEdit (source : SourceFile) (formatted : String) : TextEdit :=
  let front := (encodeChars (commonPrefix source.text.toList formatted.toList)).length
  let parts := differing source.text.toList formatted.toList
  ⟨source.id, ⟨UInt32.ofNat front, UInt32.ofNat (front + (encodeChars parts.1).length)⟩,
    String.ofList parts.2⟩

/-- For a file of the database and an output within the limit the edit is always found: no
subtraction falls below zero and both cuts are at boundaries. -/
theorem minimalEdit_eq (hsize : byteLength source.text < 2 ^ 32)
    (hmaximum : byteLength formatted ≤ maximumBytes.toNat) :
    minimalEdit source formatted maximumBytes =
      .ok (if source.text = formatted then [] else [differingEdit source formatted]) := by
  by_cases hsame : source.text = formatted
  · rw [minimalEdit, if_pos hsame, if_pos hsame]
  obtain ⟨front, back, horiginal, hformatted, hfront, hback⟩ :=
    exists_differing source.text.toList formatted.toList
  rw [minimalEdit, if_neg hsame, if_neg hsame]
  generalize hparts : differing source.text.toList formatted.toList = parts at horiginal hformatted
  have hback' : back = commonSuffix (parts.1 ++ back) (parts.2 ++ back) := by
    rw [horiginal, hformatted, append_assoc, append_assoc, drop_left, drop_left] at hback
    exact hback
  have hsource : byteLength source.text =
      (encodeChars front).length + (encodeChars parts.1).length + (encodeChars back).length := by
    rw [byteLength_eq, horiginal, length_encodeChars_append, length_encodeChars_append]
  have houtput : byteLength formatted =
      (encodeChars front).length + (encodeChars parts.2).length + (encodeChars back).length := by
    rw [byteLength_eq, hformatted, length_encodeChars_append, length_encodeChars_append]
  have hget : getText formatted (encodeChars front).length
      (byteLength formatted - (encodeChars back).length) = some (String.ofList parts.2) := by
    refine getText_eq_some.2 ⟨String.ofList front, String.ofList back, ?_, ?_, ?_⟩
    · rw [← String.ofList_append, ← String.ofList_append, ← hformatted, String.ofList_toList]
    · exact byteLength_ofList front
    · rw [byteLength_ofList]
      omega
  have htext : byteLength (String.ofList parts.2) = (encodeChars parts.2).length :=
    byteLength_ofList parts.2
  simp only [retreat_prefixSettled, ← hfront, ok_bind,
    retreat_suffixSettled horiginal hformatted hback']
  change (checkedSub (byteLength formatted) _ >>= fun replacementEnd ↦
    checkedSub (byteLength source.text) _ >>= fun originalEnd ↦ _) = _
  rw [checkedSub, if_pos (by omega), ok_bind, checkedSub, if_pos (by omega), ok_bind, hget]
  have hstop : byteLength source.text - (encodeChars back).length =
      (encodeChars front).length + (encodeChars parts.1).length := by omega
  simp only [orFail, ok_bind, returnIf, hstop]
  rw [htext, decide_eq_false (by omega), decide_eq_false (by omega), decide_eq_false (by omega)]
  simp only [failIf_false, ok_bind, differingEdit, ← hfront, hparts]

end Wrela.Formatter
