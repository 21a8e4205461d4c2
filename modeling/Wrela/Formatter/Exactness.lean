import Wrela.Formatter.SealLaws

/-!
# Exact and confined edits

When one range of a file is rendered anew, the minimal edit lies inside the range unless the new
text slides along what follows it, and sealing refuses it then.  Sealing itself is exact on every
candidate and panics only at a reversed range.
-/

namespace Wrela.Formatter

open List Wrela.Source Wrela.Wire Wrela.Checked Wrela.CommonAffixes

variable {source : SourceFile} (formatted : String)

section

variable (hsize : byteLength source.text < 2 ^ 32)
include hsize

theorem differingEdit_start : (differingEdit source formatted).range.start.toNat =
      (encodeChars (commonPrefix source.text.toList formatted.toList)).length := by
  have hle := (encodeChars_prefix_mono
    (commonPrefix_prefix_left source.text.toList formatted.toList)).length_le
  rw [← byteLength_eq] at hle
  exact UInt32.toNat_ofNat_of_lt' (lt_of_le_of_lt hle hsize)

theorem differingEdit_stop : (differingEdit source formatted).range.stop.toNat =
      (encodeChars (commonPrefix source.text.toList formatted.toList)).length +
        (encodeChars (differing source.text.toList formatted.toList).1).length := by
  obtain ⟨front, back, horiginal, -, rfl, -⟩ := exists_differing source.text.toList formatted.toList
  have hlength := byteLength_eq source.text
  conv at hlength => rhs; rw [horiginal, length_encodeChars_append, length_encodeChars_append]
  apply UInt32.toNat_ofNat_of_lt'
  have : UInt32.size = 2 ^ 32 := rfl
  omega

/-- The edit makes the output from the source. -/
theorem differingEdit_applies :
    Applies 0 source.text [differingEdit source formatted] formatted := by
  have hstart := differingEdit_start formatted hsize
  have hstop := differingEdit_stop formatted hsize
  obtain ⟨front, back, horiginal, hformatted, hfront, -⟩ :=
    exists_differing source.text.toList formatted.toList
  rw [← hfront] at hstart hstop
  have htext : source.text = String.ofList front ++
      String.ofList (differing source.text.toList formatted.toList).1 ++ String.ofList back := by
    rw [← String.ofList_append, ← String.ofList_append, ← horiginal, String.ofList_toList]
  have houtput : formatted = String.ofList front ++
      (differingEdit source formatted).replacement ++ String.ofList back := by
    rw [differingEdit, ← String.ofList_append, ← String.ofList_append, ← hformatted,
      String.ofList_toList]
  have happlies : Applies 0 (String.ofList front ++
      String.ofList (differing source.text.toList formatted.toList).1 ++ String.ofList back)
      [differingEdit source formatted] (String.ofList front ++
        (differingEdit source formatted).replacement ++ String.ofList back) := by
    refine .cons ?_ ?_ (.nil _ _)
    · rw [hstart, byteLength_ofList, Nat.zero_add]
    · rw [hstart, hstop, byteLength_ofList]
  rwa [← htext, ← houtput] at happlies

/-- The slice that the edit replaces is not its replacement. -/
theorem differingEdit_changes (hne : source.text ≠ formatted) :
    ∃ original, source.slice (differingEdit source formatted).range = some (some original) ∧
      original ≠ (differingEdit source formatted).replacement := by
  have hstart := differingEdit_start formatted hsize
  have hstop := differingEdit_stop formatted hsize
  obtain ⟨front, back, horiginal, hformatted, hfront, -⟩ :=
    exists_differing source.text.toList formatted.toList
  rw [← hfront] at hstart hstop
  refine ⟨String.ofList (differing source.text.toList formatted.toList).1,
    SourceFile.slice_eq_some.2 ⟨String.ofList front, String.ofList back, ?_, ?_, ?_⟩, ?_⟩
  · rw [← String.ofList_append, ← String.ofList_append, ← horiginal, String.ofList_toList]
  · rw [hstart, byteLength_ofList]
  · rw [hstart, hstop, byteLength_ofList]
  · intro hsame
    have hparts := String.ofList_injective hsame
    rw [hparts, ← hformatted] at horiginal
    exact hne (String.toList_inj.1 horiginal)

end

variable {formatted} {range : TextRange} {before part after replacement : String}

section

variable (hsize : byteLength source.text < 2 ^ 32)
  (htext : source.text = before ++ part ++ after)
  (hformatted : formatted = before ++ replacement ++ after)
include hsize htext hformatted

/-- What the two texts share before the range is not part of the edit. -/
theorem le_differingEdit_start (hstart : range.start.toNat = byteLength before) :
    range.start ≤ (differingEdit source formatted).range.start := by
  have hbefore : before.toList <+: commonPrefix source.text.toList formatted.toList := by
    apply prefix_commonPrefix
    · rw [htext, String.append_assoc, String.toList_append]
      exact prefix_append _ _
    · rw [hformatted, String.append_assoc, String.toList_append]
      exact prefix_append _ _
  rw [UInt32.le_iff_toNat_le, hstart, differingEdit_start formatted hsize, byteLength_eq]
  exact (encodeChars_prefix_mono hbefore).length_le

/-- What follows the range stays out of the edit exactly when the new text does not slide. -/
theorem differingEdit_stop_le_iff (hstop : range.stop.toNat = byteLength before + byteLength part)
    (hne : source.text ≠ formatted) : (differingEdit source formatted).range.stop ≤ range.stop ↔
      ¬ Slides part.toList replacement.toList after.toList := by
  have hparts : part.toList ≠ replacement.toList := by
    intro hsame
    rw [htext, hformatted, String.toList_inj.1 hsame] at hne
    exact hne rfl
  have htext' : source.text.toList = before.toList ++ (part.toList ++ after.toList) := by
    rw [htext, String.toList_append, String.toList_append, append_assoc]
  have hformatted' : formatted.toList = before.toList ++ (replacement.toList ++ after.toList) := by
    rw [hformatted, String.toList_append, String.toList_append, append_assoc]
  obtain ⟨front, back, horiginal, -, hfront, hback⟩ :=
    exists_differing source.text.toList formatted.toList
  have hfront' := hfront
  rw [htext', hformatted'] at hfront'
  have hslides := suffix_back_iff_not_slides before.toList hparts hfront'
  rw [← htext', ← hformatted', ← hback] at hslides
  rw [← hslides, UInt32.le_iff_toNat_le, differingEdit_stop formatted hsize, hstop, ← hfront,
    byteLength_eq, byteLength_eq]
  have hback' : back <:+ source.text.toList := horiginal ▸ suffix_append _ _
  have hafter : after.toList <:+ source.text.toList := by
    rw [htext', ← append_assoc]
    exact suffix_append _ _
  have hlengths := congrArg (fun text ↦ (encodeChars text).length) (horiginal.symm.trans htext')
  simp only [length_encodeChars_append] at hlengths
  constructor
  · intro hle
    exact suffix_of_length_le hafter hback' (by omega)
  · intro hsuffix
    have := (encodeChars_suffix_mono hsuffix).length_le
    omega

end

/-- A request whose effective range is `range` and whose preliminary checks the output passes; the
file is one the database holds. -/
structure Renders (request : FormatRequest) (range : TextRange) (formatted : String) : Prop where
  admitted : Admitted request ⟨[], formatted, formatted != request.source.text, range⟩
  bounded : byteLength request.source.text < 2 ^ 32

/-- `minimalEdit` ends without a panic, with no edit exactly for an unchanged text and otherwise with
one edit inside the range that makes the new text, and the edits pass sealing. -/
structure ExactEdits (request : FormatRequest) (range : TextRange) (formatted : String)
    (edits : List TextEdit) : Prop where
  found : minimalEdit request.source formatted request.options.maximumOutputBytes = .ok edits
  empty_iff : edits = [] ↔ formatted = request.source.text
  one : formatted ≠ request.source.text → ∃ edit, edits = [edit] ∧
    Applies 0 request.source.text [edit] formatted ∧ range.start ≤ edit.range.start ∧
      edit.range.start ≤ edit.range.stop ∧ edit.range.stop ≤ range.stop
  accepted : sealFormatOutput request ⟨edits, formatted, !edits.isEmpty, range⟩ =
    .ok ⟨edits, formatted, range⟩

/-- Sealing ends without a panic, and what it accepts is exact. -/
structure ExactSeal (request : FormatRequest) (candidate : FormatOutputCandidate) : Prop where
  ends : sealFormatOutput request candidate ≠ .error .panicked
  exact : ∀ output, sealFormatOutput request candidate = .ok output →
    request.effectiveRange = .ok output.effectiveRange ∧
    output.edits.Pairwise (fun first second ↦ first.range.stop ≤ second.range.start) ∧
    (∀ edit ∈ output.edits, output.effectiveRange.start ≤ edit.range.start ∧
      edit.range.start ≤ edit.range.stop ∧ edit.range.stop ≤ output.effectiveRange.stop ∧
      ∃ original, request.source.slice edit.range = some (some original) ∧
        original ≠ edit.replacement) ∧
    Applies 0 request.source.text output.edits output.formatted

theorem exactSeal_iff (request : FormatRequest) (candidate : FormatOutputCandidate) :
    ExactSeal request candidate ↔ ¬ MeetsReversed request candidate := by
  rw [← sealFormatOutput_eq_panicked]
  refine ⟨ExactSeal.ends, fun hends ↦ ⟨hends, fun output houtput ↦ ?_⟩⟩
  obtain ⟨hadmitted, haccepted, -, happlies, -, -, rfl⟩ := sealFormatOutput_eq_ok.1 houtput
  refine ⟨hadmitted.range, haccepted.ordered, fun edit hedit ↦ ?_, happlies⟩
  have hfits := haccepted.fits edit hedit
  exact ⟨hfits.start_le, hfits.start_le_stop, hfits.le_stop, hfits.changes⟩

variable {request : FormatRequest}

theorem Renders.minimalEdit (h : Renders request range formatted) :
    minimalEdit request.source formatted request.options.maximumOutputBytes =
      .ok (if request.source.text = formatted then [] else [differingEdit request.source formatted]) :=
  minimalEdit_eq h.bounded h.admitted.size

/-- An unchanged text passes with no edits. -/
theorem Renders.sealUnchanged (h : Renders request range formatted)
    (hsame : request.source.text = formatted) :
    sealFormatOutput request ⟨[], formatted, false, range⟩ = .ok ⟨[], formatted, range⟩ := by
  have hchanged : (formatted != request.source.text) = false := by simp [hsame]
  have hadmitted := h.admitted
  rw [hchanged] at hadmitted
  refine sealFormatOutput_eq_ok.2 ⟨hadmitted, accepted_nil _, Nat.zero_le _, ?_, hchanged.symm, rfl,
    rfl⟩
  rw [hsame]
  exact .nil 0 formatted

/-- The edit of a changed text passes exactly when it lies inside the range and keeps the line
endings. -/
theorem Renders.sealChanged (h : Renders request range formatted)
    (hne : request.source.text ≠ formatted)
    (hstart : range.start ≤ (differingEdit request.source formatted).range.start) :
    sealFormatOutput request ⟨[differingEdit request.source formatted], formatted, true, range⟩ =
        .ok ⟨[differingEdit request.source formatted], formatted, range⟩ ↔
      (differingEdit request.source formatted).range.stop ≤ range.stop ∧
        (request.range.isSome = true →
          lineEndingsMatch (differingEdit request.source formatted).replacement
            request.options.lineEnding = true) := by
  rw [sealFormatOutput_eq_ok]
  constructor
  · rintro ⟨-, haccepted, -⟩
    have hfits := haccepted.fits _ mem_cons_self
    exact ⟨hfits.le_stop, hfits.endings⟩
  · rintro ⟨hstop, hendings⟩
    have hadmitted := h.admitted
    have hcount : 1 ≤ request.options.maximumEdits.toNat := by
      have hvalid := hadmitted.options
      simp only [FormatOptions.validate, unit_bind_eq_ok, returnIf_eq_ok,
        beq_eq_false_iff_ne] at hvalid
      exact Nat.pos_of_ne_zero fun hzero ↦ hvalid.2.2.2 (UInt32.toNat_inj.1 hzero)
    have hbytes : byteLength (differingEdit request.source formatted).replacement ≤
        byteLength formatted := by
      obtain ⟨front, back, -, hformatted, -⟩ :=
        exists_differing request.source.text.toList formatted.toList
      have hlength := byteLength_eq formatted
      conv at hlength => rhs; rw [hformatted, length_encodeChars_append, length_encodeChars_append]
      rw [differingEdit, byteLength_ofList]
      omega
    refine ⟨⟨hadmitted.options, hadmitted.file, hadmitted.digest, hadmitted.recovered,
      hadmitted.range, hadmitted.size, hadmitted.policy, hcount⟩,
      accepted_cons.2 ⟨⟨rfl, hstart, hstop, differingEdit_changes formatted h.bounded hne, hendings⟩,
        by simp [UInt32.le_iff_toNat_le], accepted_nil _⟩, ?_,
      differingEdit_applies formatted h.bounded, ?_, rfl, rfl⟩
    · simpa [replacementBytes] using hbytes.trans hadmitted.size
    · simpa using hne.symm

/-- Everything else about the edits follows from their passing. -/
theorem Renders.exactEdits_iff (h : Renders request range formatted) :
    ExactEdits request range formatted edits ↔
      edits = (if request.source.text = formatted then [] else
        [differingEdit request.source formatted]) ∧
      sealFormatOutput request ⟨edits, formatted, !edits.isEmpty, range⟩ =
        .ok ⟨edits, formatted, range⟩ := by
  constructor
  · intro hexact
    exact ⟨Except.ok.inj (hexact.found.symm.trans h.minimalEdit), hexact.accepted⟩
  · rintro ⟨rfl, haccepted⟩
    refine ⟨h.minimalEdit, ?_, fun hne ↦ ?_, haccepted⟩
    · by_cases hsame : request.source.text = formatted
      · simp [hsame]
      · simp [hsame, Ne.symm hsame]
    · rw [if_neg (Ne.symm hne)] at haccepted ⊢
      obtain ⟨-, hpasses, -, happlies, -⟩ := sealFormatOutput_eq_ok.1 haccepted
      have hfits := hpasses.fits _ mem_cons_self
      exact ⟨_, rfl, happlies, hfits.start_le, hfits.start_le_stop, hfits.le_stop⟩

/-- The edits of a rendered range are exact and accepted if and only if the new text does not slide
along what follows the range and, for a range request, the part of the output that differs from the
source keeps the line endings; sealing is exact if and only if it meets no reversed range. -/
theorem format_edits_exact (request : FormatRequest) :
    (∀ (range : TextRange) (before part replacement after : String),
      request.source.text = before ++ part ++ after →
      range.start.toNat = byteLength before →
      range.stop.toNat = byteLength before + byteLength part →
      Renders request range (before ++ replacement ++ after) →
      ((∃ edits, ExactEdits request range (before ++ replacement ++ after) edits) ↔
        ¬ Slides part.toList replacement.toList after.toList ∧
          (request.range.isSome = true → lineEndingsMatch
            (String.ofList (differing request.source.text.toList
              (before ++ replacement ++ after).toList).2) request.options.lineEnding = true))) ∧
    ∀ candidate : FormatOutputCandidate,
      ExactSeal request candidate ↔ ¬ MeetsReversed request candidate := by
  refine ⟨?_, exactSeal_iff request⟩
  intro range before part replacement after htext hstart hstop hrenders
  generalize hformatted : before ++ replacement ++ after = formatted at hrenders ⊢
  simp only [hrenders.exactEdits_iff, exists_eq_left]
  by_cases hsame : request.source.text = formatted
  · have hpart : part = replacement := by
      have hwhole := htext.symm.trans (hsame.trans hformatted.symm)
      rw [String.append_assoc, String.append_assoc] at hwhole
      have hjoin := congrArg String.toList (append_inj_of_byteLength hwhole rfl).2
      rw [String.toList_append, String.toList_append] at hjoin
      exact String.toList_inj.1 (append_cancel_right hjoin)
    rw [if_pos hsame, hpart, hsame, differing_self]
    refine iff_of_true (hrenders.sealUnchanged hsame) ⟨not_slides_self, fun _ ↦ ?_⟩
    cases request.options.lineEnding <;> decide
  · have hinside := le_differingEdit_start hrenders.bounded htext hformatted.symm hstart
    rw [if_neg hsame,
      ← differingEdit_stop_le_iff hrenders.bounded htext hformatted.symm hstop hsame]
    exact hrenders.sealChanged hsame hinside

def repeatedSource : SourceFile := ⟨⟨0⟩, "a.wrela", "abb", .repeated 0, lineStarts "abb"⟩

/-- A request to format the middle letter of `abb`. -/
def repeatedRequest : FormatRequest where
  parsed := ⟨⟨0⟩, .repeated 0, true, [⟨0, 3⟩, ⟨1, 2⟩]⟩
  source := repeatedSource
  options := .default
  range := some ⟨1, 2⟩

theorem renders_repeatedRequest (replacement : String) (h : byteLength replacement ≤ 100) :
    Renders repeatedRequest ⟨1, 2⟩ ("a" ++ replacement ++ "b") := by
  have hrange : repeatedRequest.effectiveRange = .ok ⟨1, 2⟩ := by decide
  refine ⟨⟨by decide, rfl, rfl, rfl, hrange, ?_, nofun, Nat.zero_le _⟩, by decide⟩
  have hlimit : repeatedRequest.options.maximumOutputBytes.toNat = 268435456 := by decide
  have hletters : byteLength "a" = 1 ∧ byteLength "b" = 1 := by decide
  rw [hlimit, byteLength_append, byteLength_append, hletters.1, hletters.2]
  omega

theorem format_edits_exact_repeated :
    (∃ edits, ExactEdits repeatedRequest ⟨1, 2⟩ ("a" ++ "cb" ++ "b") edits) ∧
      ExactSeal repeatedRequest ⟨[], "abb", false, ⟨0, 3⟩⟩ := by
  constructor
  · refine ((format_edits_exact repeatedRequest).1 ⟨1, 2⟩ "a" "b" "cb" "b" (by decide) (by decide)
      (by decide) (renders_repeatedRequest "cb" (by decide))).2 ⟨?_, fun _ ↦ by decide⟩
    rintro ⟨letter, rest, more, -, h | h⟩ <;> simp at h
  · refine ((format_edits_exact _).2 _).2 fun hmeets ↦ ?_
    have hpanic := sealFormatOutput_eq_panicked.2 hmeets
    revert hpanic
    decide

/-- Doubling the letter is an insertion after the next one, which sealing refuses; and a reversed
edit makes sealing panic. -/
theorem format_edits_repeated :
    (Renders repeatedRequest ⟨1, 2⟩ ("a" ++ "bb" ++ "b") ∧
      ¬ ∃ edits, ExactEdits repeatedRequest ⟨1, 2⟩ ("a" ++ "bb" ++ "b") edits) ∧
    ¬ ExactSeal repeatedRequest ⟨[⟨⟨0⟩, ⟨2, 1⟩, ""⟩], "abb", false, ⟨1, 2⟩⟩ := by
  refine ⟨⟨renders_repeatedRequest "bb" (by decide), ?_⟩, fun h ↦ h.ends (by decide)⟩
  rintro ⟨edits, hexact⟩
  have hedits : minimalEdit repeatedRequest.source ("a" ++ "bb" ++ "b")
      repeatedRequest.options.maximumOutputBytes = .ok [⟨⟨0⟩, ⟨3, 3⟩, "b"⟩] := by decide
  obtain rfl : [⟨⟨0⟩, ⟨3, 3⟩, "b"⟩] = edits := Except.ok.inj (hedits.symm.trans hexact.found)
  have haccepted := hexact.accepted
  revert haccepted
  decide

end Wrela.Formatter
