import Wrela.Formatter.MinimalEdit

/-!
# What sealing accepts

`Applies` says what text a list of edits makes from a source, without copying anything twice.  The
loops of `sealFormatOutput` accept exactly the edits that fit the effective range, are in order and
make the formatted text (`sealFormatOutput_eq_ok`); the only panic is a cut between two boundaries in
the wrong order (`sealFormatOutput_panicked`).
-/

namespace Wrela.Formatter

open List Wrela.Source Wrela.Wire Wrela.Checked

variable {α β : Type}

/-- The edits, in order, make the last text from the text that begins at byte `offset`. -/
inductive Applies : ℕ → String → List TextEdit → String → Prop where
  | nil (offset : ℕ) (rest : String) : Applies offset rest [] rest
  | cons {offset : ℕ} {kept removed rest result : String} {edit : TextEdit} {edits : List TextEdit}
      (hstart : edit.range.start.toNat = offset + byteLength kept)
      (hstop : edit.range.stop.toNat = edit.range.start.toNat + byteLength removed)
      (happlies : Applies edit.range.stop.toNat rest edits result) :
      Applies offset (kept ++ removed ++ rest) (edit :: edits) (kept ++ edit.replacement ++ result)

theorem bind_eq_panicked {run : Outcome α} {next : α → Outcome β} :
    (run >>= next) = .error .panicked ↔
      run = .error .panicked ∨ ∃ value, run = .ok value ∧ next value = .error .panicked := by
  cases run <;> simp [bind, Except.bind]

theorem unit_bind_eq_panicked {run : Outcome Unit} {next : Unit → Outcome β}
    (h : run ≠ .error .panicked) :
    (run >>= next) = .error .panicked ↔ run = .ok () ∧ next () = .error .panicked := by
  rw [bind_eq_panicked, or_iff_right h, exists_unit]

variable {error : FormatError} {source : SourceFile} {edit : TextEdit} {bytes : ℕ}
  {rest result : String}

theorem returnIf_eq_ok : returnIf bad error = .ok () ↔ bad = false := failIf_eq_ok

theorem returnIf_ne_panicked (bad : Bool) (error : FormatError) :
    returnIf bad error ≠ .error .panicked := by
  cases bad <;> simp [returnIf]

theorem orFail_ne_panicked (slot : Option α) (error : FormatError) :
    orFail slot (.returned error : Halt) ≠ .error .panicked := by
  cases slot <;> simp [orFail]

theorem sliceText_eq_ok {range : TextRange} {text : String} :
    sliceText source range error = .ok text ↔ source.slice range = some (some text) := by
  rw [sliceText]
  cases source.slice range with
  | none => simp [orFail]
  | some slice => cases slice <;> simp [orFail]

theorem sliceText_eq_panicked {range : TextRange} :
    sliceText source range error = .error .panicked ↔ Reversed source range := by
  rw [← SourceFile.slice_eq_none, sliceText]
  cases source.slice range with
  | none => simp [orFail]
  | some slice => cases slice <;> simp [orFail]

/-- An edit that changes the text of a range inside the effective one. -/
structure Fits (request : FormatRequest) (effectiveRange : TextRange) (edit : TextEdit) : Prop where
  file : edit.file = request.source.id
  start_le : effectiveRange.start ≤ edit.range.start
  le_stop : edit.range.stop ≤ effectiveRange.stop
  changes : ∃ original, request.source.slice edit.range = some (some original) ∧
    original ≠ edit.replacement
  endings : request.range.isSome = true →
    lineEndingsMatch edit.replacement request.options.lineEnding = true

/-- Fitting edits in order, none before `previousEnd`. -/
structure Accepted (request : FormatRequest) (effectiveRange : TextRange) (previousEnd : UInt32)
    (edits : List TextEdit) : Prop where
  fits : ∀ edit ∈ edits, Fits request effectiveRange edit
  after : ∀ edit ∈ edits, previousEnd ≤ edit.range.start
  ordered : edits.Pairwise fun first second ↦ first.range.stop ≤ second.range.start

variable {request : FormatRequest} {effectiveRange : TextRange}

theorem Fits.start_le_stop (h : Fits request effectiveRange edit) :
    edit.range.start ≤ edit.range.stop := by
  obtain ⟨original, hslice, -⟩ := h.changes
  obtain ⟨front, back, -, -, hlength⟩ := SourceFile.slice_eq_some.1 hslice
  rw [UInt32.le_iff_toNat_le]
  omega

theorem accepted_nil (previousEnd : UInt32) : Accepted request effectiveRange previousEnd [] :=
  ⟨nofun, nofun, .nil⟩

variable {previousEnd : UInt32} {edits : List TextEdit}

theorem accepted_cons :
    Accepted request effectiveRange previousEnd (edit :: edits) ↔
      Fits request effectiveRange edit ∧ previousEnd ≤ edit.range.start ∧
        Accepted request effectiveRange edit.range.stop edits := by
  constructor
  · intro h
    have hordered := pairwise_cons.1 h.ordered
    refine ⟨h.fits _ mem_cons_self, h.after _ mem_cons_self, ?_, hordered.1, hordered.2⟩
    exact fun other hother ↦ h.fits other (mem_cons_of_mem _ hother)
  · intro h
    obtain ⟨hfits, hafter, hrest⟩ := h
    refine ⟨forall_mem_cons.2 ⟨hfits, hrest.fits⟩, forall_mem_cons.2 ⟨hafter, ?_⟩,
      pairwise_cons.2 ⟨hrest.after, hrest.ordered⟩⟩
    intro other hother
    have hstop := hrest.after other hother
    have hspan := hfits.start_le_stop
    rw [UInt32.le_iff_toNat_le] at hafter hstop hspan ⊢
    omega

theorem fits_iff (hslice : request.source.slice edit.range = some (some original))
    (previousEnd : UInt32) :
    Fits request effectiveRange edit ∧ previousEnd ≤ edit.range.start ↔
      (edit.file != request.source.id || edit.range.start < effectiveRange.start ||
        effectiveRange.stop < edit.range.stop || edit.range.start < previousEnd ||
        original == edit.replacement) = false ∧
      (if request.range.isSome then
        validateLineEndings edit.replacement request.options.lineEnding else .ok ()) = .ok () := by
  have hendings : (if request.range.isSome then
      validateLineEndings edit.replacement request.options.lineEnding else .ok ()) = .ok () ↔
      (request.range.isSome = true →
        lineEndingsMatch edit.replacement request.options.lineEnding = true) := by
    cases request.range.isSome <;> simp [validateLineEndings, returnIf]
  rw [hendings]
  simp only [Bool.or_eq_false_iff, bne_eq_false_iff_eq, decide_eq_false_iff_not, UInt32.not_lt,
    beq_eq_false_iff_ne]
  constructor
  · intro h
    obtain ⟨original', hslice', hne⟩ := h.1.changes
    obtain rfl : original = original' := by simpa [hslice] using hslice'
    exact ⟨⟨⟨⟨⟨h.1.file, h.1.start_le⟩, h.1.le_stop⟩, h.2⟩, hne⟩, h.1.endings⟩
  · intro h
    obtain ⟨⟨⟨⟨⟨hfile, hstart⟩, hstop⟩, hafter⟩, hne⟩, hlines⟩ := h
    exact ⟨⟨hfile, hstart, hstop, ⟨original, hslice, hne⟩, hlines⟩, hafter⟩

def replacementBytes (edits : List TextEdit) : ℕ :=
  (edits.map fun edit ↦ byteLength edit.replacement).sum

/-- The loop over the edits accepts them all, or stops before one. -/
theorem checkEdits_eq_ok {total : ℕ} :
    checkEdits request effectiveRange previousEnd bytes edits = .ok total ↔
      Accepted request effectiveRange previousEnd edits ∧
        total = bytes + replacementBytes edits := by
  induction edits generalizing previousEnd bytes with
  | nil =>
    simp [checkEdits, replacementBytes, accepted_nil, eq_comm]
  | cons edit edits ih =>
    rw [checkEdits, bind_eq_ok, accepted_cons]
    simp only [unit_bind_eq_ok, returnIf_eq_ok, ih, sliceText_eq_ok]
    have htotal : bytes + replacementBytes (edit :: edits) =
        bytes + byteLength edit.replacement + replacementBytes edits := by
      simp [replacementBytes, Nat.add_assoc]
    rw [htotal]
    constructor
    · rintro ⟨original, hslice, hvalid, hendings, haccepted, rfl⟩
      have hfits := (fits_iff hslice previousEnd).2 ⟨hvalid, hendings⟩
      exact ⟨⟨hfits.1, hfits.2, haccepted⟩, rfl⟩
    · rintro ⟨⟨hfits, hafter, haccepted⟩, rfl⟩
      obtain ⟨original, hslice, -⟩ := hfits.changes
      have hvalid := (fits_iff hslice previousEnd).1 ⟨hfits, hafter⟩
      exact ⟨original, hslice, hvalid.1, hvalid.2, haccepted, rfl⟩

/-- Checking the line endings of a replacement does not panic. -/
theorem endings_ne_panicked (edit : TextEdit) :
    (if request.range.isSome then
      validateLineEndings edit.replacement request.options.lineEnding else .ok ()) ≠
        .error .panicked := by
  split
  · exact returnIf_ne_panicked _ _
  · nofun

theorem checkEdits_eq_panicked :
    checkEdits request effectiveRange previousEnd bytes edits = .error .panicked ↔
      ∃ accepted edit rest, edits = accepted ++ edit :: rest ∧
        Accepted request effectiveRange previousEnd accepted ∧
          Reversed request.source edit.range := by
  induction edits generalizing previousEnd bytes with
  | nil => simp [checkEdits]
  | cons edit edits ih =>
    rw [checkEdits, bind_eq_panicked, sliceText_eq_panicked]
    simp only [sliceText_eq_ok, unit_bind_eq_panicked (returnIf_ne_panicked _ _),
      unit_bind_eq_panicked (endings_ne_panicked edit), returnIf_eq_ok, ih]
    constructor
    · rintro (hreversed | ⟨original, hslice, hvalid, hendings, accepted, next, rest, rfl, haccepted,
        hreversed⟩)
      · exact ⟨[], edit, edits, rfl, accepted_nil _, hreversed⟩
      · have hfits := (fits_iff hslice previousEnd).2 ⟨hvalid, hendings⟩
        exact ⟨edit :: accepted, next, rest, rfl, accepted_cons.2 ⟨hfits.1, hfits.2, haccepted⟩,
          hreversed⟩
    · rintro ⟨accepted, next, rest, hedits, haccepted, hreversed⟩
      cases accepted with
      | nil =>
        cases hedits
        exact .inl hreversed
      | cons first accepted =>
        cases hedits
        obtain ⟨hfits, hafter, hrest⟩ := accepted_cons.1 haccepted
        obtain ⟨original, hslice, -⟩ := hfits.changes
        have hvalid := (fits_iff hslice previousEnd).1 ⟨hfits, hafter⟩
        exact .inr ⟨original, hslice, hvalid.1, hvalid.2, accepted, next, rest, rfl, hrest,
          hreversed⟩

theorem Applies.editedBytes (h : Applies offset rest edits result) (hle : byteLength rest ≤ bytes) :
    editedBytes bytes edits = .ok (bytes - byteLength rest + byteLength result) := by
  induction h generalizing bytes with
  | nil offset rest =>
    rw [Formatter.editedBytes, Nat.sub_add_cancel hle]
  | @cons offset kept removed rest result edit edits hstart hstop happlies ih =>
    have hremoved : edit.range.stop.toNat - edit.range.start.toNat = byteLength removed := by omega
    simp only [byteLength_append] at hle ⊢
    rw [Formatter.editedBytes, checkedSub, if_pos (by omega), ok_bind, hremoved,
      returnIf, decide_eq_false (by omega), failIf_false, ok_bind, ih (by omega)]
    congr 1
    omega

theorem Applies.replay (h : Applies cursor rest edits result) (hcursor : byteLength before = cursor)
    :
    replay (before ++ rest) cursor edits = .ok result := by
  induction h generalizing before with
  | nil offset rest =>
    have hrest : getText (before ++ rest) offset (byteLength (before ++ rest)) = some rest :=
      getText_eq_some.2 ⟨before, "", by simp, hcursor, by rw [byteLength_append, hcursor]⟩
    rw [Formatter.replay, hrest]
    rfl
  | @cons offset kept removed rest result edit edits hstart hstop happlies ih =>
    have hkept : getText (before ++ (kept ++ removed ++ rest)) offset edit.range.start.toNat =
        some kept :=
      getText_eq_some.2 ⟨before, removed ++ rest, by simp [String.append_assoc], hcursor,
        hstart.symm⟩
    have hrest : before ++ (kept ++ removed ++ rest) = before ++ kept ++ removed ++ rest := by
      simp [String.append_assoc]
    have hlength : byteLength (before ++ kept ++ removed) = edit.range.stop.toNat := by
      simp only [byteLength_append]
      omega
    rw [Formatter.replay, hkept, hrest, ih hlength]
    rfl

/-- What replaying ordered edits copies is what the edits make of the text. -/
theorem applies_of_replay (htext : request.source.text = before ++ rest)
    (hcursor : byteLength before = cursor)
    (haccepted : Accepted request effectiveRange previousEnd edits)
    (h : replay request.source.text cursor edits = .ok result) :
    Applies cursor rest edits result := by
  induction edits generalizing before rest result cursor previousEnd with
  | nil =>
    rw [replay, orFail_eq_ok, getText_eq_some] at h
    obtain ⟨front, back, hsplit, hfront, hlength⟩ := h
    rw [htext, String.append_assoc] at hsplit
    obtain ⟨rfl, rfl⟩ := append_inj_of_byteLength hsplit (hcursor.trans hfront.symm)
    have hback : byteLength back = 0 := by
      rw [htext] at hlength
      simp only [byteLength_append] at hlength
      omega
    rw [byteLength_eq_zero.1 hback, String.append_empty]
    exact .nil _ _
  | cons edit edits ih =>
    obtain ⟨hfits, -, hrest⟩ := accepted_cons.1 haccepted
    obtain ⟨original, hslice, -⟩ := hfits.changes
    obtain ⟨upto, tail, hupto, hstart, hstop⟩ := SourceFile.slice_eq_some.1 hslice
    rw [replay, bind_eq_ok] at h
    obtain ⟨kept, hkept, h⟩ := h
    obtain ⟨copied, hcopied, h⟩ := bind_eq_ok.1 h
    cases h
    obtain ⟨front, back, hsplit, hfront, hlength⟩ := getText_eq_some.1 (orFail_eq_ok.1 hkept)
    rw [htext, String.append_assoc] at hsplit
    obtain ⟨rfl, rfl⟩ := append_inj_of_byteLength hsplit (hcursor.trans hfront.symm)
    have hjoin : before ++ kept ++ back = upto ++ (original ++ tail) := by
      rw [htext] at hupto
      simpa [String.append_assoc] using hupto
    obtain ⟨rfl, rfl⟩ := append_inj_of_byteLength hjoin (by
      rw [byteLength_append, hstart, ← hlength, hcursor])
    have hlength' : byteLength (before ++ kept ++ original) = edit.range.stop.toNat := by
      rw [byteLength_append, hstart, hstop]
    rw [← String.append_assoc]
    exact .cons hlength.symm hstop.symm (ih hupto hlength' hrest hcopied)

/-- The checks made before any edit is looked at. -/
structure Admitted (request : FormatRequest) (candidate : FormatOutputCandidate) : Prop where
  options : request.options.validate = .ok ()
  file : request.parsed.file = request.source.id
  digest : request.parsed.sourceDigest = request.source.digest
  recovered : request.parsed.recoveryComplete = true
  range : request.effectiveRange = .ok candidate.effectiveRange
  size : byteLength candidate.formatted ≤ request.options.maximumOutputBytes.toNat
  policy : request.range = none → validateLinePolicy candidate.formatted request.options = .ok ()
  count : candidate.edits.length ≤ request.options.maximumEdits.toNat

theorem validate_ne_panicked (options : FormatOptions) : options.validate ≠ .error .panicked := by
  unfold FormatOptions.validate
  simp only [ne_eq, unit_bind_eq_panicked (returnIf_ne_panicked _ _), not_and]
  intro _ _ _
  exact returnIf_ne_panicked _ _

theorem policy_ne_panicked (request : FormatRequest) (text : String) :
    (if request.range.isNone then validateLinePolicy text request.options else .ok ()) ≠
      .error .panicked := by
  split
  · simp only [validateLinePolicy, validateLineEndings, ne_eq,
      unit_bind_eq_panicked (returnIf_ne_panicked _ _), not_and]
    intro _
    exact returnIf_ne_panicked _ _
  · nofun

theorem policy_eq_ok :
    (if request.range.isNone then validateLinePolicy text request.options else .ok ()) = .ok () ↔
      (request.range = none → validateLinePolicy text request.options = .ok ()) := by
  cases request.range <;> simp

theorem effectiveRange_eq_panicked :
    request.effectiveRange = .error .panicked ↔
      ∃ range, request.range = some range ∧ Reversed request.source range := by
  unfold FormatRequest.effectiveRange
  cases request.range with
  | none => simp
  | some range =>
    simp only [bind_eq_panicked, sliceText_eq_panicked, Option.some.injEq, exists_eq_left']
    constructor
    · rintro (hreversed | ⟨text, -, hnode⟩)
      · exact hreversed
      · exact absurd hnode (orFail_ne_panicked _ _)
    · exact .inl

theorem replay_ne_panicked (text : String) (cursor : ℕ) (edits : List TextEdit) :
    replay text cursor edits ≠ .error .panicked := by
  induction edits generalizing cursor with
  | nil => exact orFail_ne_panicked _ _
  | cons edit edits ih =>
    rw [replay, ne_eq, bind_eq_panicked]
    rintro (h | ⟨kept, -, h⟩)
    · exact orFail_ne_panicked _ _ h
    · obtain h | ⟨rest, -, h⟩ := bind_eq_panicked.1 h
      · exact ih _ h
      · cases h

theorem editedBytes_ne_panicked (h : ∀ edit ∈ edits, Fits request effectiveRange edit) (bytes : ℕ) :
    editedBytes bytes edits ≠ .error .panicked := by
  induction edits generalizing bytes with
  | nil => nofun
  | cons edit edits ih =>
    obtain ⟨hedit, hedits⟩ := forall_mem_cons.1 h
    have hspan := UInt32.le_iff_toNat_le.1 hedit.start_le_stop
    rw [editedBytes, checkedSub, if_pos hspan, ok_bind, ne_eq,
      unit_bind_eq_panicked (returnIf_ne_panicked _ _)]
    exact fun hrest ↦ ih hedits _ hrest.2

theorem applyEdits_ne_panicked (h : ∀ edit ∈ edits, Fits request effectiveRange edit) (bytes : ℕ) :
    applyEdits source edits bytes ≠ .error .panicked := by
  rw [applyEdits, ne_eq, bind_eq_panicked]
  rintro (hbytes | ⟨total, -, hrest⟩)
  · exact editedBytes_ne_panicked h _ hbytes
  · rw [unit_bind_eq_panicked (returnIf_ne_panicked _ _)] at hrest
    exact replay_ne_panicked _ _ _ hrest.2

/-- Accepted edits make the formatted text exactly when the sizes agree and replaying them gives
it. -/
theorem applyEdits_eq_ok (haccepted : Accepted request effectiveRange 0 edits) :
    applyEdits request.source edits (byteLength formatted) = .ok formatted ↔
      Applies 0 request.source.text edits formatted := by
  constructor
  · intro h
    rw [applyEdits, bind_eq_ok] at h
    obtain ⟨total, -, h⟩ := h
    exact applies_of_replay (String.empty_append).symm rfl haccepted (unit_bind_eq_ok.1 h).2
  · intro h
    have hreplay := h.replay (rfl : byteLength "" = 0)
    rw [String.empty_append] at hreplay
    rw [applyEdits, h.editedBytes le_rfl, ok_bind, unit_bind_eq_ok, returnIf_eq_ok,
      bne_eq_false_iff_eq]
    exact ⟨by omega, hreplay⟩

variable {candidate : FormatOutputCandidate}

theorem sealFormatOutput_eq_ok :
    sealFormatOutput request candidate = .ok output ↔
      Admitted request candidate ∧ Accepted request candidate.effectiveRange 0 candidate.edits ∧
        replacementBytes candidate.edits ≤ request.options.maximumOutputBytes.toNat ∧
        Applies 0 request.source.text candidate.edits candidate.formatted ∧
        candidate.changed = (candidate.formatted != request.source.text) ∧
        candidate.edits.isEmpty = !candidate.changed ∧
        output = ⟨candidate.edits, candidate.formatted, candidate.effectiveRange⟩ := by
  unfold sealFormatOutput
  simp only [bind_eq_ok, exists_unit, returnIf_eq_ok, policy_eq_ok, checkEdits_eq_ok,
    Bool.or_eq_false_iff, bne_eq_false_iff_eq, Bool.not_eq_false', decide_eq_false_iff_not, not_lt,
    beq_eq_false_iff_ne, Except.ok.injEq]
  constructor
  · rintro ⟨hoptions, ⟨hfile, hdigest⟩, hrecovered, _, hrange, rfl, hsize, hpolicy, hcount, _,
      ⟨haccepted, rfl⟩, hbytes, _, happly, ⟨⟨rfl, hchanged⟩, hempty⟩, rfl⟩
    refine ⟨⟨hoptions, hfile, hdigest, hrecovered, hrange, hsize, hpolicy, hcount⟩, haccepted,
      by simpa using hbytes, (applyEdits_eq_ok haccepted).1 happly, hchanged, ?_, rfl⟩
    rw [hchanged]
    cases hempty' : candidate.edits.isEmpty <;>
      cases hne : candidate.formatted != request.source.text <;> simp_all
  · rintro ⟨hadmitted, haccepted, hbytes, happlies, hchanged, hempty, rfl⟩
    refine ⟨hadmitted.options, ⟨hadmitted.file, hadmitted.digest⟩, hadmitted.recovered, _,
      hadmitted.range, rfl, hadmitted.size, hadmitted.policy, hadmitted.count, _, ⟨haccepted, rfl⟩,
      by simpa using hbytes, _, (applyEdits_eq_ok haccepted).2 happlies, ⟨⟨rfl, hchanged⟩, ?_⟩, rfl⟩
    rw [hempty, ← hchanged]
    cases candidate.changed <;> decide

/-- The two ways to panic: a reversed request range, and a reversed edit that the loop reaches. -/
structure MeetsReversed (request : FormatRequest) (candidate : FormatOutputCandidate) : Prop where
  options : request.options.validate = .ok ()
  file : request.parsed.file = request.source.id
  digest : request.parsed.sourceDigest = request.source.digest
  recovered : request.parsed.recoveryComplete = true
  reversed : (∃ range, request.range = some range ∧ Reversed request.source range) ∨
    (Admitted request candidate ∧ ∃ accepted edit rest, candidate.edits = accepted ++ edit :: rest ∧
      Accepted request candidate.effectiveRange 0 accepted ∧ Reversed request.source edit.range)

theorem sealFormatOutput_eq_panicked :
    sealFormatOutput request candidate = .error .panicked ↔ MeetsReversed request candidate := by
  unfold sealFormatOutput
  simp only [unit_bind_eq_panicked (validate_ne_panicked _),
    unit_bind_eq_panicked (returnIf_ne_panicked _ _),
    unit_bind_eq_panicked (policy_ne_panicked _ _), bind_eq_panicked, returnIf_eq_ok, policy_eq_ok,
    effectiveRange_eq_panicked, checkEdits_eq_panicked, checkEdits_eq_ok, Bool.or_eq_false_iff,
    bne_eq_false_iff_eq, Bool.not_eq_false', decide_eq_false_iff_not, not_lt]
  constructor
  · rintro ⟨hoptions, ⟨hfile, hdigest⟩, hrecovered, hrange | ⟨_, hrange, rfl, hsize, hpolicy, hcount,
      hedits | ⟨_, ⟨haccepted, -⟩, -, happly | ⟨_, -, -, hresult⟩⟩⟩⟩
    · exact ⟨hoptions, hfile, hdigest, hrecovered, .inl hrange⟩
    · exact ⟨hoptions, hfile, hdigest, hrecovered, .inr
        ⟨⟨hoptions, hfile, hdigest, hrecovered, hrange, hsize, hpolicy, hcount⟩, hedits⟩⟩
    · exact absurd happly (applyEdits_ne_panicked haccepted.fits _)
    · cases hresult
  · intro h
    refine ⟨h.options, ⟨h.file, h.digest⟩, h.recovered, h.reversed.imp_right ?_⟩
    rintro ⟨hadmitted, hedits⟩
    exact ⟨_, hadmitted.range, rfl, hadmitted.size, hadmitted.policy, hadmitted.count, .inl hedits⟩

end Wrela.Formatter
