import Wrela.Syntax.LexemeLaws

/-!
# Laws of interpolated strings

A token of any kind advances within its line, also an interpolated string with all the tokens of its
expressions.  The one diagnostic that looks back is that of an unterminated interpolated string: it
covers whole literals of the expressions, so it is about none of them.
-/

namespace Wrela.Syntax

open List Wrela.Source Wrela.StateRuns

variable {U : Unicode} {limits : ParseLimits} {state after : Scanner} {others : List Char}

theorem advances_scanEscape (h : Sound state) (hrest : state.rest = '\\' :: others) :
    Advances (scanEscape limits byteString) state := by
  refine Leads.mono (leads_scanEscape hrest) fun text after hafter ↦ ?_
  obtain ⟨reports, hemits, htext, _, hspans⟩ := hafter
  have hne : text ≠ [] := by
    rw [htext]
    exact cons_ne_nil _ _
  have hpos := textBytes_pos hne
  have hposition := hemits.position
  refine ⟨⟨⟨text, [], reports, hemits.toMoves, not_mem_nil, not_mem_nil⟩, hemits.layout⟩,
    h.moves hemits.toMoves (forall_mem_nil _) ?_, ?_⟩
  · intro diagnostic hmem _
    obtain ⟨_, hstart, hstop⟩ := hspans diagnostic hmem
    exact ⟨hstart.ge, by omega, hstop.le⟩
  · have hlength := length_pos_iff.mpr hne
    rw [hemits.rest, length_append]
    omega

/-- Every literal token lies on one side of the position. -/
def Split (position : ℕ) (state : Scanner) : Prop :=
  ∀ token ∈ state.tokens, (literalKind token.kind).isSome = true →
    token.stop ≤ position ∨ position < token.start

theorem Sound.split (h : Sound state) : Split state.position state := by
  intro token hmem hliteral
  obtain ⟨kind, hkind⟩ := Option.isSome_iff_exists.mp hliteral
  exact .inl (h.literals token hmem kind hkind).1

theorem Split.inline (h : Split position state) (hinline : Inline state after)
    (hlt : position < state.position) : Split position after := by
  obtain ⟨text, kinds, reports, hmoves, _⟩ := hinline.moves
  obtain ⟨added, htokens, _, hstart⟩ := hmoves.tokens
  intro token hmem hliteral
  rw [htokens, mem_append] at hmem
  cases hmem with
  | inl hmem => exact h token hmem hliteral
  | inr hmem => exact .inr (hlt.trans_le (hstart token hmem hliteral))

section

variable (h : Sound state)
include h

theorem keeps_reportUnterminated {literalStart : ℕ} (hsplit : Split literalStart state)
    (hlt : literalStart < state.position) (message : String) :
    Keeps (error limits "syntax-unterminated-literal" literalStart state.position message) state := by
  refine Leads.mono (leads_error _ _ _ _) fun _ after hafter ↦ ?_
  have hposition : after.position = state.position := hafter.position
  obtain ⟨added, htokens, hadded, _⟩ := hafter.tokens
  rw [map_eq_nil_iff] at hadded
  rw [hadded, append_nil] at htokens
  refine ⟨⟨⟨_, _, _, hafter.toMoves, not_mem_nil, not_mem_nil⟩, hafter.layout⟩, ?_, ?_⟩
  · intro token hmem kind hkind
    rw [htokens] at hmem
    obtain ⟨hstop, hjudged⟩ := h.literals token hmem kind hkind
    rw [hposition, hafter.diagnostics]
    refine ⟨hstop, hjudged.append fun diagnostic hdiagnostic habout ↦ ?_⟩
    rw [mem_singleton.mp hdiagnostic] at habout
    obtain ⟨_, hstart, hend⟩ := habout
    have hsides := hsplit token hmem (hkind ▸ rfl)
    simp only at hstart hend
    omega
  · intro diagnostic hmem hcode
    rw [hafter.diagnostics, mem_append] at hmem
    rw [hposition]
    cases hmem with
    | inl hmem => exact h.diagnostics diagnostic hmem hcode
    | inr hmem =>
      rw [mem_singleton.mp hmem]
      exact ⟨hlt, le_rfl⟩

theorem stays_pushInterpolationText (start : ℕ) (text : List Char) :
    Stays (pushInterpolationText limits start text) state :=
  leads_ite (fun _ ↦ stays_pure h ()) fun _ ↦ stays_pushPhysical h (by decide) _ _ _ _

theorem keeps_unterminatedInterpolation (hsplit : Split literalStart state)
    (hlt : literalStart < state.position) (textStart : ℕ) (text : List Char) :
    Keeps (unterminatedInterpolation limits literalStart textStart text) state := by
  refine (stays_pushInterpolationText h _ _).keeps.bindFrom fun _ after hinline hafter ↦ ?_
  exact leads_get_bind (keeps_reportUnterminated hafter (hsplit.inline hinline hlt)
    (hlt.trans_le hinline.position_le) _)

theorem keeps_unmatchedOpeningBrace (opening : ℕ) :
    Keeps (unmatchedOpeningBrace limits opening) state :=
  leads_get_bind (keeps_error h (by decide) _ _ _)

theorem keeps_formatLoop (turns : ℕ) (text : List Char) (hturns : state.rest.length < turns) :
    Keeps (formatLoop limits turns text) state := by
  induction turns generalizing state text with
  | zero => exact absurd hturns (Nat.not_lt_zero _)
  | succ turns ih =>
    refine leads_get_bind ?_
    split
    · exact keeps_pure h _
    · rename_i character others hrest
      have hne : state.rest ≠ [] := by simp [hrest]
      refine leads_ite (fun _ ↦ keeps_pure h _) fun _ ↦ ?_
      refine (Stays.bindFrom (stays_whenever h fun _ ↦ stays_error h (by decide) _ _ _)
        fun _ first _ hfirst hsoundFirst ↦ ?_).keeps
      refine Stays.bindFrom (stays_whenever hsoundFirst fun _ ↦ stays_error hsoundFirst (by decide) _ _ _)
        fun _ second _ hsecond hsoundSecond ↦ ?_
      have hne' : second.rest ≠ [] := by rwa [hsecond, hfirst]
      refine (advances_consume hsoundSecond hne' Nat.one_pos).bindFrom fun _ after _ hlt hafter ↦ ?_
      refine ih hafter _ ?_
      rw [hsecond, hfirst] at hlt
      omega

theorem keeps_pushFormat (start : ℕ) (text : List Char) :
    Keeps (pushFormat limits start text) state :=
  leads_ite (fun _ ↦ keeps_error h (by decide) _ _ _) fun _ ↦
    keeps_pushPhysical h (by decide) _ _ _ _

theorem keeps_scanInterpolationFormat (opening : ℕ) :
    Keeps (scanInterpolationFormat limits opening) state := by
  refine leads_get_bind ((keeps_formatLoop h _ _ (Nat.lt_succ_self _)).bind fun _ _ hloop ↦ ?_)
  refine (keeps_pushFormat hloop _ _).bind fun _ _ hformat ↦ ?_
  refine leads_get_bind (leads_ite (fun _ ↦ ?_) fun _ ↦ keeps_unmatchedOpeningBrace hformat _)
  exact (keeps_consume hformat 1).bind fun _ _ hclosing ↦
    keeps_pushPhysical hclosing (by decide) _ _ _ _

end

theorem startsWithText_pair (htext : text.toList = [first, second])
    (h : startsWithText text state.rest = true) :
    ∃ others, state.rest = first :: second :: others := by
  rw [startsWithText, htext, isPrefixOf_iff_prefix] at h
  obtain ⟨others, hothers⟩ := h
  exact ⟨others, hothers.symm⟩

/-- A token advances, when a nested interpolated string does. -/
theorem advances_scanToken (h : Sound state) (hrest : state.rest ≠ [])
    (hinterpolated : Advances interpolated state) :
    Advances (scanToken U limits interpolated) state := by
  refine leads_get_bind ?_
  split
  · exact absurd ‹state.rest = []› hrest
  · rename_i character others hcharacter
    refine leads_ite (fun hblank ↦ advances_scanHorizontalSpace h hcharacter hblank) fun _ ↦ ?_
    refine leads_ite (fun hcomment ↦ advances_scanComment h (hcomment ▸ hcharacter)) fun _ ↦ ?_
    refine leads_ite (fun hbytes ↦ ?_) fun _ ↦ ?_
    · obtain ⟨tail, htail⟩ := startsWithText_pair rfl hbytes
      have hopening : state.rest.take 2 = openingOf .byteString := by
        rw [htail]
        rfl
      have hplain : isTripleQuoted state.rest = false := by
        rw [htail]
        rfl
      exact advances_scanQuoted h rfl rfl hopening hplain
    refine leads_ite (fun _ ↦ hinterpolated) fun _ ↦ ?_
    refine leads_ite (fun htriple ↦ advances_scanReservedTripleQuoted h htriple) fun htriple ↦ ?_
    have hplain : isTripleQuoted state.rest = false := Bool.eq_false_of_not_eq_true htriple
    refine leads_ite (fun hquote ↦ ?_) fun _ ↦ ?_
    · have hopening : state.rest.take 1 = openingOf .string := by
        rw [hcharacter, hquote]
        rfl
      exact advances_scanQuoted h rfl rfl hopening hplain
    refine leads_ite (fun hquote ↦ ?_) fun _ ↦ ?_
    · have hopening : state.rest.take 1 = openingOf .character := by
        rw [hcharacter, hquote]
        rfl
      exact advances_scanQuoted h rfl rfl hopening hplain
    refine leads_ite (fun hdigit ↦ advances_scanNumber h hcharacter hdigit) fun _ ↦ ?_
    iterate 2 refine leads_ite (fun _ ↦ advances_scanIdentifier h hrest) fun _ ↦ ?_
    refine leads_ite (fun _ ↦ ?_) fun _ ↦ advances_scanPunctuationOrError h hrest
    exact (advances_consume h hrest Nat.one_pos).bind fun _ _ hafter ↦
      keeps_pushPhysical hafter (by decide) _ _ _ _

theorem advances_scanInterpolationExpressionToken (h : Sound state) (hrest : state.rest ≠ [])
    (hinterpolated : Advances interpolated state) (delimiterBase : ℕ) :
    Advances (scanInterpolationExpressionToken U limits interpolated delimiterBase) state := by
  refine leads_get_bind (leads_ite (fun _ ↦ ?_) fun _ ↦ advances_scanToken h hrest hinterpolated)
  refine (advances_consume h hrest Nat.one_pos).bind fun _ _ hclosing ↦ ?_
  refine (keeps_error hclosing (by decide) _ _ _).bind fun _ _ hafter ↦ ?_
  exact keeps_pushPhysical hafter ⟨rfl, TokenKind.noConfusion, TokenKind.noConfusion⟩ _ _ _ _

def Scanner.withDepth (state : Scanner) (depth : ℕ) : Scanner :=
  { state with interpolationDepth := depth }

theorem Sound.withDepth (h : Sound state) (depth : ℕ) : Sound (state.withDepth depth) :=
  ⟨h.literals, h.diagnostics⟩

theorem Scanner.withDepth_inline (state : Scanner) (depth : ℕ) :
    Inline state (state.withDepth depth) :=
  ⟨⟨[], [], [], ⟨rfl, rfl, ⟨[], (append_nil _).symm, rfl, forall_mem_nil _⟩,
    (append_nil _).symm⟩, not_mem_nil, not_mem_nil⟩, rfl⟩

/-- An interpolated string advances, when its loop works after the opening quote. -/
theorem advances_scanInterpolatedWith (h : Sound state) (hrest : state.rest ≠ [])
    (hloop : ∀ after, Sound after → after.rest.length < state.rest.length →
      state.position < after.position → Split state.position after →
      Keeps (loop state.position) after) : Advances (scanInterpolatedWith limits loop) state := by
  refine leads_get_bind (leads_limitTo_bind _ _ (leads_modify_bind (leads_consume_bind ?_)))
  generalize hopened : Scanner.skip _ _ = opened
  have hsound : Sound opened := by
    rw [← hopened]
    exact (h.withDepth _).skip 2
  have hinline : Inline state opened := by
    rw [← hopened]
    exact (state.withDepth_inline _).trans (Scanner.skip_inline _ 2)
  have hlt : opened.rest.length < state.rest.length := by
    rw [← hopened]
    exact state.skip_length_lt hrest Nat.two_pos
  have hpos : state.position < opened.position := by
    have htake : state.rest.take 2 ≠ [] := by simp [hrest]
    rw [← hopened]
    exact Nat.lt_add_of_pos_right (textBytes_pos htake)
  have hsplit : Split state.position opened := by
    rw [← hopened]
    exact h.split
  refine Leads.mono (Keeps.bindFrom (stays_pushPhysical hsound (by decide) _ _ _ _).keeps
    fun _ middle hmoved hmiddle ↦ ?_) fun _ after hafter ↦
      ⟨hinline.trans hafter.1, hafter.2, hafter.1.length_le.trans_lt hlt⟩
  exact (hloop middle hmiddle (hmoved.length_le.trans_lt hlt) (hpos.trans_le hmoved.position_le)
    (hsplit.inline hmoved hpos)).bind fun _ after hafter ↦
      leads_modify ⟨after.withDepth_inline _, hafter.withDepth _⟩

/-- The loop over an interpolated string works with the given number of turns. -/
def LoopKeeps (U : Unicode) (limits : ParseLimits) (turns : ℕ) : Prop :=
  ∀ state literalStart textStart text, Sound state → state.rest.length < turns →
    literalStart < state.position → Split literalStart state →
      Keeps (interpolatedLoop U limits turns literalStart textStart text) state

/-- The loop over an expression works with the given number of turns. -/
def ValueKeeps (U : Unicode) (limits : ParseLimits) (turns : ℕ) : Prop :=
  ∀ state value basePipeCount, Sound state → state.rest.length < turns →
    Keeps (interpolationValueLoop U limits turns value basePipeCount) state

theorem LoopKeeps.succ (hloop : LoopKeeps U limits turns) (hvalue : ValueKeeps U limits turns) :
    LoopKeeps U limits (turns + 1) := by
  intro state literalStart textStart text h hturns hlt hsplit
  rw [interpolatedLoop]
  -- what every piece of text leaves for the rest of the loop
  have hnext {α : Type} {run : Scan α} {next : α → List Char} (hrun : Advances run state) :
      Keeps (run >>= fun value ↦
        interpolatedLoop U limits turns literalStart textStart (next value)) state :=
    (hrun.bindFrom fun value after hinline hless hafter ↦ hloop after _ _ _ hafter (by omega)
      (hlt.trans_le hinline.position_le) (hsplit.inline hinline hlt)).keeps
  refine leads_get_bind ?_
  split
  · exact keeps_unterminatedInterpolation h hsplit hlt _ _
  · rename_i character others hrest
    have hne : state.rest ≠ [] := by simp [hrest]
    refine leads_ite (fun _ ↦ keeps_unterminatedInterpolation h hsplit hlt _ _) fun _ ↦ ?_
    refine leads_ite (fun _ ↦ ?_) fun _ ↦ ?_
    · refine (stays_pushInterpolationText h _ _).keeps.bind fun _ _ htext ↦ ?_
      exact (keeps_consume htext 1).bind fun _ _ hquote ↦ keeps_pushPhysical hquote (by decide) _ _ _ _
    refine leads_ite (fun hescape ↦ ?_) fun _ ↦ ?_
    · exact hnext (advances_scanEscape h (hescape ▸ hrest))
    refine leads_ite (fun _ ↦ hnext (advances_consume h hne Nat.two_pos)) fun _ ↦ ?_
    refine leads_ite (fun _ ↦ ?_) fun _ ↦ ?_
    · refine ((stays_pushInterpolationText h _ _).bindFrom fun _ first hfirst hsame hsound ↦ ?_).keeps
      have hneFirst : first.rest ≠ [] := by rwa [hsame]
      refine (advances_consume hsound hneFirst Nat.one_pos).bindFrom
        fun _ second hsecond hless hsound ↦ ?_
      rw [hsame] at hless
      have hbrace : IsPlain (.punctuation .leftBrace) := by decide
      refine (stays_pushPhysical hsound hbrace _ _ _ _).keeps.bindFrom fun _ third hthird hsound ↦ ?_
      have hlength := hthird.length_le
      refine leads_get_bind ((hvalue third _ _ hsound (by omega)).bindFrom
        fun _ fourth hfourth hsound ↦ leads_get_bind ?_)
      have hwhole := ((hfirst.trans hsecond).trans hthird).trans hfourth
      have hlength' := hfourth.length_le
      exact hloop fourth _ _ _ hsound (by omega) (hlt.trans_le hwhole.position_le)
        (hsplit.inline hwhole hlt)
    refine leads_ite (fun _ ↦ hnext (advances_consume h hne Nat.two_pos)) fun _ ↦ ?_
    refine ((stays_whenever h fun _ ↦ stays_error h (by decide) _ _ _).bindFrom
      fun _ first hfirst hsame hsound ↦ ?_).keeps
    have hneFirst : first.rest ≠ [] := by rwa [hsame]
    refine (advances_consume hsound hneFirst Nat.one_pos).bindFrom
      fun _ second hsecond hless hsound ↦ ?_
    have hwhole := hfirst.trans hsecond
    rw [hsame] at hless
    exact hloop second _ _ _ hsound (by omega) (hlt.trans_le hwhole.position_le)
      (hsplit.inline hwhole hlt)

theorem ValueKeeps.succ (hloop : LoopKeeps U limits turns) (hvalue : ValueKeeps U limits turns) :
    ValueKeeps U limits (turns + 1) := by
  intro state value basePipeCount h hturns
  rw [interpolationValueLoop]
  refine leads_get_bind (leads_ite (fun _ ↦ ?_) fun hmore ↦ ?_)
  · have hcut : Keeps (modify fun state ↦ state.withDelimiters
        (state.delimiters.drop (state.delimiters.length - value.delimiterBase))) state :=
      leads_modify ⟨state.withDelimiters_inline _, h.withDelimiters _⟩
    exact hcut.bind fun _ _ hafter ↦ keeps_unmatchedOpeningBrace hafter _
  have hne : state.rest ≠ [] := fun hnil ↦ hmore (.inl hnil)
  refine leads_ite (fun _ ↦ ?_) fun _ ↦ ?_
  · exact (keeps_consume h 1).bind fun _ _ hclosing ↦
      keeps_pushPhysical hclosing (by decide) _ _ _ _
  refine leads_ite (fun _ ↦ ?_) fun _ ↦ ?_
  · refine (keeps_consume h 1).bind fun _ _ hcolon ↦ ?_
    exact (keeps_pushPhysical hcolon (by decide) _ _ _ _).bind fun _ _ hafter ↦
      keeps_scanInterpolationFormat hafter _
  have hnested : Advances (scanInterpolatedWith limits fun start ↦
      interpolatedLoop U limits turns start (start + 2) []) state :=
    advances_scanInterpolatedWith h hne fun after hafter hless hpos hsplit ↦
      hloop after _ _ _ hafter (by omega) hpos hsplit
  refine ((advances_scanInterpolationExpressionToken h hne hnested _).bindFrom
    fun _ after _ hless hafter ↦ leads_get_bind ?_).keeps
  exact hvalue after _ _ hafter (by omega)

theorem keeps_loops (turns : ℕ) : LoopKeeps U limits turns ∧ ValueKeeps U limits turns := by
  induction turns with
  | zero =>
    constructor
    · intro state literalStart textStart text h hturns
      exact absurd hturns (Nat.not_lt_zero _)
    · intro state value basePipeCount h hturns
      exact absurd hturns (Nat.not_lt_zero _)
  | succ turns ih => exact ⟨ih.1.succ ih.2, ih.2.succ ih.1⟩

theorem advances_scanInterpolated (h : Sound state) (hrest : state.rest ≠ []) :
    Advances (scanInterpolated U limits) state :=
  leads_get_bind (advances_scanInterpolatedWith h hrest fun after hafter hless hpos hsplit ↦
    (keeps_loops _).1 after _ _ _ hafter (hless.trans (Nat.lt_succ_self _)) hpos hsplit)

/-- Every token of the scan advances. -/
theorem advances_scanToken_scanInterpolated (h : Sound state) (hrest : state.rest ≠ []) :
    Advances (scanToken U limits (scanInterpolated U limits)) state :=
  advances_scanToken h hrest (advances_scanInterpolated h hrest)

end Wrela.Syntax
