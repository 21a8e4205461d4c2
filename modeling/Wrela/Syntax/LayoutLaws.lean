import Wrela.Data.Nesting
import Wrela.Syntax.InterpolationLaws

/-!
# Laws of the layout

What the code between the lines does: which tokens it adds, which indentation levels it leaves and how
much text it reads (`Lays`).
-/

namespace Wrela.Syntax

open List Wrela.StateRuns

variable {limits : ParseLimits} {state middle after : Scanner} {text text' : List Char}
  {kinds kinds' : List TokenKind} {layout layout' : Layout} {α β : Type}

/-! ## Steps between the lines -/

/-- A step that adds tokens of the given kinds and leaves the given layout. -/
structure Lays (text : List Char) (kinds : List TokenKind) (layout : Layout)
    (state after : Scanner) : Prop where
  moves : ∃ reports, Moves text kinds reports state after
  sound : Sound after
  layout : after.layout = layout
  delimiters : after.delimiters = state.delimiters

theorem Lays.trans (h : Lays text kinds layout state middle)
    (h' : Lays text' kinds' layout' middle after) :
    Lays (text ++ text') (kinds ++ kinds') layout' state after := by
  obtain ⟨reports, hmoves⟩ := h.moves
  obtain ⟨reports', hmoves'⟩ := h'.moves
  exact ⟨⟨_, hmoves.trans hmoves'⟩, h'.sound, h'.layout, h'.delimiters.trans h.delimiters⟩

theorem Lays.kinds_eq (h : Lays text kinds layout state after) :
    after.tokens.map Token.kind = state.tokens.map Token.kind ++ kinds := by
  obtain ⟨reports, hmoves⟩ := h.moves
  obtain ⟨added, htokens, hkinds, _⟩ := hmoves.tokens
  rw [htokens, map_append, hkinds]

/-- A step that adds no token at all. -/
theorem Lays.tokens_eq (h : Lays text [] layout state after) : after.tokens = state.tokens := by
  obtain ⟨reports, hmoves⟩ := h.moves
  obtain ⟨added, htokens, hkinds, _⟩ := hmoves.tokens
  rw [map_eq_nil_iff] at hkinds
  rw [htokens, hkinds, append_nil]

theorem Lays.rest_eq (h : Lays text kinds layout state after) : state.rest = text ++ after.rest := by
  obtain ⟨reports, hmoves⟩ := h.moves
  exact hmoves.rest

theorem Lays.position_eq (h : Lays text kinds layout state after) :
    after.position = state.position + textBytes text := by
  obtain ⟨reports, hmoves⟩ := h.moves
  exact hmoves.position

theorem Lays.refl (h : Sound state) : Lays [] [] state.layout state state :=
  ⟨⟨[], Moves.refl state⟩, h, rfl, rfl⟩

/-- The state with another layout. -/
def Scanner.withLayout (state : Scanner) (layout : Layout) : Scanner :=
  { state with
    atLineStart := layout.atLineStart
    preparedDedentAt := layout.preparedDedentAt
    hangingHeaderAt := layout.hangingHeaderAt
    hangingHeaderContinuation := layout.hangingHeaderContinuation
    indentation := layout.indentation }

theorem Sound.withLayout (h : Sound state) (layout : Layout) :
    Lays [] [] layout state (state.withLayout layout) where
  moves := ⟨[], rfl, rfl, ⟨[], (append_nil _).symm, rfl, forall_mem_nil _⟩, (append_nil _).symm⟩
  sound := ⟨h.literals, h.diagnostics⟩
  layout := rfl
  delimiters := rfl

theorem Emits.lays (h : Emits text kinds reports state after)
    (hkinds : ∀ kind ∈ kinds, literalKind kind = none)
    (hreports : ReportsWithin reports state after) (hsound : Sound state) :
    Lays text kinds state.layout state after :=
  ⟨⟨reports, h.toMoves⟩, hsound.moves h.toMoves hkinds hreports, h.layout, h.delimiters⟩

theorem Sound.skip_lays (h : Sound state) (count : ℕ) :
    Lays (state.rest.take count) [] state.layout state (state.skip count) :=
  (state.skip_emits count).lays (forall_mem_nil _) (forall_mem_nil _) h

/-- The code makes a step of the given kind. -/
def LeadsLays (run : Scan α) (text : List Char) (kinds : List TokenKind) (layout : Layout)
    (state : Scanner) : Prop :=
  Leads run state (fun _ after ↦ Lays text kinds layout state after) (· ≠ .exhausted)

theorem LeadsLays.bind {run : Scan α} {next : α → Scan β} (h : LeadsLays run text kinds layout state)
    (hnext : ∀ value middle, Lays text kinds layout state middle →
      LeadsLays (next value) text' kinds' layout' middle) :
    LeadsLays (run >>= next) (text ++ text') (kinds ++ kinds') layout' state := by
  refine Leads.bind h fun value middle hmiddle ↦ ?_
  exact Leads.mono (hnext value middle hmiddle) fun _ _ hafter ↦ hmiddle.trans hafter

theorem lays_pure (h : Sound state) (value : α) : LeadsLays (pure value) [] [] state.layout state :=
  leads_pure (.refl h)

theorem lays_modify (h : Sound state) (layout : Layout) (hf : f state = state.withLayout layout) :
    LeadsLays (modify f) [] [] layout state :=
  leads_modify (hf ▸ h.withLayout layout)

theorem lays_set (h : Sound state) (layout : Layout) (hafter : after = state.withLayout layout) :
    LeadsLays (set after) [] [] layout state :=
  leads_set (hafter ▸ h.withLayout layout)

theorem lays_error (h : Sound state) (hcode : code ∉ literalCodes) (start stop : ℕ)
    (message : String) :
    LeadsLays (error limits code start stop message) [] [] state.layout state := by
  refine Leads.mono (leads_error code start stop message) fun _ after hafter ↦
    hafter.lays (forall_mem_nil _) (fun diagnostic hmem habout ↦ ?_) h
  rw [mem_singleton.mp hmem] at habout
  exact absurd habout hcode

theorem lays_whenever [Decidable condition] (h : Sound state)
    (haction : condition → LeadsLays action [] [] state.layout state) :
    LeadsLays (whenever condition action) [] [] state.layout state :=
  leads_ite haction fun _ ↦ lays_pure h ()

theorem Pushes.lays (h : Pushes token state after) (hliteral : literalKind token.kind = none)
    (hsound : Sound state) :
    Lays [] [token.kind] state.layout state after :=
  (h.emits hliteral).lays (fun _ hmem ↦ (mem_singleton.mp hmem) ▸ hliteral)
    (forall_mem_nil _) hsound

theorem lays_pushSynthetic (h : Sound state) (hliteral : literalKind kind = none) (position : ℕ)
    (newlineOrigin : Option NewlineOrigin) :
    LeadsLays (pushSynthetic limits kind position newlineOrigin) [] [kind] state.layout state :=
  Leads.mono (leads_pushSynthetic kind position newlineOrigin) fun _ _ hafter ↦ hafter.lays hliteral h

theorem lays_pushPhysical (h : Sound state) (hliteral : literalKind kind = none) (start : ℕ)
    (text : List Char) (newlineOrigin : Option NewlineOrigin) (spelling : Bool) :
    LeadsLays (pushPhysical limits kind start text newlineOrigin spelling) [] [kind] state.layout
      state :=
  Leads.mono (leads_pushPhysical kind start text newlineOrigin spelling) fun _ _ hafter ↦
    hafter.lays hliteral h

theorem lays_pushTrivia (h : Sound state) (kind : TriviaKind) (start : ℕ) (text : List Char) :
    LeadsLays (pushTrivia kind start text) [] [] state.layout state :=
  Leads.mono (leads_pushTrivia kind start text) fun _ _ hafter ↦
    hafter.lays (forall_mem_nil _) (forall_mem_nil _) h

/-- Repeat code that reads nothing and leaves the layout alone. -/
theorem lays_repeated {action : Scan Unit}
    (haction : ∀ state, Sound state → LeadsLays action [] kinds state.layout state) (h : Sound state)
    (count : ℕ) :
    LeadsLays (repeated count action) [] (List.replicate count kinds).flatten state.layout state := by
  induction count generalizing state with
  | zero => exact lays_pure h ()
  | succ count ih =>
    refine (haction state h).bind fun _ middle hmiddle ↦ ?_
    rw [← hmiddle.layout]
    exact ih hmiddle.sound

theorem leads_currentIndentation_bind {next : ℕ → Scan α} {post : α → Scanner → Prop}
    (h : ∀ current outer, state.indentation = current :: outer →
      Leads (next current) state post (· ≠ .exhausted)) :
    Leads (currentIndentation >>= next) state post (· ≠ .exhausted) := by
  have hcurrent : Leads currentIndentation state (fun current after ↦
      after = state ∧ ∃ outer, state.indentation = current :: outer) (· ≠ .exhausted) := by
    refine leads_get_bind ?_
    cases hlevels : state.indentation with
    | nil => exact leads_throw ParseFailure.noConfusion
    | cons current outer => exact leads_pure ⟨rfl, outer, rfl⟩
  refine Leads.bind hcurrent fun current after hafter ↦ ?_
  obtain ⟨rfl, outer, hlevels⟩ := hafter
  exact h current outer hlevels

theorem leads_closeLevels (h : Sound state) (indentation : ℕ) :
    Leads (closeLevels indentation) state (fun closed after ↦
      closed = state.indentation.length - (unwind indentation state.indentation).length ∧
        Lays [] [] { state.layout with indentation := unwind indentation state.indentation } state
          after) (· ≠ .exhausted) := by
  refine leads_get_bind (Leads.bind (lays_set h
    { state.layout with indentation := unwind indentation state.indentation } rfl)
    fun _ after hafter ↦ leads_pure ⟨rfl, hafter⟩)

/-- What the indentation of a line with code adds and leaves. -/
inductive Applies (indentation : ℕ) : List ℕ → List TokenKind → List ℕ → Prop where
  | same {outer : List ℕ} : Applies indentation (indentation :: outer) [] (indentation :: outer)
  | deeper {current : ℕ} {outer : List ℕ} (h : current < indentation) :
      Applies indentation (current :: outer) [.indent] (indentation :: current :: outer)
  | shallower {current : ℕ} {outer : List ℕ} (h : indentation < current) :
      Applies indentation (current :: outer)
        (List.replicate ((current :: outer).length - (unwind indentation (current :: outer)).length)
          [.dedent]).flatten (unwind indentation (current :: outer))

theorem leads_applyIndentation (h : Sound state) (indentation : ℕ) :
    Leads (applyIndentation limits indentation) state (fun _ after ↦ ∃ kinds levels,
      Lays [] kinds { state.layout with indentation := levels } state after ∧
        Applies indentation state.indentation kinds levels) (· ≠ .exhausted) := by
  refine leads_currentIndentation_bind fun current outer hlevels ↦ leads_get_bind ?_
  rw [hlevels]
  refine leads_ite (fun hdeeper ↦ ?_) fun hdeeper ↦ leads_ite (fun hshallower ↦ ?_) fun hshallower ↦ ?_
  · have hreport : LeadsLays (whenever (indentation ≠ current + 4) (error limits
        "syntax-invalid-indentation" (state.position - indentation) state.position
        s!"indentation must increase by exactly four spaces from column {current + 1}"))
        [] [] state.layout state :=
      lays_whenever h fun _ ↦ lays_error h (by decide) _ _ _
    refine Leads.bind hreport fun _ first hfirst ↦ leads_get_bind (leads_limitTo_bind _ _ ?_)
    refine Leads.bind (lays_modify hfirst.sound
      { first.layout with indentation := indentation :: first.indentation } rfl)
      fun _ second hsecond ↦ ?_
    refine Leads.mono (lays_pushSynthetic hsecond.sound rfl _ _) fun _ after hafter ↦ ?_
    have hwhole := (hfirst.trans hsecond).trans hafter
    have hsame : first.indentation = state.indentation := congrArg Layout.indentation hfirst.layout
    rw [hsecond.layout, hfirst.layout, hsame, hlevels] at hwhole
    exact ⟨_, _, hwhole, .deeper hdeeper⟩
  · refine Leads.bind (leads_closeLevels h indentation) fun closed first hfirst ↦ ?_
    obtain ⟨hclosed, hfirst⟩ := hfirst
    refine Leads.bind (lays_repeated (fun state h ↦ lays_pushSynthetic h rfl _ _) hfirst.sound closed)
      fun _ second hsecond ↦ ?_
    refine leads_currentIndentation_bind fun current' outer' hlevels' ↦ ?_
    refine Leads.mono (lays_whenever hsecond.sound fun _ ↦ lays_error hsecond.sound (by decide) _ _ _)
      fun _ after hafter ↦ ?_
    have hwhole := (hfirst.trans hsecond).trans hafter
    rw [hsecond.layout, hfirst.layout, hclosed, hlevels] at hwhole
    simp only [append_nil, nil_append] at hwhole
    exact ⟨_, _, hwhole, .shallower hshallower⟩
  · obtain rfl : indentation = current := by omega
    exact leads_pure ⟨[], _, hlevels ▸ .refl h, .same⟩

/-- What the start of a line with code adds and leaves, at the position of the code. -/
inductive Begins (indentation : ℕ) (state : Scanner) : List TokenKind → List ℕ → Prop where
  | settled (h : state.hangingHeaderAt = some state.position ∨
      state.preparedDedentAt = some state.position ∨ state.delimiters ≠ []) :
      Begins indentation state [] state.indentation
  | applies {kinds : List TokenKind} {levels : List ℕ}
      (hhanging : state.hangingHeaderAt ≠ some state.position)
      (hprepared : state.preparedDedentAt ≠ some state.position) (hdelimiters : state.delimiters = [])
      (h : Applies indentation state.indentation kinds levels) : Begins indentation state kinds levels

theorem leads_beginLine (h : Sound state) (indentation : ℕ) :
    Leads (beginLine limits indentation) state (fun _ after ↦ ∃ kinds layout,
      Lays [] kinds layout state after ∧ layout.atLineStart = false ∧
        Begins indentation state kinds layout.indentation) (· ≠ .exhausted) := by
  refine leads_get_bind (leads_ite (fun hhanging ↦ ?_) fun hhanging ↦ leads_ite (fun hprepared ↦ ?_)
    fun hprepared ↦ leads_ite (fun hdelimiters ↦ ?_) fun hdelimiters ↦ ?_)
  · refine Leads.mono (lays_set h { state.layout with hangingHeaderAt := none, atLineStart := false }
      rfl) fun _ after hafter ↦ ⟨_, _, hafter, rfl, .settled (.inl hhanging)⟩
  · refine Leads.mono (lays_set h { state.layout with preparedDedentAt := none, atLineStart := false }
      rfl) fun _ after hafter ↦ ⟨_, _, hafter, rfl, .settled (.inr (.inl hprepared))⟩
  · refine Leads.bind (lays_set h { state.layout with preparedDedentAt := none } rfl)
      fun _ first hfirst ↦ ?_
    refine Leads.bind (leads_applyIndentation hfirst.sound indentation) fun _ second hsecond ↦ ?_
    obtain ⟨kinds, levels, hsecond, happlies⟩ := hsecond
    refine Leads.mono (lays_modify hsecond.sound { second.layout with atLineStart := false } rfl)
      fun _ after hafter ↦ ?_
    have hwhole := (hfirst.trans hsecond).trans hafter
    have hsame : first.indentation = state.indentation := congrArg Layout.indentation hfirst.layout
    rw [hsecond.layout] at hwhole
    simp only [append_nil, nil_append] at hwhole
    rw [hsame] at happlies
    exact ⟨_, _, hwhole, rfl, .applies hhanging hprepared hdelimiters happlies⟩
  · refine Leads.mono (lays_set h { state.layout with atLineStart := false } rfl)
      fun _ after hafter ↦ ⟨_, _, hafter, rfl, .settled (.inr (.inr hdelimiters))⟩

/-- The leading space of a text. -/
def leadingBlank (text : List Char) : List Char := text.takeWhile isBlank

/-- The text after its leading space. -/
def afterBlank (text : List Char) : List Char := text.drop (leadingBlank text).length

/-- A line with neither code nor a literal: it is empty, or it is a comment. -/
def TrivialLine (text : List Char) : Prop :=
  afterBlank text = [] ∨ lineEnding (afterBlank text) ≠ 0 ∨ (afterBlank text).head? = some '#'

theorem leadingBlank_append (text : List Char) : leadingBlank text ++ afterBlank text = text := by
  have htake : text.take (leadingBlank text).length = leadingBlank text :=
    (prefix_iff_eq_take.mp ( takeWhile_prefix isBlank)).symm
  conv_rhs => rw [← take_append_drop (leadingBlank text).length text, htake]
  rfl

/-- The comment at the head of a text. -/
def leadingComment (text : List Char) : List Char :=
  text.takeWhile fun character ↦ !isLineBreak character

/-- The text of the comment at the head of a line, with its line ending. -/
def commentLine (text : List Char) : List Char :=
  leadingComment text ++ (text.drop (leadingComment text).length).take
    (lineEnding (text.drop (leadingComment text).length))

/-- The text of a line of trivia, with its line ending. -/
def trivialText (text : List Char) : List Char :=
  leadingBlank text ++
    if lineEnding (afterBlank text) ≠ 0 then (afterBlank text).take (lineEnding (afterBlank text))
    else if (afterBlank text).head? = some '#' then commentLine (afterBlank text)
    else []

section

variable (h : Sound state)
include h

theorem lays_scanBlankLine (width : ℕ) :
    LeadsLays (scanBlankLine width) (state.rest.take width) [] state.layout state := by
  refine leads_get_bind (leads_consume_bind ?_)
  refine Leads.mono (lays_pushTrivia (h.skip width) _ _ _) fun _ after hafter ↦ ?_
  have hwhole := (h.skip_lays width).trans hafter
  rwa [append_nil] at hwhole

theorem lays_scanComment :
    LeadsLays scanComment (leadingComment state.rest) [] state.layout state := by
  refine leads_get_bind (leads_consumeWhile_bind ?_)
  refine Leads.mono (lays_pushTrivia (h.skip _) _ _ _) fun _ after hafter ↦ ?_
  have hwhole := (h.skip_lays (leadingComment state.rest).length).trans hafter
  have htake : state.rest.take (leadingComment state.rest).length = leadingComment state.rest :=
    (prefix_iff_eq_take.mp ( takeWhile_prefix _)).symm
  rwa [append_nil, htake] at hwhole

theorem lays_reportLeadingTab (start : ℕ) (blank : List Char) :
    LeadsLays (reportLeadingTab limits start blank) [] [] state.layout state := by
  unfold reportLeadingTab
  split
  · exact lays_error h (by decide) _ _ _
  · exact lays_pure h ()

/-- The start of a line reads the line when it is trivia.  Otherwise it reads the leading space and
settles the indentation. -/
theorem leads_scanLinePrefix : Leads (scanLinePrefix limits) state (fun trivial after ↦
      (trivial = true ∧ TrivialLine state.rest ∧
        Lays (trivialText state.rest) [] state.layout state after) ∨
      (trivial = false ∧ ¬ TrivialLine state.rest ∧ ∃ middle kinds layout,
        Lays (leadingBlank state.rest) [] state.layout state middle ∧
        Lays [] kinds layout middle after ∧ layout.atLineStart = false ∧
        Begins (indentationWidth (leadingBlank state.rest)) middle kinds layout.indentation))
      (· ≠ .exhausted) := by
  have htake : state.rest.take (leadingBlank state.rest).length = leadingBlank state.rest :=
    (prefix_iff_eq_take.mp ( takeWhile_prefix isBlank)).symm
  have hskip := h.skip_lays (leadingBlank state.rest).length
  rw [htake] at hskip
  refine leads_get_bind (leads_consumeWhile_bind ?_)
  refine Leads.bind (lays_whenever hskip.sound fun _ ↦ lays_pushTrivia hskip.sound _ _ _)
    fun _ first hfirst ↦ ?_
  refine Leads.bind (lays_reportLeadingTab hfirst.sound _ _) fun _ middle hsecond ↦
    leads_get_bind ?_
  have hmiddle := (hskip.trans hfirst).trans hsecond
  rw [hfirst.layout] at hmiddle
  simp only [append_nil] at hmiddle
  have hrest : middle.rest = afterBlank state.rest := by
    have hsplit := hmiddle.rest_eq
    conv_lhs at hsplit => rw [← leadingBlank_append state.rest]
    exact (append_cancel_left hsplit).symm
  have hlayout : middle.layout = state.layout := hmiddle.layout
  rw [hrest]
  refine leads_ite (fun hnil ↦ ?_) fun hnil ↦ leads_ite (fun hending ↦ ?_) fun hending ↦
    leads_ite (fun hcomment ↦ ?_) fun hcomment ↦ ?_
  · refine leads_pure (.inl ⟨rfl, .inl hnil, ?_⟩)
    have hnone : ¬ lineEnding [] ≠ 0 := not_not_intro rfl
    rw [trivialText, hnil, if_neg hnone, if_neg (by simp), append_nil]
    exact hmiddle
  · refine Leads.bind (lays_scanBlankLine hmiddle.sound _) fun _ after hafter ↦
      leads_pure (.inl ⟨rfl, .inr (.inl hending), ?_⟩)
    rw [hrest, hlayout] at hafter
    rw [trivialText, if_pos hending]
    exact hmiddle.trans hafter
  · refine Leads.bind (lays_scanComment hmiddle.sound) fun _ second hcommented ↦ leads_get_bind ?_
    rw [hrest, hlayout] at hcommented
    have hafterComment : second.rest =
        (afterBlank state.rest).drop (leadingComment (afterBlank state.rest)).length := by
      have hsplit := hcommented.rest_eq
      have hdrop := congrArg (List.drop (leadingComment (afterBlank state.rest)).length) hsplit
      rw [hrest, drop_left] at hdrop
      exact hdrop.symm
    have hcloses : LeadsLays (whenever (lineEnding second.rest ≠ 0)
        (scanBlankLine (lineEnding second.rest))) (second.rest.take (lineEnding second.rest)) []
        second.layout second := by
      refine leads_ite (fun _ ↦ lays_scanBlankLine hcommented.sound _) fun hnone ↦ ?_
      rw [not_not.mp hnone, take_zero]
      exact lays_pure hcommented.sound ()
    refine Leads.bind hcloses fun _ after hafter ↦ leads_pure (.inl ⟨rfl, .inr (.inr hcomment), ?_⟩)
    rw [hcommented.layout, hafterComment] at hafter
    rw [trivialText, if_neg hending, if_pos hcomment, commentLine]
    exact hmiddle.trans (hcommented.trans hafter)
  · refine Leads.bind (leads_beginLine hmiddle.sound _) fun _ after hafter ↦
      leads_pure (.inr ⟨rfl, ?_, ?_⟩)
    · exact fun htrivial ↦ htrivial.elim hnil fun htrivial ↦ htrivial.elim hending hcomment
    · obtain ⟨kinds, layout, hlays, hstart, hbegins⟩ := hafter
      exact ⟨middle, kinds, layout, hmiddle, hlays, hstart, hbegins⟩

theorem lays_suppressNewline (start width : ℕ) :
    LeadsLays (suppressNewline start width) (state.rest.take width) [] state.layout state := by
  refine leads_consume_bind (Leads.mono (lays_pushTrivia (h.skip width) _ _ _) fun _ after hafter ↦ ?_)
  have hwhole := (h.skip_lays width).trans hafter
  rwa [append_nil] at hwhole

theorem lays_pushNewline (start width : ℕ) :
    LeadsLays (pushNewline limits start width) (state.rest.take width) [.newline] state.layout
      state := by
  refine leads_consume_bind (Leads.mono (lays_pushPhysical (h.skip width) rfl _ _ _ _)
    fun _ after hafter ↦ ?_)
  have hwhole := (h.skip_lays width).trans hafter
  rwa [append_nil] at hwhole

/-- The levels that end with a line, each with a dedent and a newline. -/
def closedKinds (closed : ℕ) : List TokenKind :=
  (List.replicate closed [TokenKind.dedent, .newline]).flatten

theorem lays_closings (closed position : ℕ) (cause : NewlineOrigin) :
    LeadsLays (repeated closed (do
      pushSynthetic limits .dedent position none
      pushSynthetic limits .newline position (some cause))) [] (closedKinds closed) state.layout
      state := by
  refine lays_repeated (fun state h ↦ ?_) h _
  refine Leads.bind (lays_pushSynthetic h rfl _ _) fun _ pushed hpushed ↦ ?_
  refine Leads.mono (lays_pushSynthetic hpushed.sound rfl _ _) fun _ after hafter ↦ ?_
  rw [← hpushed.layout]
  exact hpushed.trans hafter

theorem leads_closeBefore (start width : ℕ) (line : SignificantLine)
    (hclosed : (unwind line.indentation state.indentation).length < state.indentation.length) :
    Leads (closeBefore limits start width line) state (fun _ after ↦
      Lays (state.rest.take width)
        (closedKinds (state.indentation.length -
          (unwind line.indentation state.indentation).length))
        { state.layout with
          indentation := unwind line.indentation state.indentation
          preparedDedentAt := line.codeOffset } state after) (· ≠ .exhausted) := by
  refine Leads.bind (leads_closeLevels h line.indentation) fun closed first hfirst ↦ ?_
  obtain ⟨hcount, hfirst⟩ := hfirst
  refine leads_currentIndentation_bind fun current outer hlevels ↦ ?_
  refine Leads.bind (lays_whenever hfirst.sound fun _ ↦ lays_error hfirst.sound (by decide) _ _ _)
    fun _ second hsecond ↦ ?_
  have hne : closed ≠ 0 := by omega
  have hfirstPair : LeadsLays (whenever (closed ≠ 0) (do
      pushSynthetic limits .dedent start none
      pushNewline limits start width)) (state.rest.take width) [.dedent, .newline] second.layout
      second := by
    refine leads_ite (fun _ ↦ ?_) fun hnone ↦ absurd hne hnone
    refine Leads.bind (lays_pushSynthetic hsecond.sound rfl _ _) fun _ pushed hpushed ↦ ?_
    refine Leads.mono (lays_pushNewline hpushed.sound start width) fun _ after hafter ↦ ?_
    have hrest : pushed.rest = state.rest := by
      rw [hfirst.rest_eq, hsecond.rest_eq, hpushed.rest_eq]
      rfl
    have hwhole := hpushed.trans hafter
    rw [hrest, hpushed.layout] at hwhole
    exact hwhole
  refine Leads.bind hfirstPair fun _ third hthird ↦ ?_
  refine Leads.bind (lays_closings hthird.sound _ _ _) fun _ fourth hfourth ↦ ?_
  refine Leads.mono (lays_modify hfourth.sound
    { fourth.layout with preparedDedentAt := line.codeOffset } rfl) fun _ after hafter ↦ ?_
  have hwhole := (((hfirst.trans hsecond).trans hthird).trans hfourth).trans hafter
  have hkinds : [TokenKind.dedent, .newline] ++ closedKinds (closed - 1) = closedKinds closed := by
    obtain ⟨more, rfl⟩ := Nat.exists_eq_succ_of_ne_zero hne
    rfl
  rw [hfourth.layout, hthird.layout, hsecond.layout, hfirst.layout] at hwhole
  simp only [append_nil, nil_append] at hwhole
  rw [hkinds, hcount] at hwhole
  exact hwhole

end

/-- The outermost level is the root. -/
def Rooted (levels : List ℕ) : Prop := levels.getLast? = some 0

theorem unwind_length_le (indentation : ℕ) (levels : List ℕ) :
    (unwind indentation levels).length ≤ levels.length := by
  fun_induction unwind indentation levels with
  | case1 current outer levels hlt ih =>
    rw [length_cons]
    exact ih.trans (Nat.le_succ _)
  | case2 current outer levels hge => exact le_rfl
  | case3 levels hshort => exact le_rfl

theorem Rooted.unwind_rooted (h : Rooted levels) (indentation : ℕ) :
    Rooted (unwind indentation levels) := by
  fun_induction unwind indentation levels with
  | case1 current outer levels hlt ih =>
    rw [Rooted, List.getLast?_cons_cons] at h
    exact ih h
  | case2 current outer levels hge => exact h
  | case3 levels hshort => exact h

/-- A line that is less indented than the innermost level closes it, for the root is not indented. -/
theorem Rooted.unwind_length_lt (h : Rooted (current :: outer)) (hlt : indentation < current) :
    (unwind indentation (current :: outer)).length < (current :: outer).length := by
  cases outer with
  | nil =>
    cases h
    exact absurd hlt (Nat.not_lt_zero _)
  | cons next levels =>
    rw [unwind, if_pos hlt]
    exact Nat.lt_succ_of_le (unwind_length_le _ _)

/-- What the end of a line adds and leaves, before the next line with code. -/
inductive Breaks (state : Scanner) (line : SignificantLine) : List TokenKind → Layout → Prop where
  | inside (h : state.delimiters ≠ []) :
      Breaks state line [] { state.layout with atLineStart := true }
  | hanging (h : state.delimiters = []) : Breaks state line []
      { state.layout with
        hangingHeaderAt := line.codeOffset
        hangingHeaderContinuation := true
        atLineStart := true }
  | plain {current : ℕ} {outer : List ℕ} (h : state.delimiters = [])
      (hlevels : state.indentation = current :: outer) (hle : current ≤ line.indentation) :
      Breaks state line [.newline]
      { state.layout with hangingHeaderContinuation := false, atLineStart := true }
  | closing (h : state.delimiters = [])
      (hlt : (unwind line.indentation state.indentation).length < state.indentation.length) :
      Breaks state line
        (closedKinds (state.indentation.length - (unwind line.indentation state.indentation).length))
        { state.layout with
          hangingHeaderContinuation := false
          atLineStart := true
          preparedDedentAt := line.codeOffset
          indentation := unwind line.indentation state.indentation }

theorem leads_scanNewline (h : Sound state) (hrooted : Rooted state.indentation) (width : ℕ) :
    Leads (scanNewline limits width) state (fun _ after ↦ ∃ kinds layout,
      Lays (state.rest.take width) kinds layout state after ∧
        Breaks state (nextSignificantLine (state.rest.length + 1) (state.position + width)
          (state.rest.drop width)) kinds layout) (· ≠ .exhausted) := by
  refine leads_get_bind (leads_ite (fun hclosed ↦ ?_) fun hopen ↦ ?_)
  · refine leads_currentIndentation_bind fun current outer hlevels ↦ leads_ite (fun _ ↦ ?_) fun _ ↦ ?_
    · refine Leads.bind (lays_suppressNewline h _ width) fun _ first hfirst ↦ ?_
      refine Leads.mono (lays_modify hfirst.sound { first.layout with
        hangingHeaderAt := _, hangingHeaderContinuation := true, atLineStart := true } rfl)
        fun _ after hafter ↦ ?_
      have hwhole := hfirst.trans hafter
      rw [hfirst.layout, append_nil] at hwhole
      exact ⟨_, _, hwhole, .hanging hclosed⟩
    · refine Leads.bind (lays_modify h
        { state.layout with hangingHeaderContinuation := false, atLineStart := true } rfl)
        fun _ first hfirst ↦ ?_
      have hrest : first.rest = state.rest := hfirst.rest_eq.symm
      have hindentation : first.indentation = state.indentation :=
        congrArg Layout.indentation hfirst.layout
      refine leads_ite (fun hlt ↦ ?_) fun hge ↦ ?_
      · have hless := (hlevels ▸ hrooted).unwind_length_lt hlt
        rw [← hlevels] at hless
        refine Leads.mono (leads_closeBefore hfirst.sound _ width _ (hindentation ▸ hless))
          fun _ after hafter ↦ ?_
        have hwhole := hfirst.trans hafter
        rw [hrest, hindentation, hfirst.layout] at hwhole
        exact ⟨_, _, hwhole, .closing hclosed hless⟩
      · refine Leads.mono (lays_pushNewline hfirst.sound _ width) fun _ after hafter ↦ ?_
        have hwhole := hfirst.trans hafter
        rw [hrest, hfirst.layout] at hwhole
        exact ⟨_, _, hwhole, .plain hclosed hlevels (Nat.le_of_not_lt hge)⟩
  · refine Leads.bind (lays_suppressNewline h _ width) fun _ first hfirst ↦ ?_
    refine Leads.mono (lays_modify hfirst.sound { first.layout with atLineStart := true } rfl)
      fun _ after hafter ↦ ?_
    have hwhole := hfirst.trans hafter
    rw [hfirst.layout, append_nil] at hwhole
    exact ⟨_, _, hwhole, .inside hopen⟩

end Wrela.Syntax
