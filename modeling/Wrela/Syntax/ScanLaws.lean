import Wrela.Syntax.LineLaws

/-!
# Laws of the scan

The invariants hold at every turn of the scan, and at its end.  Every turn reads some text, so that the
scan never runs out of turns.
-/

namespace Wrela.Syntax

open List Wrela.Nesting Wrela.Source Wrela.StateRuns

variable {U : Unicode} {limits : ParseLimits} {state after : Scanner}

theorem Laid.lays (hlaid : Laid state) (h : Lays text [] state.layout state after) :
    Laid after := by
  have hlevels : after.indentation = state.indentation := congrArg Layout.indentation h.layout
  refine ⟨hlevels ▸ hlaid.rooted, ?_⟩
  rw [h.kinds_eq, hlevels, append_nil]
  exact hlaid.nested

theorem leads_scanElement (h : Sound state) (hlaid : Laid state) (hne : state.rest ≠ [])
    (hmiddle : state.atLineStart = false) :
    Leads (scanElement U limits) state (fun _ after ↦ Turns state after) (· ≠ .exhausted) := by
  refine leads_get_bind (leads_ite (fun hnil ↦ absurd hnil hne) fun _ ↦ leads_ite (fun hending ↦ ?_)
    fun hopen ↦ ?_)
  · refine Leads.mono (leads_scanNewline h hlaid.rooted _) fun _ after hafter ↦ ?_
    obtain ⟨kinds, layout, hlays, hbreaks⟩ := hafter
    exact .newline hending hlaid hmiddle hlays hbreaks
  · refine Leads.mono (advances_scanToken_scanInterpolated h hne) fun _ after hafter ↦ ?_
    exact .inline hafter.1 hafter.2.1 hlaid hafter.2.2 hmiddle hopen

theorem leads_scanStep (h : Sound state) (hlaid : Laid state) (hne : state.rest ≠ []) :
    Leads (scanStep U limits) state (fun _ after ↦ Turns state after) (· ≠ .exhausted) := by
  refine leads_get_bind (leads_ite (fun hline ↦ ?_) fun hmiddle ↦
    leads_scanElement h hlaid hne (Bool.eq_false_of_not_eq_true hmiddle))
  refine Leads.bind (leads_scanLinePrefix h) fun trivial first hfirst ↦ ?_
  obtain ⟨rfl, htrivial, hlays⟩ | ⟨rfl, hcode, middle, kinds, layout, hblank, hlays, hstart, hbegins⟩ :=
    hfirst
  · rw [if_pos rfl]
    exact leads_pure (.trivial htrivial hne hlaid hline hlays)
  · rw [if_neg Bool.false_ne_true]
    have hrest : first.rest = afterBlank state.rest := by
      have hsplit := (hblank.trans hlays).rest_eq
      rw [append_nil] at hsplit
      conv_lhs at hsplit => rw [← leadingBlank_append state.rest]
      exact (append_cancel_left hsplit).symm
    have hlaidFirst : Laid first := hbegins.laid hlays (hlaid.lays hblank)
    have hneFirst : first.rest ≠ [] := by
      rw [hrest]
      exact fun hnil ↦ hcode (.inl hnil)
    have hmiddle : first.atLineStart = false :=
      (congrArg Layout.atLineStart hlays.layout).trans hstart
    refine Leads.mono (leads_scanElement hlays.sound hlaidFirst hneFirst hmiddle) fun _ after hafter ↦ ?_
    obtain ⟨text, htext, hread⟩ := hafter.reads
    have hsplit : state.rest = leadingBlank state.rest ++ first.rest := by
      rw [hrest]
      exact (leadingBlank_append state.rest).symm
    refine ⟨hafter.sound, hafter.laid, ⟨leadingBlank state.rest ++ text, ?_, ?_⟩,
      fun hreturn hordered ↦ hafter.ordered ?_ ?_, ?_, ?_, fun hopen ↦ ?_⟩
    · exact append_ne_nil_of_right_ne_nil _ htext
    · rw [append_assoc, ← hread]
      exact hsplit
    · rw [hsplit] at hreturn
      exact hreturn.of_append
    · exact hbegins.ordered hcode hline hblank hlays hstart hordered
    iterate 2
      · rintro (⟨_, htrivial⟩ | ⟨hmiddle, _⟩)
        · exact absurd htrivial hcode
        · rw [hline] at hmiddle
          cases hmiddle
    · have hopenMiddle : middle.delimiters ≠ [] := hblank.delimiters ▸ hopen
      have hopenFirst : first.delimiters ≠ [] := hlays.delimiters ▸ hopenMiddle
      obtain ⟨more, hindent, hdedent, hkinds⟩ := hafter.delimited hopenFirst
      have hfirst := (hblank.trans hlays).kinds_eq
      rw [hbegins.kinds_eq_nil hopenMiddle, append_nil, append_nil] at hfirst
      exact ⟨more, hindent, hdedent, hfirst ▸ hkinds⟩

/-- The state after all the text has been read, before the levels that are still open are closed. -/
theorem leads_scanLoop (h : Sound state) (hlaid : Laid state) (turns : ℕ)
    (hturns : state.rest.length < turns) :
    Leads (scanLoop U limits turns) state (fun _ after ↦ Sound after ∧ Laid after ∧
      (NoLoneReturn state.rest → Ordered state → Ordered after)) (· ≠ .exhausted) := by
  induction turns generalizing state with
  | zero => exact absurd hturns (Nat.not_lt_zero _)
  | succ turns ih =>
    refine leads_get_bind (leads_ite (fun _ ↦ ?_) fun hne ↦ ?_)
    · exact leads_pure ⟨h, hlaid, fun _ hordered ↦ hordered⟩
    · refine Leads.bind (leads_scanStep h hlaid hne) fun _ middle hmiddle ↦ ?_
      obtain ⟨text, htext, hread⟩ := hmiddle.reads
      have hpos := length_pos_iff.mpr htext
      have hlt : middle.rest.length < turns := by
        rw [hread, length_append] at hturns
        omega
      refine Leads.mono (ih hmiddle.sound hmiddle.laid hlt) fun _ after hafter ↦
        ⟨hafter.1, hafter.2.1, fun hreturn hordered ↦ hafter.2.2 ?_ (hmiddle.ordered hreturn hordered)⟩
      rw [hread] at hreturn
      exact hreturn.of_append

theorem lays_preflightForbiddenCharacters (h : Sound state) (offset : ℕ) (text : List Char) :
    LeadsLays (preflightForbiddenCharacters limits offset text) [] [] state.layout state := by
  induction text generalizing offset state with
  | nil => exact lays_pure h ()
  | cons character rest ih =>
    refine Leads.bind (lays_whenever h fun _ ↦ lays_error h (by decide) _ _ _) fun _ middle hmiddle ↦ ?_
    refine Leads.mono (ih hmiddle.sound _) fun _ after hafter ↦ ?_
    rw [← hmiddle.layout]
    exact hmiddle.trans hafter

theorem lays_reportUnclosed (h : Sound state) (delimiters : List (Char × ℕ)) :
    LeadsLays (reportUnclosed limits delimiters) [] [] state.layout state := by
  induction delimiters generalizing state with
  | nil => exact lays_pure h ()
  | cons delimiter delimiters ih =>
    refine Leads.bind (lays_error h (by decide) _ _ _) fun _ middle hmiddle ↦ ?_
    refine Leads.mono (ih hmiddle.sound) fun _ after hafter ↦ ?_
    rw [← hmiddle.layout]
    exact hmiddle.trans hafter

/-- What the end of the file does to the tokens. -/
structure Closes (state after : Scanner) : Prop where
  sound : Sound after
  nested : Laid state → Nested TokenKind.indent .dedent (after.tokens.map Token.kind) 0
  order : InOrder (state.tokens.map Token.kind) → InOrder (after.tokens.map Token.kind)

theorem leads_closeFile (h : Sound state) :
    Leads (closeFile limits) state (fun _ after ↦ Closes state after) (· ≠ .exhausted) := by
  refine leads_get_bind (leads_ite (fun hlevels ↦ ?_) fun hroot ↦ ?_)
  · refine Leads.bind (lays_set h { state.layout with
      indentation := state.indentation.drop (state.indentation.length - 1) } rfl)
      fun _ first hfirst ↦ ?_
    refine Leads.mono (lays_closings hfirst.sound _ _ _) fun _ after hafter ↦ ?_
    have hkinds := (hfirst.trans hafter).kinds_eq
    rw [nil_append] at hkinds
    refine ⟨hafter.sound, fun hlaid ↦ ?_, fun horder ↦ ?_⟩
    · rw [hkinds]
      have hnested := hlaid.nested
      rw [← Nat.zero_add (state.indentation.length - 1)] at hnested
      exact hnested.append_closes (by decide)
    · rw [hkinds]
      exact horder.append_closed _
  · refine leads_ite (fun _ ↦ ?_) fun _ ↦ leads_pure ⟨h, fun hlaid ↦ ?_, fun horder ↦ horder⟩
    · refine Leads.mono (lays_pushSynthetic h rfl _ _) fun _ after hafter ↦
        ⟨hafter.sound, fun hlaid ↦ ?_, fun horder ↦ ?_⟩
      · have hdepth : state.indentation.length - 1 = 0 := by omega
        have hnested := hlaid.nested
        rw [hdepth] at hnested
        rw [hafter.kinds_eq]
        exact hnested.other TokenKind.noConfusion TokenKind.noConfusion
      · rw [hafter.kinds_eq]
        exact horder.append_other (by decide) (by decide)
    · have hdepth : state.indentation.length - 1 = 0 := by omega
      have hnested := hlaid.nested
      rwa [hdepth] at hnested

theorem leads_finishLayout (h : Sound state) :
    Leads (finishLayout limits) state (fun _ after ↦ Closes state after) (· ≠ .exhausted) := by
  refine leads_get_bind (Leads.bind (lays_reportUnclosed h _) fun _ first hfirst ↦ ?_)
  refine Leads.bind (leads_closeFile hfirst.sound) fun _ second hsecond ↦ ?_
  refine Leads.mono (lays_pushSynthetic hsecond.sound rfl _ _) fun _ after hafter ↦ ?_
  have hkinds := hfirst.kinds_eq
  rw [append_nil] at hkinds
  refine ⟨hafter.sound, fun hlaid ↦ ?_, fun horder ↦ ?_⟩
  · rw [hafter.kinds_eq]
    exact (hsecond.nested (hlaid.lays hfirst)).other TokenKind.noConfusion TokenKind.noConfusion
  · rw [hafter.kinds_eq]
    exact (hsecond.order (hkinds ▸ horder)).append_other (by decide) (by decide)

/-- What holds of the state at the end of a scan. -/
structure Finished (text : List Char) (after : Scanner) : Prop where
  sound : Sound after
  nested : Nested TokenKind.indent .dedent (after.tokens.map Token.kind) 0
  order : NoLoneReturn text → InOrder (after.tokens.map Token.kind)

theorem leads_scanText (text : List Char) :
    Leads (scanText U limits text) (Scanner.new text) (fun _ after ↦ Finished text after)
      (· ≠ .exhausted) := by
  have hnew := Scanner.new_sound text
  refine Leads.bind (lays_preflightForbiddenCharacters hnew 0 text) fun _ first hfirst ↦ ?_
  have hlaid : Laid first := (Scanner.new_laid text).lays hfirst
  have hrest : first.rest = text := hfirst.rest_eq.symm
  have hordered : Ordered first := by
    have hkinds : first.tokens.map Token.kind = [] := hfirst.kinds_eq
    have hlevels : first.indentation = [0] := congrArg Layout.indentation hfirst.layout
    refine ⟨?_, fun _ _ code _ ↦ .inr (.inr ⟨?_, .inl hkinds⟩)⟩
    · rw [hkinds]
      exact ⟨.nil, by simp⟩
    · intro current hcurrent
      rw [hlevels] at hcurrent
      cases hcurrent
      exact Nat.zero_le _
  have hturns : first.rest.length < text.length + 1 := by
    rw [hrest]
    exact Nat.lt_succ_self _
  refine Leads.bind (leads_scanLoop hfirst.sound hlaid _ hturns) fun _ second hsecond ↦ ?_
  obtain ⟨hsound, hlaidSecond, horderedSecond⟩ := hsecond
  refine Leads.mono (leads_finishLayout hsound) fun _ after hafter ↦
    ⟨hafter.sound, hafter.nested hlaidSecond, fun hreturn ↦ hafter.order ?_⟩
  exact (horderedSecond (hrest ▸ hreturn) hordered).order

section Scan

variable {text : List Char} {table : LosslessLexicalTable} {diagnostics : List Diagnostic}

theorem scan_finished (h : scan U limits text = .ok (table, diagnostics)) :
    ∃ after, Finished text after ∧ table.tokens = after.tokens ∧ diagnostics = after.diagnostics := by
  have hleads : Leads (scanText U limits text) (Scanner.new text) _ _ := leads_scanText text
  rw [scan] at h
  cases hrun : (scanText U limits text).run (Scanner.new text) with
  | error failure =>
    rw [hrun] at h
    cases h
  | ok result =>
    rw [hrun] at h
    cases h
    exact ⟨result.2, hleads.ends result.1 result.2 hrun, rfl, rfl⟩

/-- Every loop of a scan ends before its turns run out. -/
theorem scan_terminates (U : Unicode) (limits : ParseLimits) (text : List Char) :
    scan U limits text ≠ .error .exhausted := by
  have hleads : Leads (scanText U limits text) (Scanner.new text) _ _ := leads_scanText text
  intro h
  rw [scan] at h
  cases hrun : (scanText U limits text).run (Scanner.new text) with
  | error failure =>
    rw [hrun] at h
    cases h
    exact hleads.fails _ hrun rfl
  | ok result =>
    rw [hrun] at h
    cases h

/-- The states at which a turn of the scan begins or ends. -/
inductive Reaches (U : Unicode) (limits : ParseLimits) (text : List Char) : Scanner → Prop where
  | start {state : Scanner}
      (h : preflightForbiddenCharacters limits 0 text (Scanner.new text) = .ok ((), state)) :
      Reaches U limits text state
  | turn {state after : Scanner} (h : Reaches U limits text state) (hne : state.rest ≠ [])
      (hturn : scanStep U limits state = .ok ((), after)) : Reaches U limits text after

theorem Reaches.sound (h : Reaches U limits text state) : Sound state ∧ Laid state := by
  induction h with
  | start h =>
    have hlays := Leads.ends (lays_preflightForbiddenCharacters (Scanner.new_sound text) 0 text) _ _ h
    exact ⟨hlays.sound, (Scanner.new_laid text).lays hlays⟩
  | turn h hne hturn ih =>
    have hturns := (leads_scanStep ih.1 ih.2 hne).ends _ _ hturn
    exact ⟨hturns.sound, hturns.laid⟩

theorem InOrder.newline_of_dedent (h : InOrder kinds) (hdedent : kinds[index]? = some .dedent) :
    kinds[index + 1]? = some .newline := by
  obtain ⟨hlt, hget⟩ := List.getElem?_eq_some_iff.mp hdedent
  by_cases hnext : index + 1 < kinds.length
  · exact List.getElem?_eq_some_iff.mpr ⟨hnext, (h.1.getElem index hnext).1 hget⟩
  · have hlast : kinds.getLast? = some .dedent := by
      rw [List.getLast?_eq_getElem?, ← hdedent]
      congr 1
      omega
    exact absurd hlast h.2

theorem InOrder.newline_of_indent (h : InOrder kinds) (hindent : kinds[index]? = some .indent) :
    index = 0 ∨ kinds[index - 1]? = some .newline := by
  obtain ⟨hlt, hget⟩ := List.getElem?_eq_some_iff.mp hindent
  cases index with
  | zero => exact .inl rfl
  | succ index =>
    refine .inr (List.getElem?_eq_some_iff.mpr ⟨Nat.lt_of_succ_lt hlt, ?_⟩)
    exact (h.1.getElem index hlt).2 hget

def LosslessLexicalTable.kinds (table : LosslessLexicalTable) : List TokenKind :=
  table.tokens.map Token.kind

/-- The indentation tokens of every scan nest.  Without a lone carriage return, every dedent is followed
by a newline and every indent follows one or comes first; and a turn of the scan adds no token at a blank
line, at a comment or at a newline between open delimiters, nor an indentation token between open
delimiters. -/
theorem scan_layout (h : scan U limits text = .ok (table, diagnostics)) :
    (∀ front, front <+: table.kinds → front.count .dedent ≤ front.count .indent) ∧
    table.kinds.count .dedent = table.kinds.count .indent ∧
    (NoLoneReturn text →
      (∀ index : ℕ, table.kinds[index]? = some .dedent → table.kinds[index + 1]? = some .newline) ∧
      (∀ index : ℕ, table.kinds[index]? = some .indent →
        index = 0 ∨ table.kinds[index - 1]? = some .newline) ∧
      ∀ state after, Reaches U limits text state → state.rest ≠ [] →
        scanStep U limits state = .ok ((), after) →
        (AtTrivia state → after.tokens = state.tokens) ∧
        (EndsLine state → after.atLineStart = true) ∧
        (state.delimiters ≠ [] → ∃ more, TokenKind.indent ∉ more ∧ TokenKind.dedent ∉ more ∧
          after.tokens.map Token.kind = state.tokens.map Token.kind ++ more)) := by
  obtain ⟨finished, hfinished, htokens, _⟩ := scan_finished h
  have hkinds : table.kinds = finished.tokens.map Token.kind := congrArg (List.map Token.kind) htokens
  rw [hkinds]
  refine ⟨fun front hfront ↦ ?_, ?_, fun hreturn ↦ ⟨fun index hdedent ↦ ?_, fun index hindent ↦ ?_, ?_⟩⟩
  · exact hfinished.nested.count_le TokenKind.noConfusion hfront
  · exact (hfinished.nested.count_eq TokenKind.noConfusion).symm
  · exact (hfinished.order hreturn).newline_of_dedent hdedent
  · exact (hfinished.order hreturn).newline_of_indent hindent
  · intro state after hreaches hne hturn
    have hturns := (leads_scanStep hreaches.sound.1 hreaches.sound.2 hne).ends _ _ hturn
    exact ⟨hturns.trivia, hturns.nextLine, hturns.delimited⟩

/-- A block of one line, which a dedent and a newline end. -/
theorem scan_layout_block : ∃ table diagnostics,
    scan Unicode.ascii ParseLimits.standard "a:\n    b\n".toList = .ok (table, diagnostics) ∧
      table.kinds = [.identifier, .punctuation .colon, .newline, .indent, .identifier, .dedent,
        .newline, .endOfFile] ∧
      table.kinds.count .dedent = table.kinds.count .indent := by
  have hkinds : (scan Unicode.ascii ParseLimits.standard "a:\n    b\n".toList).toOption.map
      (fun result ↦ result.1.kinds) = some [.identifier, .punctuation .colon, .newline, .indent,
        .identifier, .dedent, .newline, .endOfFile] := by decide +kernel
  cases hscan : scan Unicode.ascii ParseLimits.standard "a:\n    b\n".toList with
  | error failure =>
    rw [hscan] at hkinds
    cases hkinds
  | ok result =>
    rw [hscan] at hkinds
    exact ⟨result.1, result.2, rfl, Option.some.inj hkinds, (scan_layout hscan).2.1⟩

theorem literalKind_isQuoted (h : literalKind tokenKind = some kind) : IsQuoted kind := by
  obtain ⟨_, rfl⟩ | ⟨_, rfl⟩ | ⟨_, rfl⟩ := literalKind_eq_some h
  · exact .inl rfl
  · exact .inr (.inl rfl)
  · exact .inr (.inr rfl)

theorem LiteralDenotes.ne_invalid (h : LiteralDenotes kind spelling value) : value ≠ .invalid := by
  obtain ⟨body, _, hvalue⟩ := h
  exact hvalue.ne_invalid

/-- Decoding a literal agrees with its scan: without a diagnostic about it the spelling decodes to
what it denotes, and with one it decodes to the invalid literal. -/
def DecodingAgrees (diagnostics : List Diagnostic) (token : Token) (kind : LiteralKind)
    (spelling : List Char) : Prop :=
  ((∀ diagnostic ∈ diagnostics, ¬ diagnostic.About token) →
    ∃ value, LiteralDenotes kind spelling value ∧ value ≠ .invalid ∧
      decodeLiteralSpelling kind spelling = value) ∧
  ((∃ diagnostic ∈ diagnostics, diagnostic.About token) →
    decodeLiteralSpelling kind spelling = .invalid)

/-- Decoding agrees with the scan of every literal, except for a reserved triple-quoted string whose
text between the outermost quotes has a value. -/
theorem scan_decodingAgrees_iff (h : scan U limits text = .ok (table, diagnostics)) {token : Token}
    (hmem : token ∈ table.tokens) {kind : LiteralKind} (hkind : literalKind token.kind = some kind) :
    ∃ spelling, token.spelling = some spelling ∧
      (DecodingAgrees diagnostics token kind spelling ↔
        ¬ (isTripleQuoted spelling = true ∧ ∃ value, LiteralDenotes kind spelling value)) := by
  obtain ⟨finished, hfinished, htokens, hdiagnostics⟩ := scan_finished h
  have hquoted := literalKind_isQuoted hkind
  have hjudged := (hfinished.sound.literals token (htokens ▸ hmem) kind hkind).2
  rw [← hdiagnostics] at hjudged
  cases hjudged with
  | @quoted spelling legal hspelling hplain hscanned hlegal =>
    refine ⟨spelling, hspelling, fun _ htriple ↦ ?_, fun _ ↦ ⟨fun hnone ↦ ?_, fun hreported ↦ ?_⟩⟩
    · rw [hplain] at htriple
      exact Bool.false_ne_true htriple.1
    · obtain ⟨value, hvalue⟩ := (hscanned.exists_denotes_iff hquoted).mpr (hlegal.mpr hnone)
      exact ⟨value, hvalue, hvalue.ne_invalid, hvalue.decode_eq hquoted⟩
    · refine decodeLiteralSpelling_eq_invalid hquoted fun hvalue ↦ ?_
      obtain ⟨diagnostic, hdiagnostic, habout⟩ := hreported
      exact hlegal.mp ((hscanned.exists_denotes_iff hquoted).mp hvalue) diagnostic hdiagnostic habout
  | @reserved spelling hspelling htriple hreported =>
    refine ⟨spelling, hspelling, fun hagrees hvalue ↦ ?_, fun hnone ↦ ⟨fun hclean ↦ ?_, fun _ ↦ ?_⟩⟩
    · obtain ⟨value, hvalue⟩ := hvalue.2
      have hinvalid := hagrees.2 hreported
      rw [hvalue.decode_eq hquoted] at hinvalid
      exact hvalue.ne_invalid hinvalid
    · obtain ⟨diagnostic, hdiagnostic, habout⟩ := hreported
      exact absurd habout (hclean diagnostic hdiagnostic)
    · exact decodeLiteralSpelling_eq_invalid hquoted fun hvalue ↦ hnone ⟨htriple, hvalue⟩

/-- The scan reports a triple-quoted string, which still decodes to a text. -/
theorem scan_reserved_string : ∃ table diagnostics token spelling,
    scan Unicode.ascii ParseLimits.standard "\"\"\"abc\"\"\"".toList = .ok (table, diagnostics) ∧
      token ∈ table.tokens ∧ literalKind token.kind = some .string ∧
      token.spelling = some spelling ∧ (∃ diagnostic ∈ diagnostics, diagnostic.About token) ∧
      decodeLiteralSpelling .string spelling = .text "\"\"abc\"\"".toList ∧
      ¬ DecodingAgrees diagnostics token .string spelling := by
  have hrun : scan Unicode.ascii ParseLimits.standard "\"\"\"abc\"\"\"".toList = .ok
      (⟨[⟨.stringLiteral, 0, 9, none, some "\"\"\"abc\"\"\"".toList, false⟩,
          ⟨.newline, 9, 9, some .endOfFile, none, true⟩, ⟨.endOfFile, 9, 9, none, none, true⟩], [],
          [.token 0, .token 1, .token 2]⟩,
        [⟨"syntax-reserved-multiline-string", 0, 3,
          "triple-quoted strings are reserved and are not legal in revision 0.1"⟩]) := by
    decide +kernel
  have hdecoded : decodeLiteralSpelling .string "\"\"\"abc\"\"\"".toList =
      .text "\"\"abc\"\"".toList := by decide +kernel
  have hreported : ∃ diagnostic ∈ [Diagnostic.mk "syntax-reserved-multiline-string" 0 3
      "triple-quoted strings are reserved and are not legal in revision 0.1"],
      diagnostic.About ⟨.stringLiteral, 0, 9, none, some "\"\"\"abc\"\"\"".toList, false⟩ :=
    ⟨_, mem_singleton_self _, by decide, le_rfl, by decide⟩
  refine ⟨_, _, _, _, hrun, mem_cons_self, rfl, rfl, hreported, hdecoded, fun hagrees ↦ ?_⟩
  have hinvalid := hagrees.2 hreported
  rw [hdecoded] at hinvalid
  cases hinvalid

/-- A string with an escape decodes to what it denotes. -/
theorem scan_decodingAgrees_iff_escape : ∃ table diagnostics token spelling,
    scan Unicode.ascii ParseLimits.standard "\"a\\n\"".toList = .ok (table, diagnostics) ∧
      token ∈ table.tokens ∧ token.spelling = some spelling ∧
      DecodingAgrees diagnostics token .string spelling := by
  have hrun : scan Unicode.ascii ParseLimits.standard "\"a\\n\"".toList = .ok
      (⟨[⟨.stringLiteral, 0, 5, none, some "\"a\\n\"".toList, false⟩,
          ⟨.newline, 5, 5, some .endOfFile, none, true⟩, ⟨.endOfFile, 5, 5, none, none, true⟩], [],
          [.token 0, .token 1, .token 2]⟩, []) := by
    decide +kernel
  obtain ⟨spelling, hspelling, hagrees⟩ := scan_decodingAgrees_iff hrun mem_cons_self rfl
  refine ⟨_, _, _, _, hrun, mem_cons_self, hspelling, hagrees.mpr fun htriple ↦ ?_⟩
  cases hspelling
  exact absurd htriple.1 (by decide)

end Scan

end Wrela.Syntax
