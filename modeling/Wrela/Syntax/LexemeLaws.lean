import Wrela.Syntax.Scanning

/-!
# Laws of the lexemes

Every lexeme advances within its line.  A quoted literal is the one that leaves a literal token: its
loop reads the items of the literal and reports exactly those that are not legal
(`leads_quotedLoop`), so that the token and its diagnostics agree.
-/

namespace Wrela.Syntax

open List Wrela.Source Wrela.StateRuns

variable {U : Unicode} {limits : ParseLimits} {state : Scanner} {first : Char} {others : List Char}

section

variable (h : Sound state)
include h

theorem advances_scanHorizontalSpace (hrest : state.rest = first :: others)
    (hblank : isBlank first = true) : Advances scanHorizontalSpace state :=
  leads_get_bind ((advances_consumeWhile h hrest hblank).bind fun _ _ hafter ↦
    keeps_pushTrivia hafter _ _ _)

theorem advances_scanComment (hrest : state.rest = '#' :: others) : Advances scanComment state :=
  leads_get_bind ((advances_consumeWhile h hrest rfl).bind fun _ _ hafter ↦
    keeps_pushTrivia hafter _ _ _)

theorem advances_scanIdentifier (hrest : state.rest ≠ []) :
    Advances (scanIdentifier U limits) state := by
  refine leads_get_bind ((advances_consume h hrest Nat.one_pos).bind fun _ _ hfirst ↦ ?_)
  refine (keeps_consumeWhile hfirst _).bind fun _ _ hothers ↦ ?_
  refine (keeps_whenever hothers fun _ ↦ keeps_error hothers (by decide) _ _ _).bind
    fun _ _ hstart ↦ ?_
  refine (keeps_whenever hstart fun _ ↦ keeps_error hstart (by decide) _ _ _).bind
    fun _ _ hnfc ↦ ?_
  split
  · rename_i word _
    have hplain : IsPlain (.keyword word) := ⟨rfl, TokenKind.noConfusion, TokenKind.noConfusion⟩
    exact keeps_pushPhysical hnfc hplain _ _ _ _
  · exact keeps_pushPhysical hnfc (by decide) _ _ _ _

theorem keeps_validateDigitRun (start : ℕ) (digits : List Char) (base : ℕ) :
    Keeps (validateDigitRun limits start digits base) state :=
  keeps_whenever h fun _ ↦ keeps_error h (by decide) _ _ _

theorem keeps_scanFraction : Keeps (scanFraction limits) state := by
  refine leads_get_bind (leads_ite (fun _ ↦ ?_) fun _ ↦ keeps_pure h _)
  refine (keeps_consume h 1).bind fun _ _ hpoint ↦ ?_
  refine (keeps_consumeWhile hpoint _).bind fun _ _ hdigits ↦ ?_
  exact (keeps_validateDigitRun hdigits _ _ _).bind fun _ _ hafter ↦ keeps_pure hafter _

theorem keeps_scanExponent : Keeps (scanExponent limits) state := by
  refine leads_get_bind (leads_ite (fun _ ↦ ?_) fun _ ↦ keeps_pure h _)
  refine (keeps_consume h 1).bind fun _ _ hletter ↦ ?_
  refine leads_get_bind ((keeps_consume hletter _).bind fun _ _ hsign ↦ ?_)
  refine leads_get_bind ((keeps_consumeWhile hsign _).bind fun _ _ hdigits ↦ ?_)
  exact (keeps_validateDigitRun hdigits _ _ _).bind fun _ _ hafter ↦ keeps_pure hafter _

theorem advances_scanNumber (hrest : state.rest = first :: others)
    (hdigit : isDigitBelow 10 first = true) : Advances (scanNumber limits) state := by
  refine leads_get_bind (leads_ite (fun _ ↦ ?_) fun _ ↦ ?_)
  · refine Advances.bind (advances_consume h (by simp [hrest]) Nat.two_pos) fun _ _ hmarker ↦ ?_
    refine (keeps_consumeWhile hmarker _).bind fun _ _ hdigits ↦ ?_
    refine (keeps_validateDigitRun hdigits _ _ _).bind fun _ _ hafter ↦ ?_
    exact keeps_pushPhysical hafter (by decide) _ _ _ _
  · refine Advances.bind (advances_consumeWhile h hrest ?_) fun _ _ hdigits ↦ ?_
    · rw [hdigit, Bool.true_or]
    refine (keeps_validateDigitRun hdigits _ _ _).bind fun _ _ hvalid ↦ ?_
    refine (keeps_scanFraction hvalid).bind fun _ _ hfraction ↦ ?_
    refine (keeps_scanExponent hfraction).bind fun _ _ hexponent ↦ ?_
    split
    · exact keeps_pushPhysical hexponent (by decide) _ _ _ _
    · exact keeps_pushPhysical hexponent (by decide) _ _ _ _

def Scanner.withDelimiters (state : Scanner) (delimiters : List (Char × ℕ)) : Scanner :=
  { state with delimiters := delimiters }

theorem Sound.withDelimiters (delimiters : List (Char × ℕ)) :
    Sound (state.withDelimiters delimiters) :=
  ⟨h.literals, h.diagnostics⟩

end

theorem Scanner.withDelimiters_inline (state : Scanner) (delimiters : List (Char × ℕ)) :
    Inline state (state.withDelimiters delimiters) :=
  ⟨⟨[], [], [], ⟨rfl, rfl, ⟨[], (append_nil _).symm, rfl, forall_mem_nil _⟩,
    (append_nil _).symm⟩, not_mem_nil, not_mem_nil⟩, rfl⟩

theorem keeps_openDelimiter (h : Sound state) (character : Char) (start : ℕ) :
    Keeps (openDelimiter limits character start) state :=
  leads_get_bind (leads_limitTo_bind _ _ (leads_set ⟨state.withDelimiters_inline _, h.withDelimiters _⟩))

theorem keeps_closeDelimiter (h : Sound state) (character expected : Char) (start : ℕ) :
    Keeps (closeDelimiter limits character expected start) state :=
  leads_get_bind (leads_ite
    (fun _ ↦ leads_set ⟨state.withDelimiters_inline _, h.withDelimiters _⟩) fun _ ↦
      keeps_error h (by decide) _ _ _)

theorem keeps_updateDelimiters (h : Sound state) (character : Char) (start : ℕ) :
    Keeps (updateDelimiters limits character start) state := by
  refine leads_ite (fun _ ↦ keeps_openDelimiter h _ _) fun _ ↦ ?_
  split
  · exact keeps_closeDelimiter h _ _ _
  · exact keeps_pure h _

theorem operators_plain : ∀ entry ∈ operators, IsPlain entry.2 ∧ 0 < entry.1.length := by decide

theorem singleKind_plain (h : singleKind character = some kind) : IsPlain kind := by
  unfold singleKind at h
  split at h
  all_goals cases h
  all_goals decide

theorem advances_scanPunctuationOrError (h : Sound state) (hrest : state.rest ≠ []) :
    Advances (scanPunctuationOrError limits) state := by
  refine leads_get_bind ?_
  split
  · rename_i spelling kind hfind
    obtain ⟨hplain, hpos⟩ := operators_plain _ (List.mem_of_find?_eq_some hfind)
    refine Advances.bind (advances_consume h hrest hpos) fun _ _ hafter ↦ ?_
    exact keeps_pushPhysical hafter hplain _ _ _ _
  · refine Advances.bind (advances_consume h hrest Nat.one_pos) fun text _ hafter ↦ ?_
    split
    · exact keeps_throw ParseFailure.noConfusion
    · refine leads_ite (fun _ ↦ ?_) fun _ ↦ ?_
      · exact keeps_pushPhysical hafter (by decide) _ _ _ _
      · split
        · rename_i kind hkind
          have hplain := singleKind_plain hkind
          refine (keeps_updateDelimiters hafter _ _).bind fun _ _ hdelimiters ↦ ?_
          exact keeps_pushPhysical hdelimiters hplain _ _ _ _
        · refine (keeps_error hafter (by decide) _ _ _).bind fun _ _ herror ↦ ?_
          refine (keeps_updateDelimiters herror _ _).bind fun _ _ hdelimiters ↦ ?_
          exact keeps_pushPhysical hdelimiters (by decide) _ _ _ _

theorem decodeUnicodeDigits_code
    (h : (decodeUnicodeDigits digits closed).diagnostic = some diagnostic) :
    diagnostic.code ∈ literalCodes := by
  simp only [decodeUnicodeDigits] at h
  generalize (if digits = [] then none else charFromU32 (hexValue digits)) = scalar at h
  split at h
  · cases h
  · cases h
    decide

theorem decodeEscape_code (h : (decodeEscape text byteString).diagnostic = some diagnostic) :
    diagnostic.code ∈ literalCodes := by
  cases text with
  | nil =>
    cases h
    decide
  | cons escaped tail =>
    obtain ⟨value, hsimple⟩ | ⟨rfl, rfl⟩ | ⟨rfl, rfl⟩ | ⟨hsimple, hbyte, hunicode⟩ :=
      escape_cases escaped byteString
    · rw [decodeEscape_simple hsimple] at h
      cases h
    · rw [decodeEscape_byte] at h
      simp only [decodeByteEscape] at h
      split at h
      · cases h
      · cases h
        decide
    · rw [decodeEscape_unicode] at h
      simp only [decodeUnicodeEscape] at h
      split at h
      · exact decodeUnicodeDigits_code h
      · cases h
        decide
    · rw [decodeEscape_unknown hsimple hbyte hunicode] at h
      cases h
      decide

/-- One escape reads its text, and reports it when it has no value. -/
theorem leads_scanEscape (hrest : state.rest = '\\' :: others) :
    Leads (scanEscape limits byteString) state (fun text after ↦
      ∃ reports, Emits text [] reports state after ∧
        text = '\\' :: others.take (decodeEscape others byteString).length ∧
        (reports = [] ↔ (decodeEscape others byteString).diagnostic = none) ∧
        ∀ diagnostic ∈ reports, diagnostic.code ∈ literalCodes ∧
          diagnostic.start = state.position ∧ diagnostic.stop = after.position)
      (· ≠ .exhausted) := by
  have hdrop : state.rest.drop 1 = others := by rw [hrest, drop_one, tail_cons]
  have htake : state.rest.take ((decodeEscape others byteString).length + 1) =
      '\\' :: others.take (decodeEscape others byteString).length := by
    rw [hrest, take_succ_cons]
  have hskip := state.skip_emits ((decodeEscape others byteString).length + 1)
  refine leads_get_bind ?_
  simp only [hdrop]
  refine leads_consume_bind ?_
  cases hdiagnostic : (decodeEscape others byteString).diagnostic with
  | none =>
    refine leads_pure ⟨[], ?_, htake, by simp, forall_mem_nil _⟩
    exact hskip
  | some diagnostic =>
    refine Leads.bind (leads_error _ _ _ _) fun _ after hafter ↦ leads_pure ?_
    have hboth := hskip.trans hafter
    rw [append_nil] at hboth
    refine ⟨_, hboth, htake, by simp, fun reported hmem ↦ ?_⟩
    rw [mem_singleton.mp hmem]
    exact ⟨decodeEscape_code hdiagnostic, rfl, hboth.position.symm⟩

/-- The closing quote, when the loop has found it. -/
def Quoted.closing (result : Quoted) (quote : Char) : List Char :=
  if result.terminated then [quote] else []

/-- The loop over a quoted literal goes from `read` to `result` over the items of `text`. -/
structure QuotedRead (quote : Char) (byteString : Bool) (read result : Quoted) (text : List Char)
    (count : ℕ) (legal : Bool) (reports : List Diagnostic) (state after : Scanner) : Prop where
  emits : Emits (text ++ result.closing quote) [] reports state after
  spelling : result.text = read.text ++ (text ++ result.closing quote)
  scalars : result.decodedScalars = read.decodedScalars + count
  depth : result.interpolationDepth = read.interpolationDepth
  items : QuotedItems quote byteString text count legal
  reported : reports = [] ↔ legal = true
  spans : ∀ diagnostic ∈ reports, diagnostic.code ∈ literalCodes ∧
    state.position ≤ diagnostic.start ∧ diagnostic.start < diagnostic.stop ∧
      diagnostic.stop ≤ after.position

section Loop

variable {quote : Char} {byteString : Bool} {read result : Quoted} {middle after : Scanner}
  {piece text : List Char} {count : ℕ} {legal pieceLegal : Bool} {pieceReports reports : List Diagnostic}

/-- One item in front of what the rest of the loop reads. -/
theorem QuotedRead.cons (hemits : Emits piece [] pieceReports state middle)
    (hreported : pieceReports = [] ↔ pieceLegal = true)
    (hspans : ∀ diagnostic ∈ pieceReports, diagnostic.code ∈ literalCodes ∧
      state.position ≤ diagnostic.start ∧ diagnostic.start < diagnostic.stop ∧
        diagnostic.stop ≤ middle.position)
    (h : QuotedRead quote byteString (read.add piece read.interpolationDepth) result text count legal
      reports middle after)
    (hitems : QuotedItems quote byteString (piece ++ text) (count + 1) (pieceLegal && legal)) :
    QuotedRead quote byteString read result (piece ++ text) (count + 1) (pieceLegal && legal)
      (pieceReports ++ reports) state after where
  emits := by
    rw [append_assoc]
    exact hemits.trans h.emits
  spelling := by
    rw [h.spelling, Quoted.add, append_assoc, append_assoc]
  scalars := by
    have hadd : (read.add piece read.interpolationDepth).decodedScalars = read.decodedScalars + 1 :=
      rfl
    rw [h.scalars, hadd]
    omega
  depth := h.depth
  items := hitems
  reported := by
    rw [append_eq_nil_iff, hreported, h.reported, Bool.and_eq_true_iff]
  spans diagnostic hmem := by
    cases mem_append.mp hmem with
    | inl hmem =>
      obtain ⟨hcode, hstart, hlt, hstop⟩ := hspans diagnostic hmem
      exact ⟨hcode, hstart, hlt, hstop.trans h.emits.position_le⟩
    | inr hmem =>
      obtain ⟨hcode, hstart, hlt, hstop⟩ := h.spans diagnostic hmem
      exact ⟨hcode, hemits.position_le.trans hstart, hlt, hstop⟩

theorem QuotedRead.stop (hterminated : read.terminated = false) :
    QuotedRead quote byteString read read [] 0 true [] state state where
  emits := by
    rw [Quoted.closing, hterminated]
    exact Emits.refl state
  spelling := by
    rw [Quoted.closing, hterminated]
    exact (append_nil _).symm
  scalars := rfl
  depth := rfl
  items := .nil
  reported := ⟨fun _ ↦ rfl, fun _ ↦ rfl⟩
  spans := forall_mem_nil _

theorem QuotedRead.close (hrest : state.rest = quote :: others) :
    QuotedRead quote byteString read
      { read with text := read.text ++ state.rest.take 1, terminated := true } [] 0 true [] state
      (state.skip 1) where
  emits := by
    have hskip := state.skip_emits 1
    rw [hrest] at hskip
    exact hskip
  spelling := by
    rw [hrest]
    rfl
  scalars := rfl
  depth := rfl
  items := .nil
  reported := ⟨fun _ ↦ rfl, fun _ ↦ rfl⟩
  spans := forall_mem_nil _

/-- The escape in front of the items after it, read together with all the text that follows. -/
theorem QuotedItems.escape_cons {escape others rest : List Char}
    (h : QuotedItems quote byteString text count legal) (hothers : others = escape ++ (text ++ rest))
    (hlength : (decodeEscape others byteString).length = escape.length) :
    QuotedItems quote byteString ('\\' :: escape ++ text) (count + 1)
      ((decodeEscape others byteString).diagnostic.isNone && legal) := by
  rw [← append_assoc] at hothers
  have hread : decodeEscape (escape ++ text) byteString = decodeEscape others byteString := by
    have hle : (decodeEscape (escape ++ text ++ rest) byteString).length ≤ (escape ++ text).length := by
      rw [← hothers, hlength, length_append]
      exact Nat.le_add_right _ _
    rw [decodeEscape_append hle, ← hothers]
  rw [← hread] at hlength ⊢
  exact .escape hlength h

end Loop

theorem leads_quotedLoop {quote : Char} {byteString : Bool} (turns : ℕ)
    (read : Quoted) (hdepth : read.interpolationDepth = 0) (hterminated : read.terminated = false)
    (hturns : state.rest.length < turns) :
    Leads (quotedLoop limits quote byteString false turns read) state
      (fun result after ↦ ∃ text count legal reports,
        QuotedRead quote byteString read result text count legal reports state after)
      (· ≠ .exhausted) := by
  induction turns generalizing state read with
  | zero => exact absurd hturns (Nat.not_lt_zero _)
  | succ turns ih =>
    refine leads_get_bind ?_
    split
    · exact leads_pure ⟨_, _, _, _, .stop hterminated⟩
    · rename_i character others hrest
      refine leads_ite (fun hclose ↦ ?_) fun hopen ↦ leads_ite (fun _ ↦ ?_) fun _ ↦
        leads_ite (fun hescape ↦ ?_) fun hplain ↦ leads_ite (fun hbrace ↦ ?_) fun _ ↦ ?_
      · rw [hclose.1] at hrest
        exact leads_consume_bind (leads_pure ⟨_, _, _, _, .close hrest⟩)
      · exact leads_pure ⟨_, _, _, _, .stop hterminated⟩
      · subst hescape
        refine Leads.bind (leads_scanEscape hrest) fun piece middle hmiddle ↦ ?_
        obtain ⟨pieceReports, hemits, hpiece, hreported, hspans⟩ := hmiddle
        have hsplit := hemits.rest
        rw [hrest, hpiece, cons_append, cons_inj_right] at hsplit
        have hlt : middle.rest.length < turns := by
          rw [hrest, hsplit, length_cons, length_append] at hturns
          omega
        refine Leads.mono (ih (read.add piece read.interpolationDepth) hdepth hterminated hlt)
          fun result after hafter ↦ ?_
        obtain ⟨text, count, legal, reports, hread⟩ := hafter
        have hothers : others = others.take (decodeEscape others byteString).length ++
            (text ++ (result.closing quote ++ after.rest)) := by
          rw [← append_assoc text, ← hread.emits.rest]
          exact hsplit
        have hlength : (decodeEscape others byteString).length =
            (others.take (decodeEscape others byteString).length).length := by
          rw [List.length_take, Nat.min_eq_left (decodeEscape_length_le others byteString)]
        have hitems := hread.items.escape_cons hothers hlength
        rw [← hpiece] at hitems
        refine ⟨_, _, _, _, .cons hemits (hreported.trans Option.isNone_iff_eq_none.symm) ?_ hread
          hitems⟩
        intro diagnostic hmem
        obtain ⟨hcode, hstart, hstop⟩ := hspans diagnostic hmem
        have hpos := textBytes_singleton_pos '\\'
        have hposition := hemits.position
        rw [hpiece, textBytes_cons] at hposition
        exact ⟨hcode, by omega, by omega, by omega⟩
      · exact (Bool.false_ne_true hbrace).elim
      · refine leads_whenever_skip_bind Bool.false_ne_true ?_
        refine Leads.bind (leads_whenever_error _ _ _ _) fun _ middle hmiddle ↦ ?_
        obtain ⟨pieceReports, hemits, hreported, hspans⟩ := hmiddle
        refine leads_consume_bind ?_
        have hrest' : middle.rest = character :: others := hemits.rest.symm.trans hrest
        have hpiece : middle.rest.take 1 = [character] := by
          rw [hrest', take_succ_cons, take_zero]
        have hboth := hemits.trans (middle.skip_emits 1)
        rw [nil_append, append_nil, append_nil, hpiece] at hboth
        have hlt : (middle.skip 1).rest.length < turns := by
          have hskip : (middle.skip 1).rest.length < middle.rest.length :=
            middle.skip_length_lt (by simp [hrest']) Nat.one_pos
          rw [hrest'] at hskip
          rw [hrest] at hturns
          omega
        rw [hpiece]
        refine Leads.mono (ih (read.add [character] read.interpolationDepth) hdepth hterminated hlt)
          fun result after hafter ↦ ?_
        obtain ⟨text, count, legal, reports, hread⟩ := hafter
        have hdiffers : character ≠ quote := fun heq ↦ hopen ⟨heq, hdepth⟩
        refine ⟨_, _, _, _, .cons hboth ?_ ?_ hread (.plain hplain hdiffers hread.items)⟩
        · rw [hreported, Bool.not_eq_true', Bool.not_eq_true]
        · intro diagnostic hmem
          obtain ⟨hcode, hstart, hstop⟩ := hspans diagnostic hmem
          have hpos := textBytes_singleton_pos character
          have hposition := hboth.position
          refine ⟨hcode ▸ by decide, by omega, by omega, by omega⟩

/-- Diagnostics from before a literal are not about it. -/
theorem Judged.prepend (h : Judged reports token kind)
    (hbefore : ∀ diagnostic ∈ diagnostics, ¬ diagnostic.About token) :
    Judged (diagnostics ++ reports) token kind := by
  cases h with
  | quoted hspelling hplain h hlegal =>
    refine .quoted hspelling hplain h (hlegal.trans ?_)
    rw [forall_mem_append]
    exact ⟨fun hall ↦ ⟨hbefore, hall⟩, And.right⟩
  | reserved hspelling htriple hreported =>
    obtain ⟨diagnostic, hmem, habout⟩ := hreported
    exact .reserved hspelling htriple ⟨diagnostic, mem_append_right _ hmem, habout⟩

section Push

variable {middle after : Scanner} {text : List Char} {reports : List Diagnostic} {token : Token}
  {kind : TokenKind} {literal : LiteralKind}

/-- A literal token covers the text read since its start. -/
theorem Pushes.moves (h : Pushes token middle after) (hemits : Emits text [] reports state middle)
    (hstart : token.start = state.position) :
    Moves text [token.kind] reports state after where
  rest := by
    rw [h.rest]
    exact hemits.rest
  position := h.position.trans hemits.position
  tokens := by
    obtain ⟨added, htokens, hadded, _⟩ := hemits.tokens
    rw [map_eq_nil_iff] at hadded
    subst hadded
    refine ⟨[token], ?_, rfl, fun pushed hmem _ ↦ ?_⟩
    · rw [h.tokens, htokens, append_nil]
    · rw [mem_singleton.mp hmem, hstart]
  diagnostics := h.diagnostics.trans hemits.diagnostics

theorem Sound.pushLiteral (h : Sound state) (hemits : Emits text [] reports state middle)
    (hpushes : Pushes token middle after) (hkind : literalKind token.kind = some literal)
    (hstart : token.start = state.position) (hstop : token.stop = middle.position)
    (hreports : ∀ diagnostic ∈ reports, diagnostic.code ∈ literalCodes →
      state.position ≤ diagnostic.start ∧ diagnostic.start < diagnostic.stop ∧
        diagnostic.stop ≤ middle.position)
    (hjudged : Judged reports token literal) : Sound after := by
  have hmiddle : Sound middle := h.moves hemits.toMoves (forall_mem_nil _)
    hreports
  constructor
  · intro other hmem kind hother
    rw [hpushes.tokens, mem_append, mem_singleton] at hmem
    rw [hpushes.position, hpushes.diagnostics]
    cases hmem with
    | inl hmem => exact hmiddle.literals other hmem kind hother
    | inr hmem =>
      subst hmem
      rw [hkind, Option.some.injEq] at hother
      subst hother
      refine ⟨hstop.le, ?_⟩
      rw [hemits.diagnostics]
      refine hjudged.prepend fun diagnostic hdiagnostic habout ↦ ?_
      obtain ⟨hlt, hle⟩ := h.diagnostics diagnostic hdiagnostic habout.1
      have hbefore := habout.2.1
      omega
  · intro diagnostic hmem hcode
    rw [hpushes.diagnostics] at hmem
    rw [hpushes.position]
    exact hmiddle.diagnostics diagnostic hmem hcode

/-- Push the literal token for the text read since `state`. -/
theorem leads_pushLiteral (h : Sound state) (hemits : Emits text [] reports state middle)
    (hne : text ≠ []) (hkind : literalKind kind = some literal)
    (hreports : ∀ diagnostic ∈ reports, diagnostic.code ∈ literalCodes →
      state.position ≤ diagnostic.start ∧ diagnostic.start < diagnostic.stop ∧
        diagnostic.stop ≤ middle.position)
    (hjudged : Judged reports
      ⟨kind, state.position, state.position + textBytes text, none, some text, false⟩ literal) :
    Leads (pushPhysical limits kind state.position text none true) middle
      (fun _ after ↦ Inline state after ∧ Sound after ∧ after.rest.length < state.rest.length)
      (· ≠ .exhausted) := by
  refine Leads.mono (leads_pushPhysical kind state.position text none true) fun _ after hafter ↦ ?_
  have hmoves := hafter.moves hemits rfl
  refine ⟨⟨⟨text, [kind], reports, hmoves, ?_, ?_⟩, ?_⟩, ?_, ?_⟩
  · intro hmem
    rw [← mem_singleton.mp hmem] at hkind
    cases hkind
  · intro hmem
    rw [← mem_singleton.mp hmem] at hkind
    cases hkind
  · exact hafter.layout.trans hemits.layout
  · exact h.pushLiteral hemits hafter hkind rfl hemits.position.symm hreports hjudged
  · have hpos := length_pos_iff.mpr hne
    rw [hmoves.rest, length_append]
    omega

end Push

theorem literalKind_eq_some (h : literalKind kind = some literal) :
    (kind = .stringLiteral ∧ literal = .string) ∨ (kind = .byteStringLiteral ∧ literal = .byteString) ∨
      (kind = .characterLiteral ∧ literal = .character) := by
  cases kind with
  | stringLiteral => exact .inl ⟨rfl, (Option.some.inj h).symm⟩
  | byteStringLiteral => exact .inr (.inl ⟨rfl, (Option.some.inj h).symm⟩)
  | characterLiteral => exact .inr (.inr ⟨rfl, (Option.some.inj h).symm⟩)
  | _ => cases h

theorem isTripleQuoted_append (h : isTripleQuoted front = true) (back : List Char) :
    isTripleQuoted (front ++ back) = true :=
  isPrefixOf_iff_prefix.mpr
    (( isPrefixOf_iff_prefix.mp h).trans (prefix_append front back))

/-- When all its diagnostics are about a token, the token has none exactly when there are none. -/
theorem forall_not_about_iff {reports : List Diagnostic} {token : Token}
    (h : ∀ diagnostic ∈ reports, diagnostic.About token) :
    (∀ diagnostic ∈ reports, ¬ diagnostic.About token) ↔ reports = [] := by
  rw [eq_nil_iff_forall_not_mem]
  exact ⟨fun hnone diagnostic hmem ↦ hnone diagnostic hmem (h diagnostic hmem),
    fun hnil diagnostic hmem ↦ absurd hmem (hnil diagnostic)⟩

/-- Whether the whole of a literal is legal. -/
def Quoted.legal (result : Quoted) (literal : LiteralKind) (legal : Bool) : Bool :=
  result.terminated && (legal && (literal != .character || result.decodedScalars == 1))

theorem Quoted.legal_iff (result : Quoted) (literal : LiteralKind) (legal : Bool) :
    result.legal literal legal = true ↔ (legal = true ∧ ¬ result.terminated = false) ∧
      ¬ (literal = .character ∧ result.decodedScalars ≠ 1) := by
  simp only [Quoted.legal, Bool.and_eq_true, Bool.or_eq_true, bne_iff_ne, beq_iff_eq,
    Bool.not_eq_false]
  tauto

theorem QuotedRead.scanned {literal : LiteralKind} {read result : Quoted} {text : List Char}
    {count : ℕ} {legal : Bool} {reports : List Diagnostic} {after : Scanner}
    (h : QuotedRead (quoteOf literal) (literal == .byteString) read result text count legal reports
      state after) (hscalars : read.decodedScalars = 0) :
    ScannedLiteral literal (openingOf literal ++ (text ++ result.closing (quoteOf literal)))
      (result.legal literal legal) := by
  have hcount : result.decodedScalars = count := by rw [h.scalars, hscalars, Nat.zero_add]
  rw [Quoted.legal, Quoted.closing, hcount]
  cases result.terminated with
  | true => exact .terminated h.items
  | false =>
    rw [if_neg Bool.false_ne_true, append_nil]
    exact .unterminated h.items

theorem advances_scanQuoted {kind : TokenKind} {literal : LiteralKind} {prefixBytes : ℕ}
    {byteString : Bool} (h : Sound state) (hkind : literalKind kind = some literal)
    (hbytes : byteString = (literal == .byteString))
    (hopening : state.rest.take (prefixBytes + 1) = openingOf literal)
    (hplain : isTripleQuoted state.rest = false) :
    Advances (scanQuoted limits kind prefixBytes byteString false) state := by
  subst hbytes
  have hquote : (if kind = .characterLiteral then '\'' else '"') = quoteOf literal := by
    obtain ⟨rfl, rfl⟩ | ⟨rfl, rfl⟩ | ⟨rfl, rfl⟩ := literalKind_eq_some hkind
    · rfl
    · rfl
    · rfl
  have hcharacter : kind = .characterLiteral ↔ literal = .character := by
    obtain ⟨rfl, rfl⟩ | ⟨rfl, rfl⟩ | ⟨rfl, rfl⟩ := literalKind_eq_some hkind
    · decide
    · decide
    · decide
  have hne : openingOf literal ≠ [] := by
    cases literal with
    | _ => exact cons_ne_nil _ _
  have hopened := state.skip_emits (prefixBytes + 1)
  rw [hopening] at hopened
  refine leads_get_bind ?_
  simp only [hquote]
  refine leads_consume_bind (leads_get_bind ?_)
  rw [hopening]
  refine Leads.bind (leads_quotedLoop _ _ rfl rfl (Nat.lt_succ_self _)) fun result loopEnd hloop ↦ ?_
  obtain ⟨text, count, legal, loopReports, hread⟩ := hloop
  refine leads_get_bind (Leads.bind (leads_whenever_error _ _ _ _) fun _ first hfirst ↦ ?_)
  obtain ⟨endReports, hend, hendReported, hendSpans⟩ := hfirst
  refine leads_whenever_skip_bind (not_not_intro hread.depth) ?_
  refine Leads.bind (leads_whenever_error _ _ _ _) fun _ second hsecond ↦ ?_
  obtain ⟨countReports, hcount, hcountReported, hcountSpans⟩ := hsecond
  have htotal := ((hopened.trans hread.emits).trans hend).trans hcount
  simp only [append_nil, nil_append] at htotal
  have hspelling : result.text = openingOf literal ++ (text ++ result.closing (quoteOf literal)) :=
    hread.spelling
  rw [← hspelling] at htotal
  have hspelled : result.text ≠ [] := by
    rw [hspelling]
    exact append_ne_nil_of_left_ne_nil hne _
  have hstop : second.position = loopEnd.position := hcount.position.trans hend.position
  have hlt : state.position < loopEnd.position := by
    rw [← hstop, htotal.position]
    exact Nat.lt_add_of_pos_right (textBytes_pos hspelled)
  have hspans : ∀ diagnostic ∈ loopReports ++ endReports ++ countReports,
      diagnostic.code ∈ literalCodes ∧ state.position ≤ diagnostic.start ∧
        diagnostic.start < diagnostic.stop ∧ diagnostic.stop ≤ second.position := by
    intro diagnostic hmem
    rw [mem_append, mem_append] at hmem
    obtain (hmem | hmem) | hmem := hmem
    · obtain ⟨hcode, hstart, hbefore, hle⟩ := hread.spans diagnostic hmem
      exact ⟨hcode, hopened.position_le.trans hstart, hbefore, hle.trans hstop.ge⟩
    · obtain ⟨hcode, hstart, hle⟩ := hendSpans diagnostic hmem
      exact ⟨hcode ▸ by decide, hstart.ge, by omega, by omega⟩
    · obtain ⟨hcode, hstart, hle⟩ := hcountSpans diagnostic hmem
      exact ⟨hcode ▸ by decide, hstart.ge, by omega, by omega⟩
  refine leads_pushLiteral h htotal hspelled hkind (fun diagnostic hmem _ ↦ (hspans diagnostic hmem).2)
    (.quoted rfl ?_ (hspelling ▸ hread.scanned rfl) ?_)
  · rw [htotal.rest] at hplain
    cases htriple : isTripleQuoted result.text with
    | false => rfl
    | true =>
      rw [isTripleQuoted_append htriple] at hplain
      cases hplain
  · rw [forall_not_about_iff fun diagnostic hmem ↦ ?_]
    · rw [append_eq_nil_iff, append_eq_nil_iff, hread.reported, hendReported,
        hcountReported, hcharacter, result.legal_iff]
    · obtain ⟨hcode, hstart, _, hle⟩ := hspans diagnostic hmem
      exact ⟨hcode, hstart, hle.trans htotal.position.le⟩

theorem isTripleQuoted_iff :
    isTripleQuoted text = true ↔ ∃ others, text = '"' :: '"' :: '"' :: others := by
  rw [isTripleQuoted, startsWithText, isPrefixOf_iff_prefix]
  exact ⟨fun ⟨others, hothers⟩ ↦ ⟨others, hothers.symm⟩, fun ⟨others, hothers⟩ ↦
    ⟨others, hothers.symm⟩⟩

theorem advances_scanReservedTripleQuoted (h : Sound state) (htriple : isTripleQuoted state.rest = true) :
    Advances (scanReservedTripleQuoted limits) state := by
  obtain ⟨others, hrest⟩ := isTripleQuoted_iff.mp htriple
  refine leads_get_bind (Leads.bind (leads_error _ _ _ _) fun _ middle hmiddle ↦ ?_)
  refine leads_consume_bind (leads_get_bind (leads_consume_bind ?_))
  have hopened := (hmiddle.trans (middle.skip_emits 3)).trans ((middle.skip 3).skip_emits
    (tripleQuotedLength (middle.skip 3).rest))
  simp only [nil_append, append_nil] at hopened
  have htext : middle.rest.take 3 = ['"', '"', '"'] := by
    have hsame : middle.rest = '"' :: '"' :: '"' :: others := hmiddle.rest.symm.trans hrest
    rw [hsame]
    rfl
  rw [htext] at hopened ⊢
  have hbytes : 3 ≤ textBytes (['"', '"', '"'] ++ ((middle.skip 3).rest.take
      (tripleQuotedLength (middle.skip 3).rest))) := by
    rw [textBytes_append]
    exact Nat.le_add_right _ _
  have hposition := hopened.position
  have hcode : "syntax-reserved-multiline-string" ∈ literalCodes := by decide
  have hstop : state.position + 3 ≤ ((middle.skip 3).skip
      (tripleQuotedLength (middle.skip 3).rest)).position := by omega
  refine leads_pushLiteral h hopened (cons_ne_nil _ _) rfl ?_
    (.reserved rfl rfl ⟨_, mem_singleton_self _, hcode, le_rfl, ?_⟩)
  · intro diagnostic hmem _
    rw [mem_singleton.mp hmem]
    exact ⟨le_rfl, Nat.lt_add_of_pos_right (by decide), hstop⟩
  · exact Nat.add_le_add_left hbytes _

end Wrela.Syntax
