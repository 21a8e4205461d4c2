import Wrela.Data.StateRuns
import Wrela.Syntax.QuotedLaws
import Wrela.Syntax.Scan

/-!
# What a scan keeps

Two facts hold of every state of a scan, whatever has been read: a literal token and the diagnostics
inside its span agree (`Sound`), and code that scans within a line leaves the layout state alone and
adds no indentation token (`Inline`).  `Keeps` and `Advances` state both of a piece of scanner code, the
second with progress; no such code runs out of turns.
-/

namespace Wrela.Syntax

open List Wrela.StateRuns

@[simp]
theorem textBytes_append (front back : List Char) :
    textBytes (front ++ back) = textBytes front + textBytes back := by
  rw [textBytes, Wire.encodeChars_append, length_append]
  rfl

theorem textBytes_singleton_pos (character : Char) : 0 < textBytes [character] := by
  rw [textBytes, Wire.encodeChars, flatMap_singleton, String.length_utf8EncodeChar]
  exact character.utf8Size_pos

theorem textBytes_cons (character : Char) (text : List Char) :
    textBytes (character :: text) = textBytes [character] + textBytes text :=
  textBytes_append [character] text

theorem textBytes_pos (h : text ≠ []) : 0 < textBytes text := by
  cases text with
  | nil => exact absurd rfl h
  | cons character text =>
    rw [textBytes_cons]
    exact Nat.add_pos_left (textBytes_singleton_pos character) _

/-- The kind of literal that a token between quotes is. -/
def literalKind : TokenKind → Option LiteralKind
  | .stringLiteral => some .string
  | .byteStringLiteral => some .byteString
  | .characterLiteral => some .character
  | _ => none

/-- The kinds of tokens that are neither literals nor indentation. -/
def IsPlain (kind : TokenKind) : Prop := literalKind kind = none ∧ kind ≠ .indent ∧ kind ≠ .dedent

instance decidableIsPlain (kind : TokenKind) : Decidable (IsPlain kind) :=
  inferInstanceAs (Decidable (literalKind kind = none ∧ kind ≠ .indent ∧ kind ≠ .dedent))

/-- The codes of the diagnostics about the text of a literal. -/
def literalCodes : List String :=
  ["syntax-invalid-escape", "syntax-invalid-unicode-escape", "syntax-unterminated-literal",
    "syntax-non-ascii-byte-string", "syntax-invalid-character-literal",
    "syntax-reserved-multiline-string"]

/-- A diagnostic about a literal, inside the span of the token. -/
def Diagnostic.About (diagnostic : Diagnostic) (token : Token) : Prop :=
  diagnostic.code ∈ literalCodes ∧ token.start ≤ diagnostic.start ∧ diagnostic.stop ≤ token.stop

def isTripleQuoted (spelling : List Char) : Bool := startsWithText "\"\"\"" spelling

/-- A literal token as the scan leaves it, with what the diagnostics say about it. -/
inductive Judged (diagnostics : List Diagnostic) (token : Token) (kind : LiteralKind) : Prop where
  | quoted {spelling : List Char} {legal : Bool} (hspelling : token.spelling = some spelling)
      (hplain : isTripleQuoted spelling = false) (h : ScannedLiteral kind spelling legal)
      (hlegal : legal = true ↔ ∀ diagnostic ∈ diagnostics, ¬ diagnostic.About token)
  | reserved {spelling : List Char} (hspelling : token.spelling = some spelling)
      (htriple : isTripleQuoted spelling = true)
      (hreported : ∃ diagnostic ∈ diagnostics, diagnostic.About token)

structure Sound (state : Scanner) : Prop where
  literals : ∀ token ∈ state.tokens, ∀ kind, literalKind token.kind = some kind →
    token.stop ≤ state.position ∧ Judged state.diagnostics token kind
  diagnostics : ∀ diagnostic ∈ state.diagnostics, diagnostic.code ∈ literalCodes →
    diagnostic.start < diagnostic.stop ∧ diagnostic.stop ≤ state.position

theorem Scanner.new_sound (text : List Char) : Sound (Scanner.new text) where
  literals := forall_mem_nil _
  diagnostics := forall_mem_nil _

/-- A diagnostic outside the span of a token changes nothing about it. -/
theorem Judged.append (h : Judged diagnostics token kind)
    (hadded : ∀ diagnostic ∈ added, ¬ diagnostic.About token) :
    Judged (diagnostics ++ added) token kind := by
  cases h with
  | quoted hspelling hplain h hlegal =>
    refine .quoted hspelling hplain h (hlegal.trans ?_)
    rw [forall_mem_append]
    exact ⟨fun hall ↦ ⟨hall, hadded⟩, And.left⟩
  | reserved hspelling htriple hreported =>
    obtain ⟨diagnostic, hmem, habout⟩ := hreported
    exact .reserved hspelling htriple ⟨diagnostic, mem_append_left _ hmem, habout⟩

/-- The part of the state that decides about indentation. -/
structure Layout where
  atLineStart : Bool
  preparedDedentAt : Option ℕ
  hangingHeaderAt : Option ℕ
  hangingHeaderContinuation : Bool
  indentation : List ℕ

def Scanner.layout (state : Scanner) : Layout where
  atLineStart := state.atLineStart
  preparedDedentAt := state.preparedDedentAt
  hangingHeaderAt := state.hangingHeaderAt
  hangingHeaderContinuation := state.hangingHeaderContinuation
  indentation := state.indentation

/-- The scan reads `text` and adds tokens of the given kinds and the diagnostics `reports`. -/
structure Moves (text : List Char) (kinds : List TokenKind) (reports : List Diagnostic)
    (state after : Scanner) : Prop where
  rest : state.rest = text ++ after.rest
  position : after.position = state.position + textBytes text
  tokens : ∃ added, after.tokens = state.tokens ++ added ∧ added.map Token.kind = kinds ∧
    ∀ token ∈ added, (literalKind token.kind).isSome = true → state.position ≤ token.start
  diagnostics : after.diagnostics = state.diagnostics ++ reports

variable {text text' : List Char} {kinds kinds' : List TokenKind}
  {reports reports' : List Diagnostic} {state middle after : Scanner}

theorem Moves.refl (state : Scanner) : Moves [] [] [] state state where
  rest := rfl
  position := rfl
  tokens := ⟨[], (append_nil _).symm, rfl, forall_mem_nil _⟩
  diagnostics := (append_nil _).symm

theorem Moves.position_le (h : Moves text kinds reports state after) :
    state.position ≤ after.position := by
  rw [h.position]
  exact Nat.le_add_right _ _

theorem Moves.trans (h : Moves text kinds reports state middle)
    (h' : Moves text' kinds' reports' middle after) :
    Moves (text ++ text') (kinds ++ kinds') (reports ++ reports') state after := by
  obtain ⟨added, htokens, hkinds, hstart⟩ := h.tokens
  obtain ⟨added', htokens', hkinds', hstart'⟩ := h'.tokens
  constructor
  · rw [h.rest, h'.rest, append_assoc]
  · rw [h'.position, h.position, textBytes_append, Nat.add_assoc]
  · refine ⟨added ++ added', ?_, ?_, ?_⟩
    · rw [htokens', htokens, append_assoc]
    · rw [map_append, hkinds, hkinds']
    · intro token hmem hliteral
      cases mem_append.mp hmem with
      | inl hmem => exact hstart token hmem hliteral
      | inr hmem => exact h.position_le.trans (hstart' token hmem hliteral)
  · rw [h'.diagnostics, h.diagnostics, append_assoc]

/-- Code that works within a line. -/
structure Inline (state after : Scanner) : Prop where
  moves : ∃ text kinds reports, Moves text kinds reports state after ∧
    TokenKind.indent ∉ kinds ∧ TokenKind.dedent ∉ kinds
  layout : after.layout = state.layout

theorem Inline.refl (state : Scanner) : Inline state state :=
  ⟨⟨[], [], [], Moves.refl state, not_mem_nil, not_mem_nil⟩, rfl⟩

theorem Inline.trans (h : Inline state middle) (h' : Inline middle after) : Inline state after := by
  obtain ⟨text, kinds, reports, hmoves, hindent, hdedent⟩ := h.moves
  obtain ⟨text', kinds', reports', hmoves', hindent', hdedent'⟩ := h'.moves
  refine ⟨⟨_, _, _, hmoves.trans hmoves', ?_, ?_⟩, h'.layout.trans h.layout⟩
  · rw [mem_append, not_or]
    exact ⟨hindent, hindent'⟩
  · rw [mem_append, not_or]
    exact ⟨hdedent, hdedent'⟩

theorem Inline.position_le (h : Inline state after) : state.position ≤ after.position := by
  obtain ⟨text, kinds, reports, hmoves, _⟩ := h.moves
  exact hmoves.position_le

theorem Inline.length_le (h : Inline state after) : after.rest.length ≤ state.rest.length := by
  obtain ⟨text, kinds, reports, hmoves, _⟩ := h.moves
  rw [hmoves.rest, length_append]
  exact Nat.le_add_left _ _

/-- The code ends in a sound state on the same line, or with an error of the scanner. -/
def Keeps {α : Type} (run : Scan α) (state : Scanner) : Prop :=
  Leads run state (fun _ after ↦ Inline state after ∧ Sound after) (· ≠ .exhausted)

/-- The code also reads some text. -/
def Advances {α : Type} (run : Scan α) (state : Scanner) : Prop :=
  Leads run state
    (fun _ after ↦ Inline state after ∧ Sound after ∧ after.rest.length < state.rest.length)
    (· ≠ .exhausted)

/-- The code reads no text. -/
def Stays {α : Type} (run : Scan α) (state : Scanner) : Prop :=
  Leads run state (fun _ after ↦ Inline state after ∧ Sound after ∧ after.rest = state.rest)
    (· ≠ .exhausted)

variable {α β : Type} {run : Scan α} {next : α → Scan β}

theorem Stays.keeps (h : Stays run state) : Keeps run state :=
  Leads.mono h fun _ _ hafter ↦ ⟨hafter.1, hafter.2.1⟩

theorem Advances.keeps (h : Advances run state) : Keeps run state :=
  Leads.mono h fun _ _ hafter ↦ ⟨hafter.1, hafter.2.1⟩

theorem Keeps.bindFrom (h : Keeps run state)
    (hnext : ∀ value after, Inline state after → Sound after → Keeps (next value) after) :
    Keeps (run >>= next) state := by
  refine Leads.bind h fun value middle hmiddle ↦ ?_
  exact Leads.mono (hnext value middle hmiddle.1 hmiddle.2) fun _ after hafter ↦
    ⟨hmiddle.1.trans hafter.1, hafter.2⟩

theorem Keeps.bind (h : Keeps run state)
    (hnext : ∀ value after, Sound after → Keeps (next value) after) : Keeps (run >>= next) state :=
  h.bindFrom fun value after _ hafter ↦ hnext value after hafter

theorem Advances.bindFrom (h : Advances run state)
    (hnext : ∀ value after, Inline state after → after.rest.length < state.rest.length →
      Sound after → Keeps (next value) after) : Advances (run >>= next) state := by
  refine Leads.bind h fun value middle hmiddle ↦ ?_
  exact Leads.mono (hnext value middle hmiddle.1 hmiddle.2.2 hmiddle.2.1) fun _ after hafter ↦
    ⟨hmiddle.1.trans hafter.1, hafter.2, hafter.1.length_le.trans_lt hmiddle.2.2⟩

theorem Advances.bind (h : Advances run state)
    (hnext : ∀ value after, Sound after → Keeps (next value) after) :
    Advances (run >>= next) state :=
  h.bindFrom fun value after _ _ hafter ↦ hnext value after hafter

theorem Stays.bindFrom (h : Stays run state)
    (hnext : ∀ value after, Inline state after → after.rest = state.rest → Sound after →
      Advances (next value) after) : Advances (run >>= next) state := by
  refine Leads.bind h fun value middle hmiddle ↦ ?_
  have hafter := hnext value middle hmiddle.1 hmiddle.2.2 hmiddle.2.1
  rw [Advances, hmiddle.2.2] at hafter
  exact Leads.mono hafter fun _ after hafter ↦ ⟨hmiddle.1.trans hafter.1, hafter.2⟩

theorem stays_pure (h : Sound state) (value : α) : Stays (pure value) state :=
  leads_pure ⟨Inline.refl state, h, rfl⟩

theorem keeps_pure (h : Sound state) (value : α) : Keeps (pure value) state :=
  leads_pure ⟨Inline.refl state, h⟩

theorem keeps_throw {failure : ParseFailure} (h : failure ≠ .exhausted) :
    Keeps (throw failure : Scan α) state :=
  leads_throw h

variable {condition : Prop} {action : Scan Unit} {count : ℕ}

theorem keeps_whenever [Decidable condition]
    (h : Sound state) (haction : condition → Keeps action state) :
    Keeps (whenever condition action) state :=
  leads_ite haction fun _ ↦ keeps_pure h ()

theorem stays_whenever [Decidable condition]
    (h : Sound state) (haction : condition → Stays action state) :
    Stays (whenever condition action) state :=
  leads_ite haction fun _ ↦ stays_pure h ()

/-! ## Output -/

/-- A step that leaves the layout and the delimiters as they are. -/
structure Emits (text : List Char) (kinds : List TokenKind) (reports : List Diagnostic)
    (state after : Scanner) : Prop extends Moves text kinds reports state after where
  layout : after.layout = state.layout
  delimiters : after.delimiters = state.delimiters

theorem Emits.refl (state : Scanner) : Emits [] [] [] state state := ⟨Moves.refl state, rfl, rfl⟩

theorem Emits.trans (h : Emits text kinds reports state middle)
    (h' : Emits text' kinds' reports' middle after) :
    Emits (text ++ text') (kinds ++ kinds') (reports ++ reports') state after :=
  ⟨h.toMoves.trans h'.toMoves, h'.layout.trans h.layout, h'.delimiters.trans h.delimiters⟩

theorem Sound.moves (h : Sound state) (hmoves : Moves text kinds reports state after)
    (hkinds : ∀ kind ∈ kinds, literalKind kind = none)
    (hreports : ∀ diagnostic ∈ reports, diagnostic.code ∈ literalCodes →
      state.position ≤ diagnostic.start ∧ diagnostic.start < diagnostic.stop ∧
        diagnostic.stop ≤ after.position) : Sound after := by
  obtain ⟨added, htokens, hadded, _⟩ := hmoves.tokens
  constructor
  · intro token hmem kind hkind
    rw [htokens, mem_append] at hmem
    cases hmem with
    | inl hmem =>
      obtain ⟨hstop, hjudged⟩ := h.literals token hmem kind hkind
      refine ⟨hstop.trans hmoves.position_le, ?_⟩
      rw [hmoves.diagnostics]
      refine hjudged.append fun diagnostic hdiagnostic habout ↦ ?_
      obtain ⟨hstart, hlt, _⟩ := hreports diagnostic hdiagnostic habout.1
      have hle := habout.2.2
      omega
    | inr hmem =>
      have hnone := hkinds token.kind (hadded ▸ mem_map_of_mem hmem)
      rw [hnone] at hkind
      cases hkind
  · intro diagnostic hmem hcode
    rw [hmoves.diagnostics, mem_append] at hmem
    cases hmem with
    | inl hmem =>
      obtain ⟨hlt, hle⟩ := h.diagnostics diagnostic hmem hcode
      exact ⟨hlt, hle.trans hmoves.position_le⟩
    | inr hmem => exact (hreports diagnostic hmem hcode).2

/-- The reports of a step that are about literals lie in the text that it reads. -/
def ReportsWithin (reports : List Diagnostic) (state after : Scanner) : Prop :=
  ∀ diagnostic ∈ reports, diagnostic.code ∈ literalCodes →
    state.position ≤ diagnostic.start ∧ diagnostic.start < diagnostic.stop ∧
      diagnostic.stop ≤ after.position

theorem Emits.inline (h : Emits text kinds reports state after) (hkinds : ∀ kind ∈ kinds, IsPlain kind) :
    Inline state after :=
  ⟨⟨text, kinds, reports, h.toMoves, fun hmem ↦ (hkinds _ hmem).2.1 rfl,
    fun hmem ↦ (hkinds _ hmem).2.2 rfl⟩, h.layout⟩

theorem Emits.sound (h : Emits text kinds reports state after) (hkinds : ∀ kind ∈ kinds, IsPlain kind)
    (hreports : ReportsWithin reports state after) (hsound : Sound state) : Sound after :=
  hsound.moves h.toMoves (fun kind hmem ↦ (hkinds kind hmem).1) hreports

variable {limits : ParseLimits} {fault : ParseFailure → Prop}

variable {post : β → Scanner → Prop}

theorem leads_limitTo_bind {used : Prop} [Decidable used]
    {next : PUnit → Scan β} (resource : String) (limit : ℕ)
    (h : Leads (next ⟨⟩) state post (· ≠ .exhausted)) :
    Leads (limitTo used resource limit >>= next) state post (· ≠ .exhausted) := by
  have hlimit : Leads (limitTo used resource limit) state (fun _ after ↦ after = state)
      (· ≠ .exhausted) :=
    leads_ite (fun _ ↦ leads_throw ParseFailure.noConfusion) fun _ ↦ leads_pure rfl
  refine Leads.bind hlimit fun _ after hafter ↦ ?_
  rw [hafter]
  exact h

theorem leads_whenever_skip_bind [Decidable condition]
    {next : PUnit → Scan β} (hskip : ¬ condition) (h : Leads (next ⟨⟩) state post fault) :
    Leads (whenever condition action >>= next) state post fault := by
  rw [whenever, if_neg hskip]
  exact h

theorem leads_error (code : String) (start stop : ℕ) (message : String) :
    Leads (error limits code start stop message) state
      (fun _ after ↦ Emits [] [] [⟨code, start, stop, message⟩] state after) (· ≠ .exhausted) := by
  refine leads_get_bind (leads_limitTo_bind _ _ (leads_limitTo_bind _ _ (leads_set ?_)))
  exact ⟨⟨rfl, rfl, ⟨[], (append_nil _).symm, rfl, forall_mem_nil _⟩, rfl⟩, rfl, rfl⟩

theorem leads_whenever_error [Decidable condition] (code : String)
    (start stop : ℕ) (message : String) :
    Leads (whenever condition (error limits code start stop message)) state
      (fun _ after ↦ ∃ reports, Emits [] [] reports state after ∧ (reports = [] ↔ ¬ condition) ∧
        ∀ diagnostic ∈ reports, diagnostic.code = code ∧ diagnostic.start = start ∧
          diagnostic.stop = stop) (· ≠ .exhausted) := by
  refine leads_ite (fun hcondition ↦ ?_) fun hcondition ↦ ?_
  · refine Leads.mono (leads_error code start stop message) fun _ after hafter ↦ ?_
    refine ⟨_, hafter, by simp [hcondition], fun diagnostic hmem ↦ ?_⟩
    rw [mem_singleton.mp hmem]
    exact ⟨rfl, rfl, rfl⟩
  · exact leads_pure ⟨[], Emits.refl state, by simp [hcondition], forall_mem_nil _⟩

/-- The step that adds one token. -/
structure Pushes (token : Token) (state after : Scanner) : Prop where
  rest : after.rest = state.rest
  position : after.position = state.position
  tokens : after.tokens = state.tokens ++ [token]
  diagnostics : after.diagnostics = state.diagnostics
  layout : after.layout = state.layout
  delimiters : after.delimiters = state.delimiters

theorem leads_pushToken (token : Token) :
    Leads (pushToken token) state (fun _ after ↦ Pushes token state after) fault :=
  leads_modify ⟨rfl, rfl, rfl, rfl, rfl, rfl⟩

theorem leads_checkTokenCapacity_bind {next : PUnit → Scan β}
    (h : Leads (next ⟨⟩) state post (· ≠ .exhausted)) :
    Leads (checkTokenCapacity limits >>= next) state post (· ≠ .exhausted) := by
  have hcheck : Leads (checkTokenCapacity limits) state (fun _ after ↦ after = state)
      (· ≠ .exhausted) :=
    leads_get_bind (leads_ite (fun _ ↦ leads_throw ParseFailure.noConfusion) fun _ ↦ leads_pure rfl)
  refine Leads.bind hcheck fun _ after hafter ↦ ?_
  rw [hafter]
  exact h

theorem leads_chargeLiteral (text : List Char) :
    Leads (chargeLiteral limits text) state
      (fun _ after ↦ ∃ bytes, after = { state with literalBytes := bytes }) (· ≠ .exhausted) :=
  leads_get_bind (leads_limitTo_bind _ _ (leads_set ⟨_, rfl⟩))

theorem leads_pushPhysical (kind : TokenKind) (start : ℕ) (text : List Char)
    (newlineOrigin : Option NewlineOrigin) (spelling : Bool) :
    Leads (pushPhysical limits kind start text newlineOrigin spelling) state
      (fun _ after ↦ Pushes ⟨kind, start, start + textBytes text, newlineOrigin,
        if spelling then some text else none, false⟩ state after) (· ≠ .exhausted) := by
  have hcharge : Leads (whenever (spelling && isLiteralToken kind) (chargeLiteral limits text)) state
      (fun _ after ↦ ∃ bytes, after = { state with literalBytes := bytes }) (· ≠ .exhausted) :=
    leads_ite (fun _ ↦ leads_chargeLiteral text) fun _ ↦ leads_pure ⟨state.literalBytes, rfl⟩
  refine leads_checkTokenCapacity_bind (Leads.bind hcharge fun _ middle hmiddle ↦ ?_)
  obtain ⟨bytes, rfl⟩ := hmiddle
  exact Leads.mono (leads_pushToken _) fun _ after hafter ↦
    ⟨hafter.rest, hafter.position, hafter.tokens, hafter.diagnostics, hafter.layout,
      hafter.delimiters⟩

theorem leads_pushSynthetic (kind : TokenKind) (position : ℕ)
    (newlineOrigin : Option NewlineOrigin) :
    Leads (pushSynthetic limits kind position newlineOrigin) state
      (fun _ after ↦ Pushes ⟨kind, position, position, newlineOrigin, none, true⟩ state after)
      (· ≠ .exhausted) :=
  leads_checkTokenCapacity_bind (leads_pushToken _)

theorem leads_pushTrivia (kind : TriviaKind) (start : ℕ) (text : List Char) :
    Leads (pushTrivia kind start text) state (fun _ after ↦ Emits [] [] [] state after) fault :=
  leads_modify ⟨⟨rfl, rfl, ⟨[], (append_nil _).symm, rfl,
    forall_mem_nil _⟩, (append_nil _).symm⟩, rfl, rfl⟩

/-- A token that is not a literal may be pushed at any time. -/
theorem Pushes.emits (h : Pushes token state after) (hliteral : literalKind token.kind = none) :
    Emits [] [token.kind] [] state after where
  rest := h.rest.symm
  position := h.position
  tokens := by
    refine ⟨[token], h.tokens, rfl, fun pushed hmem hsome ↦ ?_⟩
    rw [mem_singleton.mp hmem, hliteral] at hsome
    cases hsome
  diagnostics := h.diagnostics.trans (append_nil _).symm
  layout := h.layout
  delimiters := h.delimiters

/-- The state after `count` characters. -/
def Scanner.skip (state : Scanner) (count : ℕ) : Scanner :=
  { state with
    position := state.position + textBytes (state.rest.take count)
    rest := state.rest.drop count }

theorem Scanner.skip_emits (state : Scanner) (count : ℕ) :
    Emits (state.rest.take count) [] [] state (state.skip count) where
  rest := (take_append_drop count state.rest).symm
  position := rfl
  tokens := ⟨[], (append_nil _).symm, rfl, forall_mem_nil _⟩
  diagnostics := (append_nil _).symm
  layout := rfl
  delimiters := rfl

theorem Scanner.skip_inline (state : Scanner) (count : ℕ) : Inline state (state.skip count) :=
  ⟨⟨_, _, _, (state.skip_emits count).toMoves, not_mem_nil, not_mem_nil⟩, rfl⟩

theorem Sound.skip (h : Sound state) (count : ℕ) : Sound (state.skip count) :=
  h.moves (state.skip_emits count).toMoves (forall_mem_nil _) (forall_mem_nil _)

theorem Scanner.skip_length_lt (hrest : state.rest ≠ []) (hcount : 0 < count) :
    (state.skip count).rest.length < state.rest.length := by
  have hpos := length_pos_iff.mpr hrest
  change (state.rest.drop count).length < state.rest.length
  rw [length_drop]
  omega

theorem leads_consume {post : List Char → Scanner → Prop}
    (h : post (state.rest.take count) (state.skip count)) :
    Leads (consume count) state post fault := by
  have hset : Leads (set (state.skip count)) state (fun _ after ↦ after = state.skip count) fault :=
    leads_set rfl
  exact leads_get_bind (Leads.bind hset fun _ _ hafter ↦ leads_pure (hafter ▸ h))

theorem leads_consume_bind {next : List Char → Scan β}
    (h : Leads (next (state.rest.take count)) (state.skip count) post fault) :
    Leads (consume count >>= next) state post fault := by
  have hread : Leads (consume count) state (fun text after ↦
      text = state.rest.take count ∧ after = state.skip count) fault := leads_consume ⟨rfl, rfl⟩
  refine Leads.bind hread fun text after hafter ↦ ?_
  rw [hafter.1, hafter.2]
  exact h

theorem leads_consumeWhile_bind {holds : Char → Bool} {next : List Char → Scan β}
    (h : Leads (next (state.rest.takeWhile holds))
      (state.skip (state.rest.takeWhile holds).length) post fault) :
    Leads (consumeWhile holds >>= next) state post fault := by
  have hread : Leads (consumeWhile holds) state (fun text after ↦
      text = state.rest.takeWhile holds ∧
        after = state.skip (state.rest.takeWhile holds).length) fault :=
    leads_get_bind (leads_consume ⟨(prefix_iff_eq_take.mp ( takeWhile_prefix holds)).symm, rfl⟩)
  refine Leads.bind hread fun text after hafter ↦ ?_
  rw [hafter.1, hafter.2]
  exact h

section

variable (h : Sound state)
include h

/-- A diagnostic that is not about a literal may be reported at any time. -/
theorem stays_error (hcode : code ∉ literalCodes) (start stop : ℕ) (message : String) :
    Stays (error limits code start stop message) state := by
  refine Leads.mono (leads_error code start stop message) fun _ after hafter ↦ ?_
  refine ⟨hafter.inline (forall_mem_nil _), hafter.sound (forall_mem_nil _) ?_ h, hafter.rest.symm⟩
  intro diagnostic hmem habout
  rw [mem_singleton.mp hmem] at habout
  exact absurd habout hcode

theorem keeps_error (hcode : code ∉ literalCodes) (start stop : ℕ) (message : String) :
    Keeps (error limits code start stop message) state :=
  (stays_error h hcode start stop message).keeps

theorem stays_pushPhysical (hkind : IsPlain kind) (start : ℕ) (text : List Char)
    (newlineOrigin : Option NewlineOrigin) (spelling : Bool) :
    Stays (pushPhysical limits kind start text newlineOrigin spelling) state := by
  refine Leads.mono (leads_pushPhysical ..) fun _ after hafter ↦ ?_
  have hemits := hafter.emits hkind.1
  have hkinds : ∀ pushed ∈ [kind], IsPlain pushed := by
    intro pushed hmem
    rw [mem_singleton.mp hmem]
    exact hkind
  exact ⟨hemits.inline hkinds, hemits.sound hkinds (forall_mem_nil _) h, hafter.rest⟩

theorem keeps_pushPhysical (hkind : IsPlain kind) (start : ℕ) (text : List Char)
    (newlineOrigin : Option NewlineOrigin) (spelling : Bool) :
    Keeps (pushPhysical limits kind start text newlineOrigin spelling) state :=
  (stays_pushPhysical h hkind start text newlineOrigin spelling).keeps

theorem keeps_pushTrivia (kind : TriviaKind) (start : ℕ) (text : List Char) :
    Keeps (pushTrivia kind start text) state :=
  Leads.mono (leads_pushTrivia ..) fun _ _ hafter ↦
    ⟨hafter.inline (forall_mem_nil _), hafter.sound (forall_mem_nil _) (forall_mem_nil _) h⟩

theorem keeps_consume (count : ℕ) : Keeps (consume count) state :=
  leads_consume ⟨state.skip_inline count, h.skip count⟩

theorem keeps_consumeWhile (holds : Char → Bool) : Keeps (consumeWhile holds) state :=
  leads_get_bind (keeps_consume h _)

theorem advances_consume (hrest : state.rest ≠ []) (hcount : 0 < count) :
    Advances (consume count) state :=
  leads_consume ⟨state.skip_inline count, h.skip count, state.skip_length_lt hrest hcount⟩

theorem advances_consumeWhile (hrest : state.rest = first :: others) (hfirst : holds first = true) :
    Advances (consumeWhile holds) state := by
  refine leads_get_bind (advances_consume h (by simp [hrest]) ?_)
  rw [hrest, takeWhile_cons_of_pos hfirst]
  exact Nat.succ_pos _

end

end Wrela.Syntax
