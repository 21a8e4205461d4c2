import Wrela.Syntax.LayoutLaws

/-!
# Laws of the lines

Two invariants hold at every turn of the scan.  The indentation tokens nest, and their depth is the
number of open levels (`Laid`).  Without a lone carriage return, a dedent is followed by a newline, an
indent follows one, and at the start of a line the newline before has settled the indentation of the next
line with code, however many blank lines and comments lie between (`Ordered`).
-/

namespace Wrela.Syntax

open List Wrela.Nesting Wrela.Source Wrela.StateRuns

variable {U : Unicode} {limits : ParseLimits} {state after : Scanner}

/-- What may stand next to each other. -/
def Follows (left right : TokenKind) : Prop :=
  (left = .dedent → right = .newline) ∧ (right = .indent → left = .newline)

/-- Every dedent is followed by a newline and every indent follows one or comes first. -/
def InOrder (kinds : List TokenKind) : Prop := kinds.IsChain Follows ∧ kinds.getLast? ≠ some .dedent

variable {kinds more : List TokenKind} {levels levels' : List ℕ} {indentation : ℕ}

theorem InOrder.append_other (h : InOrder kinds) (hindent : TokenKind.indent ∉ more)
    (hdedent : TokenKind.dedent ∉ more) : InOrder (kinds ++ more) := by
  have hmore : more.IsChain Follows := by
    induction more with
    | nil => exact .nil
    | cons kind more ih =>
      simp only [mem_cons, not_or] at hindent hdedent
      refine (ih hindent.2 hdedent.2).cons fun next hnext ↦ ⟨?_, ?_⟩
      · exact fun heq ↦ absurd heq.symm hdedent.1
      · rintro rfl
        exact absurd (mem_of_mem_head? hnext) hindent.2
  refine ⟨h.1.append hmore ?_, ?_⟩
  · intro left hleft right hright
    refine ⟨?_, ?_⟩
    · rintro rfl
      exact absurd hleft h.2
    · rintro rfl
      exact absurd (mem_of_mem_head? hright) hindent
  · intro hlast
    cases more with
    | nil =>
      rw [append_nil] at hlast
      exact h.2 hlast
    | cons kind more =>
      rw [List.getLast?_append_of_ne_nil _ (cons_ne_nil _ _)] at hlast
      exact hdedent (mem_of_getLast? hlast)

theorem InOrder.append_indent (h : InOrder kinds)
    (hlast : kinds = [] ∨ kinds.getLast? = some .newline) : InOrder (kinds ++ [.indent]) := by
  refine ⟨h.1.append (isChain_singleton _) ?_, by simp⟩
  intro left hleft right hright
  obtain rfl : right = .indent := by simpa using hright.symm
  refine ⟨?_, fun _ ↦ ?_⟩
  · rintro rfl
    exact absurd hleft h.2
  · cases hlast with
    | inl hnil =>
      rw [hnil] at hleft
      cases hleft
    | inr hlast =>
      rw [hlast] at hleft
      exact (Option.some.inj hleft).symm

theorem InOrder.append_closed (h : InOrder kinds) (closed : ℕ) :
    InOrder (kinds ++ closedKinds closed) := by
  induction closed generalizing kinds with
  | zero =>
    rw [closedKinds, replicate_zero, flatten_nil, append_nil]
    exact h
  | succ closed ih =>
    have hpair : InOrder (kinds ++ [.dedent, .newline]) := by
      refine ⟨h.1.append (isChain_pair.mpr ⟨fun _ ↦ rfl, TokenKind.noConfusion⟩) ?_, by simp⟩
      intro left hleft right hright
      obtain rfl : right = .dedent := by simpa using hright.symm
      refine ⟨?_, TokenKind.noConfusion⟩
      rintro rfl
      exact absurd hleft h.2
    rw [closedKinds, replicate_succ, flatten_cons, ← append_assoc]
    exact ih hpair

/-- The indentation tokens nest, as deep as there are levels above the root. -/
structure Laid (state : Scanner) : Prop where
  rooted : Rooted state.indentation
  nested : Nested TokenKind.indent .dedent (state.tokens.map Token.kind)
    (state.indentation.length - 1)

theorem Rooted.length_pos (h : Rooted levels) : 0 < levels.length := by
  cases levels with
  | nil => cases h
  | cons current outer => exact Nat.succ_pos _

/-- Close the levels above the given one. -/
theorem nested_unwind (h : Nested TokenKind.indent .dedent kinds (levels.length - 1))
    (hrooted : Rooted levels) (hothers : TokenKind.indent ∉ others ∧ TokenKind.dedent ∉ others) :
    Nested TokenKind.indent .dedent
      (kinds ++ (List.replicate (levels.length - (unwind indentation levels).length)
        (.dedent :: others)).flatten) ((unwind indentation levels).length - 1) := by
  have hle := unwind_length_le indentation levels
  have hpos := (hrooted.unwind_rooted indentation).length_pos
  refine Nested.append_closes hothers ?_
  have hdepth : (unwind indentation levels).length - 1 +
      (levels.length - (unwind indentation levels).length) = levels.length - 1 := by omega
  rwa [hdepth]

theorem Applies.rooted (h : Applies indentation levels more levels') (hrooted : Rooted levels) :
    Rooted levels' := by
  cases h with
  | same => exact hrooted
  | deeper hlt =>
    rw [Rooted, List.getLast?_cons_cons]
    exact hrooted
  | shallower hlt => exact hrooted.unwind_rooted indentation

theorem Applies.nested (h : Applies indentation levels more levels') (hrooted : Rooted levels)
    (hnested : Nested TokenKind.indent .dedent kinds (levels.length - 1)) :
    Nested TokenKind.indent .dedent (kinds ++ more) (levels'.length - 1) := by
  cases h with
  | same =>
    rw [append_nil]
    exact hnested
  | deeper hlt => exact hnested.opens
  | shallower hlt => exact nested_unwind hnested hrooted ⟨not_mem_nil, not_mem_nil⟩

/-- The first line from a position on that is neither blank nor a comment. -/
def followingLine (position : ℕ) (text : List Char) : SignificantLine :=
  nextSignificantLine (text.length + 1) position text

theorem lineEnding_pos_of_ne (h : lineEnding text ≠ 0) :
    (text.drop (lineEnding text)).length < text.length := by
  cases text with
  | nil => exact absurd rfl h
  | cons character text =>
    rw [length_drop, length_cons]
    omega

/-- The text after a comment. -/
def afterComment (text : List Char) : List Char := text.drop (leadingComment text).length

section NextLine

variable {turns turns' cursor : ℕ} {text : List Char}

theorem nextSignificantLine_succ : nextSignificantLine (turns + 1) cursor text =
    if afterBlank text = [] then
      ⟨0, cursor, cursor + textBytes (leadingBlank text), none, []⟩
    else if lineEnding (afterBlank text) ≠ 0 then
      nextSignificantLine turns (cursor + textBytes (leadingBlank text) + lineEnding (afterBlank text))
        ((afterBlank text).drop (lineEnding (afterBlank text)))
    else if (afterBlank text).head? = some '#' then
      if afterComment (afterBlank text) = [] then
        ⟨0, cursor, cursor + textBytes (leadingBlank text), none, []⟩
      else
        nextSignificantLine turns
          (cursor + textBytes (leadingBlank text) + textBytes (leadingComment (afterBlank text)) +
            max 1 (lineEnding (afterComment (afterBlank text))))
          ((afterComment (afterBlank text)).drop
            (max 1 (lineEnding (afterComment (afterBlank text)))))
    else
      ⟨indentationWidth (leadingBlank text), cursor, cursor + textBytes (leadingBlank text),
        some (cursor + textBytes (leadingBlank text)), afterBlank text⟩ := rfl

theorem afterBlank_length_le : (afterBlank text).length ≤ text.length := (drop_suffix _ _).length_le

theorem afterComment_length_le : (afterComment text).length ≤ text.length :=
  (drop_suffix _ _).length_le

/-- More turns than characters make no difference. -/
theorem nextSignificantLine_turns (h : text.length < turns) (h' : text.length < turns') :
    nextSignificantLine turns cursor text = nextSignificantLine turns' cursor text := by
  induction turns generalizing turns' cursor text with
  | zero => exact absurd h (Nat.not_lt_zero _)
  | succ turns ih =>
    obtain ⟨turns', rfl⟩ := Nat.exists_eq_succ_of_ne_zero (Nat.ne_zero_of_lt h')
    have hcode : (afterBlank text).length ≤ text.length := afterBlank_length_le
    rw [nextSignificantLine_succ, nextSignificantLine_succ]
    refine ite_congr rfl (fun _ ↦ rfl) fun _ ↦ ite_congr rfl (fun hending ↦ ?_) fun _ ↦
      ite_congr rfl (fun _ ↦ ite_congr rfl (fun _ ↦ rfl) fun hmore ↦ ?_) fun _ ↦ rfl
    · have hlt := lineEnding_pos_of_ne hending
      exact ih (by omega) (by omega)
    · have hending : (afterComment (afterBlank text)).length ≤ (afterBlank text).length :=
        afterComment_length_le
      have hpos := length_pos_iff.mpr hmore
      have hlt : ((afterComment (afterBlank text)).drop
          (max 1 (lineEnding (afterComment (afterBlank text))))).length <
          (afterComment (afterBlank text)).length := by
        rw [length_drop]
        omega
      exact ih (by omega) (by omega)

/-- The next line with code, seen from the line itself. -/
theorem followingLine_code (h : ¬ TrivialLine text) : followingLine cursor text =
    ⟨indentationWidth (leadingBlank text), cursor, cursor + textBytes (leadingBlank text),
      some (cursor + textBytes (leadingBlank text)), afterBlank text⟩ := by
  simp only [TrivialLine, not_or] at h
  rw [followingLine, nextSignificantLine_succ, if_neg h.1, if_neg h.2.1, if_neg h.2.2]

/-- Every carriage return of the text begins a line ending. -/
def NoLoneReturn (text : List Char) : Prop :=
  ∀ front back, text = front ++ '\r' :: back → back.head? = some '\n'

theorem NoLoneReturn.of_append (h : NoLoneReturn (front ++ back)) : NoLoneReturn back := by
  intro middle tail hback
  rw [hback, ← append_assoc] at h
  exact h _ _ rfl

theorem textBytes_lineEnding (text : List Char) :
    textBytes (text.take (lineEnding text)) = lineEnding text := by
  cases text with
  | nil => rfl
  | cons character others =>
    rw [lineEnding]
    split
    · rename_i hnewline
      rw [hnewline]
      rfl
    · split
      · rename_i hreturn
        obtain ⟨rfl, hhead⟩ := hreturn
        obtain ⟨tail, rfl⟩ := List.head?_eq_some_iff.mp hhead
        rfl
      · rfl

/-- A comment ends at a line break. -/
theorem isLineBreak_of_afterComment (h : afterComment text = character :: others) :
    isLineBreak character = true := by
  induction text with
  | nil => cases h
  | cons first tail ih =>
    cases hfirst : isLineBreak first with
    | true =>
      rw [afterComment, leadingComment, takeWhile_cons_of_neg (by simp [hfirst])] at h
      cases h
      exact hfirst
    | false =>
      rw [afterComment, leadingComment, takeWhile_cons_of_pos (by simp [hfirst])] at h
      exact ih h

/-- Without a lone carriage return a comment that ends, ends with its line. -/
theorem lineEnding_afterComment (h : NoLoneReturn (front ++ text)) (hne : afterComment text ≠ []) :
    lineEnding (afterComment text) ≠ 0 := by
  have hsplit : text = leadingComment text ++ afterComment text := by
    have htake : text.take (leadingComment text).length = leadingComment text :=
      (prefix_iff_eq_take.mp ( takeWhile_prefix _)).symm
    conv_lhs => rw [← take_append_drop (leadingComment text).length text, htake]
    rfl
  have hreturn : NoLoneReturn (afterComment text) := by
    have hback := h.of_append
    rw [hsplit] at hback
    exact hback.of_append
  cases hending : afterComment text with
  | nil => exact absurd hending hne
  | cons character others =>
    have hbreak := isLineBreak_of_afterComment hending
    rw [isLineBreak, Bool.or_eq_true, beq_iff_eq, beq_iff_eq] at hbreak
    rw [lineEnding]
    cases hbreak with
    | inl hnewline =>
      rw [if_pos hnewline]
      exact Nat.one_ne_zero
    | inr hcarriage =>
      have hhead := hreturn [] others (by rw [hending, hcarriage, nil_append])
      rw [if_neg (by simp [hcarriage]), if_pos ⟨hcarriage, hhead⟩]
      exact two_ne_zero

theorem eq_drop_of_take_append {list rest : List Char} {count : ℕ}
    (h : list = list.take count ++ rest) : rest = list.drop count := by
  conv_lhs at h => rw [← take_append_drop count list]
  exact (append_cancel_left h).symm

theorem afterComment_append (text : List Char) : leadingComment text ++ afterComment text = text := by
  have htake : text.take (leadingComment text).length = leadingComment text :=
    (prefix_iff_eq_take.mp ( takeWhile_prefix _)).symm
  conv_rhs => rw [← take_append_drop (leadingComment text).length text, htake]
  rfl

/-- The next line with code, seen from a line of trivia before it. -/
theorem followingLine_trivial {rest : List Char} (h : TrivialLine text) (hreturn : NoLoneReturn text)
    (hrest : text = trivialText text ++ rest) {code : ℕ}
    (hcode : (followingLine (cursor + textBytes (trivialText text)) rest).codeOffset = some code) :
    followingLine cursor text = followingLine (cursor + textBytes (trivialText text)) rest := by
  have hsplit := leadingBlank_append text
  conv_lhs at hrest => rw [← hsplit]
  rw [trivialText, append_assoc] at hrest
  have hback := append_cancel_left hrest
  have hlength : (afterBlank text).length ≤ text.length := afterBlank_length_le
  by_cases hending : lineEnding (afterBlank text) ≠ 0
  · rw [if_pos hending] at hback
    have hlt := lineEnding_pos_of_ne hending
    rw [trivialText, if_pos hending, eq_drop_of_take_append hback, textBytes_append,
      textBytes_lineEnding, ← Nat.add_assoc, followingLine, nextSignificantLine_succ,
      if_neg (by rintro hnil; rw [hnil] at hending; exact hending rfl), if_pos hending]
    exact nextSignificantLine_turns (by omega) (Nat.lt_succ_self _)
  · rw [if_neg hending] at hback
    by_cases hcomment : (afterBlank text).head? = some '#'
    · have hne : afterBlank text ≠ [] := by
        rintro hnil
        rw [hnil] at hcomment
        cases hcomment
      rw [if_pos hcomment, commentLine, append_assoc] at hback
      conv_lhs at hback => rw [← afterComment_append (afterBlank text)]
      have hrest := eq_drop_of_take_append (append_cancel_left hback)
      rw [trivialText, if_neg hending, if_pos hcomment, commentLine, hrest] at hcode ⊢
      by_cases hmore : afterComment (afterBlank text) = []
      · rw [hmore, drop_nil] at hcode
        cases hcode
      · have hreturn' : NoLoneReturn (leadingBlank text ++ afterBlank text) := by rwa [hsplit]
        have hclosed := lineEnding_afterComment hreturn' hmore
        have hlt := lineEnding_pos_of_ne hclosed
        have hle : (afterComment (afterBlank text)).length ≤ (afterBlank text).length :=
          afterComment_length_le
        rw [textBytes_append, textBytes_append, textBytes_lineEnding, ← Nat.add_assoc,
          ← Nat.add_assoc, followingLine, nextSignificantLine_succ, if_neg hne, if_neg hending,
          if_pos hcomment, if_neg hmore, Nat.max_eq_right (Nat.one_le_iff_ne_zero.mpr hclosed)]
        exact nextSignificantLine_turns (by omega) (Nat.lt_succ_self _)
    · rw [if_neg hcomment, nil_append] at hback
      have hnil : afterBlank text = [] := h.resolve_right fun hor ↦ hor.elim hending hcomment
      rw [← hback, hnil] at hcode
      cases hcode

end NextLine

/-- At the start of a line the newline before has settled the next line with code: its indentation is
already applied, or the line is not less indented than the innermost level. -/
def LineReady (state : Scanner) : Prop :=
  ∀ code, (followingLine state.position state.rest).codeOffset = some code →
    state.hangingHeaderAt = some code ∨ state.preparedDedentAt = some code ∨
      ((∀ current ∈ state.indentation.head?,
          current ≤ (followingLine state.position state.rest).indentation) ∧
        (state.tokens.map Token.kind = [] ∨ (state.tokens.map Token.kind).getLast? = some .newline))

structure Ordered (state : Scanner) : Prop where
  order : InOrder (state.tokens.map Token.kind)
  lineStart : state.atLineStart = true → state.delimiters = [] → LineReady state

theorem Scanner.new_laid (text : List Char) : Laid (Scanner.new text) := ⟨rfl, .nil⟩

/-- Where no layout token may arise: at a blank line or a comment, and at a newline between open
delimiters. -/
def AtTrivia (state : Scanner) : Prop :=
  (state.atLineStart = true ∧ TrivialLine state.rest) ∨
    (state.atLineStart = false ∧ lineEnding state.rest ≠ 0 ∧ state.delimiters ≠ [])

/-- Where a turn reads the end of a line. -/
def EndsLine (state : Scanner) : Prop :=
  (state.atLineStart = true ∧ TrivialLine state.rest) ∨
    (state.atLineStart = false ∧ lineEnding state.rest ≠ 0)

/-- What a turn of the scan keeps and adds. -/
structure Turns (state after : Scanner) : Prop where
  sound : Sound after
  laid : Laid after
  reads : ∃ text, text ≠ [] ∧ state.rest = text ++ after.rest
  ordered : NoLoneReturn state.rest → Ordered state → Ordered after
  trivia : AtTrivia state → after.tokens = state.tokens
  nextLine : EndsLine state → after.atLineStart = true
  delimited : state.delimiters ≠ [] → ∃ more, TokenKind.indent ∉ more ∧ TokenKind.dedent ∉ more ∧
    after.tokens.map Token.kind = state.tokens.map Token.kind ++ more

theorem Turns.inline (h : Inline state after) (hsound : Sound after) (hlaid : Laid state)
    (hlt : after.rest.length < state.rest.length) (hmiddle : state.atLineStart = false)
    (hopen : ¬ lineEnding state.rest ≠ 0) : Turns state after := by
  obtain ⟨text, kinds, reports, hmoves, hindent, hdedent⟩ := h.moves
  obtain ⟨added, htokens, hadded, _⟩ := hmoves.tokens
  have hkinds : after.tokens.map Token.kind = state.tokens.map Token.kind ++ kinds := by
    rw [htokens, map_append, hadded]
  have hlevels : after.indentation = state.indentation := congrArg Layout.indentation h.layout
  have hstart : after.atLineStart = state.atLineStart := congrArg Layout.atLineStart h.layout
  refine ⟨hsound, ⟨hlevels ▸ hlaid.rooted, ?_⟩, ⟨text, ?_, hmoves.rest⟩, fun _ hordered ↦ ⟨?_, ?_⟩,
    ?_, ?_, fun _ ↦ ⟨kinds, hindent, hdedent, hkinds⟩⟩
  · rw [hkinds, hlevels]
    exact hlaid.nested.append_other ⟨hindent, hdedent⟩
  · rintro rfl
    rw [hmoves.rest, nil_append] at hlt
    exact absurd hlt (Nat.lt_irrefl _)
  · rw [hkinds]
    exact hordered.order.append_other hindent hdedent
  · intro hline
    rw [hstart, hmiddle] at hline
    cases hline
  · rintro (⟨hline, _⟩ | ⟨_, hending, _⟩)
    · rw [hmiddle] at hline
      cases hline
    · exact absurd hending hopen
  · rintro (⟨hline, _⟩ | ⟨_, hending⟩)
    · rw [hmiddle] at hline
      cases hline
    · exact absurd hending hopen

theorem trivialText_ne_nil (h : TrivialLine text) (hne : text ≠ []) : trivialText text ≠ [] := by
  intro hnil
  rw [trivialText, append_eq_nil_iff] at hnil
  have hcode : afterBlank text = text := by
    have hsplit := leadingBlank_append text
    rwa [hnil.1, nil_append] at hsplit
  rw [hcode] at hnil
  rw [TrivialLine, hcode] at h
  split at hnil
  · rename_i hending
    rw [take_eq_nil_iff] at hnil
    exact hnil.2.elim hending hne
  · rename_i hending
    split at hnil
    · rename_i hcomment
      obtain ⟨tail, htail⟩ := List.head?_eq_some_iff.mp hcomment
      rw [htail, commentLine, append_eq_nil_iff] at hnil
      cases hnil.2.1
    · rename_i hcomment
      exact h.elim hne fun hor ↦ hor.elim hending hcomment

/-- A line of trivia leaves everything to the next line. -/
theorem Turns.trivial (htrivial : TrivialLine state.rest) (hne : state.rest ≠ []) (hlaid : Laid state)
    (hline : state.atLineStart = true) (h : Lays (trivialText state.rest) [] state.layout state
      after) : Turns state after := by
  have hkinds : after.tokens.map Token.kind = state.tokens.map Token.kind := by
    rw [h.kinds_eq, append_nil]
  have hlevels : after.indentation = state.indentation := congrArg Layout.indentation h.layout
  have hstart : after.atLineStart = state.atLineStart := congrArg Layout.atLineStart h.layout
  refine ⟨h.sound, ⟨hlevels ▸ hlaid.rooted, ?_⟩,
    ⟨_, trivialText_ne_nil htrivial hne, h.rest_eq⟩, fun hreturn hordered ↦ ⟨?_, ?_⟩,
    fun _ ↦ h.tokens_eq, fun _ ↦ hstart.trans hline,
    fun _ ↦ ⟨[], not_mem_nil, not_mem_nil, h.kinds_eq⟩⟩
  · rw [hkinds, hlevels]
    exact hlaid.nested
  · rw [hkinds]
    exact hordered.order
  · intro _ hdelimiters code hcode
    rw [h.delimiters] at hdelimiters
    rw [h.position_eq] at hcode
    have hfollowing := followingLine_trivial htrivial hreturn h.rest_eq hcode
    have hready := hordered.lineStart hline hdelimiters code (hfollowing ▸ hcode)
    have hhanging : after.hangingHeaderAt = state.hangingHeaderAt :=
      congrArg Layout.hangingHeaderAt h.layout
    have hprepared : after.preparedDedentAt = state.preparedDedentAt :=
      congrArg Layout.preparedDedentAt h.layout
    rw [hfollowing, ← h.position_eq] at hready
    rw [hhanging, hprepared, hlevels, hkinds]
    exact hready

/-- The end of a line settles the next line with code. -/
theorem Turns.newline (hending : lineEnding state.rest ≠ 0) (hlaid : Laid state)
    (hmiddle : state.atLineStart = false) {layout : Layout} (h : Lays (state.rest.take (lineEnding
      state.rest)) kinds layout state after)
    (hbreaks : Breaks state (nextSignificantLine (state.rest.length + 1)
      (state.position + lineEnding state.rest) (state.rest.drop (lineEnding state.rest))) kinds
      layout) : Turns state after := by
  have hne : state.rest ≠ [] := by
    intro hnil
    rw [hnil] at hending
    exact hending rfl
  have hrest : after.rest = state.rest.drop (lineEnding state.rest) := eq_drop_of_take_append h.rest_eq
  have hline : nextSignificantLine (state.rest.length + 1)
      (state.position + lineEnding state.rest) (state.rest.drop (lineEnding state.rest)) =
      followingLine after.position after.rest := by
    have hlt := lineEnding_pos_of_ne hending
    rw [hrest, h.position_eq, textBytes_lineEnding, followingLine]
    exact nextSignificantLine_turns (by omega) (Nat.lt_succ_self _)
  rw [hline] at hbreaks
  have htext : state.rest.take (lineEnding state.rest) ≠ [] := by
    rw [Ne, take_eq_nil_iff]
    exact fun hor ↦ hor.elim hending hne
  have hlayout := h.layout
  have hkinds := h.kinds_eq
  have hdelimiters := h.delimiters
  have hlineStart : ¬ (state.atLineStart = true ∧ TrivialLine state.rest) := by
    rw [hmiddle]
    exact fun hline ↦ Bool.false_ne_true hline.1
  cases hbreaks with
  | inside hopen =>
    have hlevels : after.indentation = state.indentation := congrArg Layout.indentation hlayout
    rw [append_nil] at hkinds
    refine ⟨h.sound, ⟨hlevels ▸ hlaid.rooted, ?_⟩, ⟨_, htext, h.rest_eq⟩, fun _ hordered ↦ ⟨?_, ?_⟩,
      fun _ ↦ h.tokens_eq, fun _ ↦ congrArg Layout.atLineStart hlayout, fun _ ↦ ⟨[], not_mem_nil,
        not_mem_nil, h.kinds_eq⟩⟩
    · rw [hkinds, hlevels]
      exact hlaid.nested
    · rw [hkinds]
      exact hordered.order
    · exact fun _ hclosed ↦ absurd (hdelimiters ▸ hclosed) hopen
  | hanging hclosed =>
    have hlevels : after.indentation = state.indentation := congrArg Layout.indentation hlayout
    rw [append_nil] at hkinds
    refine ⟨h.sound, ⟨hlevels ▸ hlaid.rooted, ?_⟩, ⟨_, htext, h.rest_eq⟩, fun _ hordered ↦ ⟨?_, ?_⟩,
      fun htrivia ↦ ?_, fun _ ↦ congrArg Layout.atLineStart hlayout, fun hopen ↦ absurd hclosed hopen⟩
    · rw [hkinds, hlevels]
      exact hlaid.nested
    · rw [hkinds]
      exact hordered.order
    · intro _ _ code hcode
      exact .inl ((congrArg Layout.hangingHeaderAt hlayout).trans hcode)
    · exact htrivia.elim (fun hline ↦ absurd hline hlineStart) fun hopen ↦ absurd hclosed hopen.2.2
  | @plain current outer hclosed hcurrent hle =>
    have hlevels : after.indentation = state.indentation := congrArg Layout.indentation hlayout
    refine ⟨h.sound, ⟨hlevels ▸ hlaid.rooted, ?_⟩, ⟨_, htext, h.rest_eq⟩, fun _ hordered ↦ ⟨?_, ?_⟩,
      fun htrivia ↦ ?_, fun _ ↦ congrArg Layout.atLineStart hlayout, fun hopen ↦ absurd hclosed hopen⟩
    · rw [hkinds, hlevels]
      exact hlaid.nested.other TokenKind.noConfusion TokenKind.noConfusion
    · rw [hkinds]
      exact hordered.order.append_other (by decide) (by decide)
    · intro _ _ code _
      refine .inr (.inr ⟨?_, .inr ?_⟩)
      · intro level hlevel
        rw [hlevels, hcurrent] at hlevel
        cases hlevel
        exact hle
      · rw [hkinds]
        exact List.getLast?_concat
    · exact htrivia.elim (fun hline ↦ absurd hline hlineStart) fun hopen ↦ absurd hclosed hopen.2.2
  | closing hclosed hlt =>
    have hlevels := congrArg Layout.indentation hlayout
    change after.indentation = _ at hlevels
    refine ⟨h.sound, ⟨?_, ?_⟩, ⟨_, htext, h.rest_eq⟩, fun _ hordered ↦ ⟨?_, ?_⟩,
      fun htrivia ↦ ?_, fun _ ↦ congrArg Layout.atLineStart hlayout, fun hopen ↦ absurd hclosed hopen⟩
    · rw [hlevels]
      exact hlaid.rooted.unwind_rooted _
    · rw [hkinds, hlevels]
      exact nested_unwind hlaid.nested hlaid.rooted (by decide)
    · rw [hkinds]
      exact hordered.order.append_closed _
    · intro _ _ code hcode
      exact .inr (.inl ((congrArg Layout.preparedDedentAt hlayout).trans hcode))
    · exact htrivia.elim (fun hline ↦ absurd hline hlineStart) fun hopen ↦ absurd hclosed hopen.2.2

section Begin

variable {middle : Scanner} {layout : Layout}

/-- The start of a line with code keeps the depth. -/
theorem Begins.laid (hbegins : Begins indentation state kinds layout.indentation)
    (h : Lays [] kinds layout state after) (hlaid : Laid state) : Laid after := by
  have hlevels : after.indentation = layout.indentation := congrArg Layout.indentation h.layout
  generalize layout.indentation = levels at hbegins hlevels
  cases hbegins with
  | settled hsettled =>
    refine ⟨?_, ?_⟩
    · rw [hlevels]
      exact hlaid.rooted
    · rw [h.kinds_eq, hlevels, append_nil]
      exact hlaid.nested
  | applies hhanging hprepared hdelimiters happlies =>
    refine ⟨?_, ?_⟩
    · rw [hlevels]
      exact happlies.rooted hlaid.rooted
    · rw [h.kinds_eq, hlevels]
      exact happlies.nested hlaid.rooted hlaid.nested

/-- Between open delimiters the start of a line adds nothing. -/
theorem Begins.kinds_eq_nil (hbegins : Begins indentation state kinds levels)
    (h : state.delimiters ≠ []) : kinds = [] := by
  cases hbegins with
  | settled hsettled => rfl
  | applies hhanging hprepared hdelimiters happlies => exact absurd hdelimiters h

/-- The start of a line with code adds at most one indent, for the newline before has closed the
levels that end. -/
theorem Begins.ordered (hcode : ¬ TrivialLine state.rest) (hline : state.atLineStart = true)
    (hmiddle : Lays (leadingBlank state.rest) [] state.layout state middle)
    (h : Lays [] kinds layout middle after) (hstart : layout.atLineStart = false)
    (hbegins : Begins (indentationWidth (leadingBlank state.rest)) middle kinds layout.indentation)
    (hordered : Ordered state) : Ordered after := by
  have hkinds := (hmiddle.trans h).kinds_eq
  rw [nil_append] at hkinds
  refine ⟨?_, ?_⟩
  · rw [hkinds]
    generalize layout.indentation = levels at hbegins
    cases hbegins with
    | settled hsettled =>
      rw [append_nil]
      exact hordered.order
    | applies hhanging hprepared hdelimiters happlies =>
      have hposition : middle.position = state.position + textBytes (leadingBlank state.rest) :=
        hmiddle.position_eq
      have hfollowing : followingLine state.position state.rest = _ := followingLine_code hcode
      have hlevels : middle.indentation = state.indentation :=
        congrArg Layout.indentation hmiddle.layout
      have hhanging' : middle.hangingHeaderAt = state.hangingHeaderAt :=
        congrArg Layout.hangingHeaderAt hmiddle.layout
      have hprepared' : middle.preparedDedentAt = state.preparedDedentAt :=
        congrArg Layout.preparedDedentAt hmiddle.layout
      obtain hready | hready | hready := hordered.lineStart hline (hmiddle.delimiters ▸ hdelimiters)
        middle.position (by rw [hfollowing, hposition])
      · exact absurd (hhanging'.trans hready) hhanging
      · exact absurd (hprepared'.trans hready) hprepared
      · rw [hfollowing, ← hlevels] at hready
        obtain ⟨hcurrent, hlast⟩ := hready
        generalize middle.indentation = current at happlies hcurrent
        cases happlies with
        | same =>
          rw [append_nil]
          exact hordered.order
        | deeper hlt => exact hordered.order.append_indent hlast
        | shallower hlt => exact absurd hlt (Nat.not_lt_of_le (hcurrent _ rfl))
  · intro hline'
    have hnot : after.atLineStart = layout.atLineStart := congrArg Layout.atLineStart h.layout
    rw [hnot, hstart] at hline'
    cases hline'

end Begin

end Wrela.Syntax
