import Wrela.Wire.Checked

/-!
# SLIP framing

Frames travel over a byte line between delimiters; a delimiter or an escape inside a frame is
written as an escape and a stand-in.  `unescapeFrom` reads escaped bytes one by one and says whether
an escape is still open at the end; `cut` splits what follows a delimiter into the segments that are
closed by a delimiter and the unfinished tail.  `Receives.foldlM_eq_ok` is the rule for receivers: one
that treats each byte of a segment as it should accepts exactly the segments that can be unescaped.
-/

namespace Wrela.Slip

open List Wrela.Checked

def slipEnd : UInt8 := 0xc0

def slipEscape : UInt8 := 0xdb

def slipEscapedEnd : UInt8 := 0xdc

def slipEscapedEscape : UInt8 := 0xdd

def escapeByte (byte : UInt8) : List UInt8 :=
  if byte = slipEnd then [slipEscape, slipEscapedEnd]
  else if byte = slipEscape then [slipEscape, slipEscapedEscape]
  else [byte]

def escape (frame : List UInt8) : List UInt8 := frame.flatMap escapeByte

/-- What the second byte of an escape stands for. -/
def standIn (byte : UInt8) : Option UInt8 :=
  if byte = slipEscapedEnd then some slipEnd
  else if byte = slipEscapedEscape then some slipEscape
  else none

/-- The bytes an escaped text stands for, read with or without an open escape, and whether an escape
is open at its end. -/
def unescapeFrom : Bool → List UInt8 → Option (List UInt8 × Bool)
  | escaped, [] => some ([], escaped)
  | true, byte :: bytes => do
    let decoded ← standIn byte
    let (frame, escaped) ← unescapeFrom false bytes
    pure (decoded :: frame, escaped)
  | false, byte :: bytes =>
    if byte = slipEscape then unescapeFrom true bytes
    else do
      let (frame, escaped) ← unescapeFrom false bytes
      pure (byte :: frame, escaped)

/-- The frame a complete segment stands for. -/
def unescape (segment : List UInt8) : Option (List UInt8) :=
  match unescapeFrom false segment with
  | some (frame, false) => some frame
  | _ => none

variable {frame : List UInt8} {escaped : Bool}

theorem unescape_eq_some {segment : List UInt8} :
    unescape segment = some frame ↔ unescapeFrom false segment = some (frame, false) := by
  unfold unescape
  split <;> simp_all

theorem unescapeFrom_escape_cons :
    unescapeFrom true (byte :: bytes) = some (frame, escaped) ↔
      ∃ decoded rest, standIn byte = some decoded ∧
        unescapeFrom false bytes = some (rest, escaped) ∧ frame = decoded :: rest := by
  simp only [unescapeFrom, Option.bind_eq_bind, Option.bind_eq_some_iff, Option.pure_def,
    Option.some.injEq, Prod.mk.injEq, Prod.exists]
  constructor
  · rintro ⟨decoded, hdecoded, rest, _, hrest, rfl, rfl⟩
    exact ⟨decoded, rest, hdecoded, hrest, rfl⟩
  · rintro ⟨decoded, rest, hdecoded, hrest, rfl⟩
    exact ⟨decoded, hdecoded, rest, escaped, hrest, rfl, rfl⟩

theorem unescapeFrom_plain_cons (h : byte ≠ slipEscape) :
    unescapeFrom false (byte :: bytes) = some (frame, escaped) ↔
      ∃ rest, unescapeFrom false bytes = some (rest, escaped) ∧ frame = byte :: rest := by
  simp only [unescapeFrom, if_neg h, Option.bind_eq_bind, Option.bind_eq_some_iff,
    Option.pure_def, Option.some.injEq, Prod.mk.injEq, Prod.exists]
  constructor
  · rintro ⟨rest, _, hrest, rfl, rfl⟩
    exact ⟨rest, hrest, rfl⟩
  · rintro ⟨rest, hrest, rfl⟩
    exact ⟨rest, escaped, hrest, rfl, rfl⟩

theorem unescapeFrom_escapeByte (byte : UInt8) (bytes : List UInt8) :
    unescapeFrom false (escapeByte byte ++ bytes) =
      (unescapeFrom false bytes).map fun (frame, escaped) ↦ (byte :: frame, escaped) := by
  unfold escapeByte
  split
  · subst byte
    cases h : unescapeFrom false bytes <;>
      simp [unescapeFrom, standIn, slipEnd, slipEscape, slipEscapedEnd, h]
  · split
    · subst byte
      cases h : unescapeFrom false bytes <;>
        simp [unescapeFrom, standIn, slipEscape, slipEscapedEnd, slipEscapedEscape, h]
    · rename_i hescape
      cases h : unescapeFrom false bytes <;> simp [unescapeFrom, hescape, h]

/-- A receiver reads back every frame a sender escapes. -/
theorem unescape_escape (frame : List UInt8) : unescape (escape frame) = some frame := by
  rw [unescape_eq_some]
  induction frame with
  | nil => rfl
  | cons byte frame ih =>
    rw [escape, flatMap_cons, ← escape, unescapeFrom_escapeByte, ih]
    rfl

/-- Reading escaped bytes after plain ones. -/
theorem unescapeFrom_append (h : slipEscape ∉ plain) (bytes : List UInt8) :
    unescapeFrom false (plain ++ bytes) =
      (unescapeFrom false bytes).map fun (frame, escaped) ↦ (plain ++ frame, escaped) := by
  induction plain with
  | nil => cases h : unescapeFrom false bytes <;> simp [h]
  | cons byte plain ih =>
    rw [mem_cons, not_or] at h
    obtain ⟨hbyte, hplain⟩ := h
    rw [cons_append, unescapeFrom, if_neg (Ne.symm hbyte), ih hplain]
    cases unescapeFrom false bytes <;> rfl

/-- A receiver that collects a frame of at most `limit` bytes, byte by byte: `state frame escaped` is
where it stands with `frame` collected and an escape open or not.  The rules hold once `minimum` bytes
are collected. -/
structure Receives {σ ε : Type} (step : σ → UInt8 → Except ε σ) (state : List UInt8 → Bool → σ)
    (minimum limit : ℕ) : Prop where
  standIn : ∀ frame byte next, minimum ≤ frame.length → byte ≠ slipEnd →
    (step (state frame true) byte = .ok next ↔ ∃ decoded, standIn byte = some decoded ∧
      frame.length < limit ∧ next = state (frame ++ [decoded]) false)
  escape : ∀ frame, minimum ≤ frame.length →
    step (state frame false) slipEscape = .ok (state frame true)
  plain : ∀ frame byte next, minimum ≤ frame.length → byte ≠ slipEnd → byte ≠ slipEscape →
    (step (state frame false) byte = .ok next ↔
      frame.length < limit ∧ next = state (frame ++ [byte]) false)

/-- A receiver gets through a text exactly when it can be unescaped into the room that is left. -/
theorem Receives.foldlM_eq_ok {σ ε : Type} {step : σ → UInt8 → Except ε σ}
    {state : List UInt8 → Bool → σ} {minimum limit : ℕ} (h : Receives step state minimum limit)
    {body : List UInt8} (hend : slipEnd ∉ body) {next : σ}
    (hminimum : minimum ≤ frame.length) (hlimit : frame.length ≤ limit) :
    body.foldlM step (state frame escaped) = .ok next ↔
      ∃ rest pending, unescapeFrom escaped body = some (rest, pending) ∧
        (frame ++ rest).length ≤ limit ∧ next = state (frame ++ rest) pending := by
  induction body generalizing frame escaped with
  | nil =>
    simp only [foldlM_nil, unescapeFrom, Option.some.injEq, Prod.mk.injEq]
    constructor
    · intro hnext
      exact ⟨[], escaped, ⟨rfl, rfl⟩, by simpa using hlimit,
        by simpa using (Except.ok.inj hnext).symm⟩
    · rintro ⟨_, _, ⟨rfl, rfl⟩, -, rfl⟩
      rw [append_nil]
      rfl
  | cons byte body ih =>
    rw [mem_cons, not_or] at hend
    obtain ⟨hbyte, hbody⟩ := hend
    -- A byte enters the frame, and the rest is the induction hypothesis.
    have hpush (decoded : UInt8) : (frame.length < limit ∧
        body.foldlM step (state (frame ++ [decoded]) false) = .ok next) ↔
        ∃ rest pending, unescapeFrom false body = some (rest, pending) ∧
          (frame ++ decoded :: rest).length ≤ limit ∧
          next = state (frame ++ decoded :: rest) pending := by
      have hlength : (frame ++ [decoded]).length = frame.length + 1 := by simp
      constructor
      · rintro ⟨hroom, hrun⟩
        have hrest := (ih hbody (by omega) (by omega)).1 hrun
        simpa only [append_assoc, singleton_append] using hrest
      · rintro ⟨rest, pending, hrest, hfits, hnext⟩
        have hroom : frame.length < limit := by
          rw [length_append, length_cons] at hfits
          omega
        refine ⟨hroom, (ih hbody (by omega) (by omega)).2 ⟨rest, pending, hrest, ?_, ?_⟩⟩
        · simpa only [append_assoc, singleton_append] using hfits
        · simpa only [append_assoc, singleton_append] using hnext
    rw [foldlM_cons, bind_eq_ok]
    cases escaped with
    | true =>
      simp only [unescapeFrom_escape_cons, h.standIn frame byte _ hminimum (Ne.symm hbyte)]
      constructor
      · rintro ⟨_, ⟨decoded, hdecoded, hroom, rfl⟩, hrun⟩
        obtain ⟨rest, pending, hrest, hfits, hnext⟩ := (hpush decoded).1 ⟨hroom, hrun⟩
        exact ⟨decoded :: rest, pending, ⟨decoded, rest, hdecoded, hrest, rfl⟩, hfits, hnext⟩
      · rintro ⟨_, pending, ⟨decoded, rest, hdecoded, hrest, rfl⟩, hfits, hnext⟩
        obtain ⟨hroom, hrun⟩ := (hpush decoded).2 ⟨rest, pending, hrest, hfits, hnext⟩
        exact ⟨_, ⟨decoded, hdecoded, hroom, rfl⟩, hrun⟩
    | false =>
      by_cases hescape : byte = slipEscape
      · subst hescape
        simp only [h.escape frame hminimum, Except.ok.injEq, exists_eq_left', unescapeFrom, if_true]
        exact ih hbody hminimum hlimit
      · simp only [unescapeFrom_plain_cons hescape,
          h.plain frame byte _ hminimum (Ne.symm hbyte) hescape]
        constructor
        · rintro ⟨_, ⟨hroom, rfl⟩, hrun⟩
          obtain ⟨rest, pending, hrest, hfits, hnext⟩ := (hpush byte).1 ⟨hroom, hrun⟩
          exact ⟨byte :: rest, pending, ⟨rest, hrest, rfl⟩, hfits, hnext⟩
        · rintro ⟨_, pending, ⟨rest, hrest, rfl⟩, hfits, hnext⟩
          obtain ⟨hroom, hrun⟩ := (hpush byte).2 ⟨rest, pending, hrest, hfits, hnext⟩
          exact ⟨_, ⟨hroom, rfl⟩, hrun⟩

/-- The segments a delimiter closes, and the unfinished rest. -/
def cut : List UInt8 → List (List UInt8) × List UInt8
  | [] => ([], [])
  | byte :: bytes =>
    let (segments, tail) := cut bytes
    if byte = slipEnd then ([] :: segments, tail)
    else
      match segments with
      | [] => ([], byte :: tail)
      | segment :: segments => ((byte :: segment) :: segments, tail)

/-- The bytes with the given segments and tail. -/
def join (segments : List (List UInt8)) (tail : List UInt8) : List UInt8 :=
  segments.flatMap (· ++ [slipEnd]) ++ tail

theorem join_cons (segment : List UInt8) (segments : List (List UInt8)) (tail : List UInt8) :
    join (segment :: segments) tail = segment ++ slipEnd :: join segments tail := by
  simp [join]

theorem join_cut (bytes : List UInt8) : join (cut bytes).1 (cut bytes).2 = bytes := by
  induction bytes with
  | nil => rfl
  | cons byte bytes ih =>
    rcases hcut : cut bytes with ⟨segments, tail⟩
    rw [hcut] at ih
    by_cases hend : byte = slipEnd
    · simp [cut, hcut, hend, join_cons, ih]
    · cases segments <;> simp_all [cut, join]

theorem slipEnd_not_mem_cut (bytes : List UInt8) :
    (∀ segment ∈ (cut bytes).1, slipEnd ∉ segment) ∧ slipEnd ∉ (cut bytes).2 := by
  induction bytes with
  | nil => simp [cut]
  | cons byte bytes ih =>
    rcases hcut : cut bytes with ⟨segments, tail⟩
    rw [hcut] at ih
    by_cases hend : byte = slipEnd
    · simpa [cut, hcut, hend] using ih
    · cases segments with
      | nil => simpa [cut, hcut, hend, Ne.symm hend] using ih
      | cons segment segments =>
        rw [forall_mem_cons] at ih
        obtain ⟨⟨hsegment, hsegments⟩, htail⟩ := ih
        simp only [cut, hcut, hend, if_false, forall_mem_cons]
        exact ⟨⟨not_mem_cons_of_ne_of_not_mem (Ne.symm hend) hsegment, hsegments⟩, htail⟩

end Wrela.Slip
