import Mathlib.Data.List.DropRight
import Wrela.Source.Database

/-!
# Line and column

A byte offset is looked up in the table of line starts: its line is the last one that starts at or
before it, and its column counts the bytes from there.  Columns are one-based 32-bit numbers, and
the last offset of the longest possible line has none.
-/

namespace Wrela.Source

open List Wrela.Wire

@[ext]
structure SourcePosition where
  line : UInt32
  byteColumn : UInt32

/-- In a list that is partitioned by the predicate, the number of elements that satisfy it. -/
def partitionPoint {α : Type} (p : α → Bool) (items : List α) : ℕ := (items.takeWhile p).length

def checkedSub (left right : ℕ) : Option ℕ := if right ≤ left then some (left - right) else none

/-- The one-based position of an offset between characters.  `none` stands for a panic: an index out
of bounds, or arithmetic that leaves its type. -/
def SourceFile.position (source : SourceFile) (offset : UInt32) : Option (Option SourcePosition) :=
  if offset.toNat > byteLength source.text || !isCharBoundary source.text offset.toNat then
    some none
  else do
    let lineIndex ← checkedSub (partitionPoint (· ≤ offset) source.lineStarts) 1
    let start ← source.lineStarts[lineIndex]?
    let distance ← checkedSub offset.toNat start.toNat
    if distance + 1 < 2 ^ 32 then
      some (some ⟨UInt32.ofNat (lineIndex + 1), UInt32.ofNat (distance + 1)⟩)
    else none

/-- The offsets after the line feeds of a text that begins at an offset. -/
def startsFrom : ℕ → List UInt8 → List ℕ
  | _, [] => []
  | offset, byte :: bytes =>
    if byte = 10 then (offset + 1) :: startsFrom (offset + 1) bytes
    else startsFrom (offset + 1) bytes

theorem startsFrom_append (offset : ℕ) (front back : List UInt8) :
    startsFrom offset (front ++ back) =
      startsFrom offset front ++ startsFrom (offset + front.length) back := by
  induction front generalizing offset with
  | nil => rfl
  | cons byte front ih =>
    rw [cons_append, startsFrom, startsFrom, ih, length_cons, ← Nat.add_assoc, Nat.add_right_comm]
    split <;> rfl

theorem startsFrom_zipIdx (offset : ℕ) (bytes : List UInt8) :
    startsFrom offset bytes =
      ((bytes.zipIdx offset).filter fun entry ↦ entry.1 == 10).map fun entry ↦ entry.2 + 1 := by
  induction bytes generalizing offset with
  | nil => rfl
  | cons byte bytes ih =>
    rw [startsFrom, zipIdx_cons, filter_cons, ih]
    by_cases hbyte : byte = 10 <;> simp [hbyte]

theorem lineStarts_eq (text : String) :
    lineStarts text = (0 :: startsFrom 0 (utf8Bytes text)).map UInt32.ofNat := by
  rw [lineStarts, startsFrom_zipIdx, map_cons, map_map]
  rfl

theorem lt_of_mem_startsFrom (h : start ∈ startsFrom offset bytes) :
    offset < start ∧ start ≤ offset + bytes.length := by
  induction bytes generalizing offset with
  | nil => cases h
  | cons byte bytes ih =>
    rw [startsFrom] at h
    rw [length_cons]
    split at h
    · rcases mem_cons.1 h with rfl | h
      · omega
      · have hrest := ih h
        omega
    · have hrest := ih h
      omega

theorem length_startsFrom (offset : ℕ) (bytes : List UInt8) :
    (startsFrom offset bytes).length = bytes.count 10 := by
  induction bytes generalizing offset with
  | nil => rfl
  | cons byte bytes ih =>
    rw [startsFrom, count_cons]
    split <;> simp_all

/-- The line feeds before an offset. -/
def lineFeedsBefore (text : String) (offset : ℕ) : ℕ := ((utf8Bytes text).take offset).count 10

/-- The bytes between the last line start and an offset. -/
def bytesInLine (text : String) (offset : ℕ) : ℕ :=
  (((utf8Bytes text).take offset).rtakeWhile (· != 10)).length

/-- The last line start at or before the end of the bytes. -/
def lastStart (bytes : List UInt8) : ℕ := (startsFrom 0 bytes).getLastD 0

theorem lastStart_add (bytes : List UInt8) :
    lastStart bytes + (bytes.rtakeWhile (· != 10)).length = bytes.length := by
  induction bytes using List.reverseRecOn with
  | nil => rfl
  | append_singleton bytes byte ih =>
    rw [lastStart, startsFrom_append, rtakeWhile_concat]
    rw [lastStart] at ih
    by_cases hbyte : byte = 10
    · simp [startsFrom, hbyte]
    · simp only [startsFrom, hbyte, if_false, append_nil, bne_iff_ne, ne_eq, not_false_eq_true,
        if_true, length_append, length_singleton, ← ih, Nat.add_assoc]

variable {source : SourceFile} {offset offset' : UInt32} {position position' : SourcePosition}

/-- A file as the database holds it. -/
structure SourceFile.Indexed (source : SourceFile) : Prop where
  lineStarts_eq : source.lineStarts = Source.lineStarts source.text
  text_lt : byteLength source.text < 2 ^ 32
  lines_lt : (Source.lineStarts source.text).length < 2 ^ 32

/-- The line starts up to an offset are those of the bytes before it. -/
theorem takeWhile_lineStarts (h : source.Indexed) (hle : offset.toNat ≤ byteLength source.text) :
    source.lineStarts.takeWhile (· ≤ offset) =
      (0 :: startsFrom 0 ((utf8Bytes source.text).take offset.toNat)).map UInt32.ofNat := by
  have hlength : ((utf8Bytes source.text).take offset.toNat).length = offset.toNat :=
    length_take_of_le hle
  have hsplit := startsFrom_append 0 ((utf8Bytes source.text).take offset.toNat)
    ((utf8Bytes source.text).drop offset.toNat)
  rw [take_append_drop, hlength, Nat.zero_add] at hsplit
  have htext := h.text_lt
  rw [h.lineStarts_eq, lineStarts_eq, hsplit, ← cons_append, map_append, takeWhile_append_of_pos]
  · rw [append_right_eq_self]
    cases hback : startsFrom offset.toNat ((utf8Bytes source.text).drop offset.toNat) with
    | nil => rfl
    | cons start starts =>
      obtain ⟨hgt, hstart⟩ := lt_of_mem_startsFrom (hback ▸ mem_cons_self)
      rw [length_drop, ← byteLength] at hstart
      rw [map_cons, takeWhile_cons_of_neg]
      rw [decide_eq_true_eq, UInt32.le_iff_toNat_le,
        UInt32.toNat_ofNat_of_lt' (show start < 2 ^ 32 by omega)]
      omega
  · intro start hstart
    obtain ⟨value, hvalue, rfl⟩ := mem_map.1 hstart
    have hbound : value ≤ offset.toNat := by
      rcases mem_cons.1 hvalue with rfl | hvalue
      · exact Nat.zero_le _
      · have hmem := lt_of_mem_startsFrom hvalue
        omega
    rw [decide_eq_true_eq, UInt32.le_iff_toNat_le,
      UInt32.toNat_ofNat_of_lt' (lt_of_le_of_lt hbound offset.toNat_lt)]
    exact hbound

theorem partitionPoint_lineStarts (h : source.Indexed)
    (hle : offset.toNat ≤ byteLength source.text) :
    partitionPoint (· ≤ offset) source.lineStarts =
      lineFeedsBefore source.text offset.toNat + 1 := by
  rw [partitionPoint, takeWhile_lineStarts h hle, length_map, length_cons,
    length_startsFrom, lineFeedsBefore]

/-- An offset between the characters of a text. -/
def IsOffset (text : String) (offset : UInt32) : Prop :=
  offset.toNat ≤ byteLength text ∧ isCharBoundary text offset.toNat = true

theorem position_eq (h : source.Indexed) (hoffset : IsOffset source.text offset) :
    source.position offset = if bytesInLine source.text offset.toNat + 1 < 2 ^ 32 then
      some (some ⟨UInt32.ofNat (lineFeedsBefore source.text offset.toNat + 1),
        UInt32.ofNat (bytesInLine source.text offset.toNat + 1)⟩) else none := by
  obtain ⟨hle, hboundary⟩ := hoffset
  have hpoint := partitionPoint_lineStarts h hle
  set before := (utf8Bytes source.text).take offset.toNat with hbefore
  have hlength : before.length = offset.toNat := length_take_of_le hle
  have hlast := lastStart_add before
  -- The entry looked up is the last one that was counted.
  have hstart : source.lineStarts[lineFeedsBefore source.text offset.toNat]? =
      some (UInt32.ofNat (lastStart before)) := by
    obtain ⟨rest, hrest⟩ := takeWhile_prefix (l := source.lineStarts) (· ≤ offset)
    rw [takeWhile_lineStarts h hle, ← hbefore] at hrest
    have hcount : lineFeedsBefore source.text offset.toNat = (startsFrom 0 before).length :=
      (length_startsFrom 0 before).symm
    rw [hcount, ← hrest, List.getElem?_append_left (by simp), List.getElem?_map, lastStart]
    obtain hnil | ⟨starts, start, hconcat⟩ := eq_nil_or_concat (startsFrom 0 before)
    · simp [hnil]
    · simp [hconcat]
  have hnarrow : (UInt32.ofNat (lastStart before)).toNat = lastStart before :=
    UInt32.toNat_ofNat_of_lt' (lt_of_le_of_lt (by omega) offset.toNat_lt)
  have hcolumn : bytesInLine source.text offset.toNat = offset.toNat - lastStart before := by
    rw [bytesInLine, ← hbefore]
    omega
  unfold SourceFile.position
  rw [if_neg (by simp [hle, hboundary]), hpoint, checkedSub, if_pos (Nat.le_add_left _ _), hcolumn]
  simp only [Option.bind_eq_bind, Option.bind_some, Nat.add_sub_cancel, hstart, hnarrow, checkedSub]
  rw [if_pos (by omega), Option.bind_some]

/-- A position that says how many lines end before an offset and how far its line has come. -/
def ExactPosition (text : String) (offset : UInt32) (position : SourcePosition) : Prop :=
  position.line.toNat = 1 + lineFeedsBefore text offset.toNat ∧
    position.byteColumn.toNat = 1 + bytesInLine text offset.toNat

theorem exactPosition_of_position (h : source.Indexed) (hoffset : IsOffset source.text offset)
    (hposition : source.position offset = some (some position)) :
    ExactPosition source.text offset position := by
  rw [position_eq h hoffset] at hposition
  split_ifs at hposition with hfits
  obtain rfl := Option.some.inj (Option.some.inj hposition)
  have hlines : lineFeedsBefore source.text offset.toNat + 1 < 2 ^ 32 := by
    have hbound := h.lines_lt
    rw [lineStarts_eq, length_map, length_cons, length_startsFrom] at hbound
    have hcount := (take_sublist offset.toNat (utf8Bytes source.text)).count_le 10
    rw [lineFeedsBefore]
    omega
  exact ⟨by rw [UInt32.toNat_ofNat_of_lt' hlines, Nat.add_comm],
    by rw [UInt32.toNat_ofNat_of_lt' hfits, Nat.add_comm]⟩

/-- Reading order. -/
def SourcePosition.Before (position position' : SourcePosition) : Prop :=
  position.line < position'.line ∨
    position.line = position'.line ∧ position.byteColumn < position'.byteColumn

/-- Later offsets have later positions. -/
theorem before_of_lt (h : source.Indexed) (hoffset : IsOffset source.text offset)
    (hoffset' : IsOffset source.text offset')
    (hposition : source.position offset = some (some position))
    (hposition' : source.position offset' = some (some position')) (hlt : offset < offset') :
    position.Before position' := by
  obtain ⟨hline, hcolumn⟩ := exactPosition_of_position h hoffset hposition
  obtain ⟨hline', hcolumn'⟩ := exactPosition_of_position h hoffset' hposition'
  rw [UInt32.lt_iff_toNat_lt] at hlt
  set before := (utf8Bytes source.text).take offset.toNat with hbefore
  obtain ⟨between, hbetween⟩ : ∃ between, (utf8Bytes source.text).take offset'.toNat =
      before ++ between := by
    refine ⟨((utf8Bytes source.text).take offset'.toNat).drop offset.toNat, ?_⟩
    conv_lhs => rw [← take_append_drop offset.toNat ((utf8Bytes source.text).take _)]
    rw [take_take, Nat.min_eq_left hlt.le]
  have hlength : before.length = offset.toNat := length_take_of_le hoffset.1
  have hlength' : (before ++ between).length = offset'.toNat := by
    rw [← hbetween]
    exact length_take_of_le hoffset'.1
  have hlast := lastStart_add before
  have hlast' := lastStart_add (before ++ between)
  rw [lineFeedsBefore, ← hbefore] at hline
  rw [bytesInLine, ← hbefore] at hcolumn
  rw [lineFeedsBefore, hbetween, count_append] at hline'
  rw [bytesInLine, hbetween] at hcolumn'
  unfold SourcePosition.Before
  rw [UInt32.lt_iff_toNat_lt, UInt32.lt_iff_toNat_lt, ← UInt32.toNat_inj]
  rcases Nat.eq_zero_or_pos (between.count 10) with hnone | hsome
  · have hsame : lastStart (before ++ between) = lastStart before := by
      rw [lastStart, startsFrom_append, eq_nil_of_length_eq_zero (l := startsFrom _ between)
        ((length_startsFrom _ _).trans hnone), append_nil, lastStart]
    exact .inr (by omega)
  · exact .inl (by omega)

theorem bytesInLine_fits_iff (h : source.Indexed) (hle : offset.toNat ≤ byteLength source.text) :
    bytesInLine source.text offset.toNat + 1 < 2 ^ 32 ↔
      ¬ (offset.toNat = 2 ^ 32 - 1 ∧ 10 ∉ utf8Bytes source.text) := by
  set before := (utf8Bytes source.text).take offset.toNat with hbefore
  have hlength : before.length = offset.toNat := length_take_of_le hle
  have hlast := lastStart_add before
  have hoffset := offset.toNat_lt
  have htext := h.text_lt
  have hall (hend : offset.toNat = 2 ^ 32 - 1) : before = utf8Bytes source.text := by
    rw [hbefore, take_of_length_le]
    rw [← byteLength]
    omega
  rw [bytesInLine, ← hbefore]
  constructor
  · rintro hfits ⟨hend, hnone⟩
    have hzero : startsFrom 0 before = [] := eq_nil_of_length_eq_zero (by
      rw [length_startsFrom, hall hend, count_eq_zero_of_not_mem hnone])
    rw [lastStart, hzero] at hlast
    simp only [getLastD_nil] at hlast
    omega
  · intro hnot
    by_contra hfits
    have hend : offset.toNat = 2 ^ 32 - 1 := by omega
    refine hnot ⟨hend, fun hmem ↦ ?_⟩
    have hpositive : 0 < (startsFrom 0 before).length := by
      rw [length_startsFrom, hall hend]
      exact count_pos_iff.2 hmem
    have hstart : 0 < lastStart before := by
      have hne := length_pos_iff.1 hpositive
      rw [lastStart, getLastD_eq_getLast?, List.getLast?_eq_getLast_of_ne_nil hne]
      exact (lt_of_mem_startsFrom (getLast_mem hne)).1
    omega

theorem indexed_of_add {U : Unicode} {sources : SourceDatabase} {input : SourceInput}
    {added : FileId × SourceDatabase} (h : sources.add U input = .ok added) :
    ∃ source, added.2.get added.1 = some source ∧ source.text = input.text ∧ source.Indexed := by
  obtain ⟨-, -, -, htext, hfiles, hlines, rfl⟩ := SourceDatabase.add_eq_ok.1 h
  refine ⟨⟨⟨UInt32.ofNat sources.files.length⟩, input.path, input.text, input.digest,
    lineStarts input.text⟩, ?_, rfl, rfl, htext, hlines⟩
  rw [SourceDatabase.get, UInt32.toNat_ofNat_of_lt' hfiles, List.getElem?_concat_length]

/-- Positions of the text of every added file are exact and in the order of their offsets, with the
one exception of the end of a text of 2³² - 1 bytes and no line feed; and the lookup always finds a
line. -/
theorem position_exact_iff {U : Unicode} {sources : SourceDatabase} {input : SourceInput}
    {added : FileId × SourceDatabase} (h : sources.add U input = .ok added) :
    ∃ source, added.2.get added.1 = some source ∧ source.text = input.text ∧
      (∀ offset, IsOffset input.text offset →
        ((∃ position, source.position offset = some (some position) ∧
          ExactPosition input.text offset position) ↔
          ¬ (offset.toNat = 2 ^ 32 - 1 ∧ 10 ∉ utf8Bytes input.text))) ∧
      (∀ offset offset' position position', IsOffset input.text offset →
        IsOffset input.text offset' → source.position offset = some (some position) →
        source.position offset' = some (some position') → offset < offset' →
        position.Before position') ∧
      ∀ offset, IsOffset input.text offset → 0 < partitionPoint (· ≤ offset) source.lineStarts := by
  obtain ⟨source, hget, htext, hindexed⟩ := indexed_of_add h
  refine ⟨source, hget, htext, ?_⟩
  rw [← htext]
  refine ⟨fun offset hoffset ↦ ?_,
    fun offset offset' position position' hoffset hoffset' hposition hposition' hlt ↦
      before_of_lt hindexed hoffset hoffset' hposition hposition' hlt,
    fun offset hoffset ↦ partitionPoint_lineStarts hindexed hoffset.1 ▸ Nat.succ_pos _⟩
  rw [← bytesInLine_fits_iff hindexed hoffset.1]
  constructor
  · rintro ⟨position, hposition, -⟩
    rw [position_eq hindexed hoffset] at hposition
    by_contra hfits
    rw [if_neg hfits] at hposition
    cases hposition
  · intro hfits
    have hposition := position_eq hindexed hoffset
    rw [if_pos hfits] at hposition
    exact ⟨_, hposition, exactPosition_of_position hindexed hoffset hposition⟩

def shortInput : SourceInput := ⟨"a.wr", "a\nb", .repeated 0⟩

theorem position_exact_iff_shortInput : ∃ added source,
    SourceDatabase.empty.add .ascii shortInput = .ok added ∧ added.2.get added.1 = some source ∧
      source.position 2 = some (some ⟨2, 1⟩) := by
  have hadded : SourceDatabase.empty.add .ascii shortInput =
      .ok (⟨0⟩, ⟨[⟨⟨0⟩, "a.wr", "a\nb", .repeated 0, [0, 2]⟩], {"a.wr"}⟩) := by
    decide +kernel
  obtain ⟨source, hget, htext, hexact, -⟩ := position_exact_iff hadded
  have hoffset : IsOffset shortInput.text 2 := by
    unfold IsOffset
    decide
  obtain ⟨position, hposition, hline, hcolumn⟩ := (hexact 2 hoffset).2 (by decide)
  have hvalues : lineFeedsBefore shortInput.text 2 = 1 ∧ bytesInLine shortInput.text 2 = 0 := by
    decide
  have hvalue : position = ⟨2, 1⟩ := by
    ext1
    · exact UInt32.toNat_inj.1 (hline.trans (congrArg (1 + ·) hvalues.1))
    · exact UInt32.toNat_inj.1 (hcolumn.trans (congrArg (1 + ·) hvalues.2))
  exact ⟨_, source, hadded, hget, hvalue ▸ hposition⟩

/-- One line of so many letters. -/
def oneLine (length : ℕ) : SourceInput :=
  ⟨"a.wr", String.ofList (List.replicate length 'a'), .repeated 0⟩

theorem utf8Bytes_oneLine (length : ℕ) :
    utf8Bytes (oneLine length).text = List.replicate length 97 := by
  have hletter : String.utf8EncodeChar 'a' = [97] := by decide
  rw [oneLine, utf8Bytes_ofList, encodeChars, flatMap_replicate, hletter]
  simp

/-- The longest line the database takes has no position for its end. -/
theorem position_oneLine : ∃ added source,
    SourceDatabase.empty.add .ascii (oneLine (2 ^ 32 - 1)) = .ok added ∧
      added.2.get added.1 = some source ∧
      IsOffset (oneLine (2 ^ 32 - 1)).text 0xffffffff ∧ source.position 0xffffffff = none := by
  obtain ⟨length, hlength⟩ : ∃ length, length = 2 ^ 32 - 1 := ⟨_, rfl⟩
  have hend : (0xffffffff : UInt32).toNat = length := hlength ▸ rfl
  rw [← hlength]
  have hbytes := utf8Bytes_oneLine length
  have hnone : 10 ∉ utf8Bytes (oneLine length).text := by
    rw [hbytes]
    simp
  have hsize : byteLength (oneLine length).text = length := by
    rw [byteLength, hbytes, length_replicate]
  have hlines : (lineStarts (oneLine length).text).length < 2 ^ 32 := by
    rw [lineStarts_eq, length_map, length_cons, length_startsFrom, count_eq_zero_of_not_mem hnone]
    decide
  have hadded := SourceDatabase.add_eq_ok.2 ⟨
    show validateSourcePath .ascii "a.wr" = .ok () by decide,
    show toAsciiLowercase (oneLine length).path ∉ SourceDatabase.empty.portablePaths from not_mem_nil,
    show ∀ previous ∈ SourceDatabase.empty.files.getLast?, _ from fun _ h ↦ (by cases h),
    hsize.trans_lt (by omega), show SourceDatabase.empty.files.length < 2 ^ 32 by decide, hlines,
    rfl⟩
  obtain ⟨source, hget, htext, hindexed⟩ := indexed_of_add hadded
  have hoffset : IsOffset source.text 0xffffffff := by
    refine ⟨by rw [htext, hsize, hend], isCharBoundary_iff.2 ⟨source.text, "", by simp, ?_⟩⟩
    rw [htext, hsize, hend]
  refine ⟨_, source, hadded, hget, htext ▸ hoffset, ?_⟩
  rw [position_eq hindexed hoffset, if_neg]
  rw [bytesInLine_fits_iff hindexed hoffset.1, htext, hend]
  exact not_not_intro ⟨hlength, hnone⟩

end Wrela.Source
