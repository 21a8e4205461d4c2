import Mathlib.Data.Finset.Insert
import Mathlib.Data.List.Lex
import Mathlib.Data.Prod.Lex
import Wrela.BuildModel.Profile
import Wrela.Wire.Checked

/-!
# The source database

Portable paths and the session table of source files.  Texts are compared by their UTF-8 bytes, and
the normalization and identifier tables of Unicode are parameters.
-/

namespace Wrela.Source

open Wrela.BuildModel

instance linearOrderByte : LinearOrder UInt8 where
  le_refl := UInt8.le_refl
  le_trans _ _ _ := UInt8.le_trans
  lt_iff_le_not_ge _ _ := by
    simp only [UInt8.le_iff_toNat_le, UInt8.lt_iff_toNat_lt]
    omega
  le_antisymm _ _ := UInt8.le_antisymm
  le_total := UInt8.le_total
  toDecidableLE := inferInstance
  toDecidableEq := inferInstance
  toDecidableLT := inferInstance

/-- The tables of the Unicode revision fixed for source text. -/
structure Unicode where
  isXidStart : Char → Bool
  isXidContinue : Char → Bool
  nfc : List Char → List Char

/-- What every revision of the tables says about ASCII. -/
structure Unicode.Standard (U : Unicode) : Prop where
  isXidStart_ascii : ∀ character : Char, character.toNat < 128 →
    U.isXidStart character = character.isAlpha
  isXidContinue_ascii : ∀ character : Char, character.toNat < 128 →
    U.isXidContinue character = (character.isAlphanum || character == '_')
  nfc_ascii : ∀ characters : List Char, (∀ character ∈ characters, character.toNat < 128) →
    U.nfc characters = characters

/-- The ASCII part of the tables alone. -/
def Unicode.ascii : Unicode where
  isXidStart := Char.isAlpha
  isXidContinue := fun character ↦ character.isAlphanum || character == '_'
  nfc := id

theorem Unicode.ascii_standard : Unicode.ascii.Standard :=
  ⟨fun _ _ ↦ rfl, fun _ _ ↦ rfl, fun _ _ ↦ rfl⟩

def Unicode.isNfc (U : Unicode) (value : String) : Bool := U.nfc value.toList == value.toList

/-- The texts between the occurrences of a separator. -/
def splitText (separator : Char) (value : String) : List String :=
  (value.toList.splitOn separator).map String.ofList

def startsWith (value : String) (character : Char) : Bool := value.toList.head? == some character

def toAsciiLowercase (value : String) : String := String.ofList (value.toList.map Char.toLower)

def maxSourcePathBytes : ℕ := 4096

/-- A relative path whose components are all names. -/
def isPortableRelative (path : String) : Bool :=
  !(startsWith path '/' || startsWith path '\\' ||
    (path.toList.any fun character ↦
      character == '\x00' || character == '\\' || character == ':' || isControl character) ||
    (splitText '/' path).any fun component ↦
      component.isEmpty || component == "." || component == "..")

inductive SourceError where
  | invalidPath (reason : String)
  | portablePathCollision (path : String)
  | nonCanonicalPathOrder (previous next : String)
  | fileTooLarge (bytes : ℕ)
  | tooManyFiles
  | tooManyLines
deriving DecidableEq

def validateSourcePath (U : Unicode) (value : String) : Except SourceError Unit :=
  if value.isEmpty then .error (.invalidPath "path is empty")
  else if byteLength value > maxSourcePathBytes then
    .error (.invalidPath "path exceeds 4096 UTF-8 bytes")
  else if !U.isNfc value then .error (.invalidPath "path is not in Unicode NFC")
  else if !isPortableRelative value then
    .error (.invalidPath "path must be a portable canonical relative UTF-8 path")
  else .ok ()

structure SourceFile where
  id : FileId
  path : String
  text : String
  digest : Sha256Digest
  lineStarts : List UInt32
deriving DecidableEq

structure SourceInput where
  path : String
  text : String
  digest : Sha256Digest
deriving DecidableEq

structure SourceDatabase where
  files : List SourceFile
  portablePaths : Finset String
deriving DecidableEq

def SourceDatabase.empty : SourceDatabase := ⟨[], ∅⟩

def SourceDatabase.get (sources : SourceDatabase) (id : FileId) : Option SourceFile :=
  sources.files[id.val.toNat]?

/-- The first byte of the text and every byte after a line feed. -/
def lineStarts (text : String) : List UInt32 :=
  0 :: ((Wire.utf8Bytes text).zipIdx.filter fun entry ↦ entry.1 == 10).map fun entry ↦
    UInt32.ofNat (entry.2 + 1)

/-- Add already validated text; the path must follow every path already there. -/
def SourceDatabase.add (U : Unicode) (sources : SourceDatabase) (input : SourceInput) :
    Except SourceError (FileId × SourceDatabase) := do
  validateSourcePath U input.path
  let portablePath := toAsciiLowercase input.path
  if portablePath ∈ sources.portablePaths then
    .error (.portablePathCollision input.path)
  else if let some previous := sources.files.getLast?.filter fun previous ↦
      decide (Wire.utf8Bytes input.path ≤ Wire.utf8Bytes previous.path) then
    .error (.nonCanonicalPathOrder previous.path input.path)
  else if 2 ^ 32 ≤ byteLength input.text then
    .error (.fileTooLarge (byteLength input.text))
  else if 2 ^ 32 ≤ sources.files.length then
    .error .tooManyFiles
  else if 2 ^ 32 ≤ (lineStarts input.text).length then
    .error .tooManyLines
  else
    let id : FileId := ⟨UInt32.ofNat sources.files.length⟩
    .ok (id, {
      files := sources.files ++ [⟨id, input.path, input.text, input.digest, lineStarts input.text⟩]
      portablePaths := insert portablePath sources.portablePaths })

/-- Exactly when a file is added, and what the database then holds. -/
theorem SourceDatabase.add_eq_ok {U : Unicode} {sources : SourceDatabase} {input : SourceInput}
    {added : FileId × SourceDatabase} :
    sources.add U input = .ok added ↔
      validateSourcePath U input.path = .ok () ∧
      toAsciiLowercase input.path ∉ sources.portablePaths ∧
      (∀ previous ∈ sources.files.getLast?,
        Wire.utf8Bytes previous.path < Wire.utf8Bytes input.path) ∧
      byteLength input.text < 2 ^ 32 ∧ sources.files.length < 2 ^ 32 ∧
      (lineStarts input.text).length < 2 ^ 32 ∧
      added = (⟨UInt32.ofNat sources.files.length⟩, {
        files := sources.files ++ [⟨⟨UInt32.ofNat sources.files.length⟩, input.path, input.text,
          input.digest, lineStarts input.text⟩]
        portablePaths := insert (toAsciiLowercase input.path) sources.portablePaths }) := by
  unfold SourceDatabase.add
  rw [Checked.unit_bind_eq_ok]
  refine and_congr_right fun _ ↦ ?_
  by_cases hportable : toAsciiLowercase input.path ∈ sources.portablePaths
  · simp [hportable]
  rw [if_neg hportable, and_iff_right hportable]
  split
  · rename_i previous hprevious
    obtain ⟨hlast, hle⟩ := Option.filter_eq_some_iff.1 hprevious
    have hnot : ¬ ∀ previous ∈ sources.files.getLast?,
        Wire.utf8Bytes previous.path < Wire.utf8Bytes input.path :=
      fun h ↦ absurd (h previous hlast) (not_lt.2 (of_decide_eq_true hle))
    simp only [hnot, false_and, reduceCtorEq]
  · rename_i hprevious
    have horder : ∀ previous ∈ sources.files.getLast?,
        Wire.utf8Bytes previous.path < Wire.utf8Bytes input.path := fun previous hlast ↦
      not_le.1 fun hle ↦ hprevious previous (Option.filter_eq_some_iff.2 ⟨hlast, by simpa using hle⟩)
    rw [and_iff_right horder]
    split_ifs with htext hfiles hlines
    · simp only [not_lt.2 htext, false_and]
    · simp only [not_lt.2 hfiles, false_and, and_false]
    · simp only [not_lt.2 hlines, false_and, and_false]
    · simp only [not_le.1 htext, not_le.1 hfiles, not_le.1 hlines, true_and, Except.ok.injEq]
      exact eq_comm

open List Wrela.Wire

/-- An offset at the end of the text or before a byte that begins a character. -/
def isCharBoundary (text : String) (index : ℕ) : Bool :=
  match (utf8Bytes text)[index]? with
  | some byte => index == 0 || !isContinuation byte
  | none => index == byteLength text

/-- The text from byte `start` up to byte `stop`. -/
def getText (text : String) (start stop : ℕ) : Option String :=
  if start ≤ stop && isCharBoundary text start && isCharBoundary text stop then
    fromUtf8 (((utf8Bytes text).take stop).drop start)
  else none

def SourceFile.fullSpan (source : SourceFile) : Span :=
  ⟨source.id, ⟨0, UInt32.ofNat (byteLength source.text)⟩⟩

/-- The text of a range inside the file.  `none` stands for a panic: the cut itself refuses two
boundaries in the wrong order. -/
def SourceFile.slice (source : SourceFile) (range : TextRange) : Option (Option String) :=
  if range.stop.toNat ≤ byteLength source.text &&
      isCharBoundary source.text range.start.toNat &&
      isCharBoundary source.text range.stop.toNat then
    (getText source.text range.start.toNat range.stop.toNat).map some
  else some none

@[simp]
theorem byteLength_append (left right : String) :
    byteLength (left ++ right) = byteLength left + byteLength right := by
  simp [byteLength]

theorem byteLength_ofList (characters : List Char) :
    byteLength (String.ofList characters) = (encodeChars characters).length := by
  rw [byteLength, utf8Bytes_ofList]

theorem byteLength_eq (text : String) : byteLength text = (encodeChars text.toList).length := by
  rw [byteLength, utf8Bytes_eq_encodeChars]

theorem isCharBoundary_of_append (front back : String) :
    isCharBoundary (front ++ back) (byteLength front) = true := by
  have hbytes : (utf8Bytes (front ++ back))[byteLength front]? = (utf8Bytes back)[0]? := by
    rw [utf8Bytes_append, byteLength, List.getElem?_append_right le_rfl, Nat.sub_self]
  unfold isCharBoundary
  rw [hbytes]
  cases hback : back.toList with
  | nil =>
    have hempty : back = "" := String.toList_eq_nil_iff.1 hback
    simp [hempty, utf8Bytes]
  | cons character rest =>
    obtain ⟨first, others, hshape, hfirst, -⟩ := utf8EncodeChar_shape character
    have hfirst' : (utf8Bytes back)[0]? = some first := by
      rw [utf8Bytes_eq_encodeChars, hback, encodeChars, flatMap_cons, hshape]
      rfl
    simp [hfirst', hfirst]

variable {text : String}

/-- The offsets between characters are the lengths of the texts a text begins with. -/
theorem isCharBoundary_iff :
    isCharBoundary text index = true ↔
      ∃ front back : String, text = front ++ back ∧ byteLength front = index := by
  constructor
  · intro h
    unfold isCharBoundary at h
    by_cases hzero : index = 0
    · exact ⟨"", text, by simp, by simp [hzero, byteLength, utf8Bytes]⟩
    rw [utf8Bytes_eq_encodeChars] at h
    have hcut : ∀ byte, (encodeChars text.toList)[index]? = some byte →
        isContinuation byte = false := by
      intro byte hbyte
      simpa [hbyte, hzero] using h
    have hle : index ≤ (encodeChars text.toList).length := by
      rcases Nat.lt_or_ge (encodeChars text.toList).length index with hlt | hle
      · rw [List.getElem?_eq_none hlt.le, byteLength_eq] at h
        exact (beq_iff_eq.1 h).le
      · exact hle
    obtain ⟨front, back, hsplit, hlength⟩ := encodeChars_split hle hcut
    refine ⟨String.ofList front, String.ofList back, ?_, ?_⟩
    · rw [← String.ofList_append, ← hsplit, String.ofList_toList]
    · rw [byteLength_ofList, hlength]
  · rintro ⟨front, back, rfl, rfl⟩
    exact isCharBoundary_of_append front back

/-- Texts of equal length that begin the same text are equal. -/
theorem append_inj_of_byteLength (h : front ++ back = front' ++ back')
    (hlength : byteLength front = byteLength front') :
    front = front' ∧ back = back' := by
  have hbytes := congrArg utf8Bytes h
  rw [utf8Bytes_append, utf8Bytes_append] at hbytes
  have hparts := append_inj hbytes hlength
  exact ⟨utf8Bytes_injective hparts.1, utf8Bytes_injective hparts.2⟩

theorem byteLength_eq_zero : byteLength text = 0 ↔ text = "" := by
  constructor
  · intro h
    exact utf8Bytes_injective (eq_nil_of_length_eq_zero h)
  · rintro rfl
    rfl

/-- Of two texts that begin the same text the shorter one begins the longer one. -/
theorem exists_between (h : front ++ rest = upto ++ back) (hle : byteLength front ≤ byteLength upto)
    :
    ∃ part, upto = front ++ part ∧ rest = part ++ back := by
  have hlists := congrArg String.toList h
  rw [String.toList_append, String.toList_append] at hlists
  obtain ⟨part, hupto, hrest⟩ | ⟨part, hfront, hback⟩ := append_eq_append_iff.1 hlists
  · refine ⟨String.ofList part, ?_, ?_⟩
    · rw [← String.toList_inj, String.toList_append, String.toList_ofList, hupto]
    · rw [← String.toList_inj, String.toList_append, String.toList_ofList, hrest]
  · have hfront' : front = upto ++ String.ofList part := by
      rw [← String.toList_inj, String.toList_append, String.toList_ofList, hfront]
    have hempty : String.ofList part = "" := by
      rw [← byteLength_eq_zero]
      rw [hfront', byteLength_append] at hle
      omega
    rw [hempty, String.append_empty] at hfront'
    refine ⟨"", by rw [hfront', String.append_empty], ?_⟩
    rw [hfront'] at h
    have hlists' := congrArg utf8Bytes h
    rw [utf8Bytes_append, utf8Bytes_append] at hlists'
    rw [String.empty_append]
    exact utf8Bytes_injective (append_cancel_left hlists')

theorem getText_append (front part back : String) :
    getText (front ++ part ++ back) (byteLength front) (byteLength front + byteLength part) =
      some part := by
  have hstart : isCharBoundary (front ++ part ++ back) (byteLength front) = true :=
    isCharBoundary_iff.2 ⟨front, part ++ back, by rw [String.append_assoc], rfl⟩
  have hstop : isCharBoundary (front ++ part ++ back)
      (byteLength front + byteLength part) = true :=
    isCharBoundary_iff.2 ⟨front ++ part, back, rfl, byteLength_append front part⟩
  have htake : (utf8Bytes (front ++ part ++ back)).take (byteLength front + byteLength part) =
      utf8Bytes front ++ utf8Bytes part := by
    rw [← byteLength_append, utf8Bytes_append, byteLength, take_left, utf8Bytes_append]
  rw [getText, hstart, hstop, if_pos (by simp), fromUtf8_eq_some, htake, byteLength, drop_left]

/-- The cut succeeds between ordered boundaries. -/
theorem exists_getText (hle : start ≤ stop) (hstart : isCharBoundary text start = true)
    (hstop : isCharBoundary text stop = true) :
    ∃ front part back : String, text = front ++ part ++ back ∧ byteLength front = start ∧
      start + byteLength part = stop := by
  obtain ⟨front, rest, hfront, rfl⟩ := isCharBoundary_iff.1 hstart
  obtain ⟨upto, back, hback, rfl⟩ := isCharBoundary_iff.1 hstop
  obtain ⟨part, rfl, -⟩ := exists_between (hfront.symm.trans hback) hle
  exact ⟨front, part, back, hback, rfl, (byteLength_append front part).symm⟩

theorem getText_eq_some :
    getText text start stop = some part ↔ ∃ front back : String, text = front ++ part ++ back ∧
      byteLength front = start ∧ start + byteLength part = stop := by
  constructor
  · intro h
    have hvalid : start ≤ stop ∧ isCharBoundary text start = true ∧
        isCharBoundary text stop = true := by
      unfold getText at h
      split at h
      · rename_i hvalid
        simpa [and_assoc] using hvalid
      · cases h
    obtain ⟨front, part', back, rfl, rfl, rfl⟩ := exists_getText hvalid.1 hvalid.2.1 hvalid.2.2
    rw [getText_append, Option.some.injEq] at h
    exact ⟨front, back, by rw [h], rfl, by rw [h]⟩
  · rintro ⟨front, back, rfl, rfl, rfl⟩
    exact getText_append front part back

/-- Boundaries of the file in the wrong order. -/
structure Reversed (source : SourceFile) (range : TextRange) : Prop where
  stop_lt_start : range.stop < range.start
  start_boundary : isCharBoundary source.text range.start.toNat = true
  stop_boundary : isCharBoundary source.text range.stop.toNat = true

theorem isCharBoundary_le (h : isCharBoundary text index = true) : index ≤ byteLength text := by
  obtain ⟨front, back, rfl, rfl⟩ := isCharBoundary_iff.1 h
  rw [byteLength_append]
  omega

variable {source : SourceFile} {range : TextRange}

theorem SourceFile.slice_eq_none : source.slice range = none ↔ Reversed source range := by
  have hlt : range.stop < range.start ↔ range.stop.toNat < range.start.toNat :=
    UInt32.lt_iff_toNat_lt
  unfold SourceFile.slice
  split
  · rename_i hvalid
    simp only [Bool.and_eq_true, decide_eq_true_eq] at hvalid
    obtain ⟨⟨-, hstart⟩, hstop⟩ := hvalid
    rw [Option.map_eq_none_iff]
    constructor
    · intro hnone
      refine ⟨hlt.2 (not_le.1 fun hle ↦ ?_), hstart, hstop⟩
      obtain ⟨front, part, back, htext, hfront, hpart⟩ := exists_getText hle hstart hstop
      rw [getText_eq_some.2 ⟨front, back, htext, hfront, hpart⟩] at hnone
      cases hnone
    · intro hreversed
      cases hget : getText source.text range.start.toNat range.stop.toNat with
      | none => rfl
      | some part =>
        obtain ⟨front, back, -, -, hpart⟩ := getText_eq_some.1 hget
        have := hlt.1 hreversed.stop_lt_start
        omega
  · rename_i hinvalid
    refine ⟨nofun, fun hreversed ↦ absurd ?_ hinvalid⟩
    simp [hreversed.start_boundary, hreversed.stop_boundary,
      isCharBoundary_le hreversed.stop_boundary]

theorem SourceFile.slice_eq_some :
    source.slice range = some (some part) ↔ ∃ front back : String,
      source.text = front ++ part ++ back ∧ byteLength front = range.start.toNat ∧
        range.start.toNat + byteLength part = range.stop.toNat := by
  rw [← getText_eq_some]
  unfold SourceFile.slice
  split
  · simp [Option.map_eq_some_iff]
  · rename_i hinvalid
    refine ⟨nofun, fun hget ↦ absurd ?_ hinvalid⟩
    obtain ⟨front, back, htext, hfront, hpart⟩ := getText_eq_some.1 hget
    have hstart : isCharBoundary source.text range.start.toNat = true :=
      isCharBoundary_iff.2 ⟨front, part ++ back, by rw [htext, String.append_assoc], hfront⟩
    have hstop : isCharBoundary source.text range.stop.toNat = true :=
      isCharBoundary_iff.2 ⟨front ++ part, back, htext, by rw [byteLength_append, hfront, hpart]⟩
    simp [hstart, hstop, isCharBoundary_le hstop]

end Wrela.Source
