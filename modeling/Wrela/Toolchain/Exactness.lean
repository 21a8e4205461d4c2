import Wrela.Toolchain.Fields

/-!
# Decoded strings

Line by line, what is set stays set, and each string of the text is read as the field it sets.  So a
decoded text says in its strings what the manifest says, unless the last quote of one of them
belongs to an escape: that string is not a complete one, and is decoded all the same.
-/

namespace Wrela.Toolchain

open Wrela.Source Wrela.BuildModel Wrela.Package Wrela.Wire Wrela.Checked

section Lines

variable {U : Unicode} {limits : ToolchainDecodeLimits} {byteOffset : ℕ} {parser parser' : Parser}

/-- A string of the text stands for the field of the view that it is assigned to. -/
def TextField.ReadIn (field : TextField) (view : View) : Prop :=
  field.isString = true →
    ∃ byteOffset, ReadAs field.value byteOffset (view.field field.table field.key)

theorem TextField.ReadIn.kept {field : TextField} {view view' : View} (h : field.ReadIn view)
    (hkept : View.Kept view view') : field.ReadIn view' := by
  intro hstring
  obtain ⟨byteOffset, decoded, expected, hdecoded, hexpected, hdenotes⟩ := h hstring
  exact ⟨byteOffset, decoded, expected, hdecoded, hkept _ _ _ hexpected, hdenotes⟩

/-- What a line does before the others: everything it assigns is read, and they start where it
ends. -/
structure LineRead (line : List Char) (lines : List (List Char)) (parser parser' : Parser) :
    Prop where
  kept : View.Kept parser.view parser'.view
  inTarget : parser'.FileInTarget
  read : ∀ field ∈ textFieldsFrom parser.place (line :: lines),
    field ∈ textFieldsFrom parser'.place lines ∨ field.ReadIn parser'.view

theorem parseLine_lineRead (lines : List (List Char)) (hopen : parser.FileInTarget)
    (h : parser.parseLine U limits line byteOffset = .ok parser') :
    LineRead line lines parser parser' := by
  unfold Parser.parseLine at h
  dsimp only at h
  split at h
  · rename_i hempty
    cases h
    refine ⟨.refl _, hopen, fun field hfield ↦ .inl ?_⟩
    rwa [textFieldsFrom, if_pos hempty] at hfield
  rename_i hempty
  split at h
  · rename_i hheader
    obtain ⟨hkept, hplace, hopen'⟩ := parseHeader_opened hopen h
    refine ⟨hkept, hopen', fun field hfield ↦ .inl ?_⟩
    rw [textFieldsFrom, if_neg hempty, if_pos hheader] at hfield
    rwa [hplace]
  · rename_i hheader
    obtain ⟨⟨key, value⟩, hsplit, h⟩ := bind_eq_ok.1 h
    dsimp only at h
    split at h
    · cases h
    obtain ⟨hkept, hplace, hopen', hread⟩ := parseField_assigned hopen h
    refine ⟨hkept, hopen', fun field hfield ↦ ?_⟩
    simp only [textFieldsFrom, if_neg hempty, if_neg hheader, orFail_eq_ok.1 hsplit] at hfield
    rcases List.mem_cons.1 hfield with rfl | hfield
    · exact .inr fun hstring ↦ ⟨byteOffset, hread (List.contains_iff_mem.1 hstring)⟩
    · exact .inl (by rwa [hplace])

theorem parseLines_read (hopen : parser.FileInTarget)
    (h : Parser.parseLines U limits byteOffset lines parser = .ok parser') :
    View.Kept parser.view parser'.view ∧
      ∀ field ∈ textFieldsFrom parser.place lines, field.ReadIn parser'.view := by
  induction lines generalizing byteOffset parser with
  | nil =>
    cases h
    exact ⟨.refl _, fun field hfield ↦ absurd hfield List.not_mem_nil⟩
  | cons line lines ih =>
    obtain ⟨mid, hline, h⟩ := bind_eq_ok.1 h
    obtain ⟨hkept, hopen', hread⟩ := parseLine_lineRead lines hopen hline
    obtain ⟨hkept', hread'⟩ := ih hopen' h
    refine ⟨hkept.trans hkept', fun field hfield ↦ ?_⟩
    rcases hread field hfield with hlater | hnow
    · exact hread' field hlater
    · exact hnow.kept hkept'

/-- The manifest has every string that was read. -/
theorem finish_kept (h : parser.finish = .ok manifest) : View.Kept parser.view manifest.view := by
  obtain ⟨first, hfirst, h⟩ := bind_eq_ok.1 h
  obtain ⟨second, hsecond, h⟩ := bind_eq_ok.1 h
  obtain ⟨third, hthird, h⟩ := bind_eq_ok.1 h
  obtain ⟨hpackages, hnoPackage⟩ := sameView_finishStandardLibraryPackage hfirst
  obtain ⟨hcomponents, hnoComponent⟩ := sameView_finishComponent hsecond
  obtain ⟨htargets, hnoTarget, -⟩ := sameView_finishTarget hthird
  have hview := (hpackages.trans (hcomponents.trans htargets)).view
  have hnoPackage' := (hcomponents.trans htargets).noPackage hnoPackage
  have hnoComponent' := htargets.noComponent hnoComponent
  split at h
  · cases h
  simp only [required, bind_eq_ok, orFail_eq_ok] at h
  obtain ⟨schema, hschema, release, hrelease, host, hhost, revision, hrevision, compatibility,
    hcompatibility, h⟩ := h
  cases h
  rw [← hview]
  simp only [Parser.view, hnoPackage', hnoComponent', hnoTarget, Option.map_none,
    Option.toList_none, List.append_nil]
  intro table key value hfield
  cases table with
  | root =>
    simp only [View.field, RootBuilder.field, hrelease, hhost, hrevision] at hfield
    exact hfield
  | compatibility =>
    have hlanguage := CompatibilityBuilder.of_finish hcompatibility
    simp only [View.field, CompatibilityBuilder.field, ← hlanguage] at hfield
    exact hfield
  | _ => exact hfield

/-- Every string of a decoded text was read as the field of the manifest it is assigned to. -/
theorem readIn_of_parse (h : Parser.parse U limits source = .ok manifest) :
    ∀ field ∈ textFields source, field.ReadIn manifest.view := by
  obtain ⟨parser, hlines, h⟩ := bind_eq_ok.1 h
  obtain ⟨-, hread⟩ := parseLines_read (by intro hfile; cases hfile) hlines
  exact fun field hfield ↦ (hread field hfield).kept (finish_kept h)

end Lines

section Exact

variable {U : Unicode} {limits : ToolchainDecodeLimits} {bytes : List UInt8} {source : String}
  {manifest : ToolchainManifest}

theorem readIn_of_decode (hsource : fromUtf8 bytes = some source)
    (h : decode U bytes limits = .ok manifest) :
    ∀ field ∈ textFields source.toList, field.ReadIn manifest.view := by
  iterate 2 obtain ⟨-, h⟩ := unit_bind_eq_ok.1 h
  obtain ⟨text, htext, h⟩ := bind_eq_ok.1 h
  rw [orFail_eq_ok, hsource] at htext
  cases htext
  exact readIn_of_parse h

/-- The strings of a decoded text are those of the manifest, unless one is closed by an escape. -/
theorem stringsExact_iff (hsource : fromUtf8 bytes = some source)
    (h : decode U bytes limits = .ok manifest) :
    StringsExact source.toList manifest ↔ ¬ HasHangingString source.toList := by
  constructor
  · rintro hexact ⟨field, hfield, hstring, hhangs⟩
    obtain ⟨value, -, hbasic, -⟩ := hexact field hfield hstring
    rw [hbasic.hangs_eq_false] at hhangs
    cases hhangs
  · intro hcomplete field hfield hstring
    obtain ⟨byteOffset, decoded, found, hscan, hfound, hdenotes⟩ :=
      readIn_of_decode hsource h field hfield hstring
    have hhangs : hangs field.value = false :=
      Bool.eq_false_iff.2 fun hhangs ↦ hcomplete ⟨field, hfield, hstring, hhangs⟩
    exact ⟨_, found, basicString_of_scanBasicString hscan hhangs, hfound, hdenotes⟩

/-- A value whose last quote stands alone is either a complete string, and read as that, or it is
reported. -/
theorem scanBasicString_sound (byteOffset : ℕ) (hhangs : hangs value = false) :
    (∃ text, BasicString value text ∧ scanBasicString value byteOffset = .ok text.toList) ∨
      (¬ ∃ text, BasicString value text) ∧
        ∃ errorOffset message,
          scanBasicString value byteOffset = .error (.malformed errorOffset message) := by
  cases hscan : scanBasicString value byteOffset with
  | ok decoded =>
    exact .inl ⟨_, basicString_of_scanBasicString hscan hhangs, by rw [String.toList_ofList]⟩
  | error error =>
    obtain ⟨errorOffset, message, rfl⟩ := onlyMalformed_scanBasicString value byteOffset error hscan
    refine .inr ⟨?_, errorOffset, message, rfl⟩
    rintro ⟨text, hbasic⟩
    rw [hbasic.scanBasicString_eq] at hscan
    cases hscan

end Exact

/-- Whatever is written is read back as what it was, and accepted.  Whatever is read agrees with its
strings just in case each of them is closed by a quote of its own, and a value closed so is read as
the string it is or reported as malformed. -/
theorem toolchainCodec_exact (U : Unicode) :
    (∀ manifest limits bytes, manifest.Admissible U → encodeCanonical manifest limits = .ok bytes →
      decode U bytes limits = .ok manifest ∧
        decodeAndVerifyToolchainManifest U bytes limits manifest.compatibility = .ok manifest) ∧
    (∀ limits bytes source manifest, fromUtf8 bytes = some source →
      decode U bytes limits = .ok manifest →
        (StringsExact source.toList manifest ↔ ¬ HasHangingString source.toList)) ∧
    ∀ value byteOffset, hangs value = false →
      (∃ text, BasicString value text ∧ scanBasicString value byteOffset = .ok text.toList) ∨
        (¬ ∃ text, BasicString value text) ∧
          ∃ errorOffset message,
            scanBasicString value byteOffset = .error (.malformed errorOffset message) :=
  ⟨fun _ _ _ hadmissible h ↦
      ⟨decode_encodeCanonical hadmissible h, decodeAndVerify_encodeCanonical hadmissible h⟩,
    fun _ _ _ _ hsource h ↦ stringsExact_iff hsource h,
    fun _ byteOffset hhangs ↦ scanBasicString_sound byteOffset hhangs⟩

def exampleDigest (byte : UInt8) : Sha256Digest := .repeated byte

def exampleCompatibility : ToolchainCompatibility := ⟨.design01, fun _ ↦ 1⟩

/-- The smallest manifest, with marks of the format in its release. -/
def minimum : ToolchainManifest where
  schema := 1
  release := "r\\\"#=[]"
  host := "x86_64-unknown-linux-gnu"
  llvmProjectRevision := "r"
  compatibility := exampleCompatibility
  standardLibraryPackages := [⟨⟨⟨"c"⟩, ⟨"0"⟩, exampleDigest 1⟩, .toolchain "c", exampleDigest 2⟩]
  components := [
    ⟨.frontend, ⟨"bin/wrela", by decide⟩, exampleDigest 3, 1⟩,
    ⟨.backend, ⟨"libexec/wrela/wrela-backend", by decide⟩, exampleDigest 4, 1⟩,
    ⟨.standardLibrary, ⟨"share/wrela/std", by decide⟩, exampleDigest 5, 1⟩]
  targets := [
    ⟨⟨"aarch64-qemu-virt-uefi", validateAtom_aarch64QemuVirtUefi⟩,
      ⟨"share/wrela/targets/aarch64-qemu-virt-uefi", by decide⟩, exampleDigest 7, 1,
      [⟨⟨"runtime/wrela-runtime-aarch64.obj", by decide⟩, exampleDigest 10, 1⟩]⟩]

theorem admissible_minimum : minimum.Admissible Unicode.ascii := by
  intro package hpackage
  rw [List.mem_singleton.1 hpackage]
  decide

theorem isOk_encodeCanonical_minimum : (encodeCanonical minimum .standard).isOk = true := by
  decide +kernel

/-- A text without array tables; the release is as it stands there. -/
def exampleText (release : List Char) : List Char :=
  "schema = 1\nrelease = ".toList ++ release ++
    "\nhost = \"h\"\nllvm_project_revision = \"r\"\n".toList ++
    "[compatibility]\nlanguage = \"0.1-design\"\n".toList ++
    CompatibilityNumber.all.flatMap fun number ↦ integerAssignment number.key 1

theorem fromUtf8_encodeChars (text : List Char) :
    fromUtf8 (encodeChars text) = some (String.ofList text) :=
  fromUtf8_eq_some.2 (utf8Bytes_ofList text)

theorem exists_decode {bytes : List UInt8} {release : String}
    (h : (decode Unicode.ascii bytes .standard).toOption.map (fun manifest ↦ manifest.release) =
      some release) :
    ∃ manifest, decode Unicode.ascii bytes .standard = .ok manifest ∧
      manifest.release = release := by
  cases hdecode : decode Unicode.ascii bytes .standard with
  | error error =>
    rw [hdecode] at h
    cases h
  | ok manifest =>
    rw [hdecode] at h
    exact ⟨manifest, rfl, Option.some.inj h⟩

theorem toolchainCodec_exact_minimum :
    (∃ bytes, encodeCanonical minimum .standard = .ok bytes ∧
      decode Unicode.ascii bytes .standard = .ok minimum) ∧
    (∃ manifest, manifest.release = "r\\" ∧
      StringsExact (exampleText "\"r\\\\\"".toList) manifest) ∧
    ¬ ∃ text, BasicString ['"', 'r'] text := by
  obtain ⟨hwritten, hread, hscanned⟩ := toolchainCodec_exact Unicode.ascii
  refine ⟨?_, ?_, ?_⟩
  · cases hbytes : encodeCanonical minimum .standard with
    | error error =>
      have hok := isOk_encodeCanonical_minimum
      rw [hbytes] at hok
      cases hok
    | ok bytes => exact ⟨bytes, rfl, (hwritten _ _ _ admissible_minimum hbytes).1⟩
  · obtain ⟨manifest, hdecode, hrelease⟩ :=
      @exists_decode (encodeChars (exampleText "\"r\\\\\"".toList)) "r\\" (by decide +kernel)
    have hexact := hread .standard _ _ _ (fromUtf8_encodeChars _) hdecode
    rw [String.toList_ofList] at hexact
    exact ⟨manifest, hrelease, hexact.2 (by unfold HasHangingString; decide)⟩
  · rcases hscanned ['"', 'r'] 0 (by decide) with ⟨text, -, hscan⟩ | ⟨hnone, -⟩
    · cases hscan
    · exact hnone

/-- A release whose last quote is escaped is decoded, with the quote, although nothing closes it. -/
theorem toolchainCodec_not_exact : ∃ manifest,
    decode Unicode.ascii (encodeChars (exampleText "\"r\\\"".toList)) .standard = .ok manifest ∧
      manifest.release = "r\"" ∧ (¬ ∃ text, BasicString "\"r\\\"".toList text) ∧
        ¬ StringsExact (exampleText "\"r\\\"".toList) manifest := by
  obtain ⟨manifest, hdecode, hrelease⟩ :=
    @exists_decode (encodeChars (exampleText "\"r\\\"".toList)) "r\"" (by decide +kernel)
  refine ⟨manifest, hdecode, hrelease, ?_, fun hexact ↦ ?_⟩
  · rintro ⟨text, hbasic⟩
    have hhangs := hbasic.hangs_eq_false
    revert hhangs
    decide
  · have hiff := stringsExact_iff (fromUtf8_encodeChars _) hdecode
    rw [String.toList_ofList] at hiff
    exact hiff.1 hexact (by unfold HasHangingString; decide)

end Wrela.Toolchain
