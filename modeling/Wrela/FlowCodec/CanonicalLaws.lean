import Wrela.FlowCodec.Canonical

/-!
# Laws of the canonical codec

What the decoder reads back is what was encoded, and what it accepts is what the encoder would have
written.
-/

namespace Wrela.FlowCodec

open List Wrela.Source Wrela.BuildModel Wrela.Flow Wrela.Wire Wrela.Validation

variable (limits : CodecLimits)

/-! ## The header -/

namespace Writer

def targetIdentity (target : TargetIdentity) : Writer Unit := do
  u32 limits (UInt32.ofNat (byteLength target.name))
  raw limits (utf8Bytes target.name)

def languageRevision (language : LanguageRevision) : Writer Unit := u8 limits (languageTag language)

/-- The build identity without the charge for its target. -/
def identityFields (build : BuildIdentity) : Writer Unit := do
  digest limits build.compiler
  languageRevision limits build.language
  targetIdentity limits build.target
  digest limits build.targetPackage
  digest limits build.standardLibrary
  digest limits build.sourceGraph
  digest limits build.request
  digest limits build.profile

/-- The header as the decoder sees it, with the payload length in place. -/
def header (header : WireHeader) : Writer Unit := do
  raw limits flowWirMagic
  u32 limits header.wireVersion
  u32 limits header.flowWirVersion
  u64 limits header.payloadBytes
  identityFields limits header.build

end Writer

theorem toNat_targetLength (target : TargetIdentity) :
    (UInt32.ofNat (byteLength target.name)).toNat = byteLength target.name := by
  apply toNat_ofNat_length
  have hle := target.byteLength_pos.2
  have hmax : maxProfileAtomBytes = 4096 := rfl
  have hsize : UInt32.size = 4294967296 := rfl
  omega

instance mirrors_targetIdentity :
    Mirrors limits (Writer.targetIdentity limits) Reader.targetIdentity where
  emits target := by
    refine emitsField limits ?_
    obtain ⟨hpos, hle⟩ := target.byteLength_pos
    rw [toNat_targetLength, if_neg (by omega)]
    refine Emits.last (emits_append rfl) ?_
    have hcopy : copyUtf8 (utf8Bytes target.name) = some target.name := copyUtf8_eq_some.2 rfl
    have hnew : TargetIdentity.new target.name = some target := TargetIdentity.new_eq_some.2 rfl
    simp only [hcopy, hnew]
  absorbs := by
    refine AbsorbsAfter.start (absorbsField fun length ↦ ?_)
    split
    · exact AbsorbsAfter.rejected
    · refine AbsorbsAfter.bindReturns (absorbs_take (Writer.tooLarge limits)) fun bytes hbytes ↦ ?_
      split
      · exact AbsorbsAfter.rejected
      · rename_i name hname
        split
        · exact AbsorbsAfter.rejected
        · rename_i target htarget
          rw [TargetIdentity.new_eq_some] at htarget
          rw [copyUtf8_eq_some, ← htarget] at hname
          have hlength : byteLength target.name = length.toNat := by
            rw [byteLength, hname, hbytes.length_take]
          apply AbsorbsAfter.done
          rw [Writer.targetIdentity, hlength, UInt32.ofNat_toNat, hname, pure_bind]
          rfl

instance mirrors_languageRevision :
    Mirrors limits (Writer.languageRevision limits) Reader.languageRevision where
  emits language := by
    cases language
    exact emitsTag limits rfl
  absorbs := by
    refine AbsorbsAfter.start (absorbsField fun tag ↦ ?_)
    split
    · exact AbsorbsAfter.done (by rw [pure_bind]; rfl)
    · exact AbsorbsAfter.rejected

instance mirrors_identityFields :
    Mirrors limits (Writer.identityFields limits) Reader.buildIdentity where
  emits _ := by
    iterate 7 refine emitsField limits ?_
    exact emitsLast limits rfl
  absorbs := by
    apply AbsorbsAfter.start
    iterate 8 refine absorbsField fun _ ↦ ?_
    exact AbsorbsAfter.done (by simp [Writer.identityFields])

/-- A header the decoder accepts. -/
def WireHeader.isSupported (header : WireHeader) : Prop :=
  header.wireVersion = flowWirWireVersion ∧ header.flowWirVersion = Flow.flowWirVersion ∧
    header.payloadBytes ≠ 0

variable {header : WireHeader} {build : BuildIdentity} {payload bytes : List UInt8}
  {wir : ValidatedFlowWir} {candidate : EncodedFlowWirCandidate}
  {expectedBuild : Option BuildIdentity}

theorem emits_header (h : header.isSupported) :
    Emits (Writer.header limits header) Reader.header header := by
  obtain ⟨hwire, hversion, hpayload⟩ := h
  refine Emits.bind (emits_append rfl) ?_
  rw [if_neg (by simp)]
  refine emitsField limits ?_
  rw [if_neg (not_not.2 hwire)]
  refine emitsField limits ?_
  rw [if_neg (not_not.2 hversion)]
  refine emitsField limits ?_
  rw [if_neg hpayload]
  exact emitsLast limits rfl

theorem absorbs_header :
    Absorbs (Writer.frameLimit limits) Reader.header (Writer.header limits) := by
  refine AbsorbsAfter.start
    (AbsorbsAfter.bind (absorbs_take (Writer.tooLarge limits)) fun magic ↦ ?_)
  split
  · exact AbsorbsAfter.rejected
  · rename_i hmagic
    refine absorbsField fun wireVersion ↦ ?_
    split
    · exact AbsorbsAfter.rejected
    · refine absorbsField fun version ↦ ?_
      split
      · exact AbsorbsAfter.rejected
      · refine absorbsField fun payloadBytes ↦ ?_
        split
        · exact AbsorbsAfter.rejected
        · refine absorbsField fun build ↦ AbsorbsAfter.done ?_
          rw [not_not] at hmagic
          simp [Writer.header, Writer.raw, hmagic]

theorem header_returns (h : Returns Reader.header header) : header.isSupported := by
  revert h
  refine Returns.elim_bind fun magic ↦ ?_
  split
  · rintro ⟨_, _, h⟩
    cases h
  · refine Returns.elim_bind fun wireVersion ↦ ?_
    split
    · rintro ⟨_, _, h⟩
      cases h
    · rename_i hwire
      refine Returns.elim_bind fun version ↦ ?_
      split
      · rintro ⟨_, _, h⟩
        cases h
      · rename_i hversion
        refine Returns.elim_bind fun payloadBytes ↦ ?_
        split
        · rintro ⟨_, _, h⟩
          cases h
        · rename_i hpayload
          refine Returns.elim_bind fun build ↦ ?_
          rintro ⟨_, _, h⟩
          cases h
          exact ⟨not_not.1 hwire, not_not.1 hversion, hpayload⟩

def targetBytes (target : TargetIdentity) : List UInt8 :=
  leBytes 4 (byteLength target.name) ++ utf8Bytes target.name

def identityBytes (build : BuildIdentity) : List UInt8 :=
  build.compiler.bytes ++ (leBytes 1 0 ++ (targetBytes build.target ++
    (build.targetPackage.bytes ++ (build.standardLibrary.bytes ++ (build.sourceGraph.bytes ++
      (build.request.bytes ++ build.profile.bytes))))))

/-- The sixteen bytes before the payload length. -/
def openingBytes : List UInt8 :=
  flowWirMagic ++ (leBytes 4 flowWirWireVersion.toNat ++ leBytes 4 flowWirVersion.toNat)

def headerBytes (payloadBytes : UInt64) (build : BuildIdentity) : List UInt8 :=
  openingBytes ++ (leBytes 8 payloadBytes.toNat ++ identityBytes build)

theorem appends_targetIdentity (target : TargetIdentity) :
    Appends (Writer.frameLimit limits) (Writer.targetIdentity limits target)
      (targetBytes target) := by
  have hu32 : Writer.u32 limits (UInt32.ofNat (byteLength target.name)) =
      putLe (Writer.frameLimit limits) (Writer.tooLarge limits) 4 (byteLength target.name) := by
    rw [Writer.u32, toNat_targetLength]
  rw [Writer.targetIdentity, hu32]
  exact (appends_append _ _ _).bind (appends_append _ _ _)

theorem appends_identityFields (build : BuildIdentity) :
    Appends (Writer.frameLimit limits) (Writer.identityFields limits build)
      (identityBytes build) := by
  refine (appends_append _ _ _).bind (.bind (appends_append _ _ _) (.bind
    (appends_targetIdentity limits _) ?_))
  exact (appends_append _ _ _).bind (.bind (appends_append _ _ _) (.bind (appends_append _ _ _)
    (.bind (appends_append _ _ _) (appends_append _ _ _))))

theorem appends_header (h : header.isSupported) :
    Appends (Writer.frameLimit limits) (Writer.header limits header)
      (headerBytes header.payloadBytes header.build) := by
  obtain ⟨hwire, hversion, -⟩ := h
  rw [Writer.header, hwire, hversion, headerBytes, openingBytes, append_assoc, append_assoc]
  exact (appends_append _ _ _).bind (.bind (appends_append _ _ _) (.bind (appends_append _ _ _)
    (.bind (appends_append _ _ _) (appends_identityFields limits _))))

theorem cloneBuildIdentity_eq (build : BuildIdentity) : cloneBuildIdentity build = .ok build := by
  have hcopy : copyUtf8 (utf8Bytes build.target.name) = some build.target.name :=
    copyUtf8_eq_some.2 rfl
  have hnew : TargetIdentity.new build.target.name = some build.target :=
    TargetIdentity.new_eq_some.2 rfl
  simp only [cloneBuildIdentity, hcopy, hnew]

theorem length_openingBytes : openingBytes.length = 16 := by decide

/-- Only the target is charged, and the charge does not depend on the bytes around it. -/
theorem buildIdentity_eq_ok :
    Writer.buildIdentity limits build sink = .ok ((), sink') ↔
      sink.bytes.length + (identityBytes build).length ≤ Writer.frameLimit limits ∧
        sink.meter.chargeString limits (byteLength build.target.name) = .ok sink'.meter ∧
        sink'.bytes = sink.bytes ++ identityBytes build := by
  have hlength : Writer.length limits (byteLength build.target.name) =
      Writer.u32 limits (UInt32.ofNat (byteLength build.target.name)) := by
    have hshort := toNat_targetLength build.target
    have hlt := (UInt32.ofNat (byteLength build.target.name)).toNat_lt
    have hsize : UInt32.size = 2 ^ 32 := rfl
    rw [Writer.length, if_neg (by omega)]
  have hfront : Appends (Writer.frameLimit limits)
      (do Writer.digest limits build.compiler; Writer.languageRevision limits build.language)
      (build.compiler.bytes ++ leBytes 1 0) :=
    (appends_append _ _ _).bind (appends_append _ _ _)
  have hback : Appends (Writer.frameLimit limits)
      (do
        Writer.targetIdentity limits build.target
        Writer.digest limits build.targetPackage
        Writer.digest limits build.standardLibrary
        Writer.digest limits build.sourceGraph
        Writer.digest limits build.request
        Writer.digest limits build.profile)
      (targetBytes build.target ++ (build.targetPackage.bytes ++ (build.standardLibrary.bytes ++
        (build.sourceGraph.bytes ++ (build.request.bytes ++ build.profile.bytes))))) :=
    (appends_targetIdentity limits _).bind (.bind (appends_append _ _ _) (.bind
      (appends_append _ _ _) (.bind (appends_append _ _ _) (.bind (appends_append _ _ _)
      (appends_append _ _ _)))))
  have hsplit : Writer.buildIdentity limits build =
      (do
        (do Writer.digest limits build.compiler; Writer.languageRevision limits build.language)
        charge (Meter.chargeString limits (byteLength build.target.name))
        (do
          Writer.targetIdentity limits build.target
          Writer.digest limits build.targetPackage
          Writer.digest limits build.standardLibrary
          Writer.digest limits build.sourceGraph
          Writer.digest limits build.request
          Writer.digest limits build.profile)) := by
    simp only [Writer.buildIdentity, Writer.string, hlength, Writer.targetIdentity,
      Writer.languageRevision, bind_assoc]
  obtain ⟨bytes', meter'⟩ := sink'
  rw [hsplit, run_bind_eq_ok]
  constructor
  · rintro ⟨_, first, hfirst, hrest⟩
    obtain ⟨_, second, hcharge, hlast⟩ := run_bind_eq_ok.1 hrest
    obtain ⟨-, rfl⟩ := (hfront _ _).1 hfirst
    obtain ⟨hstep, hbytes⟩ := charge_eq_ok.1 hcharge
    obtain ⟨hfits, hsink⟩ := (hback _ _).1 hlast
    cases hsink
    rw [hbytes] at hfits ⊢
    simp only [identityBytes, length_append, append_assoc] at hfits ⊢
    exact ⟨by omega, hstep, trivial⟩
  · rintro ⟨hfits, hstep, rfl⟩
    simp only [identityBytes, length_append] at hfits
    refine ⟨(), _, (hfront _ _).2 ⟨by simp only [length_append]; omega, rfl⟩,
      run_bind_eq_ok.2 ⟨(), ⟨sink.bytes ++ (build.compiler.bytes ++ leBytes 1 0), meter'⟩,
        charge_eq_ok.2 ⟨hstep, rfl⟩, (hback _ _).2 ?_⟩⟩
    simp only [identityBytes, length_append, append_assoc]
    exact ⟨by omega, trivial⟩

/-- Everything before the payload, with the placeholder for its length. -/
theorem prelude_eq_ok {sink : Sink Meter} : (do
      Writer.raw limits flowWirMagic
      Writer.u32 limits flowWirWireVersion
      Writer.u32 limits flowWirVersion
      Writer.u64 limits 0
      Writer.buildIdentity limits build : Writer Unit) ⟨[], .default⟩ = .ok ((), sink) ↔
      (headerBytes 0 build).length ≤ Writer.frameLimit limits ∧
        Meter.default.chargeString limits (byteLength build.target.name) = .ok sink.meter ∧
        sink.bytes = headerBytes 0 build := by
  have hopening : Appends (Writer.frameLimit limits)
      (do
        Writer.raw limits flowWirMagic
        Writer.u32 limits flowWirWireVersion
        Writer.u32 limits flowWirVersion
        Writer.u64 limits 0 : Writer Unit)
      (flowWirMagic ++ (leBytes 4 flowWirWireVersion.toNat ++ (leBytes 4 flowWirVersion.toNat ++
        leBytes 8 (0 : UInt64).toNat))) :=
    (appends_append _ _ _).bind (.bind (appends_append _ _ _) (.bind (appends_append _ _ _)
      (appends_append _ _ _)))
  have hsplit : (do
      Writer.raw limits flowWirMagic
      Writer.u32 limits flowWirWireVersion
      Writer.u32 limits flowWirVersion
      Writer.u64 limits 0
      Writer.buildIdentity limits build : Writer Unit) =
      (do
        (do
          Writer.raw limits flowWirMagic
          Writer.u32 limits flowWirWireVersion
          Writer.u32 limits flowWirVersion
          Writer.u64 limits 0 : Writer Unit)
        Writer.buildIdentity limits build) := by
    simp only [bind_assoc]
  rw [hsplit, run_bind_eq_ok]
  constructor
  · rintro ⟨_, first, hfirst, hrest⟩
    obtain ⟨-, rfl⟩ := (hopening _ _).1 hfirst
    obtain ⟨hfits, hstep, hbytes⟩ := (buildIdentity_eq_ok limits).1 hrest
    rw [hbytes]
    simp only [headerBytes, openingBytes, length_append, append_assoc, nil_append] at hfits ⊢
    exact ⟨by omega, hstep, trivial⟩
  · rintro ⟨hfits, hstep, hbytes⟩
    simp only [headerBytes, openingBytes, length_append] at hfits
    refine ⟨(), _, (hopening _ _).2 ⟨by simp only [length_append, length_nil]; omega, rfl⟩,
      (buildIdentity_eq_ok limits).2 ⟨?_, hstep, ?_⟩⟩
    · simp only [length_append, length_nil]
      omega
    · simp [hbytes, headerBytes, openingBytes]

theorem patchU64_headerBytes (value : UInt64) :
    Writer.patchU64 16 value ⟨headerBytes 0 build ++ payload, meter⟩ =
      .ok ((), ⟨headerBytes value build ++ payload, meter⟩) := by
  have hsplit : headerBytes 0 build ++ payload =
      openingBytes ++ (leBytes 8 (0 : UInt64).toNat ++ (identityBytes build ++ payload)) := by
    simp [headerBytes]
  have hlength : (leBytes 8 (0 : UInt64).toNat).length = 8 := length_leBytes _ _
  have htake : (headerBytes 0 build ++ payload).take 16 = openingBytes := by
    rw [hsplit, ← length_openingBytes, take_left]
  have hdrop : (headerBytes 0 build ++ payload).drop (16 + 8) = identityBytes build ++ payload := by
    rw [hsplit, ← drop_drop, drop_left' length_openingBytes, drop_left' hlength]
  unfold Writer.patchU64
  rw [if_pos, htake, hdrop]
  · simp [headerBytes]
  · simp only [hsplit, length_append, length_openingBytes, hlength]
    omega

theorem frame_eq_ok :
    Writer.frame limits model ⟨[], .default⟩ = .ok (payloadBytes, sink) ↔
      ∃ before after, (headerBytes 0 model.build).length ≤ Writer.frameLimit limits ∧
        Meter.default.chargeString limits (byteLength model.build.target.name) = .ok before ∧
        Writer.flowWir limits model ⟨headerBytes 0 model.build, before⟩ = .ok ((), after) ∧
        payloadBytes = UInt64.ofNat (after.bytes.length - (headerBytes 0 model.build).length) ∧
        payloadBytes ≠ 0 ∧ Writer.patchU64 16 payloadBytes after = .ok ((), sink) := by
  have hoffset : ∀ first second third : Sink Meter,
      Writer.raw limits flowWirMagic ⟨[], .default⟩ = .ok ((), first) →
      Writer.u32 limits flowWirWireVersion first = .ok ((), second) →
      Writer.u32 limits Flow.flowWirVersion second = .ok ((), third) →
      third.bytes.length = 16 := by
    intro first second third hmagic hwire hversion
    obtain ⟨-, rfl⟩ := append_eq_ok.1 hmagic
    obtain ⟨-, rfl⟩ := append_eq_ok.1 hwire
    obtain ⟨-, rfl⟩ := append_eq_ok.1 hversion
    exact length_openingBytes
  constructor
  · intro h
    obtain ⟨_, first, hmagic, h⟩ := run_bind_eq_ok.1 h
    obtain ⟨_, second, hwire, h⟩ := run_bind_eq_ok.1 h
    obtain ⟨_, third, hversion, h⟩ := run_bind_eq_ok.1 h
    obtain ⟨_, _, hposition, h⟩ := run_bind_eq_ok.1 h
    cases hposition
    obtain ⟨_, fourth, hlength, h⟩ := run_bind_eq_ok.1 h
    obtain ⟨_, before, hbuild, h⟩ := run_bind_eq_ok.1 h
    obtain ⟨_, _, hposition, h⟩ := run_bind_eq_ok.1 h
    cases hposition
    obtain ⟨_, after, hflow, h⟩ := run_bind_eq_ok.1 h
    obtain ⟨_, _, hposition, h⟩ := run_bind_eq_ok.1 h
    cases hposition
    obtain ⟨hfits, hcharge, hbytes⟩ := (prelude_eq_ok limits).1 (run_bind_eq_ok.2 ⟨(), first, hmagic,
      run_bind_eq_ok.2 ⟨(), second, hwire, run_bind_eq_ok.2 ⟨(), third, hversion,
        run_bind_eq_ok.2 ⟨(), fourth, hlength, hbuild⟩⟩⟩⟩)
    split at h
    · cases h
    · rename_i hpayload
      obtain ⟨_, patched, hpatch, hdone⟩ := run_bind_eq_ok.1 h
      cases hdone
      rw [hoffset first second third hmagic hwire hversion] at hpatch
      rw [← hbytes]
      exact ⟨before.meter, after, hbytes ▸ hfits, hcharge, hflow, rfl, hpayload, hpatch⟩
  · rintro ⟨before, after, hfits, hcharge, hflow, rfl, hpayload, hpatch⟩
    have hprelude := (@prelude_eq_ok limits model.build ⟨headerBytes 0 model.build, before⟩).2
      ⟨hfits, hcharge, rfl⟩
    obtain ⟨_, first, hmagic, h⟩ := run_bind_eq_ok.1 hprelude
    obtain ⟨_, second, hwire, h⟩ := run_bind_eq_ok.1 h
    obtain ⟨_, third, hversion, h⟩ := run_bind_eq_ok.1 h
    obtain ⟨_, fourth, hlength, hbuild⟩ := run_bind_eq_ok.1 h
    refine run_bind_eq_ok.2 ⟨(), first, hmagic, run_bind_eq_ok.2 ⟨(), second, hwire,
      run_bind_eq_ok.2 ⟨(), third, hversion, run_bind_eq_ok.2 ⟨_, third, rfl,
        run_bind_eq_ok.2 ⟨(), fourth, hlength, run_bind_eq_ok.2 ⟨(), _, hbuild,
          run_bind_eq_ok.2 ⟨_, _, rfl, run_bind_eq_ok.2 ⟨(), after, hflow,
            run_bind_eq_ok.2 ⟨_, after, rfl, ?_⟩⟩⟩⟩⟩⟩⟩⟩⟩
    simp only [if_neg hpayload, hoffset first second third hmagic hwire hversion]
    exact run_bind_eq_ok.2 ⟨(), sink, hpatch, rfl⟩

theorem bounded_flowWir (model : FlowWir) :
    Bounded (Writer.frameLimit limits) (Writer.flowWir limits model) := by
  iterate 21 refine Bounded.bind fun _ ↦ ?_
  exact bounded_append _ _ _

theorem length_headerBytes (payloadBytes : UInt64) (build : BuildIdentity) :
    (headerBytes payloadBytes build).length = (headerBytes 0 build).length := by
  simp [headerBytes, length_leBytes]

theorem toNat_payloadLength {length : ℕ} (h : length ≤ Writer.frameLimit limits) :
    (UInt64.ofNat length).toNat = length := by
  have hlt := limits.frameBytes.toNat_lt
  rw [UInt64.toNat_ofNat', Nat.mod_eq_of_lt]
  exact lt_of_le_of_lt h hlt

theorem encode_eq_ok :
    encode limits wir = .ok candidate ↔
      limits.validate = .ok () ∧ ∃ payloadBytes sink,
        Writer.frame limits wir.wir ⟨[], .default⟩ = .ok (payloadBytes, sink) ∧
          candidate =
            ⟨⟨flowWirWireVersion, Flow.flowWirVersion, payloadBytes, wir.wir.build⟩, sink.bytes⟩ := by
  rw [encode, Checked.unit_bind_eq_ok]
  refine and_congr_right fun _ ↦ ?_
  simp only [Checked.bind_eq_ok, cloneBuildIdentity_eq]
  constructor
  · rintro ⟨⟨payloadBytes, sink⟩, hframe, build, hbuild, hdone⟩
    cases hbuild
    cases hdone
    exact ⟨payloadBytes, sink, hframe, rfl⟩
  · rintro ⟨payloadBytes, sink, hframe, rfl⟩
    exact ⟨⟨payloadBytes, sink⟩, hframe, _, rfl, rfl⟩

theorem readHeader_headerBytes (hpayload : payloadBytes ≠ 0)
    (hfits : (headerBytes payloadBytes build).length ≤ Writer.frameLimit limits) (rest : List UInt8)
    :
    Reader.header ⟨headerBytes payloadBytes build ++ rest, .default⟩ =
      .ok (⟨flowWirWireVersion, Flow.flowWirVersion, payloadBytes, build⟩, ⟨rest, .default⟩) := by
  have hsupported : WireHeader.isSupported
      ⟨flowWirWireVersion, Flow.flowWirVersion, payloadBytes, build⟩ := ⟨rfl, rfl, hpayload⟩
  have hwrite := (appends_header limits hsupported ⟨[], .default⟩ _).2 ⟨by simpa using hfits, rfl⟩
  obtain ⟨bytes, hbytes, hread⟩ := emits_header limits hsupported _ _ hwrite
  simp only [nil_append] at hbytes
  rw [hbytes]
  exact hread rest

theorem readHeader_eq_ok (h : Reader.header ⟨bytes, .default⟩ = .ok (header, source))
    (hfits : bytes.length ≤ Writer.frameLimit limits) :
    header.isSupported ∧ bytes = headerBytes header.payloadBytes header.build ++ source.rest := by
  have hsupported := header_returns ⟨_, _, h⟩
  obtain ⟨front, hfront, hwrite⟩ := absorbs_header limits _ _ _ h
  simp only at hfront
  have hwrote := hwrite [] (by
    simp only [hfront, length_append] at hfits
    simp only [nil_append]
    omega)
  obtain ⟨-, hsink⟩ := (appends_header limits hsupported _ _).1 hwrote
  simp only [nil_append, Sink.mk.injEq] at hsink
  exact ⟨hsupported, by rw [hfront, hsink.1]⟩

theorem parseHeader_eq_ok :
    parseHeader bytes = .ok (header, payload) ↔
      ∃ source, Reader.header ⟨bytes, .default⟩ = .ok (header, source) ∧ source.rest = payload ∧
        payload.length = header.payloadBytes.toNat := by
  rw [parseHeader, Checked.bind_eq_ok]
  constructor
  · rintro ⟨⟨header, source⟩, hread, h⟩
    simp only at h
    split at h
    · cases h
    · split at h
      · cases h
      · cases h
        exact ⟨source, hread, rfl, by omega⟩
  · rintro ⟨source, hread, rfl, hlength⟩
    refine ⟨⟨header, source⟩, hread, ?_⟩
    simp only
    rw [if_neg (by omega), if_neg (by omega)]

theorem readPayload_eq_ok :
    readPayload limits build payload = .ok model ↔
      ∃ before after, Meter.default.chargeString limits (byteLength build.target.name) = .ok before ∧
        Reader.flowWir limits build ⟨payload, before⟩ = .ok (model, ⟨[], after⟩) := by
  rw [readPayload, Checked.bind_eq_ok]
  refine exists_congr fun before ↦ ?_
  rw [exists_and_left]
  refine and_congr_right fun _ ↦ ?_
  rw [Checked.bind_eq_ok]
  constructor
  · rintro ⟨⟨model, rest, after⟩, hread, h⟩
    cases rest with
    | nil =>
      cases h
      exact ⟨after, hread⟩
    | cons byte rest => cases h
  · rintro ⟨after, hread⟩
    exact ⟨_, hread, rfl⟩

theorem enforce_eq_ok : enforce resource limit actual = .ok () ↔ actual ≤ limit.toNat := by
  unfold enforce
  split <;> simp <;> omega

theorem decode_eq_ok :
    decode limits expectedBuild bytes = .ok wir ↔
      limits.validate = .ok () ∧ bytes.length ≤ limits.frameBytes.toNat ∧
        ∃ header payload, parseHeader bytes = .ok (header, payload) ∧
          (∀ expected ∈ expectedBuild, expected = header.build) ∧
          readPayload limits header.build payload = .ok wir.wir ∧
          Accepts wir.wir (flowValidationLimits limits) := by
  rw [decode, Checked.unit_bind_eq_ok, Checked.unit_bind_eq_ok, enforce_eq_ok]
  refine and_congr_right fun _ ↦ and_congr_right fun _ ↦ ?_
  rw [Checked.bind_eq_ok]
  constructor
  · rintro ⟨⟨header, payload⟩, hparse, h⟩
    simp only at h
    split at h
    · rename_i hexpected
      obtain ⟨model, hread, hvalidate⟩ := Checked.bind_eq_ok.1 h
      split at hvalidate
      · rename_i validated hvalidated
        cases hvalidate
        obtain ⟨haccepts, hwir⟩ := (validateWithLimits_eq_ok model).1 hvalidated
        rw [hwir]
        exact ⟨header, payload, hparse, by simpa [Option.all_eq_true] using hexpected, hread,
          haccepts⟩
      · cases hvalidate
    · cases h
  · rintro ⟨header, payload, hparse, hexpected, hread, haccepts⟩
    refine ⟨⟨header, payload⟩, hparse, ?_⟩
    have hall : expectedBuild.all (· = header.build) = true := by
      simpa [Option.all_eq_true] using hexpected
    have hvalidated := (validateWithLimits_eq_ok wir.wir).2 ⟨haccepts, rfl⟩
    simp only
    rw [if_pos hall, Checked.bind_eq_ok]
    exact ⟨wir.wir, hread, by rw [hvalidated]⟩

/-- A written frame reads back as its header and its module, before anything is validated. -/
theorem read_of_encode (hencode : encode limits wir = .ok candidate) :
    limits.validate = .ok () ∧ candidate.bytes.length ≤ limits.frameBytes.toNat ∧
      ∃ header payload, parseHeader candidate.bytes = .ok (header, payload) ∧
        header.build = wir.wir.build ∧
        readPayload limits header.build payload = .ok wir.wir := by
  obtain ⟨hlimits, payloadBytes, sink, hframe, rfl⟩ := (encode_eq_ok limits).1 hencode
  obtain ⟨before, after, hfits, hcharge, hflow, hlength, hpayload, hpatch⟩ :=
    (frame_eq_ok limits).1 hframe
  obtain ⟨validLimits, haccepts⟩ := wir.accepts
  obtain ⟨payload, hafter, hread⟩ := emits_flowWir limits (haccepts.version_eq _) _ _ hflow
  obtain ⟨afterBytes, afterMeter⟩ := after
  simp only at hafter
  subst hafter
  rw [patchU64_headerBytes] at hpatch
  cases hpatch
  have hbound := bounded_flowWir limits wir.wir _ _ _ hflow
  simp only [length_append] at hlength hbound
  rw [Nat.add_sub_cancel_left] at hlength
  have htoNat : payloadBytes.toNat = payload.length := by
    rw [hlength, toNat_payloadLength limits (by omega)]
  have hheader := readHeader_headerBytes limits hpayload
    ((length_headerBytes payloadBytes wir.wir.build).trans_le hfits) payload
  refine ⟨hlimits, ?_, _, payload, parseHeader_eq_ok.2 ⟨_, hheader, rfl, htoNat.symm⟩, rfl, ?_⟩
  · rw [length_append, length_headerBytes]
    exact hbound
  · refine (readPayload_eq_ok limits).2 ⟨before, afterMeter, hcharge, ?_⟩
    simpa using hread []

theorem decode_of_encode (hencode : encode limits wir = .ok candidate)
    (haccepts : Accepts wir.wir (flowValidationLimits limits))
    (hexpected : ∀ expected ∈ expectedBuild, expected = wir.wir.build) :
    decode limits expectedBuild candidate.bytes = .ok wir := by
  obtain ⟨hlimits, hfits, header, payload, hparse, hbuild, hread⟩ := read_of_encode limits hencode
  exact (decode_eq_ok limits).2 ⟨hlimits, hfits, header, payload, hparse,
    fun expected hmem ↦ (hexpected expected hmem).trans hbuild.symm, hread, haccepts⟩

/-- Decoding an encoded module gives the module back, whole. -/
theorem decode_encode {wir : ValidatedFlowWir} {candidate : EncodedFlowWirCandidate}
    (hencode : encode limits wir = .ok candidate)
    (hvalid : checkWithLimits wir.wir (flowValidationLimits limits) = .ok ())
    {expectedBuild : Option BuildIdentity}
    (hexpected : ∀ expected ∈ expectedBuild, expected = wir.wir.build) :
    decode limits expectedBuild candidate.bytes = .ok wir :=
  decode_of_encode limits hencode ((checkWithLimits_eq_ok wir.wir).1 hvalid) hexpected

theorem encode_idleImage : ∃ candidate, encode .standard validatedIdleImage = .ok candidate := by
  have hok : (encode .standard validatedIdleImage).isOk = true := by decide +kernel
  cases hencode : encode .standard validatedIdleImage with
  | ok candidate => exact ⟨candidate, rfl⟩
  | error failure =>
    rw [hencode] at hok
    cases hok

theorem checkWithLimits_idleImage_codec :
    checkWithLimits idleImage (flowValidationLimits .standard) = .ok () := by
  decide +kernel

theorem decode_encode_idleImage :
    ∃ candidate, encode .standard validatedIdleImage = .ok candidate ∧
      decode .standard (some idleBuild) candidate.bytes = .ok validatedIdleImage := by
  obtain ⟨candidate, hencode⟩ := encode_idleImage
  exact ⟨candidate, hencode, decode_encode .standard hencode checkWithLimits_idleImage_codec
    (by rintro _ ⟨⟩; rfl)⟩

/-- A frame that decodes is the one the encoder writes for what was decoded. -/
theorem encode_of_decode (h : decode limits expectedBuild bytes = .ok wir) :
    ∃ header, inspectHeader bytes = .ok header ∧ header.isSupported ∧
      header.build = wir.wir.build ∧ header.payloadBytes.toNat ≤ bytes.length ∧
      encode limits wir = .ok ⟨header, bytes⟩ := by
  obtain ⟨hlimits, hfits, header, payload, hparse, -, hread, -⟩ := (decode_eq_ok limits).1 h
  obtain ⟨source, hheader, rfl, hlength⟩ := parseHeader_eq_ok.1 hparse
  obtain ⟨hsupported, hbytes⟩ := readHeader_eq_ok limits hheader hfits
  obtain ⟨before, after, hcharge, hmodel⟩ := (readPayload_eq_ok limits).1 hread
  obtain ⟨hbuild, -⟩ := flowWir_returns limits ⟨_, _, hmodel⟩
  obtain ⟨payload, hpayload, hwrite⟩ := absorbs_flowWir limits _ _ _ _ hmodel
  simp only [append_nil] at hpayload
  rw [hpayload] at hbytes hlength
  have hsame := length_headerBytes header.payloadBytes header.build
  have htotal : bytes.length = (headerBytes 0 header.build).length + payload.length := by
    rw [hbytes, length_append, hsame]
  have hroom : (headerBytes 0 header.build ++ payload).length ≤ Writer.frameLimit limits := by
    rw [length_append, ← htotal]
    exact hfits
  have hwrote := hwrite (headerBytes 0 header.build) hroom
  have hcount : header.payloadBytes = UInt64.ofNat payload.length := by
    rw [hlength, UInt64.ofNat_toNat]
  have hframe : Writer.frame limits wir.wir ⟨[], .default⟩ =
      .ok (header.payloadBytes, ⟨bytes, after⟩) := by
    refine (frame_eq_ok limits).2 ⟨before, ⟨headerBytes 0 header.build ++ payload, after⟩, ?_, ?_,
      ?_, ?_, hsupported.2.2, ?_⟩
    · rw [hbuild]
      rw [length_append] at hroom
      omega
    · rw [hbuild]
      exact hcharge
    · rw [hbuild]
      exact hwrote
    · rw [hbuild, length_append, Nat.add_sub_cancel_left]
      exact hcount
    · rw [patchU64_headerBytes, hbytes]
  have hinspect : inspectHeader bytes = .ok header := by
    rw [inspectHeader, hparse]
    rfl
  refine ⟨header, hinspect, hsupported, hbuild.symm, by omega, ?_⟩
  refine (encode_eq_ok limits).2 ⟨hlimits, header.payloadBytes, _, hframe, ?_⟩
  obtain ⟨hwire, hversion, -⟩ := hsupported
  rw [← hwire, ← hversion, hbuild]

theorem validateCandidate_of_decode (h : decode limits expectedBuild bytes = .ok wir)
    (hencode : encode limits wir = .ok ⟨header, bytes⟩) :
    validateCandidate limits ⟨header, bytes⟩ wir = .ok () := by
  obtain ⟨decodedHeader, -, hsupported, hbuild, hpayload, hagain⟩ := encode_of_decode limits h
  rw [hencode] at hagain
  cases hagain
  obtain ⟨-, hfits, parsed, payload, hparse, -, -, -⟩ := (decode_eq_ok limits).1 h
  have hmagic : flowWirMagic.isPrefixOf bytes = true := by
    obtain ⟨source, hheader, -, -⟩ := parseHeader_eq_ok.1 hparse
    obtain ⟨-, hbytes⟩ := readHeader_eq_ok limits hheader hfits
    rw [ isPrefixOf_iff_prefix, hbytes, headerBytes, openingBytes]
    simp
  obtain ⟨hwire, hversion, hne⟩ := hsupported
  rw [validateCandidate, enforce_eq_ok.2 hfits]
  simp [hmagic, hwire, hversion, hbuild, hne, hpayload]

theorem all_build_eq (h : decode limits expectedBuild bytes = .ok wir) :
    expectedBuild.all (· = wir.wir.build) = true := by
  obtain ⟨header, hinspect, -, hbuild, -, -⟩ := encode_of_decode limits h
  obtain ⟨-, -, parsed, payload, hparse, hexpected, -, -⟩ := (decode_eq_ok limits).1 h
  rw [Option.all_eq_true]
  intro expected hmem
  rw [inspectHeader, hparse] at hinspect
  cases hinspect
  exact decide_eq_true ((hexpected expected hmem).trans hbuild)

theorem decodeAndVerify_of_decode (h : decode limits expectedBuild bytes = .ok wir) :
    decodeAndVerify limits expectedBuild bytes = .ok wir := by
  obtain ⟨header, hinspect, -, -, -, hencode⟩ := encode_of_decode limits h
  obtain ⟨hlimits, hfits, -⟩ := (decode_eq_ok limits).1 h
  rw [decodeAndVerify, hlimits, enforce_eq_ok.2 hfits, hinspect, h]
  simp only [Checked.ok_bind]
  rw [if_pos (all_build_eq limits h), hencode]
  simp only [Checked.ok_bind]
  rw [validateCandidate_of_decode limits h hencode]
  simp

/-- Decoding is injective, and sealing a decoded frame always succeeds. -/
theorem decode_canonical {expectedBuild : Option BuildIdentity} {bytes : List UInt8}
    {wir : ValidatedFlowWir} (h : decode limits expectedBuild bytes = .ok wir) :
    (∃ header, encode limits wir = .ok ⟨header, bytes⟩) ∧
      (∀ otherBuild otherBytes, decode limits otherBuild otherBytes = .ok wir →
        otherBytes = bytes) ∧
      decodeAndVerify limits expectedBuild bytes = .ok wir := by
  obtain ⟨header, -, -, -, -, hencode⟩ := encode_of_decode limits h
  refine ⟨⟨header, hencode⟩, fun otherBuild otherBytes hother ↦ ?_,
    decodeAndVerify_of_decode limits h⟩
  obtain ⟨otherHeader, -, -, -, -, hagain⟩ := encode_of_decode limits hother
  rw [hencode] at hagain
  cases hagain
  rfl

theorem decode_canonical_idleImage :
    ∃ bytes, decode .standard none bytes = .ok validatedIdleImage ∧
      decodeAndVerify .standard none bytes = .ok validatedIdleImage := by
  obtain ⟨candidate, hencode⟩ := encode_idleImage
  have hdecode := decode_of_encode .standard hencode
    ((checkWithLimits_eq_ok idleImage).1 checkWithLimits_idleImage_codec)
    (show ∀ expected ∈ none, expected = idleBuild by simp)
  exact ⟨candidate.bytes, hdecode, (decode_canonical .standard hdecode).2.2⟩

theorem decode_of_decodeAndVerify (h : decodeAndVerify limits expectedBuild bytes = .ok wir) :
    decode limits expectedBuild bytes = .ok wir := by
  iterate 2 obtain ⟨-, h⟩ := Checked.unit_bind_eq_ok.1 h
  obtain ⟨inspected, -, h⟩ := Checked.bind_eq_ok.1 h
  obtain ⟨decoded, hdecode, h⟩ := Checked.bind_eq_ok.1 h
  split at h
  · obtain ⟨canonical, -, h⟩ := Checked.bind_eq_ok.1 h
    obtain ⟨-, h⟩ := Checked.unit_bind_eq_ok.1 h
    split at h
    · cases h
      exact hdecode
    · cases h
  · cases h

/-- A frame that decodes to a module is the frame the module is sealed as. -/
theorem encodeAndVerify_of_decode (h : decode limits (some wir.wir.build) bytes = .ok wir) :
    ∃ header, encodeAndVerify limits wir = .ok ⟨header, bytes⟩ := by
  obtain ⟨header, hinspect, -, -, -, hencode⟩ := encode_of_decode limits h
  obtain ⟨hlimits, -⟩ := (decode_eq_ok limits).1 h
  have hcandidate := validateCandidate_of_decode limits h hencode
  refine ⟨header, ?_⟩
  rw [encodeAndVerify, hlimits, hencode]
  simp only [Checked.ok_bind, hcandidate, hinspect, ne_eq, not_true_eq_false, if_false, h, hencode]

end Wrela.FlowCodec
