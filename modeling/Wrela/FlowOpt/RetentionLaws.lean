import Wrela.FlowOpt.RemovalLaws

/-!
# Which retained proofs are reported

The report of a successful run lists the proofs of all instructions that were retained just when no
operation of the kinds it does not list is in a reached block.
-/

namespace Wrela.FlowOpt

open List Wrela.Source Wrela.BuildModel Wrela.Flow Wrela.Validation Wrela.Checked Wrela.Ranking

theorem toList_instructionSubject (function : FunctionId) (instruction : InstructionId) :
    (instructionSubject function instruction).toList =
      'f' :: (Nat.toDigits 10 function.index ++
        ':' :: 'i' :: Nat.toDigits 10 instruction.index) := by
  simp [instructionSubject, subject, Id.index]

theorem toDigits_injective (h : Nat.toDigits 10 left = Nat.toDigits 10 right) : left = right := by
  have hvalues := congrArg (fun digits ↦ Nat.ofDigitChars 10 digits 0) h
  simpa using hvalues

/-- The subject of a decision names one function and one of its instructions. -/
theorem instructionSubject_injective
    (h : instructionSubject function instruction = instructionSubject other otherInstruction) :
    function.index = other.index ∧ instruction.index = otherInstruction.index := by
  have hcolon (value : ℕ) : ':' ∉ Nat.toDigits 10 value := fun hmem ↦
    absurd (Nat.isDigit_of_mem_toDigits (by decide) (by decide) hmem) (by decide)
  have hlists := congrArg String.toList h
  rw [toList_instructionSubject, toList_instructionSubject, cons_inj_right] at hlists
  have hrest : ':' ∉ 'i' :: Nat.toDigits 10 instruction.index :=
    not_mem_cons_of_ne_of_not_mem (by decide) (hcolon _)
  obtain ⟨hfunction, -, hinstruction⟩ := (append_cons_inj_of_notMem (hcolon _) hrest).1 hlists
  exact ⟨toDigits_injective hfunction, toDigits_injective (cons_inj_right _ |>.1 hinstruction)⟩

/-- A decision in the report lists every proof of a retained instruction. -/
def RetentionReported (decisions : List OptimizationDecision) (function : FunctionId)
    (instruction : Instruction) : Prop :=
  ∃ decision ∈ decisions, decision.kind = .retained ∧
    decision.subject = instructionSubject function instruction.id ∧
    ∀ proof ∈ carriedProofs instruction.operation, proof ∈ decision.reliedOn

variable {functions : List FlowFunction} {function : FlowFunction}

/-- In a module with dense identifiers a subject belongs to one instruction. -/
theorem operation_of_subject (hids : (functions.map (·.id.index)).Nodup)
    (hdense : ∀ function ∈ functions, InstructionsDense function) (hfunction : function ∈ functions)
    (hinstruction : instruction ∈ functionInstructions function)
    (hitem : item ∈ functions.flatMap functionItems)
    (h : instructionSubject function.id instruction.id = instructionSubject item.1 item.2.id) :
    item.2 = instruction := by
  obtain ⟨other, hother, hitem⟩ := mem_flatMap.1 hitem
  obtain ⟨otherInstruction, hmem, rfl⟩ := mem_map.1 hitem
  obtain ⟨hfunctions, hinstructions⟩ := instructionSubject_injective h
  obtain rfl : function = other := inj_on_of_nodup_map hids hfunction hother hfunctions
  exact ((hdense function hfunction).eq_of_index_eq hinstruction hmem hinstructions).symm

theorem retentionReported_iff (hids : (functions.map (·.id.index)).Nodup)
    (hdense : ∀ function ∈ functions, InstructionsDense function)
    (hbefore : ∀ decision ∈ before, decision.kind ≠ .retained)
    (hrecords : Records (functions.flatMap functionItems) added) :
    (∀ function ∈ functions, ∀ instruction ∈ proofCarriers function,
      RetentionReported (before ++ added) function.id instruction) ↔
        ∀ function ∈ functions, ¬ HasUnlisted (functionInstructions function) := by
  constructor
  · rintro hreported function hfunction ⟨instruction, hmem, hunlisted⟩
    obtain ⟨hnone, hcarried⟩ := unlisted_omits hunlisted
    have hcarrier : instruction ∈ proofCarriers function :=
      mem_filter.2 ⟨hmem, by simpa using hcarried⟩
    obtain ⟨decision, hdecision, hkind, hsubject, hproofs⟩ :=
      hreported function hfunction instruction hcarrier
    have hadded : decision ∈ added := (mem_append.1 hdecision).resolve_left
      fun hbefore' ↦ hbefore decision hbefore' hkind
    obtain ⟨item, hitem, habout, hrelied⟩ := hrecords.about decision hadded hkind
    obtain rfl := operation_of_subject hids hdense hfunction hmem hitem (hsubject.symm.trans habout)
    obtain ⟨proof, hproof⟩ := exists_mem_of_ne_nil _ hcarried
    have hlisted := hproofs proof hproof
    rw [hrelied, hnone] at hlisted
    cases hlisted
  · intro hlisted function hfunction instruction hcarrier
    obtain ⟨hmem, hcarried⟩ := mem_filter.1 hcarrier
    have hunlisted : isUnlisted instruction.operation = false :=
      Bool.eq_false_iff.2 fun hunlisted ↦ hlisted function hfunction ⟨instruction, hmem, hunlisted⟩
    rw [carriedProofs_of_listed hunlisted] at hcarried
    cases hproof : listedProof instruction.operation with
    | none =>
      rw [hproof] at hcarried
      cases hcarried
    | some proof =>
      obtain ⟨decision, hdecision, hkind, hsubject, hrelied⟩ := hrecords.listed
        (function.id, instruction)
        (mem_flatMap.2 ⟨function, hfunction, mem_map_of_mem hmem⟩) proof hproof
      refine ⟨decision, mem_append_right _ hdecision, hkind, hsubject, ?_⟩
      rw [carriedProofs_of_listed hunlisted, hproof, hrelied]
      exact fun _ h ↦ h

/-- The folded module with which a run enters the removals, and the module with which it enters the
last one. -/
def ReachesLastPass (request : OptimizationRequest) (folded pruned : Passed) : Prop :=
  ∃ input sink, scanModel request.limits request.input.wir 0 = .ok input ∧
    DecisionSink.new request.profile request.limits = .ok sink ∧
    foldPasses request.profile request.limits request.input.wir.tests
      { request.input.wir with tests := [] } sink input.resources.instructions = .ok folded ∧
    pruneUnreachable request.profile request.limits request.input.wir.tests folded
      input.resources.instructions = .ok pruned

section Stages

variable {profile : OptimizationProfile} {limits : OptimizationLimits} {tests : List TestEntry}

theorem removalPass_eq_ok {pass : String}
    {eliminate : FlowWir → DecisionSink → Except OptimizeError (FlowWir × Progress)}
    {passed next : Passed} {before : ℕ}
    (h : removalPass profile limits tests pass eliminate passed before = .ok next) :
    ∃ progress, eliminate passed.wir passed.sink = .ok (next.wir, progress) ∧
      next.sink = progress.1 := by
  obtain ⟨⟨wir, sink, changed⟩, heliminate, h⟩ := bind_eq_ok.1 h
  obtain ⟨_, -, h⟩ := bind_eq_ok.1 h
  cases h
  exact ⟨_, heliminate, rfl⟩

theorem foldPasses_mirror (hnone : NoneRetained sink)
    (h : foldPasses profile limits tests wir sink instructions = .ok folded) :
    List.Forall₂ Mirrors wir.functions folded.wir.functions ∧ NoneRetained folded.sink := by
  obtain ⟨⟨middle, totals⟩, hfold, h⟩ := bind_eq_ok.1 h
  obtain ⟨_, -, h⟩ := bind_eq_ok.1 h
  obtain ⟨⟨simplified, progress⟩, hsimplify, h⟩ := bind_eq_ok.1 h
  obtain ⟨_, -, h⟩ := bind_eq_ok.1 h
  cases h
  obtain ⟨hmirrors, hmiddle⟩ := foldScalarConstants_mirrors hnone hfold
  obtain ⟨hnext, hlast⟩ := simplifyConstantControlFlow_mirrors hmiddle hsimplify
  exact ⟨forall₂_trans hmirrors hnext Mirrors.trans, hlast⟩

theorem pruneUnreachable_prunes
    (hdense : ∀ function ∈ folded.wir.functions, InstructionsDense function)
    (hnone : NoneRetained folded.sink)
    (h : pruneUnreachable profile limits tests folded instructions = .ok pruned) :
    List.Forall₂ (Prunes limits) folded.wir.functions pruned.wir.functions ∧
      NoneRetained pruned.sink := by
  obtain ⟨reached, hreached, h⟩ := bind_eq_ok.1 h
  obtain ⟨progress, heliminate, hsink⟩ := removalPass_eq_ok hreached
  obtain ⟨hprunes, hmiddle⟩ := eliminateUnreachableBlocks_prune hdense hnone heliminate
  rw [← hsink] at hmiddle
  split at h
  · obtain ⟨last, hchecks, hlast⟩ := removalPass_eq_ok h
    obtain ⟨hkeeps, hfinal⟩ := eliminateProvenTrueChecks_keeps
      (forall_right_of_forall₂ hprunes hdense fun _ h ↦ h.dense) hmiddle hchecks
    exact ⟨forall₂_trans hprunes hkeeps Prunes.keeps, hlast ▸ hfinal⟩
  · cases h
    exact ⟨hprunes, hmiddle⟩

end Stages

theorem instructionsDense_of_accepted (h : ModuleAccepted wir)
    (hfunction : function ∈ wir.functions) :
    InstructionsDense function := by
  have hdense := (h.functions function hfunction).instructionsDense
  rw [← map_flatMap] at hdense
  exact map_index_of_dense hdense

/-- What is known when a run enters the last pass. -/
theorem ReachesLastPass.stages (h : ReachesLastPass request folded pruned) :
    List.Forall₂ Mirrors request.input.wir.functions folded.wir.functions ∧
      List.Forall₂ (Prunes request.limits) folded.wir.functions pruned.wir.functions ∧
      NoneRetained pruned.sink := by
  obtain ⟨input, sink, -, hsink, hfolded, hpruned⟩ := h
  have hstart : NoneRetained sink := by
    iterate 2 obtain ⟨_, -, hsink⟩ := bind_eq_ok.1 hsink
    cases hsink
    exact fun _ hdecision ↦ absurd hdecision not_mem_nil
  obtain ⟨limits, haccepts⟩ := request.input.accepts
  obtain ⟨hmirrors, hmiddle⟩ := foldPasses_mirror hstart hfolded
  have hdense := forall_right_of_forall₂ hmirrors
    (fun _ hfunction ↦ instructionsDense_of_accepted haccepts.accepted hfunction)
    fun hdense hmirrors ↦ hmirrors.dense hdense
  obtain ⟨hprunes, hlast⟩ := pruneUnreachable_prunes hdense hmiddle hpruned
  exact ⟨hmirrors, hprunes, hlast⟩

/-- A successful run hands on what the last pass made of the module and of the decisions. -/
theorem optimize_eq_ok (h : optimize request = .ok result) :
    ∃ folded pruned last progress, ReachesLastPass request folded pruned ∧
      eliminateDeadPureInstructions request.limits pruned.wir pruned.sink = .ok (last, progress) ∧
      result.wir.wir.functions = last.functions ∧
      result.report.decisions = progress.1.decisions := by
  iterate 2 obtain ⟨_, -, h⟩ := bind_eq_ok.1 h
  obtain ⟨input, hinput, h⟩ := bind_eq_ok.1 h
  obtain ⟨⟨output, report⟩, hpipeline, h⟩ := bind_eq_ok.1 h
  obtain ⟨scanned, -, h⟩ := bind_eq_ok.1 h
  iterate 3 obtain ⟨_, -, h⟩ := bind_eq_ok.1 h
  obtain ⟨wir, hwir, h⟩ := bind_eq_ok.1 h
  cases h
  rw [mapError_eq_ok] at hwir
  obtain ⟨-, hwir⟩ := (validateWithLimits_eq_ok _).1 hwir
  iterate 2 obtain ⟨_, -, hpipeline⟩ := bind_eq_ok.1 hpipeline
  obtain ⟨sink, hsink, hpipeline⟩ := bind_eq_ok.1 hpipeline
  iterate 2 obtain ⟨_, -, hpipeline⟩ := bind_eq_ok.1 hpipeline
  obtain ⟨folded, hfolded, hpipeline⟩ := bind_eq_ok.1 hpipeline
  obtain ⟨pruned, hpruned, hpipeline⟩ := bind_eq_ok.1 hpipeline
  obtain ⟨final, hfinal, hpipeline⟩ := bind_eq_ok.1 hpipeline
  cases hpipeline
  obtain ⟨progress, heliminate, hfinalSink⟩ := removalPass_eq_ok hfinal
  refine ⟨folded, pruned, final.wir, progress, ⟨input, sink, hinput, hsink, hfolded, hpruned⟩,
    heliminate, ?_, ?_⟩
  · rw [hwir]
  · rw [hfinalSink]

/-- No block with unlisted proofs is reached in the folded function. -/
def CutOff (limits : OptimizationLimits) (function folded : FlowFunction) : Prop :=
  ∀ reachable, reachableBlocks folded limits = .ok reachable →
    ∀ block ∈ kept reachable function.blocks, ¬ HasUnlisted block.1.instructions

theorem cutOff_iff (hmirrors : Mirrors function folded) (hprunes : Prunes limits folded pruned) :
    CutOff limits function folded ↔ ¬ HasUnlisted (functionInstructions pruned) := by
  obtain ⟨reachable, hreachable, hunlisted⟩ := hprunes.unlisted
  have hsame : (∃ block ∈ kept reachable folded.blocks, HasUnlisted block.1.instructions) ↔
      ∃ block ∈ kept reachable function.blocks, HasUnlisted block.1.instructions :=
    exists_mem_iff_of_forall₂ (forall₂_kept reachable hmirrors.blocks) fun hblock ↦
      hasUnlisted_of_forall₂ (hblock.1.imp fun {_ _} h ↦ h.2)
  rw [hunlisted, hsame]
  constructor
  · rintro hcut ⟨block, hblock, hmem⟩
    exact hcut reachable hreachable block hblock hmem
  · intro hnone other hother block hblock hmem
    obtain rfl : reachable = other := Except.ok.inj (hreachable.symm.trans hother)
    exact hnone ⟨block, hblock, hmem⟩

theorem forall₂_cutOff_iff (hmirrors : List.Forall₂ Mirrors functions folded)
    (hprunes : List.Forall₂ (Prunes limits) folded pruned) :
    List.Forall₂ (CutOff limits) functions folded ↔
      ∀ function ∈ pruned, ¬ HasUnlisted (functionInstructions function) := by
  induction hmirrors generalizing pruned with
  | nil =>
    obtain rfl := List.forall₂_nil_left_iff.1 hprunes
    simp
  | cons hhead _ ih =>
    obtain ⟨_, _, hprune, hrest, rfl⟩ := List.forall₂_cons_left_iff.1 hprunes
    rw [List.forall₂_cons, forall_mem_cons, cutOff_iff hhead hprune, ih hrest]

/-- Every instruction with proofs is retained, and the report lists the proofs of all of them just
when the blocks with operations of the unlisted kinds are cut off by folding. -/
theorem proofRetention_complete_iff {request : OptimizationRequest} {result : OptimizedFlowWir}
    (h : optimize request = .ok result) :
    ∃ folded pruned, ReachesLastPass request folded pruned ∧
      List.Forall₂ KeepsCarriers pruned.wir.functions result.wir.wir.functions ∧
      ((∀ function ∈ pruned.wir.functions, ∀ instruction ∈ proofCarriers function,
          RetentionReported result.report.decisions function.id instruction) ↔
        List.Forall₂ (CutOff request.limits) request.input.wir.functions folded.wir.functions) := by
  obtain ⟨folded, pruned, last, progress, hreach, hlast, hfunctions, hdecisions⟩ := optimize_eq_ok h
  obtain ⟨hmirrors, hprunes, hnone⟩ := hreach.stages
  have hdense : ∀ function ∈ pruned.wir.functions, InstructionsDense function :=
    forall_right_of_forall₂ hprunes (p := fun _ ↦ True) (fun _ _ ↦ trivial) fun _ h ↦ h.dense
  obtain ⟨hkeeps, added, hadded, hrecords⟩ := eliminateDeadPureInstructions_records hdense hlast
  refine ⟨folded, pruned, hreach, hfunctions ▸ hkeeps, ?_⟩
  rw [hdecisions, hadded, forall₂_cutOff_iff hmirrors hprunes]
  refine retentionReported_iff ?_ hdense hnone hrecords
  obtain ⟨limits, haccepts⟩ := request.input.accepts
  have hids : pruned.wir.functions.map FlowFunction.id =
      request.input.wir.functions.map FlowFunction.id :=
    map_eq_map_of_forall₂ (forall₂_trans hmirrors hprunes fun hmirrors hprunes ↦
      hprunes.id.trans hmirrors.id)
  have hindices := congrArg (List.map Id.index) hids
  rw [map_map, map_map] at hindices
  have hrange := map_index_of_dense haccepts.accepted.functionsDense
  exact (hindices.trans hrange) ▸ nodup_range

/-- An image whose entry reads the one element of an array by its index. -/
def indexedImage : FlowWir :=
  { idleImage with
    name := "indexed"
    types := [⟨⟨0⟩, u64Kind, none, true, false⟩, ⟨⟨1⟩, .array ⟨0⟩ 1, none, true, false⟩]
    functions :=
      [{ id := ⟨0⟩, name := "entry", origin := .generatedImageEntry 0 0, role := .imageEntry,
         color := .sync, parameters := [], resultTypes := [],
         values := [⟨⟨0⟩, ⟨0⟩, none, none⟩, ⟨⟨1⟩, ⟨1⟩, none, none⟩, ⟨⟨2⟩, ⟨0⟩, none, none⟩],
         blocks :=
           [⟨⟨0⟩, [],
              [⟨⟨0⟩, [⟨0⟩], .immediate (.zero ⟨0⟩), none⟩,
                ⟨⟨1⟩, [⟨1⟩], .makeAggregate ⟨1⟩ [⟨0⟩], none⟩,
                ⟨⟨2⟩, [⟨2⟩], .extractIndex ⟨1⟩ ⟨0⟩ ⟨0⟩, none⟩],
              .return [], none⟩],
         entry := ⟨0⟩, stackBound := 0, frameBound := 0, proofs := [⟨0⟩], source := none }]
    proofs := [guardProof 0 .capacityBound "inline fixed-array iteration" [] (some 1)] }

theorem checkWithLimits_indexedImage :
    checkWithLimits indexedImage (flowValidationLimits .standard) = .ok () := by
  decide +kernel

def indexedRequest : OptimizationRequest where
  input := ⟨indexedImage, _, checkWithLimits_indexedImage⟩
  profile :=
    { level := .development
      pipeline := ⟨canonicalPipelineName, canonicalPipelineRevision,
        ⟨1 :: List.replicate 31 0, rfl⟩⟩
      verifyAfterEachPass := true
      maximumIterations := 8
      maximumIrGrowthPercent := 25 }
  limits := .standard

/-- The read is retained and reported, but without the proof it relies on. -/
def indexedDecision : OptimizationDecision where
  pass := deadPurePass
  subject := "f0:i2"
  kind := .retained
  justification := observableJustification
  reliedOn := []

theorem optimize_indexedRequest :
    (optimize indexedRequest).map (fun result ↦ (result.wir.wir, result.report.decisions)) =
      .ok (indexedImage, [indexedDecision]) := by
  decide +kernel

theorem proofRetention_incomplete_indexed :
    ∃ result, optimize indexedRequest = .ok result ∧
      ∃ function ∈ result.wir.wir.functions, ∃ instruction ∈ functionInstructions function,
        ∃ proof ∈ carriedProofs instruction.operation,
          ∀ decision ∈ result.report.decisions, proof ∉ decision.reliedOn := by
  obtain ⟨result, hresult, hparts⟩ := map_eq_ok.1 optimize_indexedRequest
  obtain ⟨hwir, hdecisions⟩ := Prod.mk.inj hparts
  refine ⟨result, hresult, ?_⟩
  rw [hwir, hdecisions]
  exact ⟨_, mem_singleton_self _, ⟨⟨2⟩, [⟨2⟩], .extractIndex ⟨1⟩ ⟨0⟩ ⟨0⟩, none⟩, by decide, ⟨0⟩,
    by decide, by decide⟩

theorem proofRetention_complete_iff_indexed :
    ∃ result, optimize indexedRequest = .ok result ∧
      ∃ folded pruned, ReachesLastPass indexedRequest folded pruned ∧
        ((∀ function ∈ pruned.wir.functions, ∀ instruction ∈ proofCarriers function,
            RetentionReported result.report.decisions function.id instruction) ↔
          List.Forall₂ (CutOff .standard) indexedImage.functions folded.wir.functions) := by
  obtain ⟨result, hresult, -⟩ := map_eq_ok.1 optimize_indexedRequest
  obtain ⟨folded, pruned, hreach, -, hreported⟩ := proofRetention_complete_iff hresult
  exact ⟨result, hresult, folded, pruned, hreach, hreported⟩

end Wrela.FlowOpt
