import Wrela.Validation.ClosureLaws

/-!
# The activation contract

In an accepted module every activation is made by one asynchronous call and consumed by the suspend
right after it, every activation plan stands for one such call, and the suspends of a function are
numbered without gaps.
-/

namespace Wrela.Validation

open List Wrela.Flow

variable {module : FlowWir} {function : FlowFunction}

def instructionsOf (function : FlowFunction) : List Instruction :=
  function.blocks.flatMap Block.instructions

/-- What happens to an activation value: one asynchronous call makes it, the suspend that ends the
same block consumes it, and nothing else mentions it. -/
structure Delivered (function : FlowFunction) (value : ValueId) : Prop where
  awaited : ∃ block ∈ function.blocks, ∃ instruction callee arguments plan state resume,
    block.instructions.getLast? = some instruction ∧ instruction.results = [value] ∧
      instruction.operation = .asyncCall callee arguments plan ∧
      block.terminator = .suspend state value resume
  producedOnce : (instructionsOf function).countP (·.results.contains value) = 1
  consumedOnce : function.blocks.countP (suspendedActivation · == some value) = 1
  notParameter : value ∉ function.parameters ∧ ∀ block ∈ function.blocks, value ∉ block.parameters
  notOperand : ∀ instruction ∈ instructionsOf function, value ∉ instruction.operation.values
  notPassed : ∀ block ∈ function.blocks, suspendedActivation block = none →
    value ∉ block.terminator.values

theorem isAsyncCall_iff :
    isAsyncCall operation = true ↔
      ∃ callee arguments plan, operation = .asyncCall callee arguments plan := by
  cases operation <;> simp [isAsyncCall]

/-- The checks of the activation contract, one by one. -/
structure ActivationContract (module : FlowWir) (function : FlowFunction) : Prop where
  parameters : ∀ parameter ∈ function.parameters,
    isActivationValue module function parameter = false
  blocks : ∀ block ∈ function.blocks, validateActivationBlock module function block = []
  states : validateSuspendStates function = []
  delivery : validateActivationDelivery module function = []

theorem FunctionAccepted.contract (h : FunctionAccepted module function) :
    ActivationContract module function := by
  have hcontract := h.activationContract
  simp only [validateActivationContract, append_eq_nil_iff, flatMap_eq_nil_iff,
    reportIf_eq_nil] at hcontract
  exact ⟨hcontract.1.1.1, hcontract.1.1.2, hcontract.1.2, hcontract.2⟩

namespace ActivationContract

variable (h : ActivationContract module function)

include h

variable {block : Block} {value : ValueId}

theorem blockParameters (hblock : block ∈ function.blocks) :
    ∀ parameter ∈ block.parameters, isActivationValue module function parameter = false := by
  have hchecks := h.blocks block hblock
  simp only [validateActivationBlock, append_eq_nil_iff, flatMap_eq_nil_iff,
    reportIf_eq_nil] at hchecks
  exact hchecks.1.1

theorem instruction (hblock : block ∈ function.blocks) {index : ℕ}
    {instruction : Instruction} (hinstruction : block.instructions[index]? = some instruction) :
    validateActivationInstruction module function block index instruction = [] := by
  have hchecks := h.blocks block hblock
  simp only [validateActivationBlock, append_eq_nil_iff, flatMap_eq_nil_iff] at hchecks
  exact hchecks.1.2 (instruction, index) (mem_zipIdx_iff_getElem?.2 hinstruction)

theorem terminator (hblock : block ∈ function.blocks) :
    validateActivationTerminator module function block = [] := by
  have hchecks := h.blocks block hblock
  simp only [validateActivationBlock, append_eq_nil_iff] at hchecks
  exact hchecks.2

/-- An instruction that makes an activation is an asynchronous call with this one result. -/
theorem activationDefinitions_eq {instruction : Instruction}
    (hinstruction : instruction ∈ instructionsOf function)
    (hvalue : isActivationValue module function value = true) :
    (activationDefinitions module function instruction).count value =
      if instruction.results.contains value then 1 else 0 := by
  obtain ⟨block, hblock, hmem⟩ := mem_flatMap.1 hinstruction
  obtain ⟨index, hindex⟩ := mem_iff_getElem?.1 hmem
  have hchecks := h.instruction hblock hindex
  simp only [validateActivationInstruction, append_eq_nil_iff, flatMap_eq_nil_iff,
    reportIf_eq_nil] at hchecks
  by_cases hresult : value ∈ instruction.results
  · have hproper := hchecks.1.1 value hresult
    rw [hvalue, Bool.true_and, Bool.not_eq_false', Bool.and_eq_true, beq_iff_eq,
      length_eq_one_iff] at hproper
    obtain ⟨hasync, result, hresults⟩ := hproper
    obtain rfl : value = result := by simpa [hresults] using hresult
    simp [activationDefinitions, hresults, hasync, hvalue]
  · have hnone : value ∉ activationDefinitions module function instruction := by
      intro hdefined
      unfold activationDefinitions at hdefined
      split at hdefined
      · rename_i result hresults
        split at hdefined
        · exact hresult (hresults ▸ hdefined)
        · cases hdefined
      · cases hdefined
    simp [count_eq_zero_of_not_mem hnone, hresult]

/-- The counts of the delivery check are those of the instructions and the blocks. -/
theorem counts (hdense : checkDense "value" (function.values.map (·.id.val)) = [])
    (hvalue : isActivationValue module function value = true) :
    (instructionsOf function).countP (·.results.contains value) = 1 ∧
      function.blocks.countP (suspendedActivation · == some value) = 1 := by
  have hrecord := hvalue
  simp only [isActivationValue, valueRecord, Option.any_eq_true, Option.bind_eq_some_iff] at hrecord
  obtain ⟨-, ⟨record, hlookup, -⟩, -⟩ := hrecord
  obtain rfl : record.id = value := id_of_lookup hdense hlookup
  have hdelivery := h.delivery
  simp only [validateActivationDelivery, flatMap_eq_nil_iff, reportIf_eq_nil] at hdelivery
  have hcounts := hdelivery record (mem_of_getElem? hlookup)
  simp only [hvalue, Bool.true_and, Bool.not_eq_false', Bool.and_eq_true, beq_iff_eq] at hcounts
  obtain ⟨⟨-, hdefined⟩, hsuspended⟩ := hcounts
  refine ⟨?_, by rw [← hsuspended, count_filterMap]⟩
  rw [← hdefined, ← flatMap_assoc, count_flatMap]
  have hsum : ∀ instructions ⊆ instructionsOf function,
      instructions.countP (·.results.contains record.id) =
        (instructions.map (List.count record.id ∘ activationDefinitions module function)).sum := by
    intro instructions hsubset
    induction instructions with
    | nil => rfl
    | cons first rest ih =>
      obtain ⟨hfirst, hrest⟩ := cons_subset.1 hsubset
      rw [countP_cons, map_cons, sum_cons, ih hrest, Function.comp_apply,
        h.activationDefinitions_eq hfirst hvalue, Nat.add_comm]
  exact hsum _ (List.Subset.refl _)

theorem not_mem_operands {instruction : Instruction}
    (hinstruction : instruction ∈ instructionsOf function)
    (hvalue : isActivationValue module function value = true) :
    value ∉ instruction.operation.values := by
  obtain ⟨block, hblock, hmem⟩ := mem_flatMap.1 hinstruction
  obtain ⟨index, hindex⟩ := mem_iff_getElem?.1 hmem
  have hchecks := h.instruction hblock hindex
  simp only [validateActivationInstruction, append_eq_nil_iff] at hchecks
  have hnone : instruction.operation.values.find? (isActivationValue module function) = none := by
    have hoperands := hchecks.1.2
    cases hfind : instruction.operation.values.find? (isActivationValue module function) with
    | none => rfl
    | some operand =>
      rw [hfind] at hoperands
      cases hoperands
  exact fun hoperand ↦ List.find?_eq_none.1 hnone value hoperand hvalue

/-- A block that suspends ends in the asynchronous call it suspends on. -/
theorem awaited (hblock : block ∈ function.blocks)
    (hsuspends : suspendedActivation block = some value) :
    ∃ instruction callee arguments plan state resume,
      block.instructions.getLast? = some instruction ∧ instruction.results = [value] ∧
        instruction.operation = .asyncCall callee arguments plan ∧
        block.terminator = .suspend state value resume := by
  have hchecks := h.terminator hblock
  unfold suspendedActivation at hsuspends
  unfold validateActivationTerminator at hchecks
  split at hsuspends
  · rename_i state activation resume hterminator
    cases hsuspends
    simp only [hterminator, reportIf_eq_nil, Bool.not_eq_false', Option.any_eq_true,
      Bool.and_eq_true, beq_iff_eq, isAsyncCall_iff] at hchecks
    obtain ⟨instruction, hlast, ⟨callee, arguments, plan, hoperation⟩, hresults⟩ := hchecks
    exact ⟨instruction, callee, arguments, plan, state, resume, hlast, hresults, hoperation,
      hterminator⟩
  · cases hsuspends

theorem not_mem_terminator (hblock : block ∈ function.blocks)
    (hvalue : isActivationValue module function value = true)
    (hsuspends : suspendedActivation block = none) : value ∉ block.terminator.values := by
  have hchecks := h.terminator hblock
  unfold suspendedActivation at hsuspends
  unfold validateActivationTerminator at hchecks
  split at hsuspends
  · cases hsuspends
  · rename_i hterminator
    have hnone : block.terminator.values.find? (isActivationValue module function) = none := by
      split at hchecks
      · rename_i hterminator'
        exact absurd hterminator' (hterminator _ _ _)
      · cases hfind : block.terminator.values.find? (isActivationValue module function) with
        | none => rfl
        | some operand =>
          rw [hfind] at hchecks
          cases hchecks
    exact fun hoperand ↦ List.find?_eq_none.1 hnone value hoperand hvalue

theorem delivered (hdense : checkDense "value" (function.values.map (·.id.val)) = [])
    (hvalue : isActivationValue module function value = true) :
    Delivered function value := by
  obtain ⟨hproduced, hconsumed⟩ := h.counts hdense hvalue
  obtain ⟨block, hblock, hsuspends⟩ := countP_pos_iff.1 (hconsumed ▸ Nat.one_pos)
  refine ⟨⟨block, hblock, h.awaited hblock (beq_iff_eq.1 hsuspends)⟩, hproduced, hconsumed,
    ⟨fun hmem ↦ ?_, fun block hblock hmem ↦ ?_⟩, fun _ hmem ↦ h.not_mem_operands hmem hvalue,
    fun _ hblock hsuspends ↦ h.not_mem_terminator hblock hvalue hsuspends⟩
  · rw [h.parameters value hmem] at hvalue
    cases hvalue
  · rw [h.blockParameters hblock value hmem] at hvalue
    cases hvalue

/-- The states of the suspends are `0, 1, …` in some order. -/
theorem states_perm :
    ((function.blocks.filterMap suspendState).map UInt32.toNat).Perm
      (List.range (function.blocks.countP fun block ↦ (suspendState block).isSome)) := by
  have hsorted : ((function.blocks.filterMap suspendState).insertionSort (· ≤ ·)).map UInt32.toNat =
      List.range (function.blocks.countP fun block ↦ (suspendState block).isSome) := by
    have hstates := h.states
    simp only [validateSuspendStates, flatMap_eq_nil_iff, reportIf_eq_nil,
      bne_eq_false_iff_eq] at hstates
    have hlength : ((function.blocks.filterMap suspendState).insertionSort (· ≤ ·)).length =
        function.blocks.countP fun block ↦ (suspendState block).isSome := by
      rw [length_insertionSort, length_filterMap_eq_countP]
    refine ext_getElem? fun index ↦ ?_
    rw [List.getElem?_map, ← hlength]
    cases hstate : ((function.blocks.filterMap suspendState).insertionSort (· ≤ ·))[index]? with
    | none =>
      rw [List.getElem?_eq_none (by simpa using List.getElem?_eq_none_iff.1 hstate)]
      rfl
    | some state =>
      rw [List.getElem?_range (List.getElem?_eq_some_iff.1 hstate).1]
      exact congrArg some (hstates (state, index) (mem_zipIdx_iff_getElem?.2 hstate))
  rw [← hsorted]
  exact (perm_insertionSort _ _).symm.map _

end ActivationContract

def callsPlan (plan : ActivationId) (site : FlowFunction × Instruction) : Bool :=
  match site.2.operation with
  | .asyncCall _ _ used => used == plan
  | _ => false

/-- What an activation plan stands for: one asynchronous call, of the callee and at the place the
plan names, and one region of the caller's owner with the size of its frames. -/
structure Planned (module : FlowWir) (plan : ActivationPlan) : Prop where
  calledOnce : (instructionSites module).countP (callsPlan plan.id) = 1
  called : ∃ function instruction arguments, (function, instruction) ∈ instructionSites module ∧
    function.id = plan.caller ∧ instruction.operation = .asyncCall plan.callee arguments plan.id ∧
      instruction.source = some plan.source
  region : ∃ region caller, plan.region.lookup module.regions = some region ∧
    plan.caller.lookup module.functions = some caller ∧
      activationOwner module caller = some region.owner ∧ ActivationRegion plan region

theorem ModuleAccepted.activationsDense (h : ModuleAccepted module) :
    checkDense "activation" (module.activations.map (·.id.val)) = [] := by
  have harenas := h.arenas
  simp only [validateArenas, append_eq_nil_iff] at harenas
  exact harenas.1.1.2

/-- An asynchronous call of an accepted module is bound to the plan it names. -/
theorem ModuleAccepted.boundActivation_eq (h : ModuleAccepted module)
    (hsite : site ∈ instructionSites module) :
    boundActivation module site.1 site.2 = some plan ↔ callsPlan plan site = true := by
  have hplans := h.activationPlans
  simp only [validateActivationPlans, append_eq_nil_iff, flatMap_eq_nil_iff] at hplans
  have hbinding := hplans.1.2 site hsite
  rw [validateActivationBinding, reportIf_eq_nil] at hbinding
  unfold callsPlan
  cases hoperation : site.2.operation with
  | asyncCall callee arguments used =>
    rw [hoperation, isAsyncCall, Bool.true_and, Option.isNone_eq_false_iff] at hbinding
    simp only [boundActivation, hoperation] at hbinding ⊢
    split at hbinding
    · rename_i hbound
      rw [if_pos hbound, Option.some.injEq, beq_iff_eq]
    · cases hbinding
  | _ => simp [boundActivation, hoperation]

theorem ModuleAccepted.plan_calledOnce (h : ModuleAccepted module)
    (hplan : plan ∈ module.activations) :
    (instructionSites module).countP (callsPlan plan.id) = 1 := by
  have hindex := (List.getElem?_eq_some_iff.1 (lookup_of_dense h.activationsDense hplan)).1
  have hplans := h.activationPlans
  simp only [validateActivationPlans, append_eq_nil_iff, flatMap_eq_nil_iff,
    mem_range, reportIf_eq_nil, bne_eq_false_iff_eq] at hplans
  have huses := hplans.2 plan.id.index hindex
  rw [map_filterMap, count_filterMap] at huses
  rw [← huses]
  refine countP_congr fun site hsite ↦ ?_
  rw [← h.boundActivation_eq hsite, beq_iff_eq, Option.map_eq_some_iff]
  constructor
  · exact fun hbound ↦ ⟨plan.id, hbound, rfl⟩
  · rintro ⟨used, hbound, hused⟩
    have hval : used.val = plan.id.val := UInt32.toNat_inj.1 hused
    rw [hbound]
    exact congrArg some (congrArg Id.mk hval)

theorem ModuleAccepted.planned (h : ModuleAccepted module) (hplan : plan ∈ module.activations) :
    Planned module plan := by
  have honce := h.plan_calledOnce hplan
  obtain ⟨site, hsite, hcalls⟩ := countP_pos_iff.1 (honce ▸ Nat.one_pos)
  have hbound := (h.boundActivation_eq hsite).2 hcalls
  obtain ⟨prior, hchecks⟩ := h.activationPlan hplan
  simp only [validateActivationPlan, append_eq_nil_iff, reportIf_eq_nil, Bool.not_eq_false',
    Bool.and_eq_true, activationRegionValid, Option.any_eq_true, beq_iff_eq, joinedNameMatches]
    at hchecks
  obtain ⟨-, ⟨-, region, hregion, ⟨⟨⟨⟨⟨⟨hid, caller, hcaller, hname, howner⟩, hclass⟩, hbytes⟩, -⟩, -⟩,
    hproof⟩, hsource⟩, -⟩ := hchecks
  refine ⟨honce, ?_, region, caller, hregion, hcaller, howner,
    hid, ⟨caller.name, hname⟩, hclass, hbytes, hproof, hsource⟩
  obtain ⟨function, instruction⟩ := site
  unfold boundActivation at hbound
  split at hbound
  · rename_i callee arguments used hoperation
    split at hbound
    · rename_i hmatches
      cases hbound
      simp only [Option.any_eq_true, Bool.and_eq_true, beq_iff_eq] at hmatches
      obtain ⟨source, hcallSource, record, hrecord, ⟨⟨-, hcallerId⟩, hcallee⟩, hrecordSource⟩ :=
        hmatches
      obtain rfl := Option.some.inj
        (hrecord.symm.trans (lookup_of_dense h.activationsDense hplan))
      exact ⟨function, instruction, arguments, hsite, hcallerId.symm, hcallee ▸ hoperation,
        hrecordSource ▸ hcallSource⟩
    · cases hbound
  · cases hbound

/-- Two plans of an accepted module have no region in common. -/
theorem ModuleAccepted.planRegions_nodup (h : ModuleAccepted module) :
    (module.activations.map ActivationPlan.region).Nodup := by
  by_cases hactors : module.actors = []
  · have hcontract := h.capacityContract
    rw [validateActorCapacityContract, if_pos (by simp [hactors]), reportIf_eq_nil] at hcontract
    have hnil : module.activations = [] := by simpa using (Bool.or_eq_false_iff.1 hcontract).2
    simp [hnil]
  · have hclosed := actorCapacityClosed_of_contract h.capacityContract hactors
    simp only [actorCapacityClosed, activationRegionsValid, Bool.and_eq_true, all_eq_true,
      beq_iff_eq] at hclosed
    obtain ⟨⟨⟨⟨-, hregions⟩, -⟩, -⟩, -⟩ := hclosed
    rw [nodup_iff_injective_getElem]
    intro left right heq
    have hplace : ∀ index : Fin (module.activations.map ActivationPlan.region).length,
        (module.activations.map ActivationPlan.region)[index].index =
          baseRegionCount module + index := by
      intro index
      have hlt : index.val < module.activations.length := by simpa using index.isLt
      have := hregions (module.activations[index.val], index.val)
        (mem_zipIdx_iff_getElem?.2 (List.getElem?_eq_getElem hlt))
      simpa using this
    have hindex := (hplace left).symm.trans ((congrArg Id.index heq).trans (hplace right))
    exact Fin.ext (Nat.add_left_cancel hindex)

end Wrela.Validation
