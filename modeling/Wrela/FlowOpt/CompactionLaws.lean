import Wrela.Data.Ranking
import Wrela.FlowOpt.Compaction
import Wrela.Wire.Folds

/-!
# Compaction is a renaming

When what is retained refers only to what is retained, compaction succeeds, and the function it
makes is the retained part of the function under one renaming of the values and one of the blocks.
The renamings keep the order and leave no gaps.
-/

namespace Wrela.FlowOpt

open List Wrela.Source Wrela.Flow Wrela.Checked Wrela.Ranking

variable {arena : Arena}

theorem reserveItems_eq_ok {count : ℕ} {resource : String} {limit : UInt64} :
    reserveItems count resource limit = .ok () ↔ count ≤ limit.toNat := by
  rw [reserveItems, ensure_eq_ok, decide_eq_true_eq]

theorem countRetained_eq_ok (h : keep.count true ≤ limit.toNat) :
    countRetained keep resource limit = .ok (keep.count true) := by
  rw [countRetained, reserveItems_eq_ok.2 h]
  rfl

/-- The new number of an identifier is its rank among what is kept. -/
def renumber (keep : List Bool) (id : Id arena) : Id arena := ⟨.ofNat (rank keep id.index)⟩

theorem numberRetained_eq_ok {fits : ℕ → Bool} {error : OptimizeError} {keep : List Bool}
    {next : ℕ} (h : ∀ index < keep.count true, fits (next + index) = true) :
    (numberRetained fits error keep next : Except OptimizeError (IdMap arena)) =
      .ok (keep.mapIdx fun index mark ↦
        if mark then some ⟨.ofNat (next + rank keep index)⟩ else none) := by
  induction keep generalizing next with
  | nil => rfl
  | cons mark keep ih =>
    cases mark with
    | false =>
      rw [numberRetained, ih (by simpa using h)]
      simp [mapIdx_cons]
    | true =>
      have hfirst : fits next = true := h 0 (by simp)
      have hrest : ∀ index < keep.count true, fits (next + 1 + index) = true := by
        intro index hindex
        rw [Nat.add_assoc, Nat.add_comm 1 index]
        exact h (index + 1) (by simpa using hindex)
      rw [numberRetained, hfirst, ih hrest]
      simp [ensure, mapIdx_cons, Nat.add_assoc, Nat.add_comm 1]

/-- The table of an arena of which the marked positions are kept. -/
def tableOf (keep : List Bool) : IdMap arena :=
  keep.mapIdx fun index mark ↦ if mark then some ⟨.ofNat (rank keep index)⟩ else none

theorem getD_tableOf (keep : List Bool) (index : ℕ) :
    (tableOf keep : IdMap arena).getD index none =
      if keep.getD index false then some ⟨.ofNat (rank keep index)⟩ else none := by
  simp only [getD_eq_getElem?_getD, tableOf, List.getElem?_mapIdx]
  cases keep[index]? <;> rfl

theorem getD_tableOf_of_kept {id : Id arena} (h : keep.getD id.index false = true) :
    (tableOf keep : IdMap arena).getD id.index none = some (renumber keep id) := by
  rw [getD_tableOf, if_pos h]
  rfl

theorem blockMap_eq_ok (h : keep.count true < 2 ^ 32) :
    blockMap keep limits = .ok (tableOf keep) := by
  have hmap := @numberRetained_eq_ok .block (fun next ↦ next + 1 < 2 ^ 32)
    (.resourceLimit "FlowWir blocks" limits.blocks) keep 0
    (fun index hindex ↦ by simp only [decide_eq_true_eq]; omega)
  simpa [blockMap, tableOf] using hmap

theorem valueMap_eq_ok (h : keep.count true ≤ 2 ^ 32) :
    valueMap keep limits = .ok (tableOf keep) := by
  have hmap := @numberRetained_eq_ok .value (fun next ↦ next < 2 ^ 32)
    (.resourceLimit "FlowWir values" limits.values) keep 0
    (fun index hindex ↦ by simp only [decide_eq_true_eq]; omega)
  simpa [valueMap, tableOf] using hmap

section References

variable {values : IdMap .value} {blocks : IdMap .block} {renameValue : ValueId → ValueId}
  {renameBlock : BlockId → BlockId}

theorem mapValueSlice_eq_ok
    (h : ∀ value ∈ arguments, mapValue values value = .ok (renameValue value)) :
    mapValueSlice values arguments = .ok (arguments.map renameValue) := by
  rw [mapValueSlice, mapM_eq_ok, List.forall₂_map_right_iff, List.forall₂_same]
  exact h

theorem mapOne_eq_ok {α : Type} {build : ValueId → α} {value : ValueId}
    (h : mapValue values value = .ok (renameValue value)) :
    mapOne values build value = .ok (build (renameValue value)) := by
  rw [mapOne, h]
  rfl

theorem mapTwo_eq_ok {α : Type} {build : ValueId → ValueId → α} {first second : ValueId}
    (hfirst : mapValue values first = .ok (renameValue first))
    (hsecond : mapValue values second = .ok (renameValue second)) :
    mapTwo values build first second = .ok (build (renameValue first) (renameValue second)) := by
  rw [mapTwo, hfirst, hsecond]
  rfl

theorem mapMany_eq_ok {α : Type} {build : List ValueId → α} {arguments : List ValueId}
    (h : ∀ value ∈ arguments, mapValue values value = .ok (renameValue value)) :
    mapMany values build arguments = .ok (build (arguments.map renameValue)) := by
  rw [mapMany, mapValueSlice_eq_ok h]
  rfl

theorem mapPart_eq_ok {part : BoundedStringPart}
    (h : ∀ value ∈ part.values, mapValue values value = .ok (renameValue value)) :
    mapPart values part = .ok (part.mapValues renameValue) := by
  cases part with
  | text => rfl
  | _ =>
    have hvalue := h _ (mem_singleton_self _)
    simp only [mapPart, hvalue]
    rfl

/-- Every operation is mapped by renaming the values it reads: no constructor forgets one. -/
theorem mapOperationValues_eq_ok {operation : FlowOperation}
    (h : ∀ value ∈ operation.values, mapValue values value = .ok (renameValue value)) :
    mapOperationValues values operation = .ok (operation.mapValues renameValue) := by
  cases operation
  case formatBoundedString ty parts =>
    have hparts : parts.mapM (mapPart values) =
        .ok (parts.map (BoundedStringPart.mapValues renameValue)) := by
      rw [mapM_eq_ok, List.forall₂_map_right_iff, List.forall₂_same]
      exact fun part hpart ↦ mapPart_eq_ok fun value hvalue ↦
        h value (mem_flatMap.2 ⟨part, hpart, hvalue⟩)
    rw [mapOperationValues, hparts]
    rfl
  case makeEnum ty variant payload =>
    cases payload with
    | none => rfl
    | some payload => exact mapOne_eq_ok (h payload (mem_singleton_self _))
  case actorCommit reservation arguments =>
    have hfirst := h reservation (mem_cons_self ..)
    have hrest := @mapMany_eq_ok values renameValue _
      (FlowOperation.actorCommit (renameValue reservation)) arguments
      fun value hvalue ↦ h value (mem_cons_of_mem _ hvalue)
    simp only [mapOperationValues, hfirst, ok_bind, hrest]
    rfl
  case taskStart slot entry arguments =>
    have hfirst := h slot (mem_cons_self ..)
    have hrest := @mapMany_eq_ok values renameValue _
      (FlowOperation.taskStart (renameValue slot) entry) arguments
      fun value hvalue ↦ h value (mem_cons_of_mem _ hvalue)
    simp only [mapOperationValues, hfirst, ok_bind, hrest]
    rfl
  case select condition thenValue elseValue =>
    have hfirst := h condition (mem_cons_self ..)
    have hrest := @mapTwo_eq_ok values renameValue _
      (FlowOperation.select (renameValue condition)) thenValue elseValue
      (h thenValue (by simp [FlowOperation.values])) (h elseValue (by simp [FlowOperation.values]))
    simp only [mapOperationValues, hfirst, ok_bind, hrest]
    rfl
  all_goals first
    | rfl
    | exact mapOne_eq_ok (h _ (mem_singleton_self _))
    | exact mapMany_eq_ok h
    | exact mapTwo_eq_ok (h _ (mem_cons_self ..))
        (h _ (mem_cons_of_mem _ (mem_singleton_self _)))

theorem mapCase_eq_ok (htarget : mapBlock blocks case.target = .ok (renameBlock case.target))
    (harguments : ∀ value ∈ case.arguments, mapValue values value = .ok (renameValue value)) :
    mapCase values blocks case =
      .ok ⟨case.value, renameBlock case.target, case.arguments.map renameValue⟩ := by
  rw [mapCase, htarget, ok_bind, mapValueSlice_eq_ok harguments]
  rfl

/-- Every terminator is mapped by renaming the values it reads and the blocks it names. -/
theorem mapTerminator_eq_ok
    (hvalues : ∀ value ∈ terminator.values, mapValue values value = .ok (renameValue value))
    (hedges : ∀ edge ∈ terminator.edges, mapBlock blocks edge.1 = .ok (renameBlock edge.1)) :
    mapTerminator values blocks terminator = .ok (terminator.rename renameValue renameBlock) := by
  cases terminator with
  | jump target arguments =>
    have htarget : mapBlock blocks target = .ok (renameBlock target) :=
      hedges (target, arguments) (mem_singleton_self _)
    have harguments : mapValueSlice values arguments = .ok (arguments.map renameValue) :=
      mapValueSlice_eq_ok hvalues
    rw [mapTerminator, htarget, ok_bind, harguments]
    rfl
  | branch condition thenBlock thenArguments elseBlock elseArguments =>
    simp only [Terminator.values, forall_mem_cons, forall_mem_append] at hvalues
    simp only [Terminator.edges, forall_mem_cons] at hedges
    obtain ⟨hcondition, hthen, helse⟩ := hvalues
    rw [mapTerminator, hcondition, ok_bind, hedges.1, ok_bind, hedges.2.1, ok_bind,
      mapValueSlice_eq_ok hthen, ok_bind, mapValueSlice_eq_ok helse]
    rfl
  | switch value cases default defaultArguments =>
    simp only [Terminator.values, forall_mem_cons, forall_mem_append, mem_flatMap,
      forall_exists_index, and_imp] at hvalues
    simp only [Terminator.edges, forall_mem_append, forall_mem_map, forall_mem_cons] at hedges
    obtain ⟨hvalue, hcaseValues, hdefault⟩ := hvalues
    have hcases : cases.mapM (mapCase values blocks) = .ok (cases.map fun case ↦
        ⟨case.value, renameBlock case.target, case.arguments.map renameValue⟩) := by
      rw [mapM_eq_ok, List.forall₂_map_right_iff, List.forall₂_same]
      exact fun case hcase ↦ mapCase_eq_ok (hedges.1 case hcase)
        fun value hmem ↦ hcaseValues value case hcase hmem
    rw [mapTerminator, hvalue, ok_bind, hcases, ok_bind, hedges.2.1, ok_bind,
      mapValueSlice_eq_ok hdefault]
    rfl
  | «return» arguments | tailCall _ arguments =>
    have harguments : mapValueSlice values arguments = .ok (arguments.map renameValue) :=
      mapValueSlice_eq_ok hvalues
    rw [mapTerminator, harguments]
    rfl
  | suspend state activation resume =>
    have hresume := hedges (resume, []) (mem_singleton_self _)
    have hactivation := hvalues activation (mem_singleton_self _)
    rw [mapTerminator, hresume, ok_bind, hactivation]
    rfl
  | trap failure detail =>
    cases detail with
    | none => rfl
    | some detail =>
      have hdetail := hvalues detail (mem_singleton_self _)
      simp only [mapTerminator, hdetail]
      rfl
  | unreachable => rfl

end References

/-! ## What is kept -/

/-- The instructions of a block that are not removed. -/
def retainedInstructions (removed : Option (List Bool)) (block : Block) : List Instruction :=
  block.instructions.filter fun instruction ↦ !isRemoved removed instruction

/-- The values a retained block defines. -/
def blockDefinitions (removed : Option (List Bool)) (block : Block) : List ValueId :=
  block.parameters ++ (retainedInstructions removed block).flatMap Instruction.results

/-- The values that what is retained defines. -/
def retainedDefinitions (function : FlowFunction) (keepBlocks : List Bool)
    (removed : Option (List Bool)) : List ValueId :=
  function.parameters ++ (kept keepBlocks function.blocks).flatMap fun block ↦
    blockDefinitions removed block.1

/-- Just the given values were marked in between. -/
structure Marks (before after : List Bool) (values : List ValueId) : Prop where
  length : after.length = before.length
  marked : ∀ index, after.getD index false = true ↔
    before.getD index false = true ∨ ∃ value ∈ values, value.index = index

theorem Marks.refl (keep : List Bool) : Marks keep keep [] := ⟨rfl, by simp⟩

theorem Marks.trans {before middle after : List Bool} {first second : List ValueId}
    (hfirst : Marks before middle first) (hsecond : Marks middle after second) :
    Marks before after (first ++ second) where
  length := hsecond.length.trans hfirst.length
  marked index := by
    rw [hsecond.marked, hfirst.marked, or_assoc]
    simp only [mem_append, or_and_right, exists_or]

theorem marks_set (h : value.index < keep.length) :
    Marks keep (keep.set value.index true) [value] where
  length := length_set
  marked index := by
    rw [getD_eq_getElem?_getD, getD_eq_getElem?_getD, List.getElem?_set]
    by_cases heq : value.index = index
    · simp [heq, heq ▸ h]
    · simp [heq]

/-- A loop marks what its steps mark. -/
theorem foldlM_marks {α : Type} {step : List Bool → α → Except OptimizeError (List Bool)}
    {each : α → List ValueId} {size : ℕ} {items : List α}
    (hstep : ∀ item ∈ items, ∀ keep, keep.length = size →
      ∃ after, step keep item = .ok after ∧ Marks keep after (each item))
    {keep : List Bool} (hlength : keep.length = size) :
    ∃ after, items.foldlM step keep = .ok after ∧ Marks keep after (items.flatMap each) := by
  induction items generalizing keep with
  | nil => exact ⟨keep, rfl, .refl keep⟩
  | cons item items ih =>
    obtain ⟨middle, hmiddle, hmarks⟩ := hstep item (mem_cons_self ..) keep hlength
    obtain ⟨after, hafter, hrest⟩ := ih
      (fun other hother ↦ hstep other (mem_cons_of_mem _ hother)) (hmarks.length.trans hlength)
    refine ⟨after, ?_, ?_⟩
    · rw [foldlM_cons, hmiddle, ok_bind, hafter]
    · rw [flatMap_cons]
      exact hmarks.trans hrest

theorem foldlM_markValue {context : String} {values : List ValueId} {keep : List Bool}
    (h : ∀ value ∈ values, value.index < keep.length) :
    ∃ after, values.foldlM (markValue context) keep = .ok after ∧ Marks keep after values := by
  have hmarks := @foldlM_marks ValueId (markValue context) (fun value ↦ [value]) keep.length values
    (fun value hvalue marks hlength ↦ by
      have hlt : value.index < marks.length := hlength ▸ h value hvalue
      refine ⟨marks.set value.index true, ?_, marks_set hlt⟩
      simp [markValue, ensure, hlt]) keep rfl
  simpa [flatMap_singleton'] using hmarks

theorem markInstruction_marks (h : isRemoved removed instruction = false →
      ∀ value ∈ instruction.results, value.index < keep.length) :
    ∃ after, markInstruction removed keep instruction = .ok after ∧
      Marks keep after (if isRemoved removed instruction then [] else instruction.results) := by
  rw [markInstruction]
  cases hremoved : isRemoved removed instruction with
  | true => exact ⟨keep, rfl, .refl keep⟩
  | false => exact foldlM_markValue (h hremoved)

theorem markBlock_marks
    (h : mark = true → ∀ value ∈ blockDefinitions removed block, value.index < keep.length) :
    ∃ after, markBlock removed keep (block, mark) = .ok after ∧
      Marks keep after (if mark then blockDefinitions removed block else []) := by
  rw [markBlock]
  cases mark with
  | false => exact ⟨keep, rfl, .refl keep⟩
  | true =>
    have hdefinitions := h rfl
    simp only [blockDefinitions, forall_mem_append] at hdefinitions
    obtain ⟨middle, hmiddle, hparameters⟩ :=
      @foldlM_markValue "block parameter" block.parameters keep hdefinitions.1
    have hinstructions := @foldlM_marks Instruction (markInstruction removed)
      (fun instruction ↦ if isRemoved removed instruction then [] else instruction.results)
      keep.length block.instructions (fun instruction hmem marks hlength ↦
        markInstruction_marks fun hkept value hvalue ↦ hlength ▸ hdefinitions.2 value
          (mem_flatMap.2 ⟨instruction, mem_filter.2 ⟨hmem, by simp [hkept]⟩, hvalue⟩))
      middle hparameters.length
    obtain ⟨after, hafter, hresults⟩ := hinstructions
    refine ⟨after, by simp only [if_true, hmiddle, ok_bind, hafter], ?_⟩
    have hflat : (block.instructions.flatMap fun instruction ↦
        if isRemoved removed instruction then [] else instruction.results) =
          (retainedInstructions removed block).flatMap Instruction.results := by
      rw [retainedInstructions, ← flatMap_ite]
      refine flatMap_congr fun instruction _ ↦ ?_
      cases isRemoved removed instruction <;> rfl
    rw [hflat] at hresults
    exact hparameters.trans hresults

/-- The references of what is retained stay within what is retained. -/
structure Closed (function : FlowFunction) (keepBlocks : List Bool) (removed : Option (List Bool)) :
    Prop where
  length : keepBlocks.length = function.blocks.length
  entry : keepBlocks.getD function.entry.index false = true
  records : ∀ value ∈ retainedDefinitions function keepBlocks removed,
    value.index < function.values.length
  operands : ∀ block ∈ kept keepBlocks function.blocks,
    ∀ instruction ∈ retainedInstructions removed block.1, ∀ value ∈ instruction.operation.values,
      value ∈ retainedDefinitions function keepBlocks removed
  terminators : ∀ block ∈ kept keepBlocks function.blocks, ∀ value ∈ block.1.terminator.values,
    value ∈ retainedDefinitions function keepBlocks removed
  edges : ∀ block ∈ kept keepBlocks function.blocks, ∀ edge ∈ block.1.terminator.edges,
    keepBlocks.getD edge.1.index false = true

/-- The values that are kept, by position. -/
def keptValues (function : FlowFunction) (keepBlocks : List Bool) (removed : Option (List Bool)) :
    List Bool :=
  (List.range function.values.length).map fun index ↦
    (retainedDefinitions function keepBlocks removed).any (·.index == index)

section Kept

variable {function : FlowFunction} {keepBlocks : List Bool} {removed : Option (List Bool)}
  (hrecords : ∀ value ∈ retainedDefinitions function keepBlocks removed,
    value.index < function.values.length)
include hrecords

theorem getD_keptValues {index : ℕ} :
    (keptValues function keepBlocks removed).getD index false = true ↔
      ∃ value ∈ retainedDefinitions function keepBlocks removed, value.index = index := by
  by_cases hlt : index < function.values.length
  · simp [keptValues, hlt]
  · refine ⟨fun h ↦ by simp [keptValues, hlt] at h, ?_⟩
    rintro ⟨value, hvalue, rfl⟩
    exact absurd (hrecords value hvalue) hlt

theorem keepValues_eq_ok {limits : OptimizationLimits}
    (hlength : keepBlocks.length = function.blocks.length)
    (hlimit : function.values.length ≤ limits.values.toNat) :
    keepValues function keepBlocks removed limits = .ok (keptValues function keepBlocks removed) := by
  have hdefined := hrecords
  simp only [retainedDefinitions, forall_mem_append] at hdefined
  obtain ⟨middle, hmiddle, hparameters⟩ := @foldlM_markValue "function parameter"
    function.parameters (List.replicate function.values.length false) (by simpa using hdefined.1)
  have hzip : ∀ item ∈ function.blocks.zip keepBlocks, item.2 = true →
      ∀ value ∈ blockDefinitions removed item.1, value.index < function.values.length := by
    intro item hitem hmark value hvalue
    rw [zip_eq_map_zipIdx false hlength] at hitem
    obtain ⟨block, hblock, rfl⟩ := mem_map.1 hitem
    exact hdefined.2 value
      (mem_flatMap.2 ⟨block, mem_filter.2 ⟨hblock, hmark⟩, hvalue⟩)
  obtain ⟨after, hafter, hblocks⟩ := @foldlM_marks (Block × Bool) (markBlock removed)
    (fun item ↦ if item.2 then blockDefinitions removed item.1 else []) function.values.length
    (function.blocks.zip keepBlocks) (fun item hitem keep hsize ↦
      markBlock_marks fun hmark ↦ hsize ▸ hzip item hitem hmark) middle
    (by simpa using hparameters.length)
  have hmarks := hparameters.trans hblocks
  rw [flatMap_zip_kept (blockDefinitions removed) hlength] at hmarks
  have heq : after = keptValues function keepBlocks removed := by
    apply ext_getElem
    · simpa [keptValues] using hmarks.length
    · intro index hleft hright
      have hmarked := hmarks.marked index
      have hkept := @getD_keptValues function keepBlocks removed hrecords index
      rw [getD_eq_getElem?_getD, List.getElem?_eq_getElem hleft, Option.getD_some] at hmarked
      rw [getD_eq_getElem?_getD, List.getElem?_eq_getElem hright, Option.getD_some] at hkept
      rw [Bool.eq_iff_iff, hmarked, hkept]
      have hfresh : (List.replicate function.values.length false).getD index false = false := by
        rw [getD_eq_getElem?_getD, List.getElem?_replicate]
        split <;> rfl
      rw [hfresh]
      simp [retainedDefinitions]
  rw [keepValues, filledVec, reserveItems_eq_ok.2 hlimit]
  simp only [ok_bind, pure, Except.pure, hmiddle, hafter, heq]

/-- Marked positions are the positions of identifiers. -/
theorem count_keptValues : (keptValues function keepBlocks removed).count true ≤ 2 ^ 32 := by
  refine count_le_of_getD fun index hkept ↦ ?_
  obtain ⟨value, -, rfl⟩ := (getD_keptValues hrecords).1 hkept
  exact value.val.toNat_lt

end Kept

/-- An instruction with its references renamed, under a new identifier. -/
def Instruction.image (renameValue : ValueId → ValueId) (instruction : Instruction)
    (id : InstructionId) : Instruction :=
  { instruction with
    id
    results := instruction.results.map renameValue
    operation := instruction.operation.mapValues renameValue }

/-- A block that stands for the retained part of another, with every reference renamed. -/
structure BlockImage (renameValue : ValueId → ValueId) (renameBlock : BlockId → BlockId)
    (removed : Option (List Bool)) (block target : Block) : Prop where
  parameters : target.parameters = block.parameters.map renameValue
  instructions : List.Forall₂
    (fun instruction image ↦ image = Instruction.image renameValue instruction image.id)
    (retainedInstructions removed block) target.instructions
  terminator : target.terminator = block.terminator.rename renameValue renameBlock
  source : target.source = block.source

section Blocks

variable {values : IdMap .value} {blocks : IdMap .block} {renameValue : ValueId → ValueId}
  {renameBlock : BlockId → BlockId} {removed : Option (List Bool)} {limits : OptimizationLimits}

/-- The tables give the renamings for all that a block refers to. -/
structure Resolved (values : IdMap .value) (blocks : IdMap .block)
    (renameValue : ValueId → ValueId) (renameBlock : BlockId → BlockId)
    (removed : Option (List Bool)) (block : Block) : Prop where
  definitions : ∀ value ∈ blockDefinitions removed block,
    mapValue values value = .ok (renameValue value)
  operands : ∀ instruction ∈ retainedInstructions removed block,
    ∀ value ∈ instruction.operation.values, mapValue values value = .ok (renameValue value)
  terminator : ∀ value ∈ block.terminator.values, mapValue values value = .ok (renameValue value)
  edges : ∀ edge ∈ block.terminator.edges, mapBlock blocks edge.1 = .ok (renameBlock edge.1)

/-- The instructions that stay are numbered one after the other. -/
theorem compactInstructions_eq_ok {instructions : List Instruction} {next : ℕ}
    (hresults : ∀ instruction ∈ instructions.filter (!isRemoved removed ·),
      ∀ value ∈ instruction.results, mapValue values value = .ok (renameValue value))
    (hoperands : ∀ instruction ∈ instructions.filter (!isRemoved removed ·),
      ∀ value ∈ instruction.operation.values, mapValue values value = .ok (renameValue value))
    (hfits : next + (instructions.filter (!isRemoved removed ·)).length < 2 ^ 32) :
    compactInstructions values removed limits instructions next =
      .ok ((instructions.filter (!isRemoved removed ·)).zipIdx next |>.map fun item ↦
          Instruction.image renameValue item.1 ⟨.ofNat item.2⟩,
        next + (instructions.filter (!isRemoved removed ·)).length) := by
  induction instructions generalizing next with
  | nil => rfl
  | cons instruction instructions ih =>
    rw [compactInstructions]
    cases hremoved : isRemoved removed instruction with
    | true =>
      have hfilter : (instruction :: instructions).filter (!isRemoved removed ·) =
          instructions.filter (!isRemoved removed ·) := by simp [hremoved]
      rw [hfilter] at hresults hoperands hfits ⊢
      exact ih hresults hoperands hfits
    | false =>
      have hfilter : (instruction :: instructions).filter (!isRemoved removed ·) =
          instruction :: instructions.filter (!isRemoved removed ·) := by simp [hremoved]
      rw [hfilter] at hresults hoperands hfits ⊢
      rw [forall_mem_cons] at hresults hoperands
      rw [length_cons] at hfits ⊢
      have hrest := ih hresults.2 hoperands.2
        (show next + 1 + (instructions.filter (!isRemoved removed ·)).length < 2 ^ 32 by omega)
      have hnext : ensure (next + 1 < 2 ^ 32)
          (.resourceLimit "FlowWir instructions" limits.instructions) = .ok () :=
        ensure_eq_ok.2 (decide_eq_true (by omega))
      rw [if_neg Bool.false_ne_true, hnext, ok_bind, mapValueSlice_eq_ok hresults.1, ok_bind,
        mapOperationValues_eq_ok hoperands.1, ok_bind, hrest]
      simp [Instruction.image, zipIdx_cons, pure, Except.pure, Nat.add_assoc, Nat.add_comm 1]

theorem forall₂_zipIdx (next : ℕ) :
    List.Forall₂ (fun instruction image ↦ image = Instruction.image renameValue instruction image.id)
      instructions (instructions.zipIdx next |>.map fun item ↦
        Instruction.image renameValue item.1 ⟨.ofNat item.2⟩) := by
  induction instructions generalizing next with
  | nil => exact .nil
  | cons instruction instructions ih => exact .cons rfl (ih (next + 1))

theorem compactBlock_eq_ok {block : Block} {id : BlockId} {next : ℕ}
    (hresolved : Resolved values blocks renameValue renameBlock removed block)
    (hlimit : (retainedInstructions removed block).length ≤ limits.instructions.toNat)
    (hfits : next + (retainedInstructions removed block).length < 2 ^ 32) :
    ∃ target, compactBlock values blocks removed limits block (some id) next =
        .ok (target, next + (retainedInstructions removed block).length) ∧
      BlockImage renameValue renameBlock removed block target ∧ target.id = id ∧
      target.instructions.map Instruction.id =
        (List.range' next (retainedInstructions removed block).length).map
          fun index ↦ ⟨.ofNat index⟩ := by
  have hdefinitions := hresolved.definitions
  simp only [blockDefinitions, forall_mem_append] at hdefinitions
  have hinstructions := @compactInstructions_eq_ok values renameValue removed limits
    block.instructions next (fun instruction hinstruction value hvalue ↦ hdefinitions.2 value
      (mem_flatMap.2 ⟨instruction, hinstruction, hvalue⟩)) hresolved.operands hfits
  refine ⟨{ block with
      id
      parameters := block.parameters.map renameValue
      instructions := (retainedInstructions removed block).zipIdx next |>.map fun item ↦
        Instruction.image renameValue item.1 ⟨.ofNat item.2⟩
      terminator := block.terminator.rename renameValue renameBlock }, ?_, ?_, rfl, ?_⟩
  · have hterminator := mapTerminator_eq_ok hresolved.terminator hresolved.edges
    have hreserve := @reserveItems_eq_ok (retainedInstructions removed block).length
      "FlowWir instructions" limits.instructions
    rw [compactBlock, orFail, ok_bind, mapValueSlice_eq_ok hdefinitions.1, ok_bind,
      ← retainedInstructions, hreserve.2 hlimit, ok_bind, hinstructions, ok_bind, hterminator]
    rfl
  · exact ⟨rfl, forall₂_zipIdx next, rfl, rfl⟩
  · rw [← zipIdx_map_snd next (retainedInstructions removed block), map_map, map_map]
    rfl

/-- The blocks that stay are their images, and their instructions are numbered through. -/
theorem compactBlocks_eq_ok {items : List (Block × Bool × Option BlockId)} {next : ℕ}
    (h : ∀ item ∈ items.filter (·.2.1), (∃ id, item.2.2 = some id) ∧
      Resolved values blocks renameValue renameBlock removed item.1 ∧
      (retainedInstructions removed item.1).length ≤ limits.instructions.toNat)
    (hfits : next + ((items.filter (·.2.1)).map fun item ↦
      (retainedInstructions removed item.1).length).sum < 2 ^ 32) :
    ∃ targets, compactBlocks values blocks removed limits items next = .ok targets ∧
      List.Forall₂ (fun item target ↦ BlockImage renameValue renameBlock removed item.1 target ∧
        item.2.2 = some target.id) (items.filter (·.2.1)) targets ∧
      (targets.flatMap Block.instructions).map Instruction.id =
        (List.range' next ((items.filter (·.2.1)).map fun item ↦
          (retainedInstructions removed item.1).length).sum).map fun index ↦ ⟨.ofNat index⟩ := by
  induction items generalizing next with
  | nil => exact ⟨[], rfl, .nil, rfl⟩
  | cons item items ih =>
    obtain ⟨block, mark, id⟩ := item
    cases mark with
    | false => exact ih h hfits
    | true =>
      have hfilter : ((block, true, id) :: items).filter (·.2.1) =
          (block, true, id) :: items.filter (·.2.1) := rfl
      rw [hfilter] at h hfits ⊢
      rw [forall_mem_cons] at h
      simp only [map_cons, sum_cons] at hfits ⊢
      obtain ⟨⟨⟨id, rfl⟩, hresolved, hlimit⟩, hrest⟩ := h
      obtain ⟨target, htarget, himage, hid, hnumbers⟩ := compactBlock_eq_ok hresolved hlimit
        (show next + (retainedInstructions removed block).length < 2 ^ 32 by omega)
      obtain ⟨targets, htargets, himages, hall⟩ := ih hrest
        (show next + (retainedInstructions removed block).length + _ < 2 ^ 32 by omega)
      refine ⟨target :: targets, ?_, .cons ⟨himage, by rw [hid]⟩ himages, ?_⟩
      · rw [compactBlocks, if_pos rfl, htarget, ok_bind]
        dsimp only
        rw [htargets]
        rfl
      · rw [flatMap_cons, map_append, hnumbers, hall, ← map_append, range'_append_1]

end Blocks

/-- The limits that compaction checks. -/
structure CompactionFits (function : FlowFunction) (keepBlocks : List Bool)
    (removed : Option (List Bool)) (limits : OptimizationLimits) : Prop where
  blocks : function.blocks.length ≤ limits.blocks.toNat
  values : function.values.length ≤ limits.values.toNat
  instructions : ∀ block ∈ kept keepBlocks function.blocks,
    (retainedInstructions removed block.1).length ≤ limits.instructions.toNat
  blockNumbers : keepBlocks.count true < 2 ^ 32
  instructionNumbers : ((kept keepBlocks function.blocks).map fun block ↦
    (retainedInstructions removed block.1).length).sum < 2 ^ 32

/-- Among the identifiers in question, the renaming keeps the order. -/
def KeepsOrder (rename : Id arena → Id arena) (kept : Id arena → Prop) : Prop :=
  ∀ left right, kept left → kept right →
    ((rename left).index < (rename right).index ↔ left.index < right.index)

theorem eq_of_index_eq {left right : Id arena} (h : left.index = right.index) : left = right := by
  cases left
  cases right
  exact congrArg _ (UInt32.toNat_inj.1 h)

theorem KeepsOrder.injective {rename : Id arena → Id arena} {kept : Id arena → Prop}
    (h : KeepsOrder rename kept) {left right : Id arena} (hleft : kept left)
    (hright : kept right) (heq : rename left = rename right) : left = right := by
  have hforward := h left right hleft hright
  have hbackward := h right left hright hleft
  rw [heq] at hforward hbackward
  exact eq_of_index_eq (by omega)

/-- One function is the retained part of another, numbered anew. -/
structure Compaction (function : FlowFunction) (keepBlocks : List Bool)
    (removed : Option (List Bool)) (renameValue : ValueId → ValueId)
    (renameBlock : BlockId → BlockId) (compacted : FlowFunction) : Prop where
  frame : compacted = { function with
    parameters := compacted.parameters
    values := compacted.values
    blocks := compacted.blocks
    entry := compacted.entry }
  parameters : compacted.parameters = function.parameters.map renameValue
  entry : compacted.entry = renameBlock function.entry
  values : List.Forall₂ (fun value image ↦
      image = { value.1 with id := image.id } ∧
        ∀ id : ValueId, id.index = value.2 → image.id = renameValue id)
    (kept (keptValues function keepBlocks removed) function.values) compacted.values
  blocks : List.Forall₂ (fun block image ↦
      BlockImage renameValue renameBlock removed block.1 image ∧
        ∀ id : BlockId, id.index = block.2 → image.id = renameBlock id)
    (kept keepBlocks function.blocks) compacted.blocks
  valuesDense : compacted.values.map (·.id.index) = List.range compacted.values.length
  blocksDense : compacted.blocks.map (·.id.index) = List.range compacted.blocks.length
  instructionsDense : (compacted.blocks.flatMap Block.instructions).map (·.id.index) =
    List.range (compacted.blocks.flatMap Block.instructions).length
  valuesOrdered : KeepsOrder renameValue
    (· ∈ retainedDefinitions function keepBlocks removed)
  valuesInjective : Set.InjOn renameValue
    {value | value ∈ retainedDefinitions function keepBlocks removed}
  blocksOrdered : KeepsOrder renameBlock (fun block ↦ keepBlocks.getD block.index false = true)
  blocksInjective : Set.InjOn renameBlock {block | keepBlocks.getD block.index false = true}

theorem index_ofNat {count index : ℕ} (hlt : index < count) (hcount : count ≤ 2 ^ 32) :
    (⟨.ofNat index⟩ : Id arena).index = index :=
  UInt32.toNat_ofNat_of_lt' (hlt.trans_le hcount)

theorem keepsOrder_renumber {keep : List Bool} (hcount : keep.count true ≤ 2 ^ 32)
    {kept : Id arena → Prop} (hkept : ∀ id, kept id → keep.getD id.index false = true) :
    KeepsOrder (renumber keep) kept := by
  intro left right hleft hright
  rw [renumber, renumber, index_ofNat (rank_lt_count (hkept left hleft)) hcount,
    index_ofNat (rank_lt_count (hkept right hright)) hcount]
  exact (strictMonoOn_rank keep).lt_iff_lt (hkept left hleft) (hkept right hright)

section Function

variable {function : FlowFunction} {keepBlocks : List Bool} {removed : Option (List Bool)}

theorem Closed.mapValue_eq_ok (hclosed : Closed function keepBlocks removed)
    (h : value ∈ retainedDefinitions function keepBlocks removed) :
    mapValue (tableOf (keptValues function keepBlocks removed)) value =
      .ok (renumber (keptValues function keepBlocks removed) value) := by
  rw [mapValue, orFail_eq_ok]
  exact getD_tableOf_of_kept ((getD_keptValues hclosed.records).2 ⟨value, h, rfl⟩)

theorem mapBlock_eq_ok (h : keepBlocks.getD block.index false = true) :
    mapBlock (tableOf keepBlocks) block = .ok (renumber keepBlocks block) := by
  rw [mapBlock, orFail_eq_ok]
  exact getD_tableOf_of_kept h

theorem Closed.resolved (hclosed : Closed function keepBlocks removed)
    (hblock : block ∈ kept keepBlocks function.blocks) :
    Resolved (tableOf (keptValues function keepBlocks removed)) (tableOf keepBlocks)
      (renumber (keptValues function keepBlocks removed)) (renumber keepBlocks) removed
      block.1 where
  definitions _ hvalue := hclosed.mapValue_eq_ok
    (mem_append_right _ (mem_flatMap.2 ⟨block, hblock, hvalue⟩))
  operands instruction hinstruction value hvalue :=
    hclosed.mapValue_eq_ok (hclosed.operands block hblock instruction hinstruction value hvalue)
  terminator _ hvalue := hclosed.mapValue_eq_ok (hclosed.terminators block hblock _ hvalue)
  edges edge hedge := mapBlock_eq_ok (hclosed.edges block hblock edge hedge)

theorem getD_zip_tableOf (keep : List Bool) (index : ℕ) :
    (keep.zip (tableOf keep : IdMap arena)).getD index (false, none) = (keep.getD index false,
      if keep.getD index false then some ⟨.ofNat (rank keep index)⟩ else none) := by
  simp only [getD_eq_getElem?_getD, zip_eq_zipWith, List.getElem?_zipWith, tableOf,
    List.getElem?_mapIdx]
  cases keep[index]? <;> rfl

/-- A table entry stands beside each kept item. -/
theorem zip_tableOf {α : Type} {keep : List Bool} {items : List α}
    (h : keep.length = items.length) :
    (items.zip (keep.zip (tableOf keep : IdMap arena))).filter (·.2.1) =
      (kept keep items).map fun item ↦ (item.1, true, some ⟨.ofNat (rank keep item.2)⟩) := by
  have hlength : (keep.zip (tableOf keep : IdMap arena)).length = items.length := by
    simp [tableOf, h]
  rw [zip_eq_map_zipIdx (false, none) hlength, filter_map, kept]
  simp only [getD_zip_tableOf, Function.comp_def]
  refine map_congr_left fun item hitem ↦ ?_
  rw [(mem_filter.1 hitem).2, if_pos rfl]

theorem compactValues_tableOf (h : keep.length = values.length) :
    compactValues (tableOf keep) values =
      (kept keep values).map fun value ↦ { value.1 with id := ⟨.ofNat (rank keep value.2)⟩ } := by
  have hlength : (tableOf keep : IdMap .value).length = values.length := by
    simp [tableOf, h]
  rw [compactValues, zip_eq_map_zipIdx none hlength, filterMap_map, kept,
    ← filterMap_eq_map, filterMap_filter]
  refine filterMap_congr fun value _ ↦ ?_
  simp only [Function.comp_apply, getD_tableOf]
  cases keep.getD value.2 false <;> rfl

theorem map_index_kept {α : Type} {keep : List Bool} (hcount : keep.count true ≤ 2 ^ 32)
    (items : List α) :
    ((kept keep items).map fun item ↦ (⟨.ofNat (rank keep item.2)⟩ : Id arena).index) =
      List.range (kept keep items).length := by
  rw [← map_rank_kept]
  refine map_congr_left fun item hitem ↦ ?_
  exact index_ofNat (rank_lt_count (mem_filter.1 hitem).2) hcount

/-- The retained part is numbered anew under one renaming of values and one of blocks. -/
theorem exists_compaction {limits : OptimizationLimits}
    (hclosed : Closed function keepBlocks removed)
    (hfits : CompactionFits function keepBlocks removed limits) :
    ∃ renameValue renameBlock compacted,
      compactFunction function keepBlocks removed limits = .ok compacted ∧
        Compaction function keepBlocks removed renameValue renameBlock compacted := by
  have hvalues : (keptValues function keepBlocks removed).length = function.values.length := by
    simp [keptValues]
  have hcount := count_keptValues hclosed.records
  have hvaluesOrdered : KeepsOrder (renumber (keptValues function keepBlocks removed))
      (· ∈ retainedDefinitions function keepBlocks removed) :=
    keepsOrder_renumber hcount fun value hvalue ↦
      (getD_keptValues hclosed.records).2 ⟨value, hvalue, rfl⟩
  have hblocksOrdered : KeepsOrder (renumber keepBlocks)
      (fun block : BlockId ↦ keepBlocks.getD block.index false = true) :=
    keepsOrder_renumber hfits.blockNumbers.le fun _ h ↦ h
  have hparameters : mapValueSlice (tableOf (keptValues function keepBlocks removed))
      function.parameters = .ok (function.parameters.map
        (renumber (keptValues function keepBlocks removed))) :=
    mapValueSlice_eq_ok fun value hvalue ↦ hclosed.mapValue_eq_ok (mem_append_left _ hvalue)
  have hitems := @zip_tableOf .block Block keepBlocks function.blocks hclosed.length
  obtain ⟨blocks, hblocks, himages, hnumbers⟩ := @compactBlocks_eq_ok
    (tableOf (keptValues function keepBlocks removed)) (tableOf keepBlocks)
    (renumber (keptValues function keepBlocks removed)) (renumber keepBlocks) removed limits
    (function.blocks.zip (keepBlocks.zip (tableOf keepBlocks))) 0
    (by
      rw [hitems]
      intro item hitem
      obtain ⟨block, hblock, rfl⟩ := mem_map.1 hitem
      exact ⟨⟨_, rfl⟩, hclosed.resolved hblock, hfits.instructions block hblock⟩)
    (by
      rw [hitems, map_map, Nat.zero_add]
      exact hfits.instructionNumbers)
  rw [hitems, List.forall₂_map_left_iff] at himages
  rw [hitems, map_map] at hnumbers
  have hkeptValues : (keptValues function keepBlocks removed).count true ≤ limits.values.toNat :=
    (count_le_length ..).trans (hvalues.le.trans hfits.values)
  have hkeptBlocks : keepBlocks.count true ≤ limits.blocks.toNat :=
    (count_le_length ..).trans (hclosed.length.le.trans hfits.blocks)
  refine ⟨renumber (keptValues function keepBlocks removed), renumber keepBlocks, { function with
      parameters := function.parameters.map (renumber (keptValues function keepBlocks removed))
      values := compactValues (tableOf (keptValues function keepBlocks removed)) function.values
      blocks
      entry := renumber keepBlocks function.entry }, ?_, ?_⟩
  · rw [compactFunction, ensure, if_pos (by simpa using hclosed.length), ok_bind,
      reserveItems_eq_ok.2 hfits.blocks, ok_bind, blockMap_eq_ok hfits.blockNumbers, ok_bind,
      keepValues_eq_ok hclosed.records hclosed.length hfits.values, ok_bind,
      reserveItems_eq_ok.2 hfits.values, ok_bind,
      countRetained_eq_ok hkeptValues, ok_bind, reserveItems_eq_ok.2 hkeptValues, ok_bind,
      valueMap_eq_ok hcount, ok_bind, hparameters, ok_bind, mapBlock_eq_ok hclosed.entry, ok_bind,
      countRetained_eq_ok hkeptBlocks, ok_bind, reserveItems_eq_ok.2 hkeptBlocks, ok_bind, hblocks]
    rfl
  · refine ⟨rfl, rfl, rfl, ?_, ?_, ?_, ?_, ?_, ?_, ?_, ?_, ?_⟩
    · rw [compactValues_tableOf hvalues, List.forall₂_map_right_iff, List.forall₂_same]
      refine fun value _ ↦ ⟨rfl, fun id hid ↦ ?_⟩
      rw [renumber, hid]
    · refine himages.imp fun {block image} h ↦ ⟨h.1, fun id hid ↦ ?_⟩
      rw [renumber, hid]
      exact (Option.some.inj h.2).symm
    · rw [compactValues_tableOf hvalues, map_map, length_map]
      exact map_index_kept hcount function.values
    · have hids : (kept keepBlocks function.blocks).map
          (fun block ↦ (⟨.ofNat (rank keepBlocks block.2)⟩ : BlockId)) = blocks.map Block.id := by
        rw [← List.forall₂_eq_eq_eq, List.forall₂_map_left_iff, List.forall₂_map_right_iff]
        exact himages.imp fun {_ _} h ↦ Option.some.inj h.2
      have hindices := congrArg (List.map Id.index) hids
      rw [map_map, map_map] at hindices
      rw [← himages.length_eq]
      exact hindices.symm.trans (map_index_kept hfits.blockNumbers.le function.blocks)
    · have hlength := congrArg List.length hnumbers
      have hindices := congrArg (List.map Id.index) hnumbers
      simp only [length_map, length_range'] at hlength
      rw [map_map, map_map, ← hlength, ← range_eq_range'] at hindices
      refine hindices.trans ((map_congr_left fun index hindex ↦ ?_).trans (map_id _))
      have hlt := mem_range.1 hindex
      have htotal := hfits.instructionNumbers
      exact index_ofNat (hlt.trans_eq hlength) htotal.le
    · exact hvaluesOrdered
    · exact fun left hleft right hright ↦ hvaluesOrdered.injective hleft hright
    · exact hblocksOrdered
    · exact fun left hleft right hright ↦ hblocksOrdered.injective hleft hright

end Function

end Wrela.FlowOpt
