import Wrela.FlowOpt.Pipeline

/-!
# What the removals leave

A removal marks instructions by their identifiers.  As long as the identifiers are dense, a mark
stands for one instruction, and what is left of a function is the images of the others.
-/

namespace Wrela.FlowOpt

open List Wrela.Source Wrela.Flow Wrela.Graph Wrela.Checked Wrela.Ranking

variable {limits : OptimizationLimits} {types : List FlowType} {function image : FlowFunction}

/-- The instructions are numbered through in program order. -/
def InstructionsDense (function : FlowFunction) : Prop :=
  (functionInstructions function).map (·.id.index) =
    List.range (functionInstructions function).length

theorem InstructionsDense.eq_of_index_eq (hdense : InstructionsDense function)
    (hfirst : first ∈ functionInstructions function)
    (hsecond : second ∈ functionInstructions function) (h : first.id.index = second.id.index) :
    first = second := by
  have hnodup : ((functionInstructions function).map (·.id.index)).Nodup := by
    rw [hdense]
    exact nodup_range
  exact inj_on_of_nodup_map hnodup hfirst hsecond h

theorem Mirrors.dense (h : Mirrors function image) (hdense : InstructionsDense function) :
    InstructionsDense image := by
  have hids := h.instructionIds
  have hlength := congrArg List.length hids
  have hindices := congrArg (List.map Id.index) hids
  rw [length_map, length_map] at hlength
  rw [map_map, map_map] at hindices
  rw [InstructionsDense, hlength]
  exact hindices.trans hdense

/-- The same instruction with its values renamed. -/
def ImageOf (rename : ValueId → ValueId) (instruction image : Instruction) : Prop :=
  image = Instruction.image rename instruction image.id

variable {instruction : Instruction} {sink : DecisionSink}

theorem ImageOf.operation {rename : ValueId → ValueId} {image : Instruction}
    (h : ImageOf rename instruction image) :
    image.operation = instruction.operation.mapValues rename :=
  congrArg Instruction.operation h

theorem hasUnlisted_of_images (h : List.Forall₂ (ImageOf rename) instructions images) :
    HasUnlisted images ↔ HasUnlisted instructions :=
  hasUnlisted_of_forall₂ (h.imp fun {_ _} himage ↦ by
    rw [himage.operation, isUnlisted_mapValues])

/-- What compaction says of the instructions of a function. -/
theorem compactFunction_images (h : compactFunction function keepBlocks removed limits = .ok image)
    :
    image.id = function.id ∧ InstructionsDense image ∧
      ∃ rename, List.Forall₂ (ImageOf rename)
        ((kept keepBlocks function.blocks).flatMap fun block ↦
          retainedInstructions removed block.1) (functionInstructions image) := by
  obtain ⟨renameValue, renameBlock, hcompaction⟩ := compaction_of_compactFunction h
  have hid : image.id = function.id := by rw [hcompaction.frame]
  refine ⟨hid, hcompaction.instructionsDense, renameValue, ?_⟩
  exact rel_flatMap hcompaction.blocks fun {_ _} hblock ↦ hblock.1.instructions

variable {removed : List Bool} {progress : Progress}

/-- With all blocks kept, the instructions that are not marked are left. -/
theorem compactFunction_unmarked (hkeep : keepBlocks = List.replicate function.blocks.length true)
    (h : compactFunction function keepBlocks (some removed) limits = .ok image) :
    image.id = function.id ∧ InstructionsDense image ∧
      ∃ rename, List.Forall₂ (ImageOf rename)
        ((functionInstructions function).filter (!isRemoved (some removed) ·))
        (functionInstructions image) := by
  obtain ⟨hid, hdense, rename, himages⟩ := compactFunction_images h
  refine ⟨hid, hdense, rename, ?_⟩
  have hall : keepBlocks.all (·) = true := by
    rw [hkeep]
    simp
  rw [kept_of_all (by rw [hkeep, length_replicate]) hall] at himages
  have hzip : (function.blocks.zipIdx.flatMap fun block ↦
      retainedInstructions (some removed) block.1) =
        function.blocks.flatMap (retainedInstructions (some removed)) := by
    conv_rhs => rw [← zipIdx_map_fst 0 function.blocks, flatMap_map]
  rw [hzip] at himages
  rw [functionInstructions, filter_flatMap]
  exact himages

/-- Every mark is at the identifier of an instruction with the property. -/
def MarksOnly (function : FlowFunction) (p : Instruction → Prop) (removed : List Bool) : Prop :=
  ∀ index, removed.getD index false = true →
    ∃ instruction ∈ functionInstructions function, instruction.id.index = index ∧ p instruction

theorem marksOnly_replicate (function : FlowFunction) (p : Instruction → Prop) (count : ℕ) :
    MarksOnly function p (List.replicate count false) := by
  intro index hindex
  rw [getD_eq_getElem?_getD, List.getElem?_replicate] at hindex
  split at hindex <;> cases hindex

theorem MarksOnly.set (h : MarksOnly function p removed)
    (hmem : instruction ∈ functionInstructions function) (hp : p instruction) :
    MarksOnly function p (removed.set instruction.id.index true) := by
  intro index hindex
  by_cases heq : instruction.id.index = index
  · exact ⟨instruction, hmem, heq, hp⟩
  · refine h index ?_
    rwa [getD_eq_getElem?_getD, List.getElem?_set_ne heq, ← getD_eq_getElem?_getD] at hindex

/-- Where identifiers are dense, a removed instruction has the property. -/
theorem MarksOnly.of_removed (h : MarksOnly function p removed)
    (hdense : InstructionsDense function) (hmem : instruction ∈ functionInstructions function)
    (hremoved : removed.getD instruction.id.index false = true) : p instruction := by
  obtain ⟨other, hother, hindex, hp⟩ := h _ hremoved
  rwa [hdense.eq_of_index_eq hmem hother hindex.symm]

theorem isRemoved_some (removed : List Bool) (instruction : Instruction) :
    isRemoved (some removed) instruction = removed.getD instruction.id.index false := rfl

/-- What is left of a function has unlisted proofs just when a reached block has some. -/
structure Prunes (limits : OptimizationLimits) (function image : FlowFunction) : Prop where
  id : image.id = function.id
  dense : InstructionsDense image
  unlisted : ∃ reachable, reachableBlocks function limits = .ok reachable ∧
    (HasUnlisted (functionInstructions image) ↔
      ∃ block ∈ kept reachable function.blocks, HasUnlisted block.1.instructions)

theorem hasUnlisted_flatMap {α : Type} {each : α → List Instruction} {items : List α} :
    HasUnlisted (items.flatMap each) ↔ ∃ item ∈ items, HasUnlisted (each item) := by
  simp only [HasUnlisted, mem_flatMap]
  constructor
  · rintro ⟨instruction, ⟨item, hitem, hmem⟩, h⟩
    exact ⟨item, hitem, instruction, hmem, h⟩
  · rintro ⟨item, hitem, instruction, hmem, h⟩
    exact ⟨instruction, ⟨item, hitem, hmem⟩, h⟩

theorem eliminateInFunction_prunes {sink' : DecisionSink} {changed : Bool}
    (hdense : InstructionsDense function) (hnone : NoneRetained sink)
    (h : eliminateInFunction limits function sink = .ok (image, sink', changed)) :
    Prunes limits function image ∧ NoneRetained sink' := by
  obtain ⟨reachable, hreachable, h⟩ := bind_eq_ok.1 h
  split at h
  · rename_i hall
    cases h
    refine ⟨⟨rfl, hdense, reachable, hreachable, ?_⟩, hnone⟩
    rw [kept_of_all (reachableBlocks_iff hreachable).1 hall, functionInstructions]
    conv_lhs => rw [← zipIdx_map_fst 0 function.blocks, flatMap_map]
    exact hasUnlisted_flatMap
  · obtain ⟨middle, hrecord, h⟩ := bind_eq_ok.1 h
    obtain ⟨compacted, hcompacted, h⟩ := bind_eq_ok.1 h
    cases h
    obtain ⟨hid, himageDense, rename, himages⟩ := compactFunction_images hcompacted
    refine ⟨⟨hid, himageDense, reachable, hreachable, ?_⟩, ?_⟩
    · rw [hasUnlisted_of_images himages, hasUnlisted_flatMap]
      simp only [retainedInstructions_none]
    · refine foldlM_induction (fun _ sink ↦ NoneRetained sink) hnone ?_ hrecord
      intro done item rest state state' _ hstate hitem
      dsimp only at hitem
      split at hitem
      · cases hitem
        exact hstate
      · obtain ⟨_, -, hitem⟩ := bind_eq_ok.1 hitem
        exact hstate.push (by decide) hitem

theorem eliminateFunctions_prune (hdense : ∀ function ∈ functions, InstructionsDense function)
    (hnone : NoneRetained sink)
    (h : eliminateFunctions limits functions sink = .ok (images, sink', changed)) :
    List.Forall₂ (Prunes limits) functions images ∧ NoneRetained sink' := by
  induction functions generalizing sink images sink' changed with
  | nil =>
    cases h
    exact ⟨.nil, hnone⟩
  | cons function functions ih =>
    obtain ⟨⟨first, middle, firstChanged⟩, hfirst, h⟩ := bind_eq_ok.1 h
    obtain ⟨⟨rest, last, restChanged⟩, hrest, h⟩ := bind_eq_ok.1 h
    cases h
    rw [forall_mem_cons] at hdense
    obtain ⟨hprunes, hmiddle⟩ := eliminateInFunction_prunes hdense.1 hnone hfirst
    obtain ⟨hrests, hlast⟩ := ih hdense.2 hmiddle hrest
    exact ⟨.cons hprunes hrests, hlast⟩

theorem eliminateUnreachableBlocks_prune
    (hdense : ∀ function ∈ wir.functions, InstructionsDense function) (hnone : NoneRetained sink)
    (h : eliminateUnreachableBlocks limits wir sink = .ok (output, progress)) :
    List.Forall₂ (Prunes limits) wir.functions output.functions ∧ NoneRetained progress.1 := by
  obtain ⟨⟨functions, last, changed⟩, hfunctions, h⟩ := bind_eq_ok.1 h
  cases h
  exact eliminateFunctions_prune hdense hnone hfunctions

/-- The unlisted proofs of a function stay. -/
structure KeepsUnlisted (function image : FlowFunction) : Prop where
  id : image.id = function.id
  dense : InstructionsDense image
  unlisted : HasUnlisted (functionInstructions image) ↔ HasUnlisted (functionInstructions function)

theorem Prunes.keeps (h : Prunes limits function middle) (hkeeps : KeepsUnlisted middle image) :
    Prunes limits function image where
  id := hkeeps.id.trans h.id
  dense := hkeeps.dense
  unlisted := by
    obtain ⟨reachable, hreachable, hunlisted⟩ := h.unlisted
    exact ⟨reachable, hreachable, hkeeps.unlisted.trans hunlisted⟩

theorem hasUnlisted_filter
    (h : ∀ instruction ∈ instructions, isUnlisted instruction.operation = true →
      keep instruction = true) :
    HasUnlisted (instructions.filter keep) ↔ HasUnlisted instructions := by
  constructor
  · rintro ⟨instruction, hmem, hunlisted⟩
    exact ⟨instruction, mem_of_mem_filter hmem, hunlisted⟩
  · rintro ⟨instruction, hmem, hunlisted⟩
    exact ⟨instruction, mem_filter.2 ⟨hmem, h instruction hmem hunlisted⟩, hunlisted⟩

theorem removeCheck_marks (hmem : instruction ∈ functionInstructions function)
    (hmarks : MarksOnly function (isUnlisted ·.operation = false) removal.1)
    (hnone : NoneRetained removal.2.1)
    (h : removeCheck limits function constants removal instruction = .ok removal') :
    MarksOnly function (isUnlisted ·.operation = false) removal'.1 ∧ NoneRetained removal'.2.1 := by
  unfold removeCheck at h
  split at h
  · cases h
    exact ⟨hmarks, hnone⟩
  · rename_i proof hcheck
    iterate 2 obtain ⟨_, -, h⟩ := bind_eq_ok.1 h
    obtain ⟨sink, hsink, h⟩ := bind_eq_ok.1 h
    cases h
    refine ⟨hmarks.set hmem ?_, hnone.push (by decide) hsink⟩
    cases hoperation : instruction.operation <;> rw [hoperation] at hcheck <;>
      first | rfl | cases hcheck

theorem removeChecks_keeps (hdense : InstructionsDense function) (hnone : NoneRetained progress.1)
    (h : removeChecks limits types function progress = .ok (image, progress')) :
    KeepsUnlisted function image ∧ NoneRetained progress'.1 := by
  obtain ⟨constants, -, h⟩ := bind_eq_ok.1 h
  obtain ⟨start, hstart, h⟩ := bind_eq_ok.1 h
  obtain ⟨_, -, hstart⟩ := bind_eq_ok.1 hstart
  cases hstart
  obtain ⟨⟨removed, sink, changed⟩, hremoved, h⟩ := bind_eq_ok.1 h
  obtain ⟨hmarks, hsink⟩ := foldlM_induction
    (fun _ (removal : CheckRemoval) ↦
      MarksOnly function (isUnlisted ·.operation = false) removal.1 ∧ NoneRetained removal.2.1)
    ⟨marksOnly_replicate _ _ _, hnone⟩
    (fun done item rest state state' hitems hstate hitem ↦
      removeCheck_marks (by simp [hitems]) hstate.1 hstate.2 hitem) hremoved
  dsimp only at h
  split at h
  · obtain ⟨keepBlocks, hkeep, h⟩ := bind_eq_ok.1 h
    obtain ⟨_, -, hkeep⟩ := bind_eq_ok.1 hkeep
    cases hkeep
    obtain ⟨compacted, hcompacted, h⟩ := bind_eq_ok.1 h
    cases h
    obtain ⟨hid, himageDense, rename, himages⟩ := compactFunction_unmarked rfl hcompacted
    refine ⟨⟨hid, himageDense, ?_⟩, hsink⟩
    rw [hasUnlisted_of_images himages, hasUnlisted_filter]
    intro instruction hmem hunlisted
    rw [isRemoved_some, Bool.not_eq_true', Bool.eq_false_iff]
    intro hremoved
    rw [hmarks.of_removed hdense hmem hremoved] at hunlisted
    cases hunlisted
  · cases h
    exact ⟨⟨rfl, hdense, Iff.rfl⟩, hsink⟩

theorem eliminateProvenTrueChecks_keeps
    (hdense : ∀ function ∈ wir.functions, InstructionsDense function) (hnone : NoneRetained sink)
    (h : eliminateProvenTrueChecks limits wir sink = .ok (output, progress)) :
    List.Forall₂ KeepsUnlisted wir.functions output.functions ∧ NoneRetained progress.1 := by
  obtain ⟨⟨functions, last⟩, hfunctions, h⟩ := bind_eq_ok.1 h
  cases h
  exact threadM_forall₂ (fun progress : Progress ↦ NoneRetained progress.1) hfunctions hnone
    fun function hmem _ _ _ hstate hfunction ↦
      removeChecks_keeps (hdense function hmem) hstate hfunction

end Wrela.FlowOpt

/-!
## What the last pass records

The last pass removes only instructions that rely on no proof, so every instruction with proofs is
left.  For such an instruction it records the proof of its operation, if the operation is of a kind
whose proof it lists.
-/

namespace Wrela.FlowOpt

open List Wrela.Source Wrela.Flow Wrela.Graph Wrela.Checked Wrela.Ranking

variable {limits : OptimizationLimits} {types : List FlowType} {function image : FlowFunction}
  {uses : Uses}

/-- Every location that was noted is that of an instruction with the identifier. -/
def Located (function : FlowFunction) (locations : List (Option (ℕ × ℕ))) : Prop :=
  ∀ index block position, locations.getD index none = some (block, position) →
    ∃ record instruction, function.blocks[block]? = some record ∧
      record.instructions[position]? = some instruction ∧ instruction.id.index = index

variable {instruction : Instruction} {worklist worklist' : Worklist}

theorem Located.set (h : Located function locations)
    (hrecord : function.blocks[block]? = some record)
    (hinstruction : record.instructions[position]? = some instruction) :
    Located function (locations.set instruction.id.index (some (block, position))) := by
  intro index otherBlock otherPosition hindex
  rw [getD_eq_getElem?_getD, List.getElem?_set] at hindex
  split at hindex
  · rename_i heq
    split at hindex
    · cases hindex
      exact ⟨record, instruction, hrecord, hinstruction, heq⟩
    · cases hindex
  · rw [← getD_eq_getElem?_getD] at hindex
    exact h index otherBlock otherPosition hindex

theorem useInstruction_located {uses' : Uses} {block : ℕ} {record : Block}
    {instruction : Instruction × ℕ} (hlocated : Located function uses.locations)
    (hrecord : function.blocks[block]? = some record)
    (hinstruction : instruction ∈ record.instructions.zipIdx)
    (h : useInstruction block uses instruction = .ok uses') :
    Located function uses'.locations := by
  iterate 3 obtain ⟨_, -, h⟩ := bind_eq_ok.1 h
  cases h
  exact hlocated.set hrecord (mem_zipIdx_iff_getElem?.1 hinstruction)

theorem useBlock_located {uses' : Uses} {block : Block × ℕ}
    (hlocated : Located function uses.locations) (hblock : block ∈ function.blocks.zipIdx)
    (h : useBlock uses block = .ok uses') : Located function uses'.locations := by
  obtain ⟨middle, hmiddle, h⟩ := bind_eq_ok.1 h
  obtain ⟨_, -, h⟩ := bind_eq_ok.1 h
  cases h
  exact foldlM_induction (fun _ uses ↦ Located function uses.locations) hlocated
    (fun done item rest state state' hitems hstate hitem ↦
      useInstruction_located hstate (mem_zipIdx_iff_getElem?.1 hblock) (by simp [hitems]) hitem)
    hmiddle

theorem collectUses_located (h : collectUses function limits = .ok uses) :
    Located function uses.locations := by
  iterate 2 obtain ⟨_, -, h⟩ := bind_eq_ok.1 h
  obtain ⟨start, hstart, h⟩ := bind_eq_ok.1 h
  obtain ⟨_, -, hstart⟩ := bind_eq_ok.1 hstart
  cases hstart
  refine foldlM_induction (fun _ uses ↦ Located function uses.locations) ?_
    (fun done item rest state state' hitems hstate hitem ↦
      useBlock_located hstate (by simp [hitems]) hitem) h
  intro index block position hindex
  rw [getD_eq_getElem?_getD, List.getElem?_replicate] at hindex
  split at hindex <;> cases hindex

/-- What is found under an identifier is an instruction with that identifier. -/
theorem instructionAt_eq_ok (hlocated : Located function uses.locations) {id : ℕ}
    (h : instructionAt function uses.locations id = .ok instruction) :
    instruction ∈ functionInstructions function ∧ instruction.id.index = id := by
  obtain ⟨⟨block, position⟩, hlocation, h⟩ := bind_eq_ok.1 h
  rw [orFail_eq_ok] at hlocation
  dsimp only at h
  obtain ⟨record, other, hrecord, hother, hid⟩ := hlocated id block position hlocation
  rw [orFail_eq_ok, hrecord, Option.bind_some, hother] at h
  cases h
  exact ⟨mem_flatMap.2 ⟨record, mem_of_getElem? hrecord, mem_of_getElem? hother⟩, hid⟩

/-- A definition is queued without a mark. -/
theorem queueDefinition_eq_ok
    (h : queueDefinition function types uses worklist operand = .ok worklist') :
    worklist'.removed = worklist.removed ∧
      exploreCost worklist'.queued worklist'.pending =
        exploreCost worklist.queued worklist.pending := by
  unfold queueDefinition at h
  split at h
  · rename_i definition hcount hdefinition
    split at h
    · cases h
    · cases h
      exact ⟨rfl, rfl⟩
    · rename_i hqueued
      split at h
      · cases h
      · cases h
        exact ⟨rfl, rfl⟩
      · cases h
        obtain ⟨hlt, hfalse⟩ := List.getElem?_eq_some_iff.1 hqueued
        have hcost := discover_cost worklist.queued worklist.pending hlt
        rw [discover, if_neg (by simp [hqueued])] at hcost
        exact ⟨rfl, hcost⟩
  · cases h
    exact ⟨rfl, rfl⟩

/-- One turn marks at most the popped instruction, and that only if it may be removed. -/
theorem removeInstruction_eq_ok {id : ℕ} (hlocated : Located function uses.locations)
    (h : removeInstruction function types uses worklist id = .ok worklist')
    (hmarks : MarksOnly function (removableWhenDead function types · = true) worklist.removed) :
    MarksOnly function (removableWhenDead function types · = true) worklist'.removed ∧
      exploreCost worklist'.queued worklist'.pending =
        exploreCost worklist.queued worklist.pending := by
  unfold removeInstruction at h
  split at h
  · cases h
  · cases h
    exact ⟨hmarks, rfl⟩
  · obtain ⟨instruction, hinstruction, h⟩ := bind_eq_ok.1 h
    obtain ⟨dead, hdead, h⟩ := bind_eq_ok.1 h
    split at h
    · rename_i htrue
      rw [htrue] at hdead
      have hremovable : removableWhenDead function types instruction = true := by
        by_contra hnot
        rw [isDead, if_neg hnot] at hdead
        cases hdead
      obtain ⟨counts, -, h⟩ := bind_eq_ok.1 h
      obtain ⟨hmem, rfl⟩ := instructionAt_eq_ok hlocated hinstruction
      have hqueued : worklist'.removed = worklist.removed.set instruction.id.index true ∧
          exploreCost worklist'.queued worklist'.pending =
            exploreCost worklist.queued worklist.pending := by
        refine foldlM_induction (fun _ (state : Worklist) ↦
          state.removed = worklist.removed.set instruction.id.index true ∧
            exploreCost state.queued state.pending =
              exploreCost worklist.queued worklist.pending) ?_ ?_ h
        · exact ⟨rfl, rfl⟩
        · intro done item rest state state' _ hstate hitem
          obtain ⟨hsame, hcost⟩ := queueDefinition_eq_ok hitem
          exact ⟨hsame.trans hstate.1, hcost.trans hstate.2⟩
      obtain ⟨hremoved, hcost⟩ := hqueued
      rw [hremoved]
      exact ⟨hmarks.set hmem hremovable, hcost⟩
    · cases h
      exact ⟨hmarks, rfl⟩

/-- With a turn for every instruction that may still be popped, none is left over. -/
theorem removeTurns_eq_ok (hlocated : Located function uses.locations)
    (hmarks : MarksOnly function (removableWhenDead function types · = true) worklist.removed)
    (hturns : exploreCost worklist.queued worklist.pending ≤ turns)
    (h : removeTurns function types uses turns worklist = .ok worklist') :
    MarksOnly function (removableWhenDead function types · = true) worklist'.removed ∧
      worklist'.pending = [] := by
  induction turns generalizing worklist with
  | zero =>
    cases h
    refine ⟨hmarks, eq_nil_of_length_eq_zero ?_⟩
    unfold exploreCost at hturns
    omega
  | succ turns ih =>
    rw [removeTurns] at h
    cases hlast : worklist.pending.getLast? with
    | none =>
      rw [hlast] at h
      cases h
      exact ⟨hmarks, List.getLast?_eq_none_iff.1 hlast⟩
    | some id =>
      rw [hlast] at h
      obtain ⟨next, hnext, h⟩ := bind_eq_ok.1 h
      obtain ⟨hmarksNext, hcost⟩ := removeInstruction_eq_ok hlocated hnext hmarks
      refine ih hmarksNext ?_ h
      have hpending := congrArg List.length (dropLast_append_getLast? id hlast)
      rw [length_append, length_singleton] at hpending
      unfold exploreCost at hcost hturns ⊢
      dsimp only at hcost
      omega

/-- The worklist is empty at the end, and only instructions that may be removed are marked. -/
theorem removeDead_eq_ok (h : removeDead function types limits = .ok worklist) :
    MarksOnly function (removableWhenDead function types · = true) worklist.removed ∧
      worklist.pending = [] := by
  obtain ⟨uses, huses, h⟩ := bind_eq_ok.1 h
  obtain ⟨removed, hremoved, h⟩ := bind_eq_ok.1 h
  obtain ⟨_, -, hremoved⟩ := bind_eq_ok.1 hremoved
  cases hremoved
  obtain ⟨start, hstart, h⟩ := bind_eq_ok.1 h
  refine removeTurns_eq_ok (collectUses_located huses) ?_ le_rfl h
  have hsame : start.removed = List.replicate (functionInstructionCount function) false := by
    refine foldlM_induction (fun _ (state : Worklist) ↦ state.removed = _) rfl ?_ hstart
    intro done item rest state state' _ hstate hitem
    obtain ⟨dead, -, hitem⟩ := bind_eq_ok.1 hitem
    split at hitem <;> cases hitem <;> exact hstate
  rw [hsame]
  exact marksOnly_replicate _ _ _

theorem carriedProofs_of_removable (h : removableWhenDead function types instruction = true) :
    carriedProofs instruction.operation = [] := by
  simp only [removableWhenDead, Option.any_eq_true, Bool.and_eq_true] at h
  obtain ⟨_, -, _, -, -, hoperation⟩ := h
  cases hkind : instruction.operation <;> rw [hkind] at hoperation <;>
    first | rfl | cases hoperation

/-- What is recorded of some instructions, each given with the identifier of its function. -/
structure Records (items : List (FunctionId × Instruction))
    (added : List OptimizationDecision) : Prop where
  about : ∀ decision ∈ added, decision.kind = .retained → ∃ item ∈ items,
    decision.subject = instructionSubject item.1 item.2.id ∧
      decision.reliedOn = (listedProof item.2.operation).toList
  listed : ∀ item ∈ items, ∀ proof, listedProof item.2.operation = some proof →
    ∃ decision ∈ added, decision.kind = .retained ∧
      decision.subject = instructionSubject item.1 item.2.id ∧ decision.reliedOn = [proof]

theorem Records.nil : Records [] [] :=
  ⟨fun _ h ↦ absurd h not_mem_nil, fun _ h ↦ absurd h not_mem_nil⟩

theorem Records.append (h : Records items added) (hrest : Records others rest) :
    Records (items ++ others) (added ++ rest) where
  about decision hdecision hkind := by
    rcases mem_append.1 hdecision with hdecision | hdecision
    · obtain ⟨item, hitem, habout⟩ := h.about decision hdecision hkind
      exact ⟨item, mem_append_left _ hitem, habout⟩
    · obtain ⟨item, hitem, habout⟩ := hrest.about decision hdecision hkind
      exact ⟨item, mem_append_right _ hitem, habout⟩
  listed item hitem proof hproof := by
    rcases mem_append.1 hitem with hitem | hitem
    · obtain ⟨decision, hdecision, hlisted⟩ := h.listed item hitem proof hproof
      exact ⟨decision, mem_append_left _ hdecision, hlisted⟩
    · obtain ⟨decision, hdecision, hlisted⟩ := hrest.listed item hitem proof hproof
      exact ⟨decision, mem_append_right _ hdecision, hlisted⟩

/-- Nothing retained is recorded of an instruction without a listed proof, or only that it stays. -/
theorem records_unlisted (hproof : listedProof item.2.operation = none)
    (h : ∀ decision ∈ added, decision.kind = .retained →
      decision.subject = instructionSubject item.1 item.2.id ∧ decision.reliedOn = []) :
    Records [item] added where
  about decision hdecision hkind := by
    obtain ⟨hsubject, hrelied⟩ := h decision hdecision hkind
    exact ⟨item, mem_singleton_self _, hsubject, by rw [hrelied, hproof]; rfl⟩
  listed other hother proof hlisted := by
    rw [mem_singleton.1 hother, hproof] at hlisted
    cases hlisted

theorem recordUnproven_records (hproof : listedProof instruction.operation = none)
    (h : recordUnproven function types limits counts sink instruction = .ok sink') :
    ∃ added, sink'.decisions = sink.decisions ++ added ∧
      Records [(function.id, instruction)] added := by
  have hnothing : Records [(function.id, instruction)] [] :=
    records_unlisted hproof fun _ hdecision ↦ absurd hdecision not_mem_nil
  unfold recordUnproven at h
  split at h
  · cases h
    exact ⟨[], (append_nil _).symm, hnothing⟩
  · obtain ⟨dead, -, h⟩ := bind_eq_ok.1 h
    split at h
    · refine ⟨_, push_eq_ok h, records_unlisted hproof ?_⟩
      rintro decision hdecision -
      rw [mem_singleton.1 hdecision]
      exact ⟨rfl, rfl⟩
    · cases h
      exact ⟨[], (append_nil _).symm, hnothing⟩

theorem recordInstruction_records
    (hremoved : worklist.removed.getD instruction.id.index false = true →
      listedProof instruction.operation = none)
    (h : recordInstruction function types limits worklist sink instruction = .ok sink') :
    ∃ added, sink'.decisions = sink.decisions ++ added ∧
      Records [(function.id, instruction)] added := by
  unfold recordInstruction at h
  split at h
  · rename_i hmark
    refine ⟨_, push_eq_ok h, records_unlisted (hremoved hmark) ?_⟩
    intro decision hdecision hkind
    rw [mem_singleton.1 hdecision] at hkind
    cases hkind
  · obtain ⟨proofs, hproofs, h⟩ := bind_eq_ok.1 h
    obtain ⟨_, -, hproofs⟩ := bind_eq_ok.1 hproofs
    cases hproofs
    cases hproof : listedProof instruction.operation with
    | none =>
      rw [hproof, Option.toList_none, isEmpty_nil, if_pos rfl] at h
      exact recordUnproven_records hproof h
    | some proof =>
      rw [hproof, Option.toList_some, isEmpty_cons, if_neg Bool.false_ne_true] at h
      refine ⟨_, push_eq_ok h, ?_, ?_⟩
      · rintro decision hdecision -
        rw [mem_singleton.1 hdecision]
        exact ⟨_, mem_singleton_self _, rfl, by rw [hproof]; rfl⟩
      · intro item hitem other hother
        rw [mem_singleton.1 hitem] at hother ⊢
        rw [hproof, Option.some.injEq] at hother
        exact ⟨_, mem_singleton_self _, rfl, rfl, by rw [hother]⟩

/-- The instructions of a function, each with the identifier of the function. -/
def functionItems (function : FlowFunction) : List (FunctionId × Instruction) :=
  (functionInstructions function).map fun instruction ↦ (function.id, instruction)

/-- The instructions that carry proofs. -/
def proofCarriers (function : FlowFunction) : List Instruction :=
  (functionInstructions function).filter fun instruction ↦
    !(carriedProofs instruction.operation).isEmpty

/-- Exactly the instructions with proofs of one function are left in another. -/
def KeepsCarriers (function image : FlowFunction) : Prop :=
  image.id = function.id ∧
    ∃ rename, List.Forall₂ (ImageOf rename) (proofCarriers function) (proofCarriers image)

theorem keepsCarriers_refl (function : FlowFunction) : KeepsCarriers function function := by
  refine ⟨rfl, id, List.forall₂_same.2 fun instruction _ ↦ ?_⟩
  rw [ImageOf, Instruction.image, FlowOperation.mapValues_id, map_id]

/-- Removing instructions without proofs keeps those with proofs. -/
theorem keepsCarriers_of_unmarked (hid : image.id = function.id)
    (hkeep : ∀ instruction ∈ functionInstructions function,
      carriedProofs instruction.operation ≠ [] → keep instruction = true)
    (h : List.Forall₂ (ImageOf rename) ((functionInstructions function).filter keep)
      (functionInstructions image)) : KeepsCarriers function image := by
  have hcarriers : ((functionInstructions function).filter keep).filter
      (fun instruction ↦ !(carriedProofs instruction.operation).isEmpty) =
        proofCarriers function := by
    rw [filter_filter]
    refine filter_congr fun instruction hmem ↦ ?_
    cases hempty : (carriedProofs instruction.operation).isEmpty with
    | true => rfl
    | false => exact hkeep instruction hmem (isEmpty_eq_false_iff.1 hempty)
  refine ⟨hid, rename, hcarriers ▸ rel_filter (fun {_ _} himage ↦ ?_) h⟩
  dsimp only
  rw [himage.operation, carriedProofs_mapValues]

variable {progress : Progress}

theorem removeDeadInstructions_records (hdense : InstructionsDense function)
    (h : removeDeadInstructions limits types function progress = .ok (image, progress')) :
    KeepsCarriers function image ∧ ∃ added,
      progress'.1.decisions = progress.1.decisions ++ added ∧
        Records (functionItems function) added := by
  obtain ⟨worklist, hworklist, h⟩ := bind_eq_ok.1 h
  obtain ⟨sink, hsink, h⟩ := bind_eq_ok.1 h
  have hremoved {instruction : Instruction} (hmem : instruction ∈ functionInstructions function)
      (hmark : worklist.removed.getD instruction.id.index false = true) :
      carriedProofs instruction.operation = [] :=
    carriedProofs_of_removable ((removeDead_eq_ok hworklist).1.of_removed hdense hmem hmark)
  have hrecords : ∃ added, sink.decisions = progress.1.decisions ++ added ∧
      Records (functionItems function) added := by
    refine foldlM_induction (fun done (sink : DecisionSink) ↦ ∃ added,
      sink.decisions = progress.1.decisions ++ added ∧
        Records (done.map fun instruction ↦ (function.id, instruction)) added) ?_ ?_ hsink
    · exact ⟨[], (append_nil _).symm, .nil⟩
    · rintro done instruction rest state state' hitems ⟨added, hadded, hrecords⟩ hitem
      have hmem : instruction ∈ functionInstructions function := by simp [hitems]
      have hnone (hmark : worklist.removed.getD instruction.id.index false = true) :
          listedProof instruction.operation = none := by
        cases hunlisted : isUnlisted instruction.operation with
        | true => exact (unlisted_omits hunlisted).1
        | false =>
          have hcarried := hremoved hmem hmark
          rw [carriedProofs_of_listed hunlisted] at hcarried
          exact Option.toList_eq_nil_iff.1 hcarried
      obtain ⟨more, hmore, hrecord⟩ := recordInstruction_records hnone hitem
      refine ⟨added ++ more, ?_, ?_⟩
      · rw [hmore, hadded, append_assoc]
      · rw [map_append]
        exact hrecords.append hrecord
  split at h
  · obtain ⟨keepBlocks, hkeep, h⟩ := bind_eq_ok.1 h
    obtain ⟨_, -, hkeep⟩ := bind_eq_ok.1 hkeep
    cases hkeep
    obtain ⟨compacted, hcompacted, h⟩ := bind_eq_ok.1 h
    cases h
    obtain ⟨hid, -, rename, himages⟩ := compactFunction_unmarked rfl hcompacted
    refine ⟨keepsCarriers_of_unmarked hid (fun instruction hmem hcarried ↦ ?_) himages, hrecords⟩
    rw [isRemoved_some, Bool.not_eq_true', Bool.eq_false_iff]
    exact fun hmark ↦ hcarried (hremoved hmem hmark)
  · cases h
    exact ⟨keepsCarriers_refl function, hrecords⟩

theorem removeDeadInstructions_all_record
    (hdense : ∀ function ∈ functions, InstructionsDense function)
    (h : threadM (removeDeadInstructions limits types) functions progress =
      .ok (images, progress')) :
    List.Forall₂ KeepsCarriers functions images ∧ ∃ added,
      progress'.1.decisions = progress.1.decisions ++ added ∧
        Records (functions.flatMap functionItems) added := by
  induction functions generalizing progress images with
  | nil =>
    cases h
    exact ⟨.nil, [], (append_nil _).symm, .nil⟩
  | cons function functions ih =>
    obtain ⟨⟨image, middle⟩, himage, h⟩ := bind_eq_ok.1 h
    obtain ⟨⟨rest, final⟩, hrest, h⟩ := bind_eq_ok.1 h
    cases h
    rw [forall_mem_cons] at hdense
    obtain ⟨hkeeps, added, hadded, hrecords⟩ := removeDeadInstructions_records hdense.1 himage
    obtain ⟨hrests, more, hmore, hothers⟩ := ih hdense.2 hrest
    refine ⟨.cons hkeeps hrests, added ++ more, ?_, ?_⟩
    · rw [hmore, hadded, append_assoc]
    · rw [flatMap_cons]
      exact hrecords.append hothers

/-- The last pass keeps the instructions with proofs and records those it lists. -/
theorem eliminateDeadPureInstructions_records
    (hdense : ∀ function ∈ wir.functions, InstructionsDense function)
    (h : eliminateDeadPureInstructions limits wir sink = .ok (output, progress)) :
    List.Forall₂ KeepsCarriers wir.functions output.functions ∧ ∃ added,
      progress.1.decisions = sink.decisions ++ added ∧
        Records (wir.functions.flatMap functionItems) added := by
  obtain ⟨⟨images, last⟩, hfunctions, h⟩ := bind_eq_ok.1 h
  cases h
  exact removeDeadInstructions_all_record hdense hfunctions

end Wrela.FlowOpt
