import Wrela.FlowOpt.CompactionLaws

/-!
# When compaction succeeds

Compaction succeeds just when what is retained refers only to what is retained and the limits hold.
Whatever it makes of a function is then the renamed retained part of the function.
-/

namespace Wrela.FlowOpt

open List Wrela.Source Wrela.Flow Wrela.Checked Wrela.Ranking

variable {values : IdMap .value} {blocks : IdMap .block} {removed : Option (List Bool)}
  {limits : OptimizationLimits}

/-- The table has an entry for the value. -/
def Mapped (values : IdMap .value) (value : ValueId) : Prop :=
  ∃ image, mapValue values value = .ok image

theorem mapValueSlice_mapped (h : mapValueSlice values arguments = .ok images) :
    ∀ value ∈ arguments, Mapped values value :=
  fun _ hvalue ↦ exists_result_of_mapM h hvalue

theorem mapOne_mapped {α : Type} {build : ValueId → α} {value : ValueId} {result : α}
    (h : mapOne values build value = .ok result) : ∀ other ∈ [value], Mapped values other := by
  obtain ⟨image, himage, -⟩ := bind_eq_ok.1 h
  exact forall_mem_singleton.2 ⟨image, himage⟩

theorem mapTwo_mapped {α : Type} {build : ValueId → ValueId → α} {first second : ValueId}
    {result : α} (h : mapTwo values build first second = .ok result) :
    ∀ other ∈ [first, second], Mapped values other := by
  obtain ⟨image, himage, hrest⟩ := bind_eq_ok.1 h
  obtain ⟨other, hother, -⟩ := bind_eq_ok.1 hrest
  exact forall_mem_cons.2 ⟨⟨image, himage⟩, forall_mem_singleton.2 ⟨other, hother⟩⟩

theorem mapMany_mapped {α : Type} {build : List ValueId → α} {arguments : List ValueId} {result : α}
    (h : mapMany values build arguments = .ok result) :
    ∀ value ∈ arguments, Mapped values value := by
  obtain ⟨images, himages, -⟩ := bind_eq_ok.1 h
  exact mapValueSlice_mapped himages

theorem mapPart_mapped {part image : BoundedStringPart} (h : mapPart values part = .ok image) :
    ∀ value ∈ part.values, Mapped values value := by
  cases part with
  | text => exact fun _ hvalue ↦ absurd hvalue not_mem_nil
  | _ =>
    obtain ⟨image, himage, -⟩ := bind_eq_ok.1 h
    exact forall_mem_singleton.2 ⟨image, himage⟩

/-- An operation is only mapped when every value it reads has an entry. -/
theorem mapOperationValues_mapped {operation image : FlowOperation}
    (h : mapOperationValues values operation = .ok image) :
    ∀ value ∈ operation.values, Mapped values value := by
  cases operation
  case formatBoundedString ty parts =>
    obtain ⟨images, himages, -⟩ := bind_eq_ok.1 h
    intro value hvalue
    obtain ⟨part, hpart, hvalue⟩ := mem_flatMap.1 hvalue
    obtain ⟨image, himage⟩ := exists_result_of_mapM himages hpart
    exact mapPart_mapped himage value hvalue
  case makeEnum ty variant payload =>
    cases payload with
    | none => exact fun _ hvalue ↦ absurd hvalue not_mem_nil
    | some payload => exact mapOne_mapped h
  case actorCommit | taskStart =>
    obtain ⟨image, himage, hrest⟩ := bind_eq_ok.1 h
    exact forall_mem_cons.2 ⟨⟨image, himage⟩, mapMany_mapped hrest⟩
  case select condition thenValue elseValue =>
    obtain ⟨image, himage, hrest⟩ := bind_eq_ok.1 h
    exact forall_mem_cons.2 ⟨⟨image, himage⟩, mapTwo_mapped hrest⟩
  all_goals first
    | exact fun _ hvalue ↦ absurd hvalue not_mem_nil
    | exact mapOne_mapped h
    | exact mapTwo_mapped h
    | exact mapMany_mapped h

/-- A terminator is only mapped when everything it refers to has an entry. -/
theorem mapTerminator_mapped (h : mapTerminator values blocks terminator = .ok image) :
    (∀ value ∈ terminator.values, Mapped values value) ∧
      ∀ edge ∈ terminator.edges, ∃ target, mapBlock blocks edge.1 = .ok target := by
  cases terminator with
  | jump target arguments =>
    obtain ⟨image, htarget, h⟩ := bind_eq_ok.1 h
    obtain ⟨images, harguments, -⟩ := bind_eq_ok.1 h
    exact ⟨mapValueSlice_mapped harguments, forall_mem_singleton.2 ⟨image, htarget⟩⟩
  | branch condition thenBlock thenArguments elseBlock elseArguments =>
    obtain ⟨value, hcondition, h⟩ := bind_eq_ok.1 h
    obtain ⟨first, hthen, h⟩ := bind_eq_ok.1 h
    obtain ⟨second, helse, h⟩ := bind_eq_ok.1 h
    obtain ⟨_, hthenArguments, h⟩ := bind_eq_ok.1 h
    obtain ⟨_, helseArguments, -⟩ := bind_eq_ok.1 h
    refine ⟨forall_mem_cons.2 ⟨⟨value, hcondition⟩, forall_mem_append.2
      ⟨mapValueSlice_mapped hthenArguments, mapValueSlice_mapped helseArguments⟩⟩, ?_⟩
    exact forall_mem_cons.2 ⟨⟨first, hthen⟩, forall_mem_singleton.2 ⟨second, helse⟩⟩
  | switch value cases default defaultArguments =>
    obtain ⟨image, hvalue, h⟩ := bind_eq_ok.1 h
    obtain ⟨_, hcases, h⟩ := bind_eq_ok.1 h
    obtain ⟨target, hdefault, h⟩ := bind_eq_ok.1 h
    obtain ⟨_, harguments, -⟩ := bind_eq_ok.1 h
    have hcase {case : SwitchCase} (hmem : case ∈ cases) :
        (∃ target, mapBlock blocks case.target = .ok target) ∧
          ∀ value ∈ case.arguments, Mapped values value := by
      obtain ⟨_, hresult⟩ := exists_result_of_mapM hcases hmem
      obtain ⟨target, htarget, hresult⟩ := bind_eq_ok.1 hresult
      obtain ⟨_, harguments, -⟩ := bind_eq_ok.1 hresult
      exact ⟨⟨target, htarget⟩, mapValueSlice_mapped harguments⟩
    constructor
    · refine forall_mem_cons.2 ⟨⟨image, hvalue⟩,
        forall_mem_append.2 ⟨fun other hother ↦ ?_, mapValueSlice_mapped harguments⟩⟩
      obtain ⟨case, hmem, hother⟩ := mem_flatMap.1 hother
      exact (hcase hmem).2 other hother
    · refine forall_mem_append.2 ⟨fun edge hedge ↦ ?_, forall_mem_singleton.2 ⟨target, hdefault⟩⟩
      obtain ⟨case, hmem, rfl⟩ := mem_map.1 hedge
      exact (hcase hmem).1
  | «return» arguments | tailCall _ arguments =>
    obtain ⟨_, harguments, -⟩ := bind_eq_ok.1 h
    exact ⟨mapValueSlice_mapped harguments, fun _ hedge ↦ absurd hedge not_mem_nil⟩
  | suspend state activation resume =>
    obtain ⟨target, hresume, h⟩ := bind_eq_ok.1 h
    obtain ⟨value, hactivation, -⟩ := bind_eq_ok.1 h
    exact ⟨forall_mem_singleton.2 ⟨value, hactivation⟩, forall_mem_singleton.2 ⟨target, hresume⟩⟩
  | trap failure detail =>
    refine ⟨?_, fun _ hedge ↦ absurd hedge not_mem_nil⟩
    cases detail with
    | none => exact fun _ hvalue ↦ absurd hvalue not_mem_nil
    | some detail =>
      obtain ⟨value, hdetail, -⟩ := bind_eq_ok.1 h
      exact forall_mem_singleton.2 ⟨value, hdetail⟩
  | unreachable =>
    exact ⟨fun _ hvalue ↦ absurd hvalue not_mem_nil, fun _ hedge ↦ absurd hedge not_mem_nil⟩

/-- A loop that succeeds has recorded values in range, when each of its steps has. -/
theorem foldlM_records {α : Type} {step : List Bool → α → Except OptimizeError (List Bool)}
    {each : α → List ValueId} {size : ℕ} {items : List α}
    (hstep : ∀ item ∈ items, ∀ keep after, keep.length = size → step keep item = .ok after →
      after.length = size ∧ ∀ value ∈ each item, value.index < size)
    {keep after : List Bool} (hlength : keep.length = size)
    (h : items.foldlM step keep = .ok after) :
    after.length = size ∧ ∀ value ∈ items.flatMap each, value.index < size := by
  refine foldlM_induction
    (fun done keep ↦ keep.length = size ∧ ∀ value ∈ done.flatMap each, value.index < size)
    ⟨hlength, by simp⟩ ?_ h
  intro done item rest keep after hitems hdone hitem
  obtain ⟨hsize, hvalues⟩ := hstep item (by simp [hitems]) keep after hdone.1 hitem
  refine ⟨hsize, ?_⟩
  rw [flatMap_append, flatMap_singleton]
  exact forall_mem_append.2 ⟨hdone.2, hvalues⟩

theorem foldlM_markValue_records {context : String} {arguments : List ValueId}
    {keep after : List Bool} (h : arguments.foldlM (markValue context) keep = .ok after) :
    after.length = keep.length ∧ ∀ value ∈ arguments, value.index < keep.length := by
  have hrecords := @foldlM_records ValueId (markValue context) (fun value ↦ [value]) keep.length
    arguments (fun value _ marks marked hlength hmark ↦ by
      obtain ⟨_, hlt, hmark⟩ := bind_eq_ok.1 hmark
      rw [ensure_eq_ok, decide_eq_true_eq, hlength] at hlt
      cases hmark
      exact ⟨by simpa using hlength, forall_mem_singleton.2 hlt⟩) keep after rfl h
  simpa [flatMap_singleton'] using hrecords

theorem markInstruction_records {instruction : Instruction} {keep after : List Bool}
    (h : markInstruction removed keep instruction = .ok after) :
    after.length = keep.length ∧
      ∀ value ∈ (if !isRemoved removed instruction then instruction.results else []),
        value.index < keep.length := by
  rw [markInstruction] at h
  cases hremoved : isRemoved removed instruction with
  | true =>
    rw [hremoved] at h
    cases h
    exact ⟨rfl, fun _ hvalue ↦ absurd hvalue not_mem_nil⟩
  | false =>
    rw [hremoved] at h
    exact foldlM_markValue_records h

theorem markBlock_records {block : Block × Bool} {keep after : List Bool}
    (h : markBlock removed keep block = .ok after) :
    after.length = keep.length ∧
      ∀ value ∈ (if block.2 then blockDefinitions removed block.1 else []),
        value.index < keep.length := by
  obtain ⟨block, mark⟩ := block
  cases mark with
  | false =>
    cases h
    exact ⟨rfl, fun _ hvalue ↦ absurd hvalue not_mem_nil⟩
  | true =>
    obtain ⟨middle, hparameters, hinstructions⟩ := bind_eq_ok.1 h
    obtain ⟨hmiddle, hfirst⟩ := foldlM_markValue_records hparameters
    obtain ⟨hafter, hsecond⟩ := foldlM_records (fun instruction _ marks marked hlength hmark ↦
      hlength ▸ markInstruction_records hmark) hmiddle hinstructions
    rw [flatMap_ite] at hsecond
    exact ⟨hafter, forall_mem_append.2 ⟨hfirst, hsecond⟩⟩

theorem keepValues_records {function : FlowFunction} {keepBlocks keep : List Bool}
    (hlength : keepBlocks.length = function.blocks.length)
    (h : keepValues function keepBlocks removed limits = .ok keep) :
    function.values.length ≤ limits.values.toNat ∧
      ∀ value ∈ retainedDefinitions function keepBlocks removed,
        value.index < function.values.length := by
  obtain ⟨start, hstart, h⟩ := bind_eq_ok.1 h
  obtain ⟨_, hlimit, hstart⟩ := bind_eq_ok.1 hstart
  cases hstart
  obtain ⟨middle, hparameters, hblocks⟩ := bind_eq_ok.1 h
  obtain ⟨hmiddle, hfirst⟩ := foldlM_markValue_records hparameters
  rw [length_replicate] at hmiddle hfirst
  obtain ⟨-, hsecond⟩ := foldlM_records (fun block _ marks marked hsize hmark ↦
    hsize ▸ markBlock_records hmark) hmiddle hblocks
  rw [flatMap_zip_kept (blockDefinitions removed) hlength] at hsecond
  exact ⟨reserveItems_eq_ok.1 hlimit, forall_mem_append.2 ⟨hfirst, hsecond⟩⟩

/-- The counter of the blocks has stayed within its width. -/
theorem blockMap_count {keep : List Bool} {map : IdMap .block}
    (h : blockMap keep limits = .ok map) : keep.count true < 2 ^ 32 := by
  have hgoes (keep : List Bool) (next : ℕ) (map : IdMap .block) (hnext : next < 2 ^ 32)
      (h : numberRetained (fun next ↦ next + 1 < 2 ^ 32)
        (.resourceLimit "FlowWir blocks" limits.blocks) keep next = .ok map) :
      next + keep.count true < 2 ^ 32 := by
    induction keep generalizing next map with
    | nil => exact hnext
    | cons mark keep ih =>
      cases mark with
      | false =>
        obtain ⟨rest, hrest, -⟩ := bind_eq_ok.1 h
        simpa using ih next rest hnext hrest
      | true =>
        obtain ⟨_, hfits, h⟩ := bind_eq_ok.1 h
        obtain ⟨rest, hrest, -⟩ := bind_eq_ok.1 h
        rw [ensure_eq_ok, decide_eq_true_eq] at hfits
        have hcount := ih (next + 1) rest hfits hrest
        rw [count_cons_self]
        omega
  simpa using hgoes keep 0 map (by norm_num) h

/-- What a retained block refers to has been found in the tables. -/
structure BlockMapped (values : IdMap .value) (blocks : IdMap .block)
    (removed : Option (List Bool)) (limits : OptimizationLimits) (block : Block) : Prop where
  operands : ∀ instruction ∈ retainedInstructions removed block,
    ∀ value ∈ instruction.operation.values, Mapped values value
  terminator : ∀ value ∈ block.terminator.values, Mapped values value
  edges : ∀ edge ∈ block.terminator.edges, ∃ target, mapBlock blocks edge.1 = .ok target
  limit : (retainedInstructions removed block).length ≤ limits.instructions.toNat

theorem compactInstructions_mapped {instructions images : List Instruction} {next last : ℕ}
    (hnext : next < 2 ^ 32)
    (h : compactInstructions values removed limits instructions next = .ok (images, last)) :
    (∀ instruction ∈ instructions.filter (!isRemoved removed ·),
      ∀ value ∈ instruction.operation.values, Mapped values value) ∧
      last = next + (instructions.filter (!isRemoved removed ·)).length ∧ last < 2 ^ 32 := by
  induction instructions generalizing next images with
  | nil =>
    cases h
    exact ⟨fun _ hmem ↦ absurd hmem not_mem_nil, rfl, hnext⟩
  | cons instruction instructions ih =>
    rw [compactInstructions] at h
    rw [filter_cons]
    cases hremoved : isRemoved removed instruction with
    | true =>
      rw [hremoved] at h
      exact ih hnext h
    | false =>
      rw [hremoved, if_neg Bool.false_ne_true] at h
      obtain ⟨_, hfits, h⟩ := bind_eq_ok.1 h
      obtain ⟨_, -, h⟩ := bind_eq_ok.1 h
      obtain ⟨image, himage, h⟩ := bind_eq_ok.1 h
      obtain ⟨⟨rest, final⟩, hrest, h⟩ := bind_eq_ok.1 h
      cases h
      rw [ensure_eq_ok, decide_eq_true_eq] at hfits
      obtain ⟨hmapped, hlast, hlt⟩ := ih hfits hrest
      refine ⟨forall_mem_cons.2 ⟨mapOperationValues_mapped himage, hmapped⟩, ?_, hlt⟩
      rw [Bool.not_false, if_pos rfl, length_cons]
      omega

theorem compactBlock_mapped {block image : Block} {id : Option BlockId} {next last : ℕ}
    (hnext : next < 2 ^ 32)
    (h : compactBlock values blocks removed limits block id next = .ok (image, last)) :
    BlockMapped values blocks removed limits block ∧
      last = next + (retainedInstructions removed block).length ∧ last < 2 ^ 32 := by
  iterate 2 obtain ⟨_, -, h⟩ := bind_eq_ok.1 h
  obtain ⟨_, hlimit, h⟩ := bind_eq_ok.1 h
  obtain ⟨⟨instructions, final⟩, hinstructions, h⟩ := bind_eq_ok.1 h
  obtain ⟨terminator, hterminator, h⟩ := bind_eq_ok.1 h
  cases h
  obtain ⟨hoperands, hlast, hlt⟩ := compactInstructions_mapped hnext hinstructions
  obtain ⟨hvalues, hedges⟩ := mapTerminator_mapped hterminator
  exact ⟨⟨hoperands, hvalues, hedges, reserveItems_eq_ok.1 hlimit⟩, hlast, hlt⟩

theorem compactBlocks_mapped {items : List (Block × Bool × Option BlockId)} {next : ℕ}
    {images : List Block} (hnext : next < 2 ^ 32)
    (h : compactBlocks values blocks removed limits items next = .ok images) :
    (∀ item ∈ items.filter (·.2.1), BlockMapped values blocks removed limits item.1) ∧
      next + ((items.filter (·.2.1)).map fun item ↦
        (retainedInstructions removed item.1).length).sum < 2 ^ 32 := by
  induction items generalizing next images with
  | nil => exact ⟨fun _ hmem ↦ absurd hmem not_mem_nil, hnext⟩
  | cons item items ih =>
    obtain ⟨block, mark, id⟩ := item
    cases mark with
    | false => exact ih hnext h
    | true =>
      rw [compactBlocks, if_pos rfl] at h
      obtain ⟨⟨image, middle⟩, himage, h⟩ := bind_eq_ok.1 h
      obtain ⟨rest, hrest, -⟩ := bind_eq_ok.1 h
      obtain ⟨hblock, hmiddle, hlt⟩ := compactBlock_mapped hnext himage
      obtain ⟨hmapped, htotal⟩ := ih hlt hrest
      refine ⟨forall_mem_cons.2 ⟨hblock, hmapped⟩, ?_⟩
      rw [filter_cons_of_pos rfl, map_cons, sum_cons, ← Nat.add_assoc, ← hmiddle]
      exact htotal

section Function

variable {function compacted : FlowFunction} {keepBlocks : List Bool}

theorem keptBlock_of_mapped (h : ∃ target, mapBlock (tableOf keepBlocks) block = .ok target) :
    keepBlocks.getD block.index false = true := by
  obtain ⟨target, htarget⟩ := h
  rw [mapBlock, orFail_eq_ok, getD_tableOf] at htarget
  by_contra hdropped
  rw [if_neg hdropped] at htarget
  cases htarget

theorem mem_of_mapped (hrecords : ∀ value ∈ retainedDefinitions function keepBlocks removed,
    value.index < function.values.length)
    (h : Mapped (tableOf (keptValues function keepBlocks removed)) value) :
    value ∈ retainedDefinitions function keepBlocks removed := by
  obtain ⟨image, himage⟩ := h
  rw [mapValue, orFail_eq_ok, getD_tableOf] at himage
  by_cases hkept : (keptValues function keepBlocks removed).getD value.index false = true
  · obtain ⟨other, hother, hindex⟩ := (getD_keptValues hrecords).1 hkept
    rwa [← eq_of_index_eq hindex]
  · rw [if_neg hkept] at himage
    cases himage

theorem closed_of_compactFunction
    (h : compactFunction function keepBlocks removed limits = .ok compacted) :
    Closed function keepBlocks removed ∧ CompactionFits function keepBlocks removed limits := by
  obtain ⟨_, hlength, h⟩ := bind_eq_ok.1 h
  rw [ensure_eq_ok, beq_iff_eq] at hlength
  obtain ⟨_, hblocksLimit, h⟩ := bind_eq_ok.1 h
  obtain ⟨blockIds, hblockIds, h⟩ := bind_eq_ok.1 h
  have hcount := blockMap_count hblockIds
  obtain rfl : tableOf keepBlocks = blockIds :=
    Except.ok.inj ((blockMap_eq_ok hcount).symm.trans hblockIds)
  obtain ⟨keep, hkeep, h⟩ := bind_eq_ok.1 h
  obtain ⟨hvaluesLimit, hrecords⟩ := keepValues_records hlength hkeep
  obtain rfl : keptValues function keepBlocks removed = keep :=
    Except.ok.inj ((keepValues_eq_ok hrecords hlength hvaluesLimit).symm.trans hkeep)
  iterate 3 obtain ⟨_, -, h⟩ := bind_eq_ok.1 h
  obtain ⟨valueIds, hvalueIds, h⟩ := bind_eq_ok.1 h
  obtain rfl : tableOf (keptValues function keepBlocks removed) = valueIds :=
    Except.ok.inj ((valueMap_eq_ok (count_keptValues hrecords)).symm.trans hvalueIds)
  obtain ⟨_, -, h⟩ := bind_eq_ok.1 h
  obtain ⟨entry, hentry, h⟩ := bind_eq_ok.1 h
  iterate 2 obtain ⟨_, -, h⟩ := bind_eq_ok.1 h
  obtain ⟨images, himages, -⟩ := bind_eq_ok.1 h
  obtain ⟨hmapped, htotal⟩ := compactBlocks_mapped (by norm_num) himages
  rw [zip_tableOf hlength, forall_mem_map] at hmapped
  rw [zip_tableOf hlength, map_map, Nat.zero_add] at htotal
  refine ⟨⟨hlength, keptBlock_of_mapped ⟨entry, hentry⟩, hrecords, ?_, ?_, ?_⟩,
    ⟨reserveItems_eq_ok.1 hblocksLimit, hvaluesLimit, fun block hblock ↦ (hmapped block hblock).limit,
      hcount, htotal⟩⟩
  · exact fun block hblock instruction hinstruction value hvalue ↦ mem_of_mapped hrecords
      ((hmapped block hblock).operands instruction hinstruction value hvalue)
  · exact fun block hblock value hvalue ↦
      mem_of_mapped hrecords ((hmapped block hblock).terminator value hvalue)
  · exact fun block hblock edge hedge ↦ keptBlock_of_mapped ((hmapped block hblock).edges edge hedge)

/-- Whatever compaction makes of a function is its renamed retained part. -/
theorem compaction_of_compactFunction
    (h : compactFunction function keepBlocks removed limits = .ok compacted) :
    ∃ renameValue renameBlock,
      Compaction function keepBlocks removed renameValue renameBlock compacted := by
  obtain ⟨hclosed, hfits⟩ := closed_of_compactFunction h
  obtain ⟨renameValue, renameBlock, image, himage, hcompaction⟩ := exists_compaction hclosed hfits
  obtain rfl : image = compacted := Except.ok.inj (himage.symm.trans h)
  exact ⟨renameValue, renameBlock, hcompaction⟩

/-- The values a block defines or reads, with only some of its instructions. -/
def blockReferences (instructions : List Instruction) (block : Block) : List ValueId :=
  block.parameters ++ instructions.flatMap (fun instruction ↦
    instruction.results ++ instruction.operation.values) ++ block.terminator.values

theorem BlockImage.references (h : BlockImage renameValue renameBlock removed block image) :
    blockReferences image.instructions image =
      (blockReferences (retainedInstructions removed block) block).map renameValue := by
  have hinstructions : (image.instructions.flatMap fun instruction ↦
      instruction.results ++ instruction.operation.values) =
        ((retainedInstructions removed block).flatMap fun instruction ↦
          instruction.results ++ instruction.operation.values).map renameValue := by
    have hpairs := h.instructions
    generalize retainedInstructions removed block = instructions at hpairs
    generalize image.instructions = images at hpairs
    induction hpairs with
    | nil => rfl
    | cons hhead _ ih =>
      rw [flatMap_cons, flatMap_cons, map_append, ih, hhead]
      simp [Instruction.image]
  rw [blockReferences, blockReferences, hinstructions, h.parameters, h.terminator]
  simp

theorem BlockImage.edges (h : BlockImage renameValue renameBlock removed block image) :
    image.terminator.edges = block.terminator.edges.map fun edge ↦
      (renameBlock edge.1, edge.2.map renameValue) := by
  rw [h.terminator, Terminator.edges_rename]

/-- A retained set that is closed under references is compacted, within the limits, to exactly what
is retained: the identifiers are dense and in the old order, and every reference is the image of the
old one. -/
theorem compactFunction_isomorphism (hclosed : Closed function keepBlocks removed)
    (hfits : CompactionFits function keepBlocks removed limits) :
    ∃ renameValue renameBlock compacted,
      compactFunction function keepBlocks removed limits = .ok compacted ∧
        Compaction function keepBlocks removed renameValue renameBlock compacted ∧
        List.Forall₂ (fun block image ↦
          blockReferences image.instructions image =
            (blockReferences (retainedInstructions removed block.1) block.1).map renameValue ∧
          image.terminator.edges = block.1.terminator.edges.map fun edge ↦
            (renameBlock edge.1, edge.2.map renameValue))
          (kept keepBlocks function.blocks) compacted.blocks := by
  obtain ⟨renameValue, renameBlock, compacted, hcompacted, hcompaction⟩ :=
    exists_compaction hclosed hfits
  refine ⟨renameValue, renameBlock, compacted, hcompacted, hcompaction, ?_⟩
  exact hcompaction.blocks.imp fun {_ _} h ↦ ⟨h.1.references, h.1.edges⟩

end Function

/-- A function with an unreachable block and an instruction whose result nobody reads. -/
def deadDetour : FlowFunction where
  id := ⟨0⟩
  name := "detour"
  origin := .sourceSemantic 0
  role := .ordinary
  color := .sync
  parameters := [⟨0⟩]
  resultTypes := [⟨0⟩]
  values := [⟨⟨0⟩, ⟨0⟩, none, none⟩, ⟨⟨1⟩, ⟨0⟩, none, none⟩, ⟨⟨2⟩, ⟨0⟩, none, none⟩,
    ⟨⟨3⟩, ⟨0⟩, none, none⟩]
  blocks := [⟨⟨0⟩, [], [], .jump ⟨2⟩ [], none⟩,
    ⟨⟨1⟩, [], [⟨⟨0⟩, [⟨1⟩], .copy ⟨0⟩, none⟩], .jump ⟨2⟩ [], none⟩,
    ⟨⟨2⟩, [], [⟨⟨1⟩, [⟨2⟩], .copy ⟨0⟩, none⟩, ⟨⟨2⟩, [⟨3⟩], .copy ⟨0⟩, none⟩], .return [⟨3⟩], none⟩]
  entry := ⟨0⟩
  stackBound := 0
  frameBound := 0
  proofs := []
  source := none

theorem compactFunction_isomorphism_deadDetour :
    ∃ renameValue renameBlock compacted,
      compactFunction deadDetour [true, false, true] (some [false, true, false]) .standard =
          .ok compacted ∧
        Compaction deadDetour [true, false, true] (some [false, true, false]) renameValue
          renameBlock compacted ∧
        List.Forall₂ (fun block image ↦
          blockReferences image.instructions image =
            (blockReferences (retainedInstructions (some [false, true, false]) block.1)
              block.1).map renameValue ∧
          image.terminator.edges = block.1.terminator.edges.map fun edge ↦
            (renameBlock edge.1, edge.2.map renameValue))
          (kept [true, false, true] deadDetour.blocks) compacted.blocks :=
  compactFunction_isomorphism
    ⟨by decide, by decide, by decide, by decide, by decide, by decide⟩
    ⟨by decide, by decide, by decide, by decide, by decide⟩

/-- The values `for_each_operation_value` visits, in order. -/
def forEachOperationValue : FlowOperation → List ValueId
  | .immediate _ | .actorStateAddress .. | .regionReset _ | .actorCapability .. | .actorReserve ..
  | .actorReplyRequest .. | .mailboxReceive .. | .taskAcquireSlot .. | .checkpoint ..
  | .deadlineRead | .interruptMask | .mmioRead .. | .fence _ => []
  | .unary _ value | .cast value _ _ | .promote value _ _ | .enumTag value | .enumPayload value _
  | .extractField value _ | .endAccess value | .load value _ | .move value | .copy value
  | .drop value | .actorReject value | .taskCancel value | .park value | .wake value
  | .interruptRestore value | .validateDeviceValue value _ | .check value _ _ | .assert value _
  | .recordEvent _ value | .replayEvent _ value | .testEmit value | .testFinish value
  | .actorReplyResolve value _ | .mmioWrite _ _ value => [value]
  | .binary _ left right => [left, right]
  | .extractIndex aggregate index _ => [aggregate, index]
  | .makeAggregate _ fields => fields
  | .formatBoundedString _ parts => parts.flatMap fun part ↦
    match part with
    | .text _ _ => []
    | .bool value _ | .character value _ | .integer value _ _ | .staticString value _ _ => [value]
  | .makeEnum _ _ payload => payload.toList
  | .insertField aggregate _ value | .store aggregate value _ | .replyResolve aggregate value
  | .receiptCommit aggregate value | .receiptResolve aggregate value
  | .interruptPublish aggregate value | .queuePublish aggregate value => [aggregate, value]
  | .actorCommit reservation arguments => reservation :: arguments
  | .select condition thenValue elseValue => [condition, thenValue, elseValue]
  | .beginAccess place _ _ => [place]
  | .call _ arguments | .asyncCall _ arguments _ => arguments
  | .allocate _ _ count _ => [count]
  | .taskStart slot _ arguments => slot :: arguments
  | .dmaTransition token _ _ _ _ => [token]
  | .queueReserve _ descriptors _ => [descriptors]

/-- The values `for_each_terminator_value` visits, in order. -/
def forEachTerminatorValue : Terminator → List ValueId
  | .jump _ arguments | .return arguments | .tailCall _ arguments => arguments
  | .branch condition _ thenArguments _ elseArguments =>
    condition :: (thenArguments ++ elseArguments)
  | .switch value cases _ defaultArguments =>
    value :: (cases.flatMap SwitchCase.arguments ++ defaultArguments)
  | .suspend _ activation _ => [activation]
  | .trap _ detail => detail.toList
  | .unreachable => []

theorem forEachOperationValue_eq (operation : FlowOperation) :
    forEachOperationValue operation = operation.values := by
  cases operation <;> rfl

theorem forEachTerminatorValue_eq (terminator : Terminator) :
    forEachTerminatorValue terminator = terminator.values := by
  cases terminator <;> rfl

theorem boundedStringPart_mapValues_id (part : BoundedStringPart) : part.mapValues id = part := by
  cases part <;> rfl

theorem mapValues_id (operation : FlowOperation) : operation.mapValues id = operation := by
  cases operation
  case formatBoundedString ty parts =>
    have hparts : parts.map (BoundedStringPart.mapValues id) = parts :=
      map_id'' boundedStringPart_mapValues_id parts
    rw [FlowOperation.mapValues, hparts]
  all_goals simp [FlowOperation.mapValues]

theorem rename_id (terminator : Terminator) : terminator.rename id id = terminator := by
  cases terminator <;> simp [Terminator.rename]

/-- The image of an identifier, itself where the table has none. -/
def imageOf {arena : Arena} (map : IdMap arena) (id : Id arena) : Id arena :=
  (map.getD id.index none).getD id

theorem mapValue_imageOf {map : IdMap .value} {value : ValueId} (h : Mapped map value) :
    mapValue map value = .ok (imageOf map value) := by
  obtain ⟨image, himage⟩ := h
  rw [himage, imageOf, orFail_eq_ok.1 himage]
  rfl

theorem mapBlock_imageOf {map : IdMap .block} {block : BlockId}
    (h : ∃ target, mapBlock map block = .ok target) :
    mapBlock map block = .ok (imageOf map block) := by
  obtain ⟨target, htarget⟩ := h
  rw [htarget, imageOf, orFail_eq_ok.1 htarget]
  rfl

/-- A function that replaces just the given values of an item. -/
structure Replaces {α : Type} (values : α → List ValueId)
    (mapAll : IdMap .value → α → Except OptimizeError α) (item : α) : Prop where
  replaced (map : IdMap .value) (images : List ValueId) :
    mapValueSlice map (values item) = .ok images ↔
      ∃ image, mapAll map item = .ok image ∧ values image = images
  only (map map' : IdMap .value) (image : α) :
    (∀ value ∈ values item, mapValue map' value = mapValue map value) →
      mapAll map item = .ok image → mapAll map' item = .ok image

/-- A function that maps an item by renaming it replaces just its values. -/
theorem replaces_of_rename {α : Type} {values : α → List ValueId}
    {mapAll : IdMap .value → α → Except OptimizeError α} {item : α}
    {rename : (ValueId → ValueId) → α → α}
    (hvalues : ∀ renameValue, values (rename renameValue item) = (values item).map renameValue)
    (hrename : ∀ map renameValue,
      (∀ value ∈ values item, mapValue map value = .ok (renameValue value)) →
        mapAll map item = .ok (rename renameValue item))
    (hmapped : ∀ map image, mapAll map item = .ok image → ∀ value ∈ values item, Mapped map value) :
    Replaces values mapAll item := by
  have himage (map : IdMap .value) (h : ∀ value ∈ values item, Mapped map value) :
      ∀ value ∈ values item, mapValue map value = .ok (imageOf map value) :=
    fun value hvalue ↦ mapValue_imageOf (h value hvalue)
  refine ⟨fun map images ↦ ⟨fun h ↦ ?_, ?_⟩, fun map map' image hsame h ↦ ?_⟩
  · have hmap := himage map (mapValueSlice_mapped h)
    refine ⟨_, hrename map _ hmap, ?_⟩
    rw [hvalues]
    exact Except.ok.inj ((mapValueSlice_eq_ok hmap).symm.trans h)
  · rintro ⟨image, h, rfl⟩
    have hmap := himage map (hmapped map image h)
    have heq := hrename map _ hmap
    rw [h, Except.ok.injEq] at heq
    rw [heq, hvalues]
    exact mapValueSlice_eq_ok hmap
  · have hmap := himage map (hmapped map image h)
    have heq := hrename map _ hmap
    rw [h] at heq
    rw [heq]
    exact hrename map' _ fun value hvalue ↦ (hsame value hvalue).trans (hmap value hvalue)

theorem replaces_operation (operation : FlowOperation) :
    Replaces FlowOperation.values mapOperationValues operation :=
  replaces_of_rename (fun _ ↦ operation.values_mapValues) (fun _ _ ↦ mapOperationValues_eq_ok)
    fun _ _ ↦ mapOperationValues_mapped

theorem replaces_terminator {terminator : Terminator} {blocks : IdMap .block}
    (h : ∀ edge ∈ terminator.edges, ∃ target, mapBlock blocks edge.1 = .ok target) :
    Replaces Terminator.values (fun map ↦ mapTerminator map blocks) terminator :=
  @replaces_of_rename _ Terminator.values (fun map ↦ mapTerminator map blocks) terminator
    (fun renameValue ↦ Terminator.rename renameValue (imageOf blocks))
    (fun _ ↦ terminator.values_rename)
    (fun _ _ hvalues ↦ mapTerminator_eq_ok hvalues fun edge hedge ↦ mapBlock_imageOf (h edge hedge))
    fun _ _ hmapped ↦ (mapTerminator_mapped hmapped).1

/-- **The operand traversals agree.** The optimizer visits the values the validator visits, its
compaction replaces these values and nothing else, and mapping every identifier to itself changes
nothing. -/
theorem operandTraversals_agree (operation : FlowOperation) (terminator : Terminator) :
    (forEachOperationValue operation = operation.values ∧
      Replaces FlowOperation.values mapOperationValues operation ∧
      ∀ map, (∀ value ∈ operation.values, mapValue map value = .ok value) →
        mapOperationValues map operation = .ok operation) ∧
    (forEachTerminatorValue terminator = terminator.values ∧
      ∀ blocks, ((∀ edge ∈ terminator.edges, ∃ target, mapBlock blocks edge.1 = .ok target) →
          Replaces Terminator.values (fun map ↦ mapTerminator map blocks) terminator) ∧
        ∀ map, (∀ value ∈ terminator.values, mapValue map value = .ok value) →
          (∀ edge ∈ terminator.edges, mapBlock blocks edge.1 = .ok edge.1) →
            mapTerminator map blocks terminator = .ok terminator) := by
  refine ⟨⟨forEachOperationValue_eq operation, replaces_operation operation, fun map h ↦ ?_⟩,
    forEachTerminatorValue_eq terminator, fun blocks ↦ ⟨replaces_terminator, fun map h hedges ↦ ?_⟩⟩
  · have hmap := @mapOperationValues_eq_ok map id operation h
    rwa [mapValues_id] at hmap
  · have hmap := @mapTerminator_eq_ok map blocks id id terminator h hedges
    rwa [rename_id] at hmap

end Wrela.FlowOpt
