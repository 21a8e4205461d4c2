import Wrela.Validation.Module

/-!
# Capacity closure

The regions of a closed module are laid out in order: those of each actor, one for each task, one
for each activation plan.  The state regions are counted by their names and laid out by their
positions; a state region that does not follow its actor's mailbox is counted without being laid
out, and the bytes of the image leave it out.
-/

namespace Wrela.Validation

open List Wrela.Flow

theorem suffix_or_suffix_of_append_eq {base other suffix tail : String}
    (h : base ++ suffix = other ++ tail) :
    suffix.toList <:+ tail.toList ∨ tail.toList <:+ suffix.toList := by
  have hlist : base.toList ++ suffix.toList = other.toList ++ tail.toList := by
    rw [← String.toList_append, ← String.toList_append, h]
  have hsuffix : suffix.toList <:+ other.toList ++ tail.toList := hlist ▸ suffix_append _ _
  exact suffix_or_suffix_of_suffix hsuffix (suffix_append _ _)

section

variable (base other : String)
include base other

theorem mailboxName_ne_stateName : base ++ ".mailbox" ≠ other ++ ".state" :=
  fun h ↦ absurd (suffix_or_suffix_of_append_eq h) (by decide)

theorem turnName_ne_stateName : base ++ ".turn-frame" ≠ other ++ ".state" :=
  fun h ↦ absurd (suffix_or_suffix_of_append_eq h) (by decide)

theorem frameName_ne_stateName : base ++ ".frame" ≠ other ++ ".state" :=
  fun h ↦ absurd (suffix_or_suffix_of_append_eq h) (by decide)

theorem stateName_ne_mailboxName : base ++ ".state" ≠ other ++ ".mailbox" :=
  fun h ↦ absurd (suffix_or_suffix_of_append_eq h) (by decide)

theorem turnName_ne_mailboxName : base ++ ".turn-frame" ≠ other ++ ".mailbox" :=
  fun h ↦ absurd (suffix_or_suffix_of_append_eq h) (by decide)

theorem frameName_ne_mailboxName : base ++ ".frame" ≠ other ++ ".mailbox" :=
  fun h ↦ absurd (suffix_or_suffix_of_append_eq h) (by decide)

theorem activationName_ne_stateName : base ++ ".async-activation-frame" ≠ other ++ ".state" :=
  fun h ↦ absurd (suffix_or_suffix_of_append_eq h) (by decide)

end

variable (module : FlowWir)

/-- A region of the class, size and owner, with a capacity proof of the bound. -/
structure Reserved (region : RegionPlan) (class_ : RegionClass) (bytes : ℕ) (owner : PlanOwner)
    (bound : UInt64) : Prop where
  class_eq : region.class_ = class_
  bytes_eq : region.capacityBytes.toNat = bytes
  alignment_eq : region.alignment = 8
  owner_eq : region.owner = owner
  proof : ∃ proof, region.capacityProof.lookup module.proofs = some proof ∧
    proof.kind = .capacityBound ∧ proof.bound = some bound

/-- The regions of one actor, in order: its mailbox, its state if it has one, and the frame of its
turns if it has any. -/
structure ActorRegions (actor : ActorPlan) (mailbox : RegionPlan) (state turn : Option RegionPlan) :
    Prop where
  mailboxName : mailbox.name = actor.name ++ ".mailbox"
  mailboxReserved : Reserved module mailbox .image (actor.mailboxCapacity.toNat * 16)
    (.actor actor.id) actor.mailboxCapacity.toUInt64
  stateName : ∀ region ∈ state, region.name = actor.name ++ ".state"
  stateReserved : ∀ region ∈ state, Reserved module region .image 8 (.actor actor.id) 1
  turn_isSome : turn.isSome = !actor.turnFunctions.isEmpty
  turnName : ∀ region ∈ turn, region.name = actor.name ++ ".turn-frame"
  turnReserved : ∀ region ∈ turn,
    Reserved module region .taskFrame (turnBytes module actor) (.actor actor.id) 1

def ActorBlock (actor : ActorPlan) (block : List RegionPlan) : Prop :=
  ∃ mailbox state turn, block = mailbox :: (state.toList ++ turn.toList) ∧
    ActorRegions module actor mailbox state turn

/-- The frames of all slots of a task. -/
structure TaskRegion (task : TaskPlan) (region : RegionPlan) : Prop where
  name : region.name = task.name ++ ".frame"
  reserved : ∃ bytes, taskBytes module task = some bytes ∧
    Reserved module region .taskFrame bytes (.task task.id) task.slots.toUInt64

/-- The frames of an activation plan. -/
structure ActivationRegion (plan : ActivationPlan) (region : RegionPlan) : Prop where
  id : region.id = plan.region
  name : ∃ base, region.name = base ++ ".async-activation-frame"
  class_eq : region.class_ = .taskFrame
  bytes_eq : region.capacityBytes.toNat = plan.frameBytes.toNat * plan.maximumLive.toNat
  proof_eq : region.capacityProof = plan.capacityProof
  source_eq : region.source = plan.source

def capacitySum (regions : List RegionPlan) : ℕ :=
  (regions.map fun region ↦ region.capacityBytes.toNat).sum

@[simp]
theorem capacitySum_append (regions others : List RegionPlan) :
    capacitySum (regions ++ others) = capacitySum regions + capacitySum others := by
  simp [capacitySum]

variable {module}

variable {region : RegionPlan} {layout : RegionLayout} {actor : ActorPlan}

variable {index : ℕ} {block : List RegionPlan} {α : Type} {items : List α}

theorem Reserved.of_regionAt
    (h : regionAt module index region class_ bytes owner bound sources = true) :
    Reserved module region class_ bytes owner bound := by
  simp only [regionAt, Bool.and_eq_true, beq_iff_eq, Option.any_eq_true] at h
  obtain ⟨⟨⟨⟨⟨-, hclass⟩, hbytes⟩, halignment⟩, howner⟩, proof, hlookup, ⟨⟨-, hkind⟩, hbound⟩, -⟩ := h
  exact ⟨hclass, hbytes, halignment, howner, proof, hlookup, hkind, hbound⟩

/-! ## Laying out -/

/-- What a step of the layout adds: the next regions and their bytes. -/
structure Extends (module : FlowWir) (layout next : RegionLayout) (block : List RegionPlan) :
    Prop where
  take_eq : module.regions.take next.cursor = module.regions.take layout.cursor ++ block
  cursor_eq : next.cursor = layout.cursor + block.length
  bytes_eq : next.bytes = layout.bytes + capacitySum block

theorem Extends.refl (layout : RegionLayout) : Extends module layout layout [] :=
  ⟨(append_nil _).symm, rfl, rfl⟩

theorem Extends.trans {next last : RegionLayout} {rest : List RegionPlan}
    (h : Extends module layout next block) (hrest : Extends module next last rest) :
    Extends module layout last (block ++ rest) where
  take_eq := by rw [hrest.take_eq, h.take_eq, append_assoc]
  cursor_eq := by rw [hrest.cursor_eq, h.cursor_eq, length_append, Nat.add_assoc]
  bytes_eq := by rw [hrest.bytes_eq, h.bytes_eq, capacitySum_append, Nat.add_assoc]

/-- No mailbox at the end of what is laid out has its state right after. -/
def Ends (module : FlowWir) (cursor : ℕ) : Prop :=
  ∀ index mailbox state base, cursor = index + 1 → module.regions[index]? = some mailbox →
    mailbox.name = base ++ ".mailbox" → module.regions[index + 1]? = some state →
    state.name ≠ base ++ ".state"

theorem take_succ_of_getElem? (h : items[index]? = some item) :
    items.take (index + 1) = items.take index ++ [item] := by
  rw [take_add_one, h, Option.toList_some]

/-- The region before the end of what is laid out is the last one laid out. -/
theorem getLast?_of_take {before block : List α} {item : α}
    (htake : items.take (index + 1) = before ++ block) (hblock : block ≠ [])
    (hitem : items[index]? = some item) : block.getLast? = some item := by
  rw [take_succ_of_getElem? hitem] at htake
  have hlast := congrArg List.getLast? htake
  rw [List.getLast?_append, List.getLast?_append, List.getLast?_singleton,
    List.getLast?_eq_some_getLast hblock] at hlast
  rw [List.getLast?_eq_some_getLast hblock]
  simpa using hlast.symm

theorem exists_mailbox (h : mailboxRegionValid module index actor = true) :
    ∃ region, module.regions[index]? = some region ∧ region.name = actor.name ++ ".mailbox" ∧
      Reserved module region .image (actor.mailboxCapacity.toNat * 16) (.actor actor.id)
        actor.mailboxCapacity.toUInt64 := by
  simp only [mailboxRegionValid, joinedNameMatches, Option.any_eq_true, Bool.and_eq_true,
    beq_iff_eq] at h
  obtain ⟨region, hregion, hname, hvalid⟩ := h
  exact ⟨region, hregion, hname, .of_regionAt hvalid⟩

/-- The state of an actor, where the layout looks for it. -/
theorem exists_state (hhas : hasState = (module.regions[cursor]?).any fun region ↦
      joinedNameMatches region.name actor.name ".state")
    (h : hasState = false ∨ stateRegionValid module cursor actor = true) :
    ∃ state : Option RegionPlan,
      module.regions.take (if hasState then cursor + 1 else cursor) =
        module.regions.take cursor ++ state.toList ∧
      (if hasState then cursor + 1 else cursor) = cursor + state.toList.length ∧
      (if hasState then 8 else 0) = capacitySum state.toList ∧
      (state = none → ∀ region, module.regions[cursor]? = some region →
        region.name ≠ actor.name ++ ".state") ∧
      (∀ region ∈ state, region.name = actor.name ++ ".state") ∧
      ∀ region ∈ state, Reserved module region .image 8 (.actor actor.id) 1 := by
  cases hasState with
  | false =>
    refine ⟨none, by simp, rfl, rfl, fun _ region hregion hname ↦ ?_, by simp, by simp⟩
    rw [hregion, Option.any_some, joinedNameMatches, hname] at hhas
    simp at hhas
  | true =>
    have hvalid := h.resolve_left Bool.noConfusion
    simp only [stateRegionValid, Option.any_eq_true] at hvalid
    obtain ⟨region, hregion, hvalid⟩ := hvalid
    have hreserved := Reserved.of_regionAt hvalid
    rw [hregion, Option.any_some, joinedNameMatches, eq_comm, beq_iff_eq] at hhas
    refine ⟨some region, by simpa using take_succ_of_getElem? hregion, rfl, ?_, by simp, by simpa,
      by simpa⟩
    simp [capacitySum, hreserved.bytes_eq]

/-- The frame of an actor's turns, when it has turns. -/
theorem exists_turn
    (h : (!actor.turnFunctions.isEmpty) = false ∨ turnRegionValid module cursor actor = true) :
    ∃ turn : Option RegionPlan,
      module.regions.take (if !actor.turnFunctions.isEmpty then cursor + 1 else cursor) =
        module.regions.take cursor ++ turn.toList ∧
      (if !actor.turnFunctions.isEmpty then cursor + 1 else cursor) = cursor + turn.toList.length ∧
      turnBytes module actor = capacitySum turn.toList ∧
      turn.isSome = !actor.turnFunctions.isEmpty ∧
      (∀ region ∈ turn, region.name = actor.name ++ ".turn-frame") ∧
      ∀ region ∈ turn,
        Reserved module region .taskFrame (turnBytes module actor) (.actor actor.id) 1 := by
  cases hturns : actor.turnFunctions.isEmpty with
  | true =>
    have hnil := List.isEmpty_iff.1 hturns
    exact ⟨none, by simp, rfl, by simp [turnBytes, hnil, capacitySum], rfl, by simp, by simp⟩
  | false =>
    have hvalid := h.resolve_left (by simp [hturns])
    simp only [turnRegionValid, joinedNameMatches, Option.any_eq_true, Bool.and_eq_true,
      beq_iff_eq] at hvalid
    obtain ⟨region, hregion, hname, hvalid⟩ := hvalid
    have hreserved := Reserved.of_regionAt hvalid
    refine ⟨some region, by simpa using take_succ_of_getElem? hregion, rfl, ?_, rfl, by simpa,
      by simpa⟩
    simp [capacitySum, hreserved.bytes_eq]

theorem layActor_extends (h : (layActor module layout actor).valid = true) :
    layout.valid = true ∧ ∃ block, ActorBlock module actor block ∧
      Extends module layout (layActor module layout actor) block ∧
      Ends module (layActor module layout actor).cursor := by
  simp only [layActor, Bool.and_eq_true, Bool.or_eq_true, Bool.not_eq_true'] at h
  obtain ⟨⟨⟨⟨hvalid, -⟩, hmailbox⟩, hturn⟩, hstate⟩ := h
  obtain ⟨mailbox, hmailbox, hmailboxName, hmailboxReserved⟩ := exists_mailbox hmailbox
  obtain ⟨state, hstateTake, hstateCursor, hstateBytes, hnone, hstateName, hstateReserved⟩ :=
    exists_state rfl hstate
  obtain ⟨turn, hturnTake, hturnCursor, hturnBytes, hsome, hturnName, hturnReserved⟩ :=
    exists_turn hturn
  have htake : module.regions.take (layActor module layout actor).cursor =
      module.regions.take layout.cursor ++ mailbox :: (state.toList ++ turn.toList) := by
    refine hturnTake.trans ?_
    rw [hstateTake, take_succ_of_getElem? hmailbox]
    simp
  refine ⟨hvalid, mailbox :: (state.toList ++ turn.toList), ⟨mailbox, state, turn, rfl,
    hmailboxName, hmailboxReserved, hstateName, hstateReserved, hsome, hturnName, hturnReserved⟩,
    ⟨htake, ?_, ?_⟩, ?_⟩
  · refine hturnCursor.trans ?_
    rw [hstateCursor, length_cons, length_append]
    omega
  · have hblock : capacitySum (mailbox :: (state.toList ++ turn.toList)) =
        actor.mailboxCapacity.toNat * 16 + capacitySum state.toList + turnBytes module actor := by
      rw [hturnBytes]
      simp [capacitySum, hmailboxReserved.bytes_eq, Nat.add_assoc]
    rw [hblock, ← hstateBytes]
    simp only [layActor, ← Nat.add_assoc]
  · intro index region next base hcursor hregion hname hnext hnextName
    rw [hcursor] at htake
    have hlast := getLast?_of_take htake (cons_ne_nil _ _) hregion
    cases turn with
    | some frame =>
      rw [Option.toList_some, ← cons_append, List.getLast?_append] at hlast
      obtain rfl : frame = region := by simpa using hlast
      exact turnName_ne_mailboxName _ _ ((hturnName frame rfl).symm.trans hname)
    | none =>
      cases state with
      | some cell =>
        obtain rfl : cell = region := by simpa using hlast
        exact stateName_ne_mailboxName _ _ ((hstateName cell rfl).symm.trans hname)
      | none =>
        obtain rfl : mailbox = region := by simpa using hlast
        have hbase : actor.name = base :=
          (String.append_left_inj _).1 (hmailboxName.symm.trans hname)
        have hindex : index = layout.cursor := by
          have hlength := congrArg List.length htake
          have hlt := (List.getElem?_eq_some_iff.1 hnext).1
          have hle := (List.getElem?_eq_some_iff.1 hmailbox).1
          simp only [List.length_take, length_append, length_cons, Option.toList_none,
            append_nil, length_nil] at hlength
          omega
        exact hnone rfl next (hindex ▸ hnext) (hbase ▸ hnextName)

theorem layTask_extends (h : (layTask module layout task).valid = true) :
    layout.valid = true ∧ ∃ region, TaskRegion module task region ∧
      Extends module layout (layTask module layout task) [region] ∧
      Ends module (layTask module layout task).cursor := by
  simp only [layTask, joinedNameMatches, Bool.and_eq_true, Option.any_eq_true, beq_iff_eq] at h
  obtain ⟨hvalid, bytes, hbytes, region, hregion, hname, hregionAt⟩ := h
  have hreserved := Reserved.of_regionAt hregionAt
  refine ⟨hvalid, region, ⟨hname, bytes, hbytes, hreserved⟩,
    ⟨take_succ_of_getElem? hregion, rfl, ?_⟩, ?_⟩
  · simp [layTask, hbytes, capacitySum, hreserved.bytes_eq]
  · intro index mailbox state base hcursor hmailbox hmailboxName
    obtain rfl : layout.cursor = index := Nat.succ.inj hcursor
    obtain rfl : region = mailbox := Option.some.inj (hregion.symm.trans hmailbox)
    exact absurd (hname.symm.trans hmailboxName) (frameName_ne_mailboxName _ _)

theorem foldl_layActor_extends (h : (actors.foldl (layActor module) layout).valid = true) :
    layout.valid = true ∧ ∃ blocks, List.Forall₂ (ActorBlock module) actors blocks ∧
      Extends module layout (actors.foldl (layActor module) layout) blocks.flatten ∧
      (Ends module layout.cursor → Ends module (actors.foldl (layActor module) layout).cursor) := by
  induction actors generalizing layout with
  | nil => exact ⟨h, [], .nil, .refl layout, id⟩
  | cons actor actors ih =>
    obtain ⟨hnext, blocks, hblocks, hrest, hends⟩ := ih h
    obtain ⟨hvalid, block, hblock, hstep, hstepEnds⟩ := layActor_extends hnext
    exact ⟨hvalid, block :: blocks, .cons hblock hblocks, hstep.trans hrest,
      fun _ ↦ hends hstepEnds⟩

theorem foldl_layTask_extends (h : (tasks.foldl (layTask module) layout).valid = true) :
    layout.valid = true ∧ ∃ frames, List.Forall₂ (TaskRegion module) tasks frames ∧
      Extends module layout (tasks.foldl (layTask module) layout) frames ∧
      (Ends module layout.cursor → Ends module (tasks.foldl (layTask module) layout).cursor) := by
  induction tasks generalizing layout with
  | nil => exact ⟨h, [], .nil, .refl layout, id⟩
  | cons task tasks ih =>
    obtain ⟨hnext, frames, hframes, hrest, hends⟩ := ih h
    obtain ⟨hvalid, frame, hframe, hstep, hstepEnds⟩ := layTask_extends hnext
    exact ⟨hvalid, frame :: frames, .cons hframe hframes, hstep.trans hrest,
      fun _ ↦ hends hstepEnds⟩

/-- The regions of the actors and the tasks, in order. -/
structure LaidOut (module : FlowWir) (blocks : List (List RegionPlan)) (frames : List RegionPlan) :
    Prop where
  actors : List.Forall₂ (ActorBlock module) module.actors blocks
  tasks : List.Forall₂ (TaskRegion module) module.tasks frames
  take_eq : module.regions.take (baseLayout module).cursor = blocks.flatten ++ frames
  cursor_eq : (baseLayout module).cursor = (blocks.flatten ++ frames).length
  bytes_eq : (baseLayout module).bytes = capacitySum (blocks.flatten ++ frames)
  ends : Ends module (baseLayout module).cursor

theorem exists_laidOut (h : (baseLayout module).valid = true) :
    ∃ blocks frames, LaidOut module blocks frames := by
  obtain ⟨hactors, frames, hframes, htasks, hends⟩ := foldl_layTask_extends h
  obtain ⟨-, blocks, hblocks, hlaid, hbegins⟩ := foldl_layActor_extends hactors
  have hall := hlaid.trans htasks
  have hzero : Ends module 0 := fun index _ _ _ hindex ↦ absurd hindex (Nat.succ_ne_zero index).symm
  refine ⟨blocks, frames, hblocks, hframes, hall.take_eq, ?_, ?_, hends (hbegins hzero)⟩
  · exact hall.cursor_eq.trans (Nat.zero_add _)
  · exact hall.bytes_eq.trans (Nat.zero_add _)

/-- A region named after the state of the actor that owns it. -/
def isStateRegion (module : FlowWir) (region : RegionPlan) : Bool :=
  module.actors.any fun actor ↦
    region.owner == .actor actor.id && joinedNameMatches region.name actor.name ".state"

theorem isStateRegion_iff :
    isStateRegion module region = true ↔ ∃ actor ∈ module.actors,
      region.owner = .actor actor.id ∧ region.name = actor.name ++ ".state" := by
  simp [isStateRegion, joinedNameMatches]

theorem isStateRegion_eq_false
    (h : ∀ base, region.name ≠ base ++ ".state") : isStateRegion module region = false := by
  rw [← Bool.not_eq_true, isStateRegion_iff]
  rintro ⟨actor, -, -, hname⟩
  exact h actor.name hname

/-- An actor some region is the state of. -/
def hasStateRegion (module : FlowWir) (actor : ActorPlan) : Bool :=
  module.regions.any fun region ↦
    region.owner == .actor actor.id && joinedNameMatches region.name actor.name ".state"

/-- The state regions of a block are the state of its actor. -/
theorem ActorRegions.filter_isStateRegion (h : ActorRegions module actor mailbox state turn)
    (hactor : actor ∈ module.actors) :
    (mailbox :: (state.toList ++ turn.toList)).filter (isStateRegion module) = state.toList := by
  have hmailbox : isStateRegion module mailbox = false := isStateRegion_eq_false fun base hname ↦
    mailboxName_ne_stateName _ _ (h.mailboxName.symm.trans hname)
  have hstate : state.toList.filter (isStateRegion module) = state.toList := by
    refine filter_eq_self.2 fun region hregion ↦ isStateRegion_iff.2 ⟨actor, hactor, ?_⟩
    have hregion : region ∈ state := Option.mem_toList.1 hregion
    exact ⟨(h.stateReserved region hregion).owner_eq, h.stateName region hregion⟩
  have hturn : turn.toList.filter (isStateRegion module) = [] := by
    refine filter_eq_nil_iff.2 fun region hregion ↦ ?_
    rw [isStateRegion_eq_false fun base hname ↦ turnName_ne_stateName _ _
      ((h.turnName region (Option.mem_toList.1 hregion)).symm.trans hname)]
    exact Bool.false_ne_true
  rw [filter_cons_of_neg (by simp [hmailbox]), filter_append, hstate, hturn, append_nil]

/-- A block is a mailbox, its state regions, and a frame when the actor has turns. -/
theorem ActorBlock.length_eq (h : ActorBlock module actor block) (hactor : actor ∈ module.actors) :
    block.length = 1 + (block.filter (isStateRegion module)).length +
      (if actor.turnFunctions.isEmpty then 0 else 1) := by
  obtain ⟨mailbox, state, turn, rfl, hregions⟩ := h
  have hlength : turn.toList.length = if actor.turnFunctions.isEmpty then 0 else 1 := by
    have hsome := hregions.turn_isSome
    cases turn <;> cases hturns : actor.turnFunctions.isEmpty <;> simp_all
  rw [hregions.filter_isStateRegion hactor, length_cons, length_append, hlength]
  omega

/-- A block has at most one state, and none when no region is the state of its actor. -/
theorem ActorBlock.states_le (h : ActorBlock module actor block) (hactor : actor ∈ module.actors)
    (hmem : ∀ region ∈ block, region ∈ module.regions) :
    (block.filter (isStateRegion module)).length ≤ if hasStateRegion module actor then 1 else 0 := by
  obtain ⟨mailbox, state, turn, rfl, hregions⟩ := h
  rw [hregions.filter_isStateRegion hactor]
  cases state with
  | none => exact Nat.zero_le _
  | some region =>
    have hstate : hasStateRegion module actor = true := by
      refine any_eq_true.2 ⟨region, hmem region (by simp), ?_⟩
      simp [joinedNameMatches, hregions.stateName region rfl,
        (hregions.stateReserved region rfl).owner_eq]
    rw [hstate, Option.toList_some, if_pos rfl, length_singleton]

section Count

variable {actors : List ActorPlan} {blocks : List (List RegionPlan)}
  (hactors : ∀ actor ∈ actors, actor ∈ module.actors)
  (hblocks : List.Forall₂ (ActorBlock module) actors blocks)

include hactors hblocks

theorem length_flatten_blocks :
    blocks.flatten.length = actors.length + (blocks.flatten.filter (isStateRegion module)).length +
      (actors.filter fun actor ↦ !actor.turnFunctions.isEmpty).length := by
  induction hblocks with
  | nil => rfl
  | @cons actor block actors blocks hblock _ ih =>
    have hactor := hactors actor mem_cons_self
    have hrest := ih fun actor hmem ↦ hactors actor (mem_cons_of_mem _ hmem)
    have hlength := hblock.length_eq hactor
    rw [flatten_cons, length_append, filter_append, length_append, hrest, length_cons, filter_cons]
    cases hturns : actor.turnFunctions.isEmpty <;>
      simp only [hturns, Bool.not_true, Bool.not_false, if_true, Bool.false_eq_true, if_false,
        length_cons] at hlength ⊢ <;> omega

theorem states_flatten_le (hmem : ∀ region ∈ blocks.flatten, region ∈ module.regions) :
    (blocks.flatten.filter (isStateRegion module)).length ≤
      (actors.filter (hasStateRegion module)).length := by
  induction hblocks with
  | nil => exact le_rfl
  | @cons actor block actors blocks hblock _ ih =>
    have hactor := hactors actor mem_cons_self
    rw [flatten_cons] at hmem ⊢
    have hrest := ih (fun actor hmem ↦ hactors actor (mem_cons_of_mem _ hmem))
      fun region hregion ↦ hmem region (mem_append_right _ hregion)
    have hstates := hblock.states_le hactor fun region hregion ↦
      hmem region (mem_append_left _ hregion)
    rw [filter_append, length_append, filter_cons]
    split at hstates <;> rename_i hstate <;> simp only [hstate, if_true, Bool.false_eq_true, if_false,
      length_cons] <;> omega

end Count

theorem nodup_of_dense {arena : Arena} {kind : String} {records : List α}
    {id : α → Id arena} (hdense : checkDense kind (records.map fun record ↦ (id record).val) = []) :
    (records.map id).Nodup := by
  rw [List.nodup_iff_getElem?_ne_getElem?]
  intro left right hlt hright heq
  obtain ⟨record, hrecord⟩ : ∃ record, records[right]? = some record :=
    ⟨_, List.getElem?_eq_getElem (by simpa using hright)⟩
  have hleft : (records.map fun record ↦ (id record).val)[left]? = some (id record).val := by
    have := congrArg (Option.map Id.val) heq
    rw [← List.getElem?_map, ← List.getElem?_map, map_map] at this
    rw [← Function.comp_def, this, List.getElem?_map, hrecord]
    rfl
  have hindex := checkDense_eq_nil.1 hdense left _ hleft
  have hother : (id record).val.toNat = right :=
    checkDense_eq_nil.1 hdense right _ (by rw [List.getElem?_map, hrecord]; rfl)
  exact absurd (hindex.symm.trans hother) hlt.ne

/-- Every actor with a state has a state region of its own. -/
theorem stateRegionCount_le (hdense : checkDense "actor" (module.actors.map (·.id.val)) = []) :
    stateRegionCount module ≤ (module.regions.filter (isStateRegion module)).length := by
  have hnodup : ((module.actors.filter (hasStateRegion module)).map fun actor ↦
      PlanOwner.actor actor.id).Nodup := by
    have hids := (nodup_of_dense hdense).sublist
      ((filter_sublist (p := hasStateRegion module)).map ActorPlan.id)
    rw [← Function.comp_def, ← map_map]
    exact hids.map fun _ _ h ↦ PlanOwner.actor.inj h
  have hsubset : (module.actors.filter (hasStateRegion module)).map (fun actor ↦
      PlanOwner.actor actor.id) ⊆ (module.regions.filter (isStateRegion module)).map (·.owner) := by
    intro owner howner
    obtain ⟨actor, hactor, rfl⟩ := mem_map.1 howner
    obtain ⟨hactor, hstate⟩ := mem_filter.1 hactor
    obtain ⟨region, hregion, hmatch⟩ := any_eq_true.1 hstate
    simp only [joinedNameMatches, Bool.and_eq_true, beq_iff_eq] at hmatch
    exact mem_map.2 ⟨region, mem_filter.2 ⟨hregion,
      isStateRegion_iff.2 ⟨actor, hactor, hmatch⟩⟩, hmatch.1⟩
  have hle := (hnodup.subperm hsubset).length_le
  rwa [length_map, length_map] at hle

theorem LaidOut.mem_regions (h : LaidOut module blocks frames)
    (hmem : region ∈ blocks.flatten ++ frames) : region ∈ module.regions :=
  mem_of_mem_take (h.take_eq ▸ hmem)

/-- Every entry on the right of a pairing has its partner at the same position. -/
theorem exists_of_forall₂ {β : Type} {relation : α → β → Prop} {others : List β}
    (h : List.Forall₂ relation items others) {other : β} (hmem : other ∈ others) :
    ∃ (index : ℕ) (item : α), items[index]? = some item ∧ others[index]? = some other ∧
      relation item other := by
  obtain ⟨index, hindex, rfl⟩ := mem_iff_getElem.1 hmem
  have hlt : index < items.length := h.length_eq ▸ hindex
  exact ⟨index, items[index], List.getElem?_eq_getElem hlt, List.getElem?_eq_getElem hindex,
    h.get hlt hindex⟩

theorem LaidOut.filter_frames {blocks : List (List RegionPlan)} {frames : List RegionPlan}
    (h : LaidOut module blocks frames) : frames.filter (isStateRegion module) = [] := by
  refine filter_eq_nil_iff.2 fun region hregion ↦ ?_
  obtain ⟨-, task, -, -, htask⟩ := exists_of_forall₂ h.tasks hregion
  rw [isStateRegion_eq_false fun base hname ↦ frameName_ne_stateName _ _ (htask.name.symm.trans hname)]
  exact Bool.false_ne_true

/-- What is laid out and the state regions that are not are as many as the base regions. -/
theorem LaidOut.baseRegionCount_eq {blocks : List (List RegionPlan)} {frames : List RegionPlan}
    (h : LaidOut module blocks frames) :
    (blocks.flatten ++ frames).length + stateRegionCount module =
      baseRegionCount module + (blocks.flatten.filter (isStateRegion module)).length := by
  have hblocks := length_flatten_blocks (fun _ ↦ id) h.actors
  have hframes := h.tasks.length_eq
  rw [length_append, hblocks, baseRegionCount, hframes]
  omega

theorem LaidOut.states_le (h : LaidOut module blocks frames) :
    (blocks.flatten.filter (isStateRegion module)).length ≤ stateRegionCount module :=
  states_flatten_le (fun _ ↦ id) h.actors fun _ hregion ↦ h.mem_regions (mem_append_left _ hregion)

/-- The regions of a closed module: what is laid out for the actors and the tasks, what strayed
between, and one region for each activation plan. -/
structure ClosedRegions (module : FlowWir) (blocks : List (List RegionPlan))
    (frames strays activations : List RegionPlan) : Prop where
  laidOut : LaidOut module blocks frames
  regions_eq : module.regions = blocks.flatten ++ frames ++ strays ++ activations
  base_eq : baseRegionCount module = (blocks.flatten ++ frames ++ strays).length
  length_eq : activations.length = module.activations.length

theorem exists_closedRegions (hclosed : actorCapacityClosed module = true) :
    ∃ blocks frames strays activations, ClosedRegions module blocks frames strays activations := by
  simp only [actorCapacityClosed, Bool.and_eq_true, beq_iff_eq] at hclosed
  obtain ⟨⟨⟨⟨⟨hlength, hvalid⟩, -⟩, -⟩, -⟩, -⟩ := hclosed
  obtain ⟨blocks, frames, hlaid⟩ := exists_laidOut hvalid
  have hle : (blocks.flatten ++ frames).length ≤ baseRegionCount module := by
    have hcount := hlaid.baseRegionCount_eq
    have hstates := hlaid.states_le
    omega
  have htake : module.regions.take (blocks.flatten ++ frames).length = blocks.flatten ++ frames :=
    hlaid.cursor_eq ▸ hlaid.take_eq
  have hbase : module.regions.take (baseRegionCount module) = blocks.flatten ++ frames ++
      (module.regions.take (baseRegionCount module)).drop (blocks.flatten ++ frames).length := by
    conv_lhs => rw [← take_append_drop (blocks.flatten ++ frames).length
      (module.regions.take (baseRegionCount module))]
    rw [take_take, min_eq_left hle, htake]
  refine ⟨blocks, frames,
    (module.regions.take (baseRegionCount module)).drop (blocks.flatten ++ frames).length,
    module.regions.drop (baseRegionCount module), hlaid, ?_, ?_, ?_⟩
  · rw [← hbase, take_append_drop]
  · rw [← hbase, List.length_take]
    omega
  · rw [length_drop]
    omega

section

variable (h : ModuleAccepted module)
include h

theorem ModuleAccepted.activationPlans : validateActivationPlans module = [] := by
  have hplans := h.plans
  simp only [validatePlans, append_eq_nil_iff] at hplans
  exact hplans.1.1.1.1.1.1.2

theorem ModuleAccepted.capacityContract : validateActorCapacityContract module = [] := by
  have hplans := h.plans
  simp only [validatePlans, append_eq_nil_iff] at hplans
  exact hplans.1.1.1.1.1.2

theorem ModuleAccepted.actorsDense : checkDense "actor" (module.actors.map (·.id.val)) = [] := by
  have harenas := h.arenas
  simp only [validateArenas, append_eq_nil_iff] at harenas
  exact harenas.1.1.1.1.1.1.1.2

theorem ModuleAccepted.regionsDense : checkDense "region" (module.regions.map (·.id.val)) = [] := by
  have harenas := h.arenas
  simp only [validateArenas, append_eq_nil_iff] at harenas
  exact harenas.1.1.1.2

theorem ModuleAccepted.activationPlan (hplan : plan ∈ module.activations) :
    ∃ prior, validateActivationPlan module prior plan = [] := by
  have hplans := h.activationPlans
  simp only [validateActivationPlans, append_eq_nil_iff, flatMap_eq_nil_iff] at hplans
  have hfirst : (module.activations.zip (none :: module.activations.map some)).map Prod.fst =
      module.activations := map_fst_zip (by simp)
  obtain ⟨⟨_, prior⟩, hmem, rfl⟩ := mem_map.1 (hfirst ▸ hplan)
  exact ⟨prior, hplans.1.1 _ hmem⟩

end

theorem actorCapacityClosed_of_contract (h : validateActorCapacityContract module = [])
    (hactors : module.actors ≠ []) : actorCapacityClosed module = true := by
  rw [validateActorCapacityContract, if_neg (by simpa using hactors), reportIf_eq_nil] at h
  simpa using h

section Accepted

variable {blocks : List (List RegionPlan)} {frames strays activations : List RegionPlan}

section

variable (haccepted : ModuleAccepted module)
  (hclosed : actorCapacityClosed module = true)
  (h : ClosedRegions module blocks frames strays activations)
include haccepted hclosed h

/-- The last regions of an accepted module are those of its activation plans, in order. -/
theorem ClosedRegions.forall₂_activations :
    List.Forall₂ ActivationRegion module.activations activations := by
  simp only [actorCapacityClosed, activationRegionsValid, Bool.and_eq_true, all_eq_true,
    beq_iff_eq] at hclosed
  obtain ⟨⟨⟨⟨-, hregions⟩, -⟩, -⟩, -⟩ := hclosed
  refine List.forall₂_iff_get.2 ⟨h.length_eq.symm, fun index hindex hregion ↦ ?_⟩
  obtain ⟨prior, hplan⟩ := haccepted.activationPlan (getElem_mem hindex)
  simp only [validateActivationPlan, append_eq_nil_iff, reportIf_eq_nil,
    Bool.not_eq_false', Bool.and_eq_true, activationRegionValid, Option.any_eq_true, beq_iff_eq,
    joinedNameMatches] at hplan
  obtain ⟨-, ⟨-, region, hlookup, ⟨⟨⟨⟨⟨⟨hid, caller, -, hname, -⟩, hclass⟩, hbytes⟩, -⟩, -⟩, hproof⟩,
    hsource⟩, -⟩ := hplan
  have hplace := hregions (module.activations[index], index)
    (mem_zipIdx_iff_getElem?.2 (List.getElem?_eq_getElem hindex))
  have hlast : module.regions[baseRegionCount module + index]? = some activations[index] := by
    rw [h.regions_eq, h.base_eq, List.getElem?_append_right (Nat.le_add_right _ _),
      Nat.add_sub_cancel_left, List.getElem?_eq_getElem hregion]
  rw [Id.lookup, hplace, hlast] at hlookup
  cases hlookup
  exact ⟨hid, ⟨caller.name, hname⟩, hclass, hbytes, hproof, hsource⟩

/-- The regions that strayed are states that do not follow their actor's mailbox. -/
theorem ClosedRegions.strays_states : ∀ region ∈ strays, isStateRegion module region = true := by
  have hactivations : activations.filter (isStateRegion module) = [] := by
    refine filter_eq_nil_iff.2 fun region hregion ↦ ?_
    obtain ⟨-, plan, -, -, hplan⟩ :=
      exists_of_forall₂ (h.forall₂_activations haccepted hclosed) hregion
    obtain ⟨base, hname⟩ := hplan.name
    rw [isStateRegion_eq_false fun other heq ↦ activationName_ne_stateName _ _ (hname.symm.trans heq)]
    exact Bool.false_ne_true
  have hcount := stateRegionCount_le haccepted.actorsDense
  rw [h.regions_eq, filter_append, filter_append, filter_append,
    h.laidOut.filter_frames, hactivations, append_nil, append_nil, length_append]
    at hcount
  have hbase := h.laidOut.baseRegionCount_eq
  have hlength := h.base_eq
  rw [@length_append _ (blocks.flatten ++ frames)] at hlength
  have hle := length_filter_le (isStateRegion module) strays
  exact length_filter_eq_length_iff.1 (by omega)

/-- A state region stands right after a region named as its actor's mailbox. -/
def StatesFollowMailboxes (module : FlowWir) : Prop :=
  ∀ (index : ℕ) (region : RegionPlan), module.regions[index]? = some region →
    ∀ actor ∈ module.actors, region.owner = .actor actor.id →
      region.name = actor.name ++ ".state" →
        ∃ before mailbox, index = before + 1 ∧ module.regions[before]? = some mailbox ∧
          mailbox.name = actor.name ++ ".mailbox"

theorem ClosedRegions.strays_eq_nil (hstates : StatesFollowMailboxes module) : strays = [] := by
  cases strays with
  | nil => rfl
  | cons region strays =>
    have hstate := h.strays_states haccepted hclosed region mem_cons_self
    obtain ⟨actor, hactor, howner, hname⟩ := isStateRegion_iff.1 hstate
    have hregion : module.regions[(baseLayout module).cursor]? = some region := by
      rw [h.regions_eq, h.laidOut.cursor_eq, append_assoc _ (region :: strays),
        List.getElem?_append_right le_rfl, Nat.sub_self]
      rfl
    obtain ⟨before, mailbox, hcursor, hmailbox, hmailboxName⟩ :=
      hstates _ region hregion actor hactor howner hname
    exact absurd hname (h.laidOut.ends before mailbox region actor.name hcursor hmailbox
      hmailboxName (hcursor ▸ hregion))

end

theorem capacitySum_activations
    (hactivations : List.Forall₂ ActivationRegion module.activations activations) :
    activationBytes module = capacitySum activations := by
  rw [activationBytes, capacitySum]
  generalize module.activations = plans at hactivations
  induction hactivations with
  | nil => rfl
  | cons hplan _ ih =>
    rw [map_cons, map_cons, sum_cons, sum_cons, ih, hplan.bytes_eq]

/-- The bytes of a closed module are those of all its regions but the ones that strayed. -/
theorem ClosedRegions.bytes_eq (haccepted : ModuleAccepted module)
    (hclosed : actorCapacityClosed module = true)
    (h : ClosedRegions module blocks frames strays activations) :
    module.staticBytes.toNat + capacitySum strays = capacitySum module.regions ∧
      module.peakBytes = module.staticBytes := by
  have hactivations := capacitySum_activations (h.forall₂_activations haccepted hclosed)
  simp only [actorCapacityClosed, Bool.and_eq_true, beq_iff_eq] at hclosed
  obtain ⟨⟨⟨-, hstatic⟩, hpeak⟩, -⟩ := hclosed
  refine ⟨?_, UInt64.toNat_inj.1 (hpeak.symm.trans hstatic)⟩
  rw [← hstatic, h.laidOut.bytes_eq, hactivations, h.regions_eq]
  simp only [capacitySum_append]
  omega

end Accepted

/-- In an accepted module with an actor, whose state regions follow their mailboxes, the image
accounts for every region, and the regions are those of the actors, the tasks and the plans. -/
theorem capacity_closure {limits : ValidationLimits} (h : checkWithLimits module limits = .ok ())
    (hactors : module.actors ≠ []) (hstates : StatesFollowMailboxes module) :
    module.staticBytes.toNat = capacitySum module.regions ∧
      module.peakBytes.toNat = capacitySum module.regions ∧
      (module.regions.map RegionPlan.id).Nodup ∧
      ∃ blocks frames activations,
        module.regions = blocks.flatten ++ frames ++ activations ∧
          List.Forall₂ (ActorBlock module) module.actors blocks ∧
          List.Forall₂ (TaskRegion module) module.tasks frames ∧
          List.Forall₂ ActivationRegion module.activations activations := by
  have haccepted := ((checkWithLimits_eq_ok module).1 h).accepted
  have hclosed := actorCapacityClosed_of_contract haccepted.capacityContract hactors
  obtain ⟨blocks, frames, strays, activations, hregions⟩ := exists_closedRegions hclosed
  obtain rfl := hregions.strays_eq_nil haccepted hclosed hstates
  obtain ⟨hbytes, hpeak⟩ := hregions.bytes_eq haccepted hclosed
  have hstatic : module.staticBytes.toNat = capacitySum module.regions := hbytes
  refine ⟨hstatic, hpeak ▸ hstatic, nodup_of_dense haccepted.regionsDense, blocks, frames,
    activations, ?_, hregions.laidOut.actors, hregions.laidOut.tasks,
    hregions.forall₂_activations haccepted hclosed⟩
  rw [hregions.regions_eq, append_nil]

theorem capacity_closure_guarded :
    guardedImage.staticBytes.toNat = capacitySum guardedImage.regions ∧
      guardedImage.peakBytes.toNat = capacitySum guardedImage.regions := by
  have hstates : StatesFollowMailboxes guardedImage := by
    have hnames : ∀ region ∈ guardedImage.regions, ∀ actor ∈ guardedImage.actors,
        region.name ≠ actor.name ++ ".state" := by decide
    exact fun index region hregion actor hactor _ hname ↦
      absurd hname (hnames region (mem_of_getElem? hregion) actor hactor)
  have h := capacity_closure checkWithLimits_guardedImage (by decide) hstates
  exact ⟨h.1, h.2.1⟩

/-- An image without actors that claims memory although it has no region. -/
def looseImage : FlowWir := { idleImage with staticBytes := 1, peakBytes := 2 }

/-- Two idle actors; the state of the first comes after the mailbox of the second. -/
def strayImage : FlowWir :=
  { idleImage with
    name := "stray"
    types := [⟨⟨0⟩, u64Kind, none, true, false⟩]
    functions :=
      [{ id := ⟨0⟩, name := "entry", origin := .generatedImageEntry 0 0, role := .imageEntry,
         color := .sync, parameters := [], resultTypes := [], values := [],
         blocks := [⟨⟨0⟩, [], [], .return [], none⟩], entry := ⟨0⟩, stackBound := 0,
         frameBound := 0, proofs := [⟨2⟩, ⟨3⟩, ⟨4⟩, ⟨5⟩, ⟨6⟩, ⟨7⟩], source := none }]
    actors := [⟨⟨0⟩, "clock", ⟨0⟩, 1, [], [], 0, none⟩, ⟨⟨1⟩, "pump", ⟨0⟩, 1, [], [], 0, none⟩]
    regions :=
      [⟨⟨0⟩, "clock.mailbox", .image, 16, 8, none, .actor ⟨0⟩, ⟨2⟩, guardSpan⟩,
        ⟨⟨1⟩, "pump.mailbox", .image, 16, 8, none, .actor ⟨1⟩, ⟨3⟩, guardSpan⟩,
        ⟨⟨2⟩, "clock.state", .image, 8, 8, none, .actor ⟨0⟩, ⟨4⟩, guardSpan⟩]
    schedulers := [⟨0, [⟨0⟩, ⟨1⟩], []⟩]
    proofs :=
      [guardProof 0 .typeChecked "types" [] none, guardProof 1 .effectsAllowed "effects" [] none,
        guardProof 2 .capacityBound "clock" [] (some 1),
        guardProof 3 .capacityBound "pump" [] (some 1),
        guardProof 4 .capacityBound "state" [] (some 1),
        guardProof 5 .waitGraphAcyclic "waits" [] none,
        { guardProof 6 .supervisionComplete "complete static actor/task parent topology" [⟨0⟩]
            (some 2) with
          sources := [guardSpan, guardSpan], explanation := [supervisionExplanation] },
        { guardProof 7 .imageClosed "image" [⟨0⟩, ⟨1⟩, ⟨2⟩, ⟨3⟩, ⟨4⟩, ⟨5⟩, ⟨6⟩] (some 32) with
          sources := [guardSpan, guardSpan, guardSpan] }]
    startupOrder := [.runtime, .actor ⟨0⟩, .actor ⟨1⟩]
    shutdownOrder := [.actor ⟨1⟩, .actor ⟨0⟩, .runtime]
    staticBytes := 32
    peakBytes := 32 }

theorem capacity_closure_strayed :
    (checkWithLimits looseImage .standard = .ok () ∧
      looseImage.staticBytes.toNat ≠ capacitySum looseImage.regions ∧
      looseImage.peakBytes.toNat ≠ capacitySum looseImage.regions) ∧
    checkWithLimits strayImage .standard = .ok () ∧
      strayImage.staticBytes.toNat ≠ capacitySum strayImage.regions ∧
      strayImage.peakBytes.toNat ≠ capacitySum strayImage.regions := by
  refine ⟨⟨?_, by decide, by decide⟩, ?_, by decide, by decide⟩
  · decide +kernel
  · decide +kernel

end Wrela.Validation
