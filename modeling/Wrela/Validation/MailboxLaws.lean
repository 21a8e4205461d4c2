import Wrela.Validation.ClosureLaws

/-!
# Mailbox proofs

A reservation depends on the capacity proof of the mailbox it is made in.  The mailbox is looked up
as the one image region of the actor, but the state of an actor is an image region of it as well:
for an actor with a state the lookup fails.
-/

namespace Wrela.Validation

open List Wrela.Flow

variable {module : FlowWir}

/-- An image region of the actor. -/
def isActorImage (actor : ActorId) (region : RegionPlan) : Bool :=
  region.owner == .actor actor && region.class_ == .image

theorem actorMailboxProof_eq_some (hmem : mailbox ∈ module.regions)
    (himage : isActorImage actor mailbox = true) :
    actorMailboxProof module actor = some mailbox.capacityProof ↔
      (module.regions.filter (isActorImage actor)).length = 1 := by
  have hmailbox : mailbox ∈ module.regions.filter (isActorImage actor) :=
    mem_filter.2 ⟨hmem, himage⟩
  have hfilter : module.regions.filter (fun region ↦
      region.owner == .actor actor && region.class_ == .image) =
        module.regions.filter (isActorImage actor) := rfl
  rw [actorMailboxProof, hfilter]
  generalize module.regions.filter (isActorImage actor) = owned at hmailbox
  rcases owned with _ | ⟨region, _ | ⟨second, rest⟩⟩
  · cases hmailbox
  · obtain rfl := mem_singleton.1 hmailbox
    exact iff_of_true rfl rfl
  · exact iff_of_false (by simp) (by simp)

theorem isActorImage_eq_false_of_owner (howner : region.owner = .actor other) (hne : other ≠ actor)
    :
    isActorImage actor region = false := by
  simp [isActorImage, howner, hne]

variable {actor : ActorPlan}

/-- Every region of a block is owned by its actor. -/
theorem ActorBlock.owner_eq (h : ActorBlock module actor block) :
    ∀ region ∈ block, region.owner = .actor actor.id := by
  obtain ⟨mailbox, state, turn, rfl, hregions⟩ := h
  intro region hregion
  rcases mem_cons.1 hregion with rfl | hregion
  · exact hregions.mailboxReserved.owner_eq
  rcases mem_append.1 hregion with hregion | hregion
  · exact (hregions.stateReserved region (Option.mem_toList.1 hregion)).owner_eq
  · exact (hregions.turnReserved region (Option.mem_toList.1 hregion)).owner_eq

/-- The image regions of a block are the mailbox and the state. -/
theorem ActorRegions.filter_isActorImage (h : ActorRegions module actor mailbox state turn) :
    (mailbox :: (state.toList ++ turn.toList)).filter (isActorImage actor.id) =
      mailbox :: state.toList := by
  have hmailbox : isActorImage actor.id mailbox = true := by
    simp [isActorImage, h.mailboxReserved.owner_eq, h.mailboxReserved.class_eq]
  have hstate : state.toList.filter (isActorImage actor.id) = state.toList := by
    refine filter_eq_self.2 fun region hregion ↦ ?_
    have hreserved := h.stateReserved region (Option.mem_toList.1 hregion)
    simp [isActorImage, hreserved.owner_eq, hreserved.class_eq]
  have hturn : turn.toList.filter (isActorImage actor.id) = [] := by
    refine filter_eq_nil_iff.2 fun region hregion ↦ ?_
    have hreserved := h.turnReserved region (Option.mem_toList.1 hregion)
    simp [isActorImage, hreserved.class_eq]
  rw [filter_cons_of_pos hmailbox, filter_append, hstate, hturn, append_nil]

/-- Only the block of an actor has image regions of it. -/
theorem filter_flatten_blocks (hids : (actors.map ActorPlan.id).Nodup)
    (hblocks : List.Forall₂ (ActorBlock module) actors blocks) (hactor : actor ∈ actors) :
    ∃ block ∈ blocks, ActorBlock module actor block ∧
      blocks.flatten.filter (isActorImage actor.id) = block.filter (isActorImage actor.id) := by
  induction hblocks with
  | nil => cases hactor
  | @cons first block actors blocks hblock hblocks ih =>
    rw [map_cons, nodup_cons] at hids
    rw [flatten_cons, filter_append]
    by_cases hfirst : first.id = actor.id
    · have hrest : blocks.flatten.filter (isActorImage actor.id) = [] := by
        refine filter_eq_nil_iff.2 fun region hregion ↦ ?_
        obtain ⟨rest, hrest, hregion⟩ := mem_flatten.1 hregion
        obtain ⟨_, other, hother, -, hother'⟩ := exists_of_forall₂ hblocks hrest
        have hne : other.id ≠ actor.id := fun heq ↦ hids.1 (hfirst.trans heq.symm ▸
          mem_map_of_mem (mem_of_getElem? hother))
        rw [isActorImage_eq_false_of_owner (hother'.owner_eq region hregion) hne]
        exact Bool.false_ne_true
      rcases mem_cons.1 hactor with rfl | hactor
      · exact ⟨block, mem_cons_self, hblock, by rw [hrest, append_nil]⟩
      · exact absurd (hfirst ▸ mem_map_of_mem hactor) hids.1
    · have hactor : actor ∈ actors := (mem_cons.1 hactor).resolve_left fun h ↦
        hfirst (congrArg ActorPlan.id h).symm
      obtain ⟨own, hown, hownBlock, hfilter⟩ := ih hids.2 hactor
      have hnone : block.filter (isActorImage actor.id) = [] := by
        refine filter_eq_nil_iff.2 fun region hregion ↦ ?_
        rw [isActorImage_eq_false_of_owner (hblock.owner_eq region hregion) hfirst]
        exact Bool.false_ne_true
      exact ⟨own, mem_cons_of_mem _ hown, hownBlock, by rw [hnone, nil_append, hfilter]⟩

theorem ClosedRegions.filter_isActorImage (haccepted : ModuleAccepted module)
    (hclosed : actorCapacityClosed module = true)
    (h : ClosedRegions module blocks frames strays activations) (hactor : actor ∈ module.actors) :
    ∃ mailbox state turn, ActorRegions module actor mailbox state turn ∧
      module.regions.filter (isActorImage actor.id) =
        mailbox :: (state.toList ++ strays.filter (isActorImage actor.id)) := by
  obtain ⟨-, -, ⟨mailbox, state, turn, rfl, hregions⟩, hblocks⟩ :=
    filter_flatten_blocks (nodup_of_dense haccepted.actorsDense) h.laidOut.actors hactor
  have hframes : frames.filter (isActorImage actor.id) = [] := by
    refine filter_eq_nil_iff.2 fun region hregion ↦ ?_
    obtain ⟨-, task, -, -, htask⟩ := exists_of_forall₂ h.laidOut.tasks hregion
    obtain ⟨_, -, hreserved⟩ := htask.reserved
    simp [isActorImage, hreserved.class_eq]
  have hactivations : activations.filter (isActorImage actor.id) = [] := by
    refine filter_eq_nil_iff.2 fun region hregion ↦ ?_
    obtain ⟨-, plan, -, -, hplan⟩ :=
      exists_of_forall₂ (h.forall₂_activations haccepted hclosed) hregion
    simp [isActorImage, hplan.class_eq]
  refine ⟨mailbox, state, turn, hregions, ?_⟩
  rw [h.regions_eq, filter_append, filter_append, filter_append, hblocks, hframes,
    hactivations, hregions.filter_isActorImage, append_nil, append_nil, cons_append]

/-- The image regions of an actor are its mailbox and its state regions. -/
theorem length_filter_isActorImage (haccepted : ModuleAccepted module)
    (hclosed : actorCapacityClosed module = true) (hactor : actor ∈ module.actors) :
    (module.regions.filter (isActorImage actor.id)).length = 1 ↔
      ∀ region ∈ module.regions, region.owner = .actor actor.id → region.class_ = .image →
        region.name ≠ actor.name ++ ".state" := by
  obtain ⟨blocks, frames, strays, activations, hregions⟩ := exists_closedRegions hclosed
  obtain ⟨mailbox, state, turn, hown, hfilter⟩ :=
    hregions.filter_isActorImage haccepted hclosed hactor
  rw [hfilter, length_cons, Nat.add_eq_right, length_eq_zero_iff, append_eq_nil_iff,
    Option.toList_eq_nil_iff]
  constructor
  · rintro ⟨rfl, hstrays⟩ region hregion howner hclass hname
    have hmem : region ∈ module.regions.filter (isActorImage actor.id) :=
      mem_filter.2 ⟨hregion, by simp [isActorImage, howner, hclass]⟩
    rw [hfilter, hstrays, Option.toList_none, append_nil, mem_singleton] at hmem
    exact mailboxName_ne_stateName _ _ (hown.mailboxName.symm.trans (hmem ▸ hname))
  · intro hstateless
    refine ⟨Option.eq_none_iff_forall_not_mem.2 fun region hregion ↦ ?_,
      filter_eq_nil_iff.2 fun region hregion himage ↦ ?_⟩
    · have hreserved := hown.stateReserved region hregion
      have hmem : region ∈ module.regions.filter (isActorImage actor.id) := by
        rw [hfilter]
        exact mem_cons_of_mem _ (mem_append_left _ (Option.mem_toList.2 hregion))
      exact hstateless region (mem_filter.1 hmem).1 hreserved.owner_eq hreserved.class_eq
        (hown.stateName region hregion)
    · simp only [isActorImage, Bool.and_eq_true, beq_iff_eq] at himage
      obtain ⟨other, hother, howner, hname⟩ :=
        isStateRegion_iff.1 (hregions.strays_states haccepted hclosed region hregion)
      have hid : other.id = actor.id := PlanOwner.actor.inj (howner.symm.trans himage.1)
      obtain rfl : other = actor := Option.some.inj <|
        (lookup_of_dense haccepted.actorsDense hother).symm.trans
          (hid ▸ lookup_of_dense haccepted.actorsDense hactor)
      have hmem : region ∈ module.regions := by
        rw [hregions.regions_eq]
        exact mem_append_left _ (mem_append_right _ hregion)
      exact hstateless region hmem himage.1 himage.2 hname

/-- The lookup finds the proof of an actor's mailbox when the mailbox is the only image region of
the actor, which in an accepted module means that the actor has no state. -/
theorem actorMailboxProof_mailbox (h : validateActorCapacityContract module = [])
    {actor : ActorPlan} (hactor : actor ∈ module.actors) :
    ∃ mailbox ∈ module.regions, mailbox.owner = .actor actor.id ∧ mailbox.class_ = .image ∧
      mailbox.name = actor.name ++ ".mailbox" ∧
      (actorMailboxProof module actor.id = some mailbox.capacityProof ↔
        (module.regions.filter (isActorImage actor.id)).length = 1) ∧
      (ModuleAccepted module →
        (actorMailboxProof module actor.id = some mailbox.capacityProof ↔
          ∀ region ∈ module.regions, region.owner = .actor actor.id → region.class_ = .image →
            region.name ≠ actor.name ++ ".state")) := by
  have hclosed := actorCapacityClosed_of_contract h (ne_nil_of_mem hactor)
  obtain ⟨blocks, frames, strays, activations, hregions⟩ := exists_closedRegions hclosed
  obtain ⟨_, _, hblock, -, mailbox, state, turn, rfl, hown⟩ := exists_of_forall₂
    (List.Forall₂.flip (R := flip (ActorBlock module)) hregions.laidOut.actors) hactor
  have hmem : mailbox ∈ module.regions := hregions.laidOut.mem_regions (mem_append_left _
    (mem_flatten.2 ⟨_, mem_of_getElem? hblock, mem_cons_self⟩))
  have howner := hown.mailboxReserved.owner_eq
  have hclass := hown.mailboxReserved.class_eq
  have hproof := actorMailboxProof_eq_some hmem
    (show isActorImage actor.id mailbox = true by simp [isActorImage, hclass, howner])
  exact ⟨mailbox, hmem, howner, hclass, hown.mailboxName, hproof, fun haccepted ↦
    hproof.trans (length_filter_isActorImage haccepted hclosed hactor)⟩

/-- One idle actor with a state. -/
def statefulImage : FlowWir :=
  { idleImage with
    name := "stateful"
    types := [⟨⟨0⟩, u64Kind, none, true, false⟩]
    functions :=
      [{ id := ⟨0⟩, name := "entry", origin := .generatedImageEntry 0 0, role := .imageEntry,
         color := .sync, parameters := [], resultTypes := [], values := [],
         blocks := [⟨⟨0⟩, [], [], .return [], none⟩], entry := ⟨0⟩, stackBound := 0,
         frameBound := 0, proofs := [⟨2⟩, ⟨3⟩, ⟨4⟩, ⟨5⟩, ⟨6⟩], source := none }]
    actors := [⟨⟨0⟩, "clock", ⟨0⟩, 1, [], [], 0, none⟩]
    regions :=
      [⟨⟨0⟩, "clock.mailbox", .image, 16, 8, none, .actor ⟨0⟩, ⟨2⟩, guardSpan⟩,
        ⟨⟨1⟩, "clock.state", .image, 8, 8, none, .actor ⟨0⟩, ⟨3⟩, guardSpan⟩]
    schedulers := [⟨0, [⟨0⟩], []⟩]
    proofs :=
      [guardProof 0 .typeChecked "types" [] none, guardProof 1 .effectsAllowed "effects" [] none,
        guardProof 2 .capacityBound "mailbox" [] (some 1),
        guardProof 3 .capacityBound "state" [] (some 1),
        guardProof 4 .waitGraphAcyclic "waits" [] none,
        { guardProof 5 .supervisionComplete "complete static actor/task parent topology" [⟨0⟩]
            (some 1) with explanation := [supervisionExplanation] },
        { guardProof 6 .imageClosed "image" [⟨0⟩, ⟨1⟩, ⟨2⟩, ⟨3⟩, ⟨4⟩, ⟨5⟩] (some 24) with
          sources := [guardSpan, guardSpan] }]
    startupOrder := [.runtime, .actor ⟨0⟩]
    shutdownOrder := [.actor ⟨0⟩, .runtime]
    staticBytes := 24
    peakBytes := 24 }

theorem actorMailboxProof_stateful :
    checkWithLimits statefulImage .standard = .ok () ∧
      actorMailboxProof statefulImage ⟨0⟩ = none := by
  refine ⟨?_, by decide⟩
  decide +kernel

theorem actorMailboxProof_mailbox_guarded :
    ∃ mailbox ∈ guardedImage.regions, mailbox.name = "clock" ++ ".mailbox" ∧
      (actorMailboxProof guardedImage ⟨0⟩ = some mailbox.capacityProof ↔
        (guardedImage.regions.filter (isActorImage ⟨0⟩)).length = 1) := by
  obtain ⟨mailbox, hmem, -, -, hname, hproof, -⟩ := actorMailboxProof_mailbox (by decide)
    (show (⟨⟨0⟩, "clock", ⟨0⟩, 1, [], [⟨1⟩, ⟨2⟩], 0, none⟩ : ActorPlan) ∈ guardedImage.actors by
      decide)
  exact ⟨mailbox, hmem, hname, hproof⟩

end Wrela.Validation
