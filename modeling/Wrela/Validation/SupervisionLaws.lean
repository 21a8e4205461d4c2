import Wrela.Graph.Forest
import Wrela.Validation.Module

/-!
# Supervision

The supervisors above an actor form a chain.  The validator walks it for as many steps as there are
actors and gives up when it meets the actor again; that is enough, since a chain that ends has no
actor twice.
-/

namespace Wrela.Validation

open List Relation Wrela.Flow

variable (module : FlowWir)

/-- The supervisors from one upwards, to an actor that has none. -/
inductive SupervisorChain : Option ActorId → List ActorId → Prop
  | root : SupervisorChain none []
  | step {parent : ActorId} {record : ActorPlan} {chain : List ActorId}
      (hlookup : parent.lookup module.actors = some record)
      (hchain : SupervisorChain record.supervisor chain) :
      SupervisorChain (some parent) (parent :: chain)

/-- One actor supervises another. -/
def Supervises (parent child : ActorId) : Prop :=
  ∃ record, child.lookup module.actors = some record ∧ record.supervisor = some parent

variable {module}

variable {cursor : Option ActorId} {chain : List ActorId}

theorem SupervisorChain.unique (h : SupervisorChain module cursor chain)
    (hother : SupervisorChain module cursor other) :
    chain = other := by
  induction h generalizing other with
  | root =>
    cases hother
    rfl
  | step hlookup _ ih =>
    cases hother with
    | step hlookup' hchain' =>
      obtain rfl := Option.some.inj (hlookup.symm.trans hlookup')
      rw [ih hchain']

/-- Every supervisor on a chain starts the rest of it. -/
theorem SupervisorChain.suffix {before after : List ActorId}
    {actor : ActorId} (h : SupervisorChain module cursor (before ++ actor :: after)) :
    SupervisorChain module (some actor) (actor :: after) := by
  induction before generalizing cursor with
  | nil =>
    cases h with
    | step hlookup hchain => exact .step hlookup hchain
  | cons first before ih =>
    cases h with
    | step _ hchain => exact ih hchain

/-- A supervisor is not met again above itself: the chain from it would not end. -/
theorem SupervisorChain.not_mem_tail (h : SupervisorChain module (some actor) (actor :: chain)) :
    actor ∉ chain := by
  intro hmem
  obtain ⟨before, after, rfl⟩ := append_of_mem hmem
  have hagain : SupervisorChain module (some actor) (actor :: after) :=
    SupervisorChain.suffix (cons_append ▸ h)
  have hlength := congrArg List.length (h.unique hagain)
  simp only [length_cons, length_append] at hlength
  omega

theorem SupervisorChain.nodup (h : SupervisorChain module cursor chain) : chain.Nodup := by
  induction h with
  | root => exact nodup_nil
  | step hlookup hchain ih => exact nodup_cons.2 ⟨(step hlookup hchain).not_mem_tail, ih⟩

theorem SupervisorChain.index_lt (h : SupervisorChain module cursor chain) :
    ∀ actor ∈ chain, actor.index < module.actors.length := by
  induction h with
  | root => exact fun _ h ↦ absurd h not_mem_nil
  | step hlookup _ ih =>
    intro actor hmem
    rcases mem_cons.1 hmem with rfl | hmem
    · exact (List.getElem?_eq_some_iff.1 hlookup).1
    · exact ih actor hmem

theorem idIndex_injective : Function.Injective (@Id.index arena) := by
  rintro ⟨left⟩ ⟨right⟩ h
  exact congrArg Id.mk (UInt32.toNat_inj.1 h)

/-- A chain that ends is no longer than the list of actors. -/
theorem SupervisorChain.length_le
    (h : SupervisorChain module cursor chain) : chain.length ≤ module.actors.length := by
  have hnodup : (chain.map Id.index).Nodup := h.nodup.map idIndex_injective
  have hsubset : chain.map Id.index ⊆ List.range module.actors.length := by
    intro index hmem
    obtain ⟨actor, hactor, rfl⟩ := mem_map.1 hmem
    exact mem_range.2 (h.index_lt actor hactor)
  calc chain.length = (chain.map Id.index).length := length_map _ |>.symm
    _ ≤ (List.range module.actors.length).length := (hnodup.subperm hsubset).length_le
    _ = module.actors.length := length_range

/-- The walk accepts just the chains that end in time without the actor on them. -/
theorem ancestryValid_iff :
    ancestryValid module actor steps cursor = true ↔
      ∃ chain, SupervisorChain module cursor chain ∧ actor ∉ chain ∧ chain.length ≤ steps := by
  induction steps generalizing cursor with
  | zero =>
    cases cursor with
    | none => exact iff_of_true rfl ⟨[], .root, not_mem_nil, le_rfl⟩
    | some parent =>
      refine iff_of_false Bool.false_ne_true ?_
      rintro ⟨chain, hchain, -, hlength⟩
      cases hchain
      cases hlength
  | succ steps ih =>
    cases cursor with
    | none => exact iff_of_true rfl ⟨[], .root, not_mem_nil, Nat.zero_le _⟩
    | some parent =>
      rw [ancestryValid, Bool.and_eq_true, bne_iff_ne]
      constructor
      · rintro ⟨hne, hrest⟩
        split at hrest
        · cases hrest
        · rename_i record hlookup
          obtain ⟨chain, hchain, hactor, hlength⟩ := ih.1 hrest
          exact ⟨parent :: chain, .step hlookup hchain,
            not_mem_cons_of_ne_of_not_mem hne.symm hactor, Nat.succ_le_succ hlength⟩
      · rintro ⟨chain, hchain, hactor, hlength⟩
        cases hchain with
        | step hlookup hchain =>
          obtain ⟨hne, hactor⟩ := ne_and_not_mem_of_not_mem_cons hactor
          refine ⟨hne.symm, ?_⟩
          rw [hlookup]
          exact ih.2 ⟨_, hchain, hactor, Nat.le_of_succ_le_succ hlength⟩

/-- When every chain ends no actor is above itself. -/
theorem supervises_acyclic
    (hchains : ∀ actor ∈ module.actors, ∃ chain, SupervisorChain module actor.supervisor chain)
    (actor : ActorId) : ¬ TransGen (Supervises module) actor actor := by
  have habove : ∀ {child}, TransGen (Supervises module) actor child →
      ∀ chain, SupervisorChain module (some child) (child :: chain) → actor ∈ chain := by
    intro child h
    induction h with
    | single h =>
      rintro chain (_ | ⟨hlookup, hchain⟩)
      obtain ⟨record, hrecord, hsupervisor⟩ := h
      obtain rfl := Option.some.inj (hlookup.symm.trans hrecord)
      rw [hsupervisor] at hchain
      cases hchain
      exact mem_cons_self
    | tail _ h ih =>
      rintro chain (_ | ⟨hlookup, hchain⟩)
      obtain ⟨record, hrecord, hsupervisor⟩ := h
      obtain rfl := Option.some.inj (hlookup.symm.trans hrecord)
      rw [hsupervisor] at hchain
      cases hchain with
      | step hparent hchain => exact mem_cons_of_mem _ (ih _ (.step hparent hchain))
  intro hcycle
  obtain ⟨parent, -, record, hlookup, -⟩ := TransGen.tail'_iff.1 hcycle
  obtain ⟨chain, hchain⟩ := hchains record (mem_of_getElem? hlookup)
  have hself := SupervisorChain.step hlookup hchain
  exact hself.not_mem_tail (habove hcycle chain hself)

section Dense

variable (hdense : checkDense "actor" (module.actors.map (·.id.val)) = [])

include hdense

/-- Where identifiers are positions the walk accepts just the actors whose chain ends. -/
theorem ancestryValid_iff_chain (hmem : actor ∈ module.actors) :
    ancestryValid module actor.id module.actors.length actor.supervisor = true ↔
      ∃ chain, SupervisorChain module actor.supervisor chain := by
  rw [ancestryValid_iff]
  constructor
  · rintro ⟨chain, hchain, -⟩
    exact ⟨chain, hchain⟩
  · rintro ⟨chain, hchain⟩
    have hself : SupervisorChain module (some actor.id) (actor.id :: chain) :=
      .step (lookup_of_dense hdense hmem) hchain
    exact ⟨chain, hchain, hself.not_mem_tail, hchain.length_le⟩

/-- Without cycles every chain of supervisors that exist ends. -/
theorem exists_supervisorChain (hrange : ∀ actor ∈ module.actors, ∀ supervisor ∈ actor.supervisor,
      supervisor.index < module.actors.length)
    (hacyclic : ∀ actor, ¬ TransGen (Supervises module) actor actor) (hmem : actor ∈ module.actors)
    :
    ∃ chain, SupervisorChain module actor.supervisor chain := by
  have hfinite : (Set.preimage Id.index (Set.Iio module.actors.length) : Set ActorId).Finite :=
    (Set.finite_Iio _).preimage idIndex_injective.injOn
  have hwellFounded : WellFounded (Supervises module) :=
    Graph.wellFounded_of_acyclic hfinite (fun parent child ⟨record, hlookup, hsupervisor⟩ ↦
      hrange record (mem_of_getElem? hlookup) parent hsupervisor) hacyclic
  have hends : ∀ (child : ActorId) (record : ActorPlan), child.lookup module.actors = some record →
      ∃ chain, SupervisorChain module record.supervisor chain := by
    intro child
    induction child using hwellFounded.induction with
    | _ child ih =>
      intro record hlookup
      cases hsupervisor : record.supervisor with
      | none => exact ⟨[], .root⟩
      | some parent =>
        have hparent := hrange record (mem_of_getElem? hlookup) parent hsupervisor
        obtain ⟨above, habove⟩ : ∃ above, parent.lookup module.actors = some above :=
          ⟨_, List.getElem?_eq_getElem hparent⟩
        obtain ⟨chain, hchain⟩ := ih parent ⟨record, hlookup, hsupervisor⟩ above habove
        exact ⟨parent :: chain, .step habove hchain⟩
  exact hends actor.id actor (lookup_of_dense hdense hmem)

end Dense

/-- Supervision passes exactly when it is acyclic, which is when the chain above every actor ends at
an actor without a supervisor. -/
theorem supervision_valid_iff_acyclic
    (hdense : checkDense "actor" (module.actors.map (·.id.val)) = [])
    (hrange : ∀ actor ∈ module.actors, ∀ supervisor ∈ actor.supervisor,
      supervisor.index < module.actors.length) :
    ((∀ actor ∈ module.actors,
        ancestryValid module actor.id module.actors.length actor.supervisor = true) ↔
      ∀ actor ∈ module.actors, ∃ chain, SupervisorChain module actor.supervisor chain) ∧
    ((∀ actor ∈ module.actors,
        ancestryValid module actor.id module.actors.length actor.supervisor = true) ↔
      ∀ actor, ¬ TransGen (Supervises module) actor actor) ∧
    (module.actors.flatMap (validateActorSupervision module) = [] ↔
      (∀ actor, ¬ TransGen (Supervises module) actor actor) ∧
        ∀ actor ∈ module.actors, (ownedSource module (.actor actor.id)).isSome) := by
  have hchains : (∀ actor ∈ module.actors,
        ancestryValid module actor.id module.actors.length actor.supervisor = true) ↔
      ∀ actor ∈ module.actors, ∃ chain, SupervisorChain module actor.supervisor chain :=
    forall₂_congr fun _ hmem ↦ ancestryValid_iff_chain hdense hmem
  have hacyclic : (∀ actor ∈ module.actors, ∃ chain, SupervisorChain module actor.supervisor chain) ↔
      ∀ actor, ¬ TransGen (Supervises module) actor actor :=
    ⟨supervises_acyclic, fun h _ hmem ↦ exists_supervisorChain hdense hrange h hmem⟩
  refine ⟨hchains, hchains.trans hacyclic, ?_⟩
  rw [← hchains.trans hacyclic, flatMap_eq_nil_iff, ← forall₂_and]
  refine forall₂_congr fun actor _ ↦ ?_
  simp [validateActorSupervision, Option.isSome_iff_ne_none]

/-- A clock with a pump below it. -/
def supervisedImage : FlowWir :=
  { guardedImage with
    actors :=
      [⟨⟨0⟩, "clock", ⟨0⟩, 1, [], [⟨1⟩, ⟨2⟩], 0, none⟩, ⟨⟨1⟩, "pump", ⟨0⟩, 1, [], [], 0, some ⟨0⟩⟩] }

theorem supervision_valid_iff_acyclic_pump :
    ¬ TransGen (Supervises supervisedImage) ⟨0⟩ ⟨0⟩ ∧
      ¬ TransGen (Supervises supervisedImage) ⟨1⟩ ⟨1⟩ := by
  have hacyclic :=
    (@supervision_valid_iff_acyclic supervisedImage (by decide) (by decide)).2.1.1 (by decide)
  exact ⟨hacyclic ⟨0⟩, hacyclic ⟨1⟩⟩

end Wrela.Validation
