import Wrela.Graph.Dominators

/-!
# The dominator iteration settles on the dominators

The nodes are swept in an order in which every node but the entry has a predecessor before it.  The
chain of a node always contains its dominators.  After the `k`-th sweep it is visited by every walk
with fewer than `k` edges that do not go forward in the order, and a walk without repetition has
fewer such edges than the order has nodes: then nothing changes any more.
-/

namespace Wrela.Graph

open List

section Walks

variable {successors : ℕ → List ℕ} {entry node : ℕ}

theorem Walk.suffix {before after : List ℕ}
    (h : Walk successors entry (before ++ node :: after)) :
    Walk successors entry (node :: after) := by
  induction before with
  | nil => exact h
  | cons first before ih =>
    apply ih
    rw [cons_append] at h
    generalize hlist : before ++ node :: after = path at h
    cases h with
    | start => simp at hlist
    | step walk _ => exact walk

/-- What a walk does after a node can follow any walk to the node. -/
theorem Walk.splice {before after other : List ℕ}
    (h : Walk successors entry (before ++ node :: after))
    (hother : Walk successors entry (node :: other)) :
    Walk successors entry (before ++ node :: other) := by
  induction before with
  | nil => exact hother
  | cons first before ih =>
    rw [cons_append] at h ⊢
    cases before with
    | nil =>
      cases h with
      | step _ edge => exact .step hother edge
    | cons second before =>
      cases h with
      | step walk edge => exact .step (ih walk) edge

/-- A walk without repetition is left when the detours of a walk are cut out. -/
theorem Walk.exists_nodup (h : Walk successors entry (node :: visited)) :
    ∃ simple, Walk successors entry (node :: simple) ∧ (node :: simple).Nodup ∧
      node :: simple ⊆ node :: visited := by
  generalize hlist : node :: visited = path at h
  induction h generalizing node visited with
  | start =>
    obtain ⟨rfl, rfl⟩ := List.cons.inj hlist
    exact ⟨[], .start, nodup_singleton node, List.Subset.refl _⟩
  | step walk edge ih =>
    rename_i source next before
    obtain ⟨rfl, rfl⟩ := List.cons.inj hlist
    obtain ⟨simple, hwalk, hnodup, hsubset⟩ := ih rfl
    by_cases hmem : node ∈ source :: simple
    · obtain ⟨skipped, after, hsplit⟩ := append_of_mem hmem
      rw [hsplit] at hwalk hnodup hsubset
      refine ⟨after, hwalk.suffix, (nodup_append.1 hnodup).2.1, ?_⟩
      exact fun other hother ↦ mem_cons_of_mem _ (hsubset (mem_append_right _ hother))
    · refine ⟨source :: simple, .step hwalk edge, nodup_cons.2 ⟨hmem, hnodup⟩, ?_⟩
      exact cons_subset_cons node hsubset

/-- What a walk to a node has to visit, a walk to a node before it on the way has to visit too. -/
theorem Dominates.of_edge {dominator next : ℕ} (h : Dominates successors entry dominator next)
    (hedge : next ∈ successors node) (hne : dominator ≠ next) :
    Dominates successors entry dominator node := by
  intro visited hwalk
  exact mem_of_ne_of_mem hne (h _ (.step hwalk hedge))

end Walks

section Retreats

variable {position : ℕ → ℕ}

/-- How many edges of a walk do not go forward in the order. -/
def retreats (position : ℕ → ℕ) : List ℕ → ℕ
  | next :: node :: visited =>
    (if position next ≤ position node then 1 else 0) + retreats position (node :: visited)
  | _ => 0

theorem retreats_suffix (before after : List ℕ) :
    retreats position after ≤ retreats position (before ++ after) := by
  induction before with
  | nil => exact le_rfl
  | cons first before ih =>
    refine ih.trans ?_
    rw [cons_append]
    cases before ++ after with
    | nil => exact le_rfl
    | cons second rest => exact Nat.le_add_left _ _

theorem retreats_lt_length (h : path ≠ []) : retreats position path < path.length := by
  induction path with
  | nil => exact absurd rfl h
  | cons next path ih =>
    cases path with
    | nil => exact Nat.one_pos
    | cons node visited =>
      have hrest := ih (cons_ne_nil node visited)
      rw [retreats, length_cons]
      split <;> omega

/-- A walk that only goes forward visits later nodes later. -/
theorem position_lt_of_retreats {before after : List ℕ} {node : ℕ}
    (h : retreats position (before ++ node :: after) = 0) :
    ∀ later ∈ before, position node < position later := by
  induction before with
  | nil => exact fun _ hmem ↦ absurd hmem not_mem_nil
  | cons first before ih =>
    have hrest : retreats position (before ++ node :: after) = 0 :=
      Nat.le_zero.1 ((retreats_suffix [first] _).trans h.le)
    intro later hlater
    rcases mem_cons.1 hlater with rfl | hlater
    · cases before with
      | nil =>
        rw [cons_append, nil_append, retreats] at h
        by_contra hle
        rw [if_pos (not_lt.1 hle)] at h
        omega
      | cons second before =>
        rw [cons_append, cons_append, retreats] at h
        refine (ih hrest second (mem_cons_self ..)).trans ?_
        by_contra hle
        rw [if_pos (not_lt.1 hle)] at h
        omega
    · exact ih hrest later hlater

end Retreats

section Iteration

variable (position : ℕ → ℕ) (order : List ℕ) (predecessors successors : ℕ → List ℕ) (entry : ℕ)

/-- The order starts at the entry, is closed under the edges, and reaches every other node by an
edge that goes forward. -/
structure Numbered : Prop where
  sorted : order.Pairwise fun earlier later ↦ position earlier < position later
  head : ∃ rest, order = entry :: rest
  edges : ∀ node next, node ∈ predecessors next ↔ next ∈ successors node
  closed : ∀ node ∈ order, ∀ next ∈ successors node, next ∈ order
  parent : ∀ node ∈ order, node ≠ entry →
    ∃ parent ∈ order, node ∈ successors parent ∧ position parent < position node

/-- Chains go up in the order and end at the entry. -/
structure Ascending (idom : Idom) : Prop where
  root : idom entry = some entry
  parent : ∀ node parent, idom node = some parent → node ≠ entry →
    node ∈ order ∧ (idom parent).isSome ∧ position parent < position node

/-- The chain of a node is visited by the walks to it with few edges that do not go forward. -/
def Within (bound : ℕ) (idom : Idom) (node : ℕ) : Prop :=
  ∀ visited, Walk successors entry (node :: visited) →
    retreats position (node :: visited) < bound →
      ∀ ancestor, OnChain idom node ancestor → ancestor ∈ node :: visited

/-- The tables of the iteration: the chain of a node has all its dominators, and what else it has
is visited by the walks that go forward often enough. -/
structure Table (bound : ℕ) (idom : Idom) : Prop extends
    Ascending position order entry idom where
  within : ∀ node, (idom node).isSome → Within position successors entry bound idom node
  dominated : ∀ node, (idom node).isSome → ∀ dominator,
    Dominates successors entry dominator node → OnChain idom node dominator

/-- The last common node of the chains of the nodes that have one. -/
structure IsMeet (idom : Idom) (seen : List ℕ) (meet : ℕ) : Prop where
  covered : (idom meet).isSome
  below : ∀ node ∈ seen, (idom node).isSome → OnChain idom node meet
  greatest : ∀ ancestor, (∀ node ∈ seen, (idom node).isSome → OnChain idom node ancestor) →
    OnChain idom meet ancestor

variable {position order predecessors successors entry}

section Order

variable (hnumbered : Numbered position order predecessors successors entry)
include hnumbered

theorem Numbered.entry_mem : entry ∈ order := by
  obtain ⟨rest, hrest⟩ := hnumbered.head
  rw [hrest]
  exact mem_cons_self ..

theorem Numbered.position_inj (hleft : left ∈ order) (hright : right ∈ order)
    (heq : position left = position right) : left = right := by
  have hsorted : (order.map position).Pairwise (· < ·) := pairwise_map.2 hnumbered.sorted
  exact inj_on_of_nodup_map (hsorted.imp ne_of_lt) hleft hright heq

theorem Numbered.ne_entry (hsplit : order = before ++ node :: nodes) (hroot : entry ∈ before) :
    node ≠ entry := by
  rintro rfl
  have hsorted := hnumbered.sorted
  rw [hsplit] at hsorted
  exact lt_irrefl _ ((pairwise_append.1 hsorted).2.2 node hroot node (mem_cons_self ..))

theorem Numbered.mem_of_walk (hwalk : Walk successors entry (node :: visited)) :
    ∀ other ∈ node :: visited, other ∈ order := by
  generalize node :: visited = path at hwalk
  induction hwalk with
  | start =>
    intro other hother
    rw [mem_singleton.1 hother]
    exact hnumbered.entry_mem
  | step walk edge ih =>
    intro other hother
    rcases mem_cons.1 hother with rfl | hother
    · exact hnumbered.closed _ (ih _ (mem_cons_self ..)) _ edge
    · exact ih other hother

/-- Every node of the order is reached by a walk that only goes forward. -/
theorem Numbered.exists_forward_walk (hmem : node ∈ order) :
    ∃ visited, Walk successors entry (node :: visited) ∧
      retreats position (node :: visited) = 0 := by
  induction hposition : position node using Nat.strong_induction_on generalizing node with
  | _ bound ih =>
    by_cases hentry : node = entry
    · subst hentry
      exact ⟨[], .start, rfl⟩
    · obtain ⟨parent, hparent, hedge, hlt⟩ := hnumbered.parent node hmem hentry
      obtain ⟨visited, hwalk, hretreats⟩ := ih _ (hposition ▸ hlt) hparent rfl
      refine ⟨parent :: visited, .step hwalk hedge, ?_⟩
      rw [retreats, if_neg (not_le.2 hlt), hretreats]

end Order

/-- What is above a node on its chain is on the chain of its parent. -/
theorem OnChain.of_parent (h : OnChain idom node ancestor) (hparent : idom node = some parent)
    (hne : ancestor ≠ node) :
    OnChain idom parent ancestor := by
  rcases Relation.ReflTransGen.cases_head h with heq | ⟨first, hfirst, hrest⟩
  · exact absurd heq.symm hne
  · obtain rfl : parent = first := Option.some.inj (hparent.symm.trans hfirst)
    exact hrest

section Chains

variable {idom : Idom} (hascending : Ascending position order entry idom)
include hascending

theorem Ascending.eq_of_onChain_root (h : OnChain idom entry ancestor) : ancestor = entry := by
  induction h with
  | refl => rfl
  | tail _ hparent ih =>
    rw [ih, hascending.root] at hparent
    exact (Option.some.inj hparent).symm

theorem Ascending.covered_of_onChain (h : OnChain idom node ancestor)
    (hcovered : (idom node).isSome) : (idom ancestor).isSome := by
  induction h with
  | refl => exact hcovered
  | @tail child parent _ hparent _ =>
    by_cases hentry : child = entry
    · subst hentry
      obtain rfl : parent = child := Option.some.inj (hparent.symm.trans hascending.root)
      rw [hparent]
      rfl
    · exact (hascending.parent child parent hparent hentry).2.1

theorem Ascending.position_le (h : OnChain idom node ancestor) :
    position ancestor ≤ position node := by
  induction h with
  | refl => exact le_rfl
  | @tail child parent _ hparent ih =>
    refine le_trans ?_ ih
    by_cases hentry : child = entry
    · subst hentry
      rw [Option.some.inj (hparent.symm.trans hascending.root)]
    · exact (hascending.parent child parent hparent hentry).2.2.le

/-- The search up a chain finds what is on it. -/
theorem Ascending.chainContains_iff (hcovered : (idom node).isSome) (hfuel : position node < fuel) :
    chainContains idom dominator fuel node = true ↔ OnChain idom node dominator := by
  refine ⟨onChain_of_chainContains, fun h ↦ ?_⟩
  induction fuel generalizing node with
  | zero => exact absurd hfuel (Nat.not_lt_zero _)
  | succ fuel ih =>
    rw [chainContains, Bool.or_eq_true, decide_eq_true_eq]
    by_cases heq : node = dominator
    · exact .inl heq
    · obtain ⟨parent, hparent⟩ := Option.isSome_iff_exists.1 hcovered
      have hentry : node ≠ entry := by
        rintro rfl
        exact heq (hascending.eq_of_onChain_root h).symm
      obtain ⟨-, hcoveredParent, hlt⟩ := hascending.parent node parent hparent hentry
      have hne : parent ≠ node := fun hsame ↦ by rw [hsame] at hlt; exact lt_irrefl _ hlt
      have hrest := ih hcoveredParent (by omega) (h.of_parent hparent (Ne.symm heq))
      right
      simp [hparent, hne, hrest]

end Chains

section Meeting

variable {idom : Idom} (hnumbered : Numbered position order predecessors successors entry)
  (hascending : Ascending position order entry idom)

include hnumbered hascending

theorem Ascending.mem_of_covered (hcovered : (idom node).isSome) : node ∈ order := by
  by_cases hentry : node = entry
  · rw [hentry]
    exact hnumbered.entry_mem
  · obtain ⟨parent, hparent⟩ := Option.isSome_iff_exists.1 hcovered
    exact (hascending.parent node parent hparent hentry).1

/-- A node that is later than another has a parent, and the parent is before it. -/
theorem Ascending.getD_lt (hleft : (idom left).isSome) (hright : (idom right).isSome)
    (hlt : position right < position left) :
    (idom ((idom left).getD left)).isSome ∧ position ((idom left).getD left) < position left := by
  obtain ⟨parent, hparent⟩ := Option.isSome_iff_exists.1 hleft
  have hentry : left ≠ entry := by
    rintro rfl
    obtain ⟨rest, hrest⟩ := hnumbered.head
    have hmem := hascending.mem_of_covered hnumbered hright
    have hsorted := hnumbered.sorted
    rw [hrest] at hmem hsorted
    rcases mem_cons.1 hmem with rfl | hmem
    · exact lt_irrefl _ hlt
    · exact lt_asymm hlt ((pairwise_cons.1 hsorted).1 right hmem)
  rw [hparent, Option.getD_some]
  exact (hascending.parent left parent hparent hentry).2

/-- Two chains meet within as many steps as they are long, and what they share is on the chain of
the node they meet in. -/
theorem Ascending.intersectDominators_total (hleft : (idom left).isSome)
    (hright : (idom right).isSome) (hfuel : position left + position right ≤ fuel) :
    ∃ meet, intersectDominators position idom fuel left right = some meet ∧
      ∀ ancestor, OnChain idom left ancestor → OnChain idom right ancestor →
        OnChain idom meet ancestor := by
  induction fuel generalizing left right with
  | zero =>
    have heq : left = right :=
      hnumbered.position_inj (hascending.mem_of_covered hnumbered hleft)
        (hascending.mem_of_covered hnumbered hright) (by omega)
    exact ⟨left, by rw [intersectDominators, if_pos heq], fun _ h _ ↦ h⟩
  | succ fuel ih =>
    rw [intersectDominators]
    by_cases heq : left = right
    · exact ⟨left, by rw [if_pos heq], fun _ h _ ↦ h⟩
    · rw [if_neg heq]
      rcases lt_trichotomy (position right) (position left) with hlt | hsame | hlt
      · obtain ⟨hcovered, hparent⟩ := hascending.getD_lt hnumbered hleft hright hlt
        obtain ⟨meet, hmeet, hall⟩ := ih hcovered hright (by omega)
        refine ⟨meet, by rw [if_pos hlt, hmeet], fun ancestor hup hacross ↦ ?_⟩
        refine hall ancestor ?_ hacross
        obtain ⟨parent, hidom⟩ := Option.isSome_iff_exists.1 hleft
        rw [hidom, Option.getD_some]
        refine hup.of_parent hidom ?_
        rintro rfl
        exact absurd (hascending.position_le hacross) (not_le.2 hlt)
      · have hmem := hascending.mem_of_covered hnumbered hleft
        exact absurd (hnumbered.position_inj hmem
          (hascending.mem_of_covered hnumbered hright) hsame.symm) heq
      · obtain ⟨hcovered, hparent⟩ := hascending.getD_lt hnumbered hright hleft hlt
        obtain ⟨meet, hmeet, hall⟩ := ih hleft hcovered (by omega)
        refine ⟨meet, by rw [if_neg (lt_asymm hlt), if_pos hlt, hmeet],
          fun ancestor hup hacross ↦ ?_⟩
        refine hall ancestor hup ?_
        obtain ⟨parent, hidom⟩ := Option.isSome_iff_exists.1 hright
        rw [hidom, Option.getD_some]
        refine hacross.of_parent hidom ?_
        rintro rfl
        exact absurd (hascending.position_le hup) (not_le.2 hlt)

/-- What the candidate is after the predecessors seen so far. -/
def Candidate (idom : Idom) (seen : List ℕ) : Option ℕ → Prop
  | none => ∀ node ∈ seen, idom node = none
  | some meet => IsMeet idom seen meet

theorem Ascending.meetPredecessor_total (h : Candidate idom seen candidate) (predecessor : ℕ) :
    ∃ next, meetPredecessor position idom candidate predecessor = some next ∧
      Candidate idom (predecessor :: seen) next := by
  unfold meetPredecessor
  by_cases hnone : idom predecessor = none
  · rw [hnone, Option.isNone_none, if_pos rfl]
    refine ⟨candidate, rfl, ?_⟩
    cases candidate with
    | none => exact forall_mem_cons.2 ⟨hnone, h⟩
    | some meet =>
      have hskip : ¬ (idom predecessor).isSome := by simp [hnone]
      exact ⟨h.covered, forall_mem_cons.2 ⟨fun hsome ↦ absurd hsome hskip, h.below⟩,
        fun ancestor hall ↦ h.greatest ancestor (forall_mem_cons.1 hall).2⟩
  · have hsome : (idom predecessor).isSome := Option.isSome_iff_ne_none.2 hnone
    rw [if_neg (by simpa using hnone)]
    cases candidate with
    | none =>
      refine ⟨_, rfl, hsome, ?_, fun ancestor hall ↦ hall _ (mem_cons_self ..) hsome⟩
      refine forall_mem_cons.2 ⟨fun _ ↦ .refl, fun node hnode hcovered ↦ ?_⟩
      rw [h node hnode] at hcovered
      cases hcovered
    | some current =>
      obtain ⟨meet, hmeet, hall⟩ :=
        hascending.intersectDominators_total hnumbered h.covered hsome le_rfl
      obtain ⟨hcurrent, hpredecessor⟩ := onChain_intersectDominators hmeet
      refine ⟨some meet, by simp [hmeet], hascending.covered_of_onChain hcurrent h.covered, ?_, ?_⟩
      · exact forall_mem_cons.2 ⟨fun _ ↦ hpredecessor,
          fun node hnode hcovered ↦ (h.below node hnode hcovered).trans hcurrent⟩
      · intro ancestor hshared
        obtain ⟨hfirst, hrest⟩ := forall_mem_cons.1 hshared
        exact hall ancestor (h.greatest ancestor hrest) (hfirst hsome)

theorem Ascending.foldlM_meetPredecessor_total (hcandidate : Candidate idom seen candidate)
    (rest : List ℕ) :
    ∃ final, rest.foldlM (meetPredecessor position idom) candidate = some final ∧
      Candidate idom (rest.reverse ++ seen) final := by
  induction rest generalizing seen candidate with
  | nil => exact ⟨candidate, rfl, hcandidate⟩
  | cons predecessor rest ih =>
    obtain ⟨next, hnext, hstep⟩ := hascending.meetPredecessor_total hnumbered hcandidate predecessor
    obtain ⟨final, hfinal, hall⟩ := ih hstep
    refine ⟨final, by rw [foldlM_cons, hnext, Option.bind_eq_bind, Option.bind_some, hfinal], ?_⟩
    simpa using hall

/-- A node with a predecessor that has an immediate dominator gets the meet of them all. -/
theorem Ascending.candidateDominator_total {node parent : ℕ} (hparent : parent ∈ predecessors node)
    (hcovered : (idom parent).isSome) :
    ∃ meet, candidateDominator position predecessors idom node = some (some meet) ∧
      IsMeet idom (predecessors node) meet := by
  have hstart : Candidate idom [] none := fun _ hmem ↦ absurd hmem not_mem_nil
  obtain ⟨final, hfinal, hcandidate⟩ :=
    hascending.foldlM_meetPredecessor_total hnumbered hstart (predecessors node)
  cases final with
  | none =>
    have hnone := hcandidate parent (by simpa using hparent)
    rw [hnone] at hcovered
    cases hcovered
  | some meet =>
    refine ⟨meet, hfinal, hcandidate.covered, fun other hother ↦ ?_, fun ancestor hall ↦ ?_⟩
    · exact hcandidate.below other (by simpa using hother)
    · exact hcandidate.greatest ancestor fun other hother ↦ hall other (by simpa using hother)

end Meeting

section Update

variable {idom : Idom} {node meet : ℕ}

theorem isSome_update (h : (idom other).isSome) :
    (Function.update idom node (some meet) other).isSome := by
  by_cases heq : other = node
  · rw [heq, Function.update_self]
    rfl
  · rwa [Function.update_of_ne heq]

variable (hascending : Ascending position order entry idom) (hnode : node ∈ order)
  (hentry : node ≠ entry) (hcovered : (idom meet).isSome) (hlt : position meet < position node)

include hascending hnode hentry hcovered hlt in
theorem Ascending.update :
    Ascending position order entry (Function.update idom node (some meet)) where
  root := by rw [Function.update_of_ne (Ne.symm hentry), hascending.root]
  parent child parent hparent hchild := by
    by_cases heq : child = node
    · subst heq
      rw [Function.update_self] at hparent
      cases hparent
      exact ⟨hnode, isSome_update hcovered, hlt⟩
    · rw [Function.update_of_ne heq] at hparent
      obtain ⟨hmem, hsome, hposition⟩ := hascending.parent child parent hparent hchild
      exact ⟨hmem, isSome_update hsome, hposition⟩

variable {other ancestor : ℕ}

/-- The chains the node is not on stay as they are. -/
theorem onChain_update_of_not (h : ¬ OnChain idom other node) :
    OnChain (Function.update idom node (some meet)) other ancestor ↔
      OnChain idom other ancestor := by
  constructor
  · intro hchain
    induction hchain with
    | refl => exact .refl
    | @tail child parent _ hparent ih =>
      have hne : child ≠ node := fun heq ↦ h (heq ▸ ih)
      rw [Function.update_of_ne hne] at hparent
      exact ih.tail hparent
  · intro hchain
    induction hchain with
    | refl => exact .refl
    | @tail child parent hbelow hparent ih =>
      have hne : child ≠ node := fun heq ↦ h (heq ▸ hbelow)
      refine ih.tail ?_
      rwa [Function.update_of_ne hne]

/-- Beyond the node itself a chain is only changed where the chain of the node is. -/
theorem onChain_update_cases (h : OnChain (Function.update idom node (some meet)) other ancestor) :
    OnChain idom other ancestor ∨ OnChain idom other node ∧
      OnChain (Function.update idom node (some meet)) node ancestor := by
  induction h with
  | refl => exact .inl .refl
  | @tail child parent _ hparent ih =>
    rcases ih with hkept | ⟨hnode, hchain⟩
    · by_cases heq : child = node
      · subst heq
        exact .inr ⟨hkept, .single hparent⟩
      · rw [Function.update_of_ne heq] at hparent
        exact .inl (hkept.tail hparent)
    · exact .inr ⟨hnode, hchain.tail hparent⟩

include hascending

/-- The chains of the nodes before the node stay as they are. -/
theorem Ascending.onChain_update_of_lt (h : position other < position node) :
    OnChain (Function.update idom node (some meet)) other ancestor ↔ OnChain idom other ancestor :=
  onChain_update_of_not fun hchain ↦ absurd (hascending.position_le hchain) (not_le.2 h)

include hlt in
/-- The new chain of the node is the chain of its immediate dominator. -/
theorem Ascending.onChain_update_self :
    OnChain (Function.update idom node (some meet)) node ancestor ↔
      ancestor = node ∨ OnChain idom meet ancestor := by
  rw [← @Ascending.onChain_update_of_lt _ _ _ _ _ meet hascending _ _ hlt]
  constructor
  · intro h
    by_cases heq : ancestor = node
    · exact .inl heq
    · exact .inr (h.of_parent (Function.update_self ..) heq)
  · rintro (rfl | h)
    · exact .refl
    · exact .head (Function.update_self ..) h

include hentry in
/-- What is at or below the node on a chain stays on it. -/
theorem Ascending.onChain_update_of_le (h : OnChain idom other ancestor)
    (hle : position node ≤ position ancestor) :
    OnChain (Function.update idom node (some meet)) other ancestor := by
  induction h with
  | refl => exact .refl
  | @tail child parent _ hparent ih =>
    have hup : position parent ≤ position child := hascending.position_le (.single hparent)
    refine (ih (hle.trans hup)).tail ?_
    rw [Function.update_of_ne, hparent]
    rintro rfl
    exact absurd (hascending.parent child parent hparent hentry).2.2 (not_lt.2 hle)

end Update

section Step

variable {bound : ℕ} {idom : Idom} {node meet : ℕ}
  (hnumbered : Numbered position order predecessors successors entry)
  (htable : Table position order successors entry bound idom)
  (hnode : node ∈ order) (hentry : node ≠ entry)
  (hmeet : IsMeet idom (predecessors node) meet)
  (hbefore : ∀ other ∈ order, position other < position node → (idom other).isSome)

include htable in
theorem Table.within_update_of_ne
    (hself : Within position successors entry bound (Function.update idom node (some meet)) node)
    (hcovered : (idom other).isSome) :
    Within position successors entry bound (Function.update idom node (some meet)) other := by
  intro visited hwalk hretreats ancestor hancestor
  have hother := htable.within other hcovered visited hwalk hretreats
  rcases onChain_update_cases hancestor with hkept | ⟨hup, hchain⟩
  · exact hother ancestor hkept
  · obtain ⟨before, after, hsplit⟩ := append_of_mem (hother node hup)
    rw [hsplit] at hwalk hretreats ⊢
    have hvisited := hself after hwalk.suffix ((retreats_suffix before _).trans_lt hretreats)
    exact mem_append_right _ (hvisited ancestor hchain)

include hnumbered htable hnode hentry hmeet hbefore

theorem Table.position_meet_lt : position meet < position node := by
  obtain ⟨parent, hmem, hedge, hlt⟩ := hnumbered.parent node hnode hentry
  have hchain := hmeet.below parent ((hnumbered.edges parent node).2 hedge) (hbefore parent hmem hlt)
  exact (htable.position_le hchain).trans_lt hlt

theorem Table.ascending_update :
    Ascending position order entry (Function.update idom node (some meet)) :=
  htable.toAscending.update hnode hentry hmeet.covered
    (htable.position_meet_lt hnumbered hnode hentry hmeet hbefore)

theorem Table.onChain_update_self :
    OnChain (Function.update idom node (some meet)) node ancestor ↔
      ancestor = node ∨ OnChain idom meet ancestor :=
  htable.toAscending.onChain_update_self
    (htable.position_meet_lt hnumbered hnode hentry hmeet hbefore)

/-- A walk to the node has come from a predecessor, whose chain it has visited. -/
theorem Table.within_update_self (hearlier : ∀ other ∈ order, position other < position node →
      Within position successors entry wider idom other)
    (hlater : ∀ other ∈ order, ∀ fewer, fewer + 1 < wider →
      (idom other).isSome ∧ Within position successors entry (fewer + 1) idom other) :
    Within position successors entry wider (Function.update idom node (some meet)) node := by
  intro visited hwalk hretreats ancestor hancestor
  rcases (htable.onChain_update_self hnumbered hnode hentry hmeet hbefore).1 hancestor with
    rfl | hancestor
  · exact mem_cons_self ..
  · cases hwalk with
    | start => exact absurd rfl hentry
    | @step source _ before walk edge =>
      have hsource := hnumbered.mem_of_walk walk source (mem_cons_self ..)
      have hedge := (hnumbered.edges source node).2 edge
      rw [retreats] at hretreats
      refine mem_cons_of_mem _ ?_
      rcases lt_or_ge (position source) (position node) with hlt | hge
      · have hchain := hmeet.below source hedge (hbefore source hsource hlt)
        rw [if_neg (not_le.2 hlt), Nat.zero_add] at hretreats
        exact hearlier source hsource hlt before walk hretreats ancestor (hchain.trans hancestor)
      · rw [if_pos hge] at hretreats
        obtain ⟨hcovered, hwithin⟩ :=
          hlater source hsource (retreats position (source :: before)) (by omega)
        exact hwithin before walk (Nat.lt_succ_self _) ancestor
          ((hmeet.below source hedge hcovered).trans hancestor)

theorem Table.dominated_update_self (h : Dominates successors entry dominator node) :
    OnChain (Function.update idom node (some meet)) node dominator := by
  rw [htable.onChain_update_self hnumbered hnode hentry hmeet hbefore]
  by_cases heq : dominator = node
  · exact .inl heq
  · refine .inr (hmeet.greatest dominator fun source hsource hcovered ↦ ?_)
    exact htable.dominated source hcovered dominator
      (h.of_edge ((hnumbered.edges source node).1 hsource) heq)

/-- A dominator above the node on a chain dominates the node: a walk that only goes forward comes
to it before it comes to the node. -/
theorem Table.dominated_update_of_ne (hbound : 0 < bound) (hcovered : (idom other).isSome)
    (h : Dominates successors entry dominator other) :
    OnChain (Function.update idom node (some meet)) other dominator := by
  have hchain := htable.dominated other hcovered dominator h
  by_cases hup : OnChain idom other node
  · rcases le_or_gt (position node) (position dominator) with hle | hlt
    · exact htable.toAscending.onChain_update_of_le hentry hchain hle
    · have hkept : OnChain (Function.update idom node (some meet)) other node :=
        htable.toAscending.onChain_update_of_le hentry hup le_rfl
      refine hkept.trans (htable.dominated_update_self hnumbered hnode hentry hmeet hbefore ?_)
      have hmem := htable.toAscending.mem_of_covered hnumbered hcovered
      obtain ⟨visited, hwalk, hforward⟩ := hnumbered.exists_forward_walk hmem
      have hvisited := htable.within other hcovered visited hwalk (by omega) node hup
      obtain ⟨before, after, hsplit⟩ := append_of_mem hvisited
      rw [hsplit] at hwalk hforward
      intro detour hdetour
      have hsplice := hwalk.splice hdetour
      have hmemSplice : dominator ∈ before ++ node :: detour := by
        cases before with
        | nil =>
          obtain ⟨rfl, -⟩ := List.cons.inj hsplit
          exact h detour hdetour
        | cons first before =>
          obtain ⟨rfl, -⟩ := List.cons.inj hsplit
          exact h _ hsplice
      rcases mem_append.1 hmemSplice with hlater | hdone
      · exact absurd (position_lt_of_retreats hforward dominator hlater) (lt_asymm hlt)
      · exact hdone
  · exact (onChain_update_of_not hup).2 hchain

/-- Giving a node the meet of its predecessors keeps what is known of the table.  Until every node
is covered this is only asked of the walks that go forward. -/
theorem Table.update (hbound : 0 < bound)
    (hall : bound ≤ 1 ∨ ∀ other ∈ order, (idom other).isSome) :
    Table position order successors entry bound (Function.update idom node (some meet)) := by
  have hself : Within position successors entry bound
      (Function.update idom node (some meet)) node := by
    refine htable.within_update_self hnumbered hnode hentry hmeet hbefore
      (fun other hother hlt ↦ htable.within other (hbefore other hother hlt)) ?_
    intro other hother fewer hfewer
    rcases hall with hone | hall
    · omega
    · refine ⟨hall other hother, fun visited hwalk hretreats ↦ ?_⟩
      exact htable.within other (hall other hother) visited hwalk (hretreats.trans hfewer)
  have hcases {other : ℕ} (hsome : (Function.update idom node (some meet) other).isSome) :
      other = node ∨ (idom other).isSome := by
    by_cases heq : other = node
    · exact .inl heq
    · rw [Function.update_of_ne heq] at hsome
      exact .inr hsome
  refine ⟨htable.ascending_update hnumbered hnode hentry hmeet hbefore, ?_, ?_⟩
  · intro other hsome
    rcases hcases hsome with rfl | hcovered
    · exact hself
    · exact htable.within_update_of_ne hself hcovered
  · intro other hsome dominator hdominates
    rcases hcases hsome with rfl | hcovered
    · exact htable.dominated_update_self hnumbered hnode hentry hmeet hbefore hdominates
    · exact htable.dominated_update_of_ne hnumbered hnode hentry hmeet hbefore hbound hcovered
        hdominates

end Step

section Sweep

variable {bound : ℕ} {idom : Idom}
  (hnumbered : Numbered position order predecessors successors entry)
include hnumbered

variable {before nodes rest : List ℕ}

/-- What is known when a sweep comes to a node other than the entry. -/
theorem Numbered.sweepDominators_cons (hascending : Ascending position order entry idom)
    {node : ℕ} (hsplit : order = before ++ node :: nodes)
    (hentry : node ≠ entry) (hbefore : ∀ other ∈ before, (idom other).isSome) (changed : Bool) :
    ∃ meet, IsMeet idom (predecessors node) meet ∧
      (∀ other ∈ order, position other < position node → other ∈ before) ∧
      sweepDominators position predecessors (node :: nodes) idom changed =
        sweepDominators position predecessors nodes (Function.update idom node (some meet))
          (changed || idom node != some meet) := by
  have hnode : node ∈ order := by
    rw [hsplit]
    exact mem_append_right _ (mem_cons_self ..)
  have hearlier : ∀ other ∈ order, position other < position node → other ∈ before := by
    intro other hother hlt
    have hsorted := hnumbered.sorted
    rw [hsplit] at hother hsorted
    rcases mem_append.1 hother with hmem | hmem
    · exact hmem
    · have hlater := (pairwise_append.1 hsorted).2.1
      rcases mem_cons.1 hmem with rfl | hmem
      · exact absurd hlt (lt_irrefl _)
      · exact absurd hlt (lt_asymm ((pairwise_cons.1 hlater).1 other hmem))
  obtain ⟨parent, hparent, hedge, hlt⟩ := hnumbered.parent node hnode hentry
  obtain ⟨meet, hcandidate, hmeet⟩ := hascending.candidateDominator_total hnumbered
    ((hnumbered.edges parent node).2 hedge) (hbefore parent (hearlier parent hparent hlt))
  refine ⟨meet, hmeet, hearlier, ?_⟩
  rw [sweepDominators, hcandidate, Option.bind_eq_bind, Option.bind_some]
  by_cases heq : idom node = some meet
  · have hupdate : Function.update idom node (some meet) = idom := by
      rw [← heq, Function.update_eq_self]
    simp [heq, hupdate]
  · have hne : (idom node != some meet) = true := bne_iff_ne.2 heq
    simp [heq, hne]

/-- A sweep keeps what is known of the table, and covers every node.  When every node was covered
already, the walks may have one more edge that does not go forward. -/
theorem Numbered.sweepDominators_table (hbound : 0 < bound)
    (hsplit : order = before ++ nodes) (hroot : entry ∈ before) (changed : Bool)
    (htable : Table position order successors entry bound idom)
    (hbefore : ∀ other ∈ before, (idom other).isSome)
    (hall : bound ≤ 1 ∨ ∀ other ∈ order, (idom other).isSome) :
    ∃ after changed', sweepDominators position predecessors nodes idom changed =
        some (after, changed') ∧
      Table position order successors entry bound after ∧
      (∀ other ∈ order, (after other).isSome) ∧
      ((∀ other ∈ order, (idom other).isSome) →
        (∀ other ∈ before, Within position successors entry (bound + 1) idom other) →
        ∀ other ∈ order, Within position successors entry (bound + 1) after other) := by
  induction nodes generalizing before idom changed with
  | nil =>
    rw [append_nil] at hsplit
    subst hsplit
    exact ⟨idom, changed, rfl, htable, hbefore, fun _ h ↦ h⟩
  | cons node nodes ih =>
    have hnode : node ∈ order := by
      rw [hsplit]
      exact mem_append_right _ (mem_cons_self ..)
    have hentry := hnumbered.ne_entry hsplit hroot
    obtain ⟨meet, hmeet, hearlier, hstep⟩ :=
      hnumbered.sweepDominators_cons htable.toAscending hsplit hentry hbefore changed
    have hcovered : ∀ other ∈ order, position other < position node → (idom other).isSome :=
      fun other hother hlt ↦ hbefore other (hearlier other hother hlt)
    have hnext := htable.update hnumbered hnode hentry hmeet hcovered hbound hall
    have hsplit' : order = (before ++ [node]) ++ nodes := by
      rw [hsplit, append_assoc, singleton_append]
    obtain ⟨after, changed', hsweep, htable', hall', hwithin⟩ := ih hsplit'
      (mem_append_left _ hroot) (changed || idom node != some meet) hnext
      (by
        intro other hother
        rcases mem_append.1 hother with hmem | hmem
        · exact isSome_update (hbefore other hmem)
        · rw [mem_singleton.1 hmem, Function.update_self]
          rfl)
      (hall.imp_right fun h other hother ↦ isSome_update (h other hother))
    refine ⟨after, changed', by rw [hstep, hsweep], htable', hall', fun hfull hprevious ↦ ?_⟩
    refine hwithin (fun other hother ↦ isSome_update (hfull other hother)) fun other hother ↦ ?_
    rcases mem_append.1 hother with hmem | hmem
    · have hlt : position other < position node := by
        have hsorted := hnumbered.sorted
        rw [hsplit] at hsorted
        exact (pairwise_append.1 hsorted).2.2 other hmem node (mem_cons_self ..)
      intro visited hwalk hretreats ancestor hancestor
      exact hprevious other hmem visited hwalk hretreats ancestor
        ((htable.onChain_update_of_lt hlt).1 hancestor)
    · rw [mem_singleton.1 hmem]
      refine htable.within_update_self hnumbered hnode hentry hmeet hcovered
        (fun earlier hearlierMem hlt ↦ hprevious earlier (hearlier earlier hearlierMem hlt)) ?_
      intro later hlater fewer hfewer
      refine ⟨hfull later hlater, fun visited hwalk hretreats ↦ ?_⟩
      exact htable.within later (hfull later hlater) visited hwalk (by omega)

/-- A walk without repetition has fewer edges than the order has nodes. -/
theorem Numbered.onChain_iff_dominates (hbound : order.length ≤ bound)
    (htable : Table position order successors entry bound idom) (hcovered : (idom node).isSome) :
    OnChain idom node ancestor ↔ Dominates successors entry ancestor node := by
  refine ⟨fun hchain visited hwalk ↦ ?_, htable.dominated node hcovered ancestor⟩
  obtain ⟨simple, hsimple, hnodup, hsubset⟩ := hwalk.exists_nodup
  have hlength : (node :: simple).length ≤ order.length :=
    (hnodup.subperm fun other hother ↦ hnumbered.mem_of_walk hsimple other hother).length_le
  have hretreats : retreats position (node :: simple) < (node :: simple).length :=
    retreats_lt_length (cons_ne_nil node simple)
  exact hsubset (htable.within node hcovered simple hsimple (by omega) ancestor hchain)

/-- When the chains are the dominators, a sweep changes nothing. -/
theorem Numbered.sweepDominators_settled (hpositive : 0 < bound) (hbound : order.length ≤ bound)
    (htable : Table position order successors entry bound idom)
    (hsplit : order = before ++ nodes) (hroot : entry ∈ before)
    (hall : ∀ other ∈ order, (idom other).isSome) :
    sweepDominators position predecessors nodes idom false = some (idom, false) := by
  induction nodes generalizing before with
  | nil => rfl
  | cons node nodes ih =>
    have hnode : node ∈ order := by
      rw [hsplit]
      exact mem_append_right _ (mem_cons_self ..)
    have hentry := hnumbered.ne_entry hsplit hroot
    obtain ⟨meet, hmeet, -, hstep⟩ := hnumbered.sweepDominators_cons htable.toAscending hsplit hentry
      (fun other hmem ↦ hall other (hsplit ▸ mem_append_left _ hmem)) false
    have hcovered : ∀ other ∈ order, position other < position node → (idom other).isSome :=
      fun other hother _ ↦ hall other hother
    have hnext := htable.update hnumbered hnode hentry hmeet hcovered hpositive (.inr hall)
    obtain ⟨parent, hparent⟩ := Option.isSome_iff_exists.1 (hall node hnode)
    obtain ⟨-, hcoveredParent, hltParent⟩ := htable.parent node parent hparent hentry
    have hltMeet := htable.position_meet_lt hnumbered hnode hentry hmeet hcovered
    have hsame {ancestor : ℕ} : OnChain idom node ancestor ↔
        ancestor = node ∨ OnChain idom meet ancestor := by
      rw [← htable.onChain_update_self hnumbered hnode hentry hmeet hcovered,
        hnumbered.onChain_iff_dominates hbound htable (hall node hnode),
        hnumbered.onChain_iff_dominates hbound hnext (by rw [Function.update_self]; rfl)]
    have hup : OnChain idom parent meet := by
      refine (hsame.2 (.inr .refl)).of_parent hparent ?_
      rintro rfl
      exact lt_irrefl _ hltMeet
    have hdown : OnChain idom meet parent := by
      rcases hsame.1 (.single hparent) with rfl | hchain
      · exact absurd hltParent (lt_irrefl _)
      · exact hchain
    have hposition := le_antisymm (htable.position_le hdown) (htable.position_le hup)
    obtain rfl : parent = meet := hnumbered.position_inj
      (htable.toAscending.mem_of_covered hnumbered hcoveredParent)
      (htable.toAscending.mem_of_covered hnumbered hmeet.covered) hposition
    rw [hstep, ← hparent, Function.update_eq_self, Bool.false_or, bne_self_eq_false]
    have hsplit' : order = (before ++ [node]) ++ nodes := by
      rw [hsplit, append_assoc, singleton_append]
    exact ih hsplit' (mem_append_left _ hroot)

/-- A table of the dominators: every node has its chain, and the chain is its dominators. -/
structure SettledDominators (position : ℕ → ℕ) (order : List ℕ) (successors : ℕ → List ℕ)
    (entry : ℕ)
    (idom : Idom) : Prop extends Ascending position order entry idom where
  covered : ∀ node ∈ order, (idom node).isSome
  onChain_iff : ∀ node ∈ order, ∀ ancestor,
    OnChain idom node ancestor ↔ Dominates successors entry ancestor node

omit hnumbered in
theorem Table.start : Table position order successors entry 1
    (Function.update (fun _ ↦ none) entry (some entry)) := by
  have hascending : Ascending position order entry
      (Function.update (fun _ ↦ none) entry (some entry)) := by
    refine ⟨Function.update_self .., fun node parent hparent hentry ↦ ?_⟩
    rw [Function.update_of_ne hentry] at hparent
    cases hparent
  have heq {node : ℕ}
      (h : (Function.update (fun _ ↦ none) entry (some entry) node : Option ℕ).isSome) :
      node = entry := by
    by_contra hentry
    rw [Function.update_of_ne hentry] at h
    cases h
  refine ⟨hascending, fun node hcovered visited _ _ ancestor hchain ↦ ?_,
    fun node hcovered dominator hdominates ↦ ?_⟩
  · obtain rfl := heq hcovered
    rw [hascending.eq_of_onChain_root hchain]
    exact mem_cons_self ..
  · obtain rfl := heq hcovered
    rw [mem_singleton.1 (hdominates [] .start)]
    exact .refl

/-- A sweep that changes nothing leaves a table of the dominators. -/
theorem Numbered.settled_of_sweepDominators (hrest : order = entry :: rest)
    (htable : Table position order successors entry bound idom) {after : Idom}
    (hall : ∀ other ∈ order, (after other).isSome)
    (h : sweepDominators position predecessors rest idom false = some (after, false)) :
    after = idom ∧ SettledDominators position order successors entry idom := by
  obtain ⟨rfl, hfixed⟩ := fixed_of_sweepDominators h
  refine ⟨rfl, htable.toAscending, hall, fun node hmem ancestor ↦ ⟨fun hchain visited hwalk ↦ ?_, ?_⟩⟩
  · refine (visits_chain htable.root hfixed ?_ (fun _ _ ↦ (hnumbered.edges _ _).2) hwalk).2 ancestor
      hchain
    intro visited other hother
    have hreached := hnumbered.mem_of_walk hother other (mem_cons_self ..)
    rw [hrest] at hreached
    exact mem_cons.1 hreached
  · exact htable.dominated node (hall node hmem) ancestor

/-- Each sweep that changes something lets the walks have one more edge that does not go forward;
when they may have as many as the order has nodes, nothing changes. -/
theorem Numbered.settleDominators_total (hrest : order = entry :: rest)
    {fuel : ℕ} (hpositive : 0 < bound) (hbound : bound ≤ order.length)
    (hfuel : order.length < bound + fuel)
    (htable : Table position order successors entry bound idom)
    (hall : ∀ other ∈ order, (idom other).isSome) :
    ∃ after, settleDominators position predecessors rest fuel idom = some after ∧
      SettledDominators position order successors entry after := by
  induction fuel generalizing bound idom with
  | zero => omega
  | succ fuel ih =>
    have hroot : entry ∈ [entry] := mem_singleton_self entry
    obtain ⟨after, changed, hsweep, htable', hall', hwithin⟩ :=
      hnumbered.sweepDominators_table hpositive hrest hroot false htable
        (fun other hmem ↦ hall other (by rw [mem_singleton.1 hmem]; exact hnumbered.entry_mem))
        (.inr hall)
    rw [settleDominators, hsweep, Option.bind_eq_bind, Option.bind_some]
    cases changed with
    | false =>
      obtain ⟨rfl, hsettled⟩ := hnumbered.settled_of_sweepDominators hrest htable hall' hsweep
      exact ⟨after, rfl, hsettled⟩
    | true =>
      have hlt : bound < order.length := by
        by_contra hge
        rw [hnumbered.sweepDominators_settled hpositive (not_lt.1 hge) htable hrest hroot hall]
          at hsweep
        cases hsweep
      refine ih (Nat.succ_pos bound) hlt (by omega) ⟨htable'.toAscending, ?_, htable'.dominated⟩ hall'
      intro other hcovered
      refine hwithin hall ?_ other (htable'.toAscending.mem_of_covered hnumbered hcovered)
      intro root hmem visited _ _ ancestor hchain
      obtain rfl := mem_singleton.1 hmem
      rw [htable.eq_of_onChain_root hchain]
      exact mem_cons_self ..

/-- The iteration settles on the dominators. -/
theorem Numbered.settleDominators_start (hrest : order = entry :: rest) {fuel : ℕ}
    (hfuel : order.length < fuel) :
    ∃ idom, settleDominators position predecessors rest fuel
        (Function.update (fun _ ↦ none) entry (some entry)) = some idom ∧
      SettledDominators position order successors entry idom := by
  obtain ⟨fuel, rfl⟩ := Nat.exists_eq_add_of_lt hfuel
  obtain ⟨after, changed, hsweep, htable, hall, -⟩ :=
    hnumbered.sweepDominators_table Nat.one_pos hrest (mem_singleton_self entry) false .start
      (fun other hmem ↦ by rw [mem_singleton.1 hmem, Function.update_self]; rfl) (.inl le_rfl)
  rw [settleDominators, hsweep, Option.bind_eq_bind, Option.bind_some]
  cases changed with
  | false =>
    obtain ⟨rfl, hsettled⟩ := hnumbered.settled_of_sweepDominators hrest .start hall hsweep
    exact ⟨_, rfl, hsettled⟩
  | true =>
    refine hnumbered.settleDominators_total hrest Nat.one_pos ?_ (by omega) htable hall
    rw [hrest]
    exact Nat.succ_pos _

end Sweep

end Iteration

end Wrela.Graph
