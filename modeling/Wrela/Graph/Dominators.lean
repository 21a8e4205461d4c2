import Wrela.Graph.DepthFirst

/-!
# Dominators by iteration

The immediate dominators of a graph, found by sweeping the nodes in reverse postorder until nothing
changes.  A dominator set is not stored: it is the chain of immediate dominators, and two chains
are intersected by walking up the one whose head is later in the order.
-/

namespace Wrela.Graph

open List

/-- The immediate dominators found so far. -/
abbrev Idom := ℕ → Option ℕ

section Algorithm

variable (position : ℕ → ℕ) (predecessors : ℕ → List ℕ)

/-- Walk both chains up until they meet; `none` when they do not meet within the fuel. -/
def intersectDominators (idom : Idom) : ℕ → ℕ → ℕ → Option ℕ
  | 0, left, right => if left = right then some left else none
  | fuel + 1, left, right =>
    if left = right then some left
    else if position left > position right then
      intersectDominators idom fuel ((idom left).getD left) right
    else if position right > position left then
      intersectDominators idom fuel left ((idom right).getD right)
    else intersectDominators idom fuel left right

/-- Fold one predecessor into the candidate; predecessors not reached yet are skipped. -/
def meetPredecessor (idom : Idom) (candidate : Option ℕ) (predecessor : ℕ) : Option (Option ℕ) :=
  if (idom predecessor).isNone then some candidate
  else
    match candidate with
    | none => some (some predecessor)
    | some candidate =>
      (intersectDominators position idom (position candidate + position predecessor) candidate
        predecessor).map some

def candidateDominator (idom : Idom) (node : ℕ) : Option (Option ℕ) :=
  (predecessors node).foldlM (meetPredecessor position idom) none

/-- One sweep over the nodes after the entry, with whether anything changed. -/
def sweepDominators : List ℕ → Idom → Bool → Option (Idom × Bool)
  | [], idom, changed => some (idom, changed)
  | node :: nodes, idom, changed => do
    match ← candidateDominator position predecessors idom node with
    | none => sweepDominators nodes idom changed
    | some candidate =>
      if idom node = some candidate then sweepDominators nodes idom changed
      else sweepDominators nodes (Function.update idom node (some candidate)) true

/-- Sweep until a sweep changes nothing. -/
def settleDominators (nodes : List ℕ) : ℕ → Idom → Option Idom
  | 0, _ => none
  | fuel + 1, idom => do
    let (idom, changed) ← sweepDominators position predecessors nodes idom false
    if changed then settleDominators nodes fuel idom else some idom

end Algorithm

/-- The position of a node in the order. -/
def orderPosition (order : List ℕ) (node : ℕ) : ℕ := order.idxOf node

/-- The immediate dominators of the nodes of a reverse postorder. -/
def immediateDominators (order : List ℕ) (predecessors : ℕ → List ℕ) (entry : ℕ) : Option Idom :=
  settleDominators (orderPosition order) predecessors order.tail
    (order.length * order.length + 2) (Function.update (fun _ ↦ none) entry (some entry))

/-- Walk the chain of `node` up, looking for `dominator`. -/
def chainContains (idom : Idom) (dominator : ℕ) : ℕ → ℕ → Bool
  | 0, _ => false
  | fuel + 1, node =>
    node = dominator ||
      match idom node with
      | none => false
      | some parent => parent != node && chainContains idom dominator fuel parent

/-- A walk from the entry, the node it has come to first. -/
inductive Walk (successors : ℕ → List ℕ) (entry : ℕ) : List ℕ → Prop
  | start : Walk successors entry [entry]
  | step {node next : ℕ} {visited : List ℕ} (walk : Walk successors entry (node :: visited))
      (edge : next ∈ successors node) : Walk successors entry (next :: node :: visited)

/-- Every walk to the node visits the dominator. -/
def Dominates (successors : ℕ → List ℕ) (entry dominator node : ℕ) : Prop :=
  ∀ visited, Walk successors entry (node :: visited) → dominator ∈ node :: visited

/-- A node on the chain of immediate dominators of another. -/
def OnChain (idom : Idom) (node ancestor : ℕ) : Prop :=
  Relation.ReflTransGen (fun child parent ↦ idom child = some parent) node ancestor

variable {node : ℕ}

theorem OnChain.refl {idom : Idom} : OnChain idom node node := Relation.ReflTransGen.refl

theorem OnChain.trans {idom : Idom} {middle ancestor : ℕ} (hlow : OnChain idom node middle)
    (hhigh : OnChain idom middle ancestor) : OnChain idom node ancestor :=
  Relation.ReflTransGen.trans hlow hhigh

/-- One step up the chain, or none at its end. -/
theorem onChain_getD (idom : Idom) (node : ℕ) : OnChain idom node ((idom node).getD node) := by
  cases hparent : idom node with
  | none => exact .refl
  | some parent => exact .single hparent

theorem onChain_of_chainContains (h : chainContains idom dominator fuel node = true) :
    OnChain idom node dominator := by
  induction fuel generalizing node with
  | zero => cases h
  | succ fuel ih =>
    rw [chainContains, Bool.or_eq_true, decide_eq_true_eq] at h
    rcases h with rfl | h
    · exact .refl
    · cases hparent : idom node with
      | none => simp [hparent] at h
      | some parent =>
        simp only [hparent, Bool.and_eq_true] at h
        exact OnChain.trans (.single hparent) (ih h.2)

section Settled

variable {position : ℕ → ℕ} {predecessors : ℕ → List ℕ} {idom : Idom}

/-- Where two chains are found to meet, they do. -/
theorem onChain_intersectDominators
    (h : intersectDominators position idom fuel left right = some meet) :
    OnChain idom left meet ∧ OnChain idom right meet := by
  induction fuel generalizing left right with
  | zero =>
    rw [intersectDominators] at h
    split at h
    · rename_i heq
      cases h
      exact ⟨.refl, heq ▸ .refl⟩
    · cases h
  | succ fuel ih =>
    rw [intersectDominators] at h
    split at h
    · rename_i heq
      cases h
      exact ⟨.refl, heq ▸ .refl⟩
    · split at h
      · exact ⟨(onChain_getD idom left).trans (ih h).1, (ih h).2⟩
      · split at h
        · exact ⟨(ih h).1, (onChain_getD idom right).trans (ih h).2⟩
        · exact ih h

/-- A candidate is on the chain of every predecessor that has one. -/
def MeetsAll (idom : Idom) (candidate : Option ℕ) (seen : List ℕ) : Prop :=
  ∀ predecessor ∈ seen, (idom predecessor).isSome →
    ∃ meet, candidate = some meet ∧ OnChain idom predecessor meet

variable {candidate : Option ℕ} {before after : Idom}

theorem meetsAll_meetPredecessor {next : Option ℕ} {seen : List ℕ} {predecessor : ℕ}
    (hmeets : MeetsAll idom candidate seen)
    (h : meetPredecessor position idom candidate predecessor = some next) :
    MeetsAll idom next (predecessor :: seen) := by
  unfold meetPredecessor at h
  split at h
  · rename_i hnone
    cases h
    intro other hother hsome
    rcases mem_cons.1 hother with rfl | hother
    · rw [Option.isNone_iff_eq_none.1 hnone] at hsome
      cases hsome
    · exact hmeets other hother hsome
  · cases candidate with
    | none =>
      cases h
      intro other hother hsome
      rcases mem_cons.1 hother with rfl | hother
      · exact ⟨_, rfl, .refl⟩
      · obtain ⟨meet, hmeet, -⟩ := hmeets other hother hsome
        cases hmeet
    | some current =>
      obtain ⟨meet, hmeet, rfl⟩ := Option.map_eq_some_iff.1 h
      obtain ⟨hcurrent, hpredecessor⟩ := onChain_intersectDominators hmeet
      intro other hother hsome
      rcases mem_cons.1 hother with rfl | hother
      · exact ⟨meet, rfl, hpredecessor⟩
      · obtain ⟨old, hold, honChain⟩ := hmeets other hother hsome
        cases hold
        exact ⟨meet, rfl, honChain.trans hcurrent⟩

theorem meetsAll_foldlM {predecessors : List ℕ} {next : Option ℕ} {seen : List ℕ}
    (hmeets : MeetsAll idom candidate seen)
    (h : predecessors.foldlM (meetPredecessor position idom) candidate = some next) :
    MeetsAll idom next (predecessors ++ seen) := by
  induction predecessors generalizing candidate seen with
  | nil =>
    cases h
    exact hmeets
  | cons predecessor predecessors ih =>
    rw [foldlM_cons] at h
    obtain ⟨middle, hmiddle, hrest⟩ := Option.bind_eq_some_iff.1 h
    have hall := ih (meetsAll_meetPredecessor hmeets hmiddle) hrest
    intro other hother
    exact hall other (by simp only [cons_append, mem_cons, mem_append] at hother ⊢; tauto)

theorem meetsAll_candidateDominator
    (h : candidateDominator position predecessors idom node = some candidate) :
    MeetsAll idom candidate (predecessors node) := by
  simpa using meetsAll_foldlM (fun _ hmem ↦ absurd hmem (not_mem_nil)) h

/-- No node would be given another immediate dominator. -/
def Fixed (position : ℕ → ℕ) (predecessors : ℕ → List ℕ) (nodes : List ℕ) (idom : Idom) : Prop :=
  ∀ node ∈ nodes, ∃ candidate, candidateDominator position predecessors idom node = some candidate ∧
    ∀ dominator, candidate = some dominator → idom node = some dominator

theorem sweepDominators_changed
    (h : sweepDominators position predecessors nodes before true = some (after, changed)) :
    changed = true := by
  induction nodes generalizing before with
  | nil =>
    cases h
    rfl
  | cons node nodes ih =>
    rw [sweepDominators] at h
    obtain ⟨candidate, hcandidate, h⟩ := Option.bind_eq_some_iff.1 h
    cases candidate with
    | none => exact ih h
    | some candidate =>
      simp only at h
      split at h
      · exact ih h
      · exact ih h

theorem fixed_of_sweepDominators
    (h : sweepDominators position predecessors nodes before false = some (after, false)) :
    after = before ∧ Fixed position predecessors nodes before := by
  induction nodes with
  | nil =>
    cases h
    exact ⟨rfl, fun _ hmem ↦ absurd hmem not_mem_nil⟩
  | cons node nodes ih =>
    rw [sweepDominators] at h
    obtain ⟨candidate, hcandidate, h⟩ := Option.bind_eq_some_iff.1 h
    have hrest : sweepDominators position predecessors nodes before false = some (after, false) ∧
        ∀ dominator, candidate = some dominator → before node = some dominator := by
      cases candidate with
      | none => exact ⟨h, fun _ hnone ↦ by cases hnone⟩
      | some candidate =>
        simp only at h
        split at h
        · rename_i heq
          exact ⟨h, fun dominator hdominator ↦ by rw [heq, hdominator]⟩
        · cases sweepDominators_changed h
    obtain ⟨hafter, hfixed⟩ := ih hrest.1
    refine ⟨hafter, fun other hother ↦ ?_⟩
    rcases mem_cons.1 hother with rfl | hother
    · exact ⟨candidate, hcandidate, hrest.2⟩
    · exact hfixed other hother

theorem sweepDominators_frame
    (h : sweepDominators position predecessors nodes before changed = some (after, after'))
    (hnode : node ∉ nodes) : after node = before node := by
  induction nodes generalizing before changed with
  | nil =>
    cases h
    rfl
  | cons first nodes ih =>
    rw [mem_cons, not_or] at hnode
    rw [sweepDominators] at h
    obtain ⟨candidate, -, h⟩ := Option.bind_eq_some_iff.1 h
    cases candidate with
    | none => exact ih h hnode.2
    | some candidate =>
      simp only at h
      split at h
      · exact ih h hnode.2
      · rw [ih h hnode.2, Function.update_of_ne hnode.1]

/-- The table the iteration settles on is a fixed point, and leaves the entry alone. -/
theorem settleDominators_spec
    (h : settleDominators position predecessors nodes fuel before = some after) :
    Fixed position predecessors nodes after ∧ ∀ node ∉ nodes, after node = before node := by
  induction fuel generalizing before with
  | zero => cases h
  | succ fuel ih =>
    rw [settleDominators] at h
    obtain ⟨⟨middle, changed⟩, hsweep, h⟩ := Option.bind_eq_some_iff.1 h
    simp only at h
    split at h
    · obtain ⟨hfixed, hframe⟩ := ih h
      exact ⟨hfixed, fun node hnode ↦
        (hframe node hnode).trans (sweepDominators_frame hsweep hnode)⟩
    · rename_i hchanged
      obtain rfl : changed = false := by simpa using hchanged
      obtain ⟨hmiddle, hfixed⟩ := fixed_of_sweepDominators hsweep
      obtain rfl : before = after := hmiddle.symm.trans (Option.some.inj h)
      exact ⟨hfixed, fun _ _ ↦ rfl⟩

end Settled

section Soundness

variable {position : ℕ → ℕ} {predecessors successors : ℕ → List ℕ} {entry : ℕ} {nodes : List ℕ}
  {idom : Idom}

/-- Every reachable node of a fixed table has an immediate dominator, and a walk to it has visited
its whole chain. -/
theorem visits_chain (hentry : idom entry = some entry)
    (hfixed : Fixed position predecessors nodes idom)
    (hnodes : ∀ visited node, Walk successors entry (node :: visited) → node = entry ∨ node ∈ nodes)
    (hedges : ∀ node next, next ∈ successors node → node ∈ predecessors next)
    (hwalk : Walk successors entry (node :: visited)) :
    (idom node).isSome ∧ ∀ ancestor, OnChain idom node ancestor → ancestor ∈ node :: visited := by
  have hroot {ancestor : ℕ} (h : OnChain idom entry ancestor) : ancestor = entry := by
    induction h with
    | refl => rfl
    | tail _ hparent ih =>
      rw [ih, hentry] at hparent
      exact (Option.some.inj hparent).symm
  generalize hlist : node :: visited = path at hwalk
  induction hwalk generalizing node visited with
  | start =>
    obtain ⟨rfl, rfl⟩ := List.cons.inj hlist
    refine ⟨by rw [hentry]; rfl, fun ancestor hancestor ↦ ?_⟩
    rw [hroot hancestor]
    exact mem_cons_self ..
  | step walk edge ih =>
    rename_i source next before
    obtain ⟨rfl, rfl⟩ := List.cons.inj hlist
    obtain ⟨hsome, hvisited⟩ := ih rfl
    rcases hnodes _ _ (.step walk edge) with rfl | hmem
    · refine ⟨by rw [hentry]; rfl, fun ancestor hancestor ↦ ?_⟩
      rw [hroot hancestor]
      exact mem_cons_self ..
    · obtain ⟨candidate, hcandidate, hagree⟩ := hfixed _ hmem
      obtain ⟨meet, rfl, hmeet⟩ :=
        meetsAll_candidateDominator hcandidate source (hedges _ _ edge) hsome
      have hparent := hagree meet rfl
      refine ⟨by rw [hparent]; rfl, fun ancestor hancestor ↦ ?_⟩
      rcases Relation.ReflTransGen.cases_head hancestor with rfl | ⟨parent, hup, hrest⟩
      · exact mem_cons_self ..
      · obtain rfl : meet = parent := Option.some.inj (hparent.symm.trans hup)
        exact mem_cons_of_mem _ (hvisited ancestor (hmeet.trans hrest))

end Soundness

end Wrela.Graph
