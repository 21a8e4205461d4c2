import Wrela.Graph.DominatorLaws
import Wrela.Validation.Ssa

/-!
# The dominators of a function

The search of a function numbers its blocks so that the dominator iteration settles, and a block
dominates another exactly when every path from the entry block to the other passes through it.
-/

namespace Wrela.Validation

open List Wrela.Source Wrela.Flow Wrela.Graph

variable {function : FlowFunction}

theorem orderPosition_sorted {order : List ℕ} (hnodup : order.Nodup) :
    order.Pairwise fun earlier later ↦ orderPosition order earlier < orderPosition order later := by
  rw [pairwise_iff_getElem]
  intro earlier later hearlier hlater hlt
  rw [orderPosition, orderPosition, hnodup.idxOf_getElem, hnodup.idxOf_getElem]
  exact hlt

section Search

variable (hentry : function.entry.index < function.blocks.length)
include hentry

theorem mem_search_order : block ∈ (search function).order ↔
    Reachable (successors function) function.entry.index block :=
  mem_depthFirst_order (bounded_successors hentry)

theorem mem_search_entered : block ∈ (search function).entered ↔
    Reachable (successors function) function.entry.index block :=
  mem_depthFirst_entered (bounded_successors hentry)

/-- The reverse postorder of the search reaches every block but the entry by an edge that goes
forward. -/
theorem numbered_search :
    Numbered (orderPosition (search function).order) (search function).order
      (predecessors function) (successors function) function.entry.index where
  sorted := orderPosition_sorted (depthFirst_order_nodup (bounded_successors hentry))
  head := depthFirst_order_head (bounded_successors hentry)
  edges source target := mem_predecessors
  closed block hblock next hedge := by
    rw [mem_search_order hentry] at hblock ⊢
    exact hblock.tail hedge
  parent block hblock hne := by
    obtain ⟨before, after, hsplit⟩ := append_of_mem hblock
    obtain ⟨parent, hparent, hedge⟩ :=
      depthFirst_order_parent (bounded_successors hentry) hsplit hne
    have hsorted := orderPosition_sorted (depthFirst_order_nodup (bounded_successors hentry))
    rw [← search, hsplit] at hsorted
    refine ⟨parent, by rw [hsplit]; exact mem_append_left _ hparent, hedge, ?_⟩
    rw [hsplit]
    exact (pairwise_append.1 hsorted).2.2 parent hparent block (mem_cons_self ..)

theorem settled_immediateDominators :
    ∃ idom, immediateDominators (search function).order (predecessors function)
        function.entry.index = some idom ∧
      SettledDominators (orderPosition (search function).order) (search function).order
        (successors function) function.entry.index idom := by
  obtain ⟨rest, hrest⟩ := depthFirst_order_head (bounded_successors hentry)
  have hnumbered := numbered_search hentry
  rw [immediateDominators]
  rw [← search] at hrest
  have htail : (search function).order.tail = rest := by rw [hrest, tail_cons]
  rw [htail]
  refine hnumbered.settleDominators_start hrest ?_
  have hsquare := Nat.le_mul_self (search function).order.length
  omega

/-- The iteration settles, and what it finds to dominate a block is what every path from the entry
to the block passes through. -/
theorem blockDominates_iff_dominates :
    ∃ idom, immediateDominators (search function).order (predecessors function)
        function.entry.index = some idom ∧
      ∀ dominator block, Reachable (successors function) function.entry.index dominator →
        Reachable (successors function) function.entry.index block →
        (blockDominates function idom dominator block = true ↔
          Dominates (successors function) function.entry.index dominator block) := by
  obtain ⟨idom, hfound, hsettled⟩ := settled_immediateDominators hentry
  refine ⟨idom, hfound, fun dominator block hdominator hblock ↦ ?_⟩
  have hmem := (mem_search_order hentry).2 hblock
  have hfuel : orderPosition (search function).order block < (search function).order.length + 1 :=
    (idxOf_lt_length_of_mem hmem).trans (Nat.lt_succ_self _)
  rw [← hsettled.onChain_iff block hmem, ← hsettled.chainContains_iff (hsettled.covered block hmem)
    hfuel, blockDominates]
  simp [mem_search_entered hentry, hdominator, hblock]

/-- Another block that dominates this one, and that all its other dominators dominate. -/
def IsClosestDominator (function : FlowFunction) (block parent : ℕ) : Prop :=
  let dominates := Dominates (successors function) function.entry.index
  parent ≠ block ∧ dominates parent block ∧
    ∀ dominator, dominates dominator block → dominator ≠ block → dominates dominator parent

/-- The table is the dominator tree: the parent of a block is its closest dominator. -/
theorem immediateDominators_closest :
    ∃ idom, immediateDominators (search function).order (predecessors function)
        function.entry.index = some idom ∧
      ∀ block, Reachable (successors function) function.entry.index block →
        block ≠ function.entry.index →
          ∃ parent, idom block = some parent ∧ IsClosestDominator function block parent := by
  obtain ⟨idom, hfound, hsettled⟩ := settled_immediateDominators hentry
  refine ⟨idom, hfound, fun block hblock hne ↦ ?_⟩
  have hmem := (mem_search_order hentry).2 hblock
  obtain ⟨parent, hparent⟩ := Option.isSome_iff_exists.1 (hsettled.covered block hmem)
  obtain ⟨-, hcovered, hlt⟩ := hsettled.parent block parent hparent hne
  have hparentMem := hsettled.mem_of_covered (numbered_search hentry) hcovered
  refine ⟨parent, hparent, ?_, ?_, fun dominator hdominates hother ↦ ?_⟩
  · rintro rfl
    exact lt_irrefl _ hlt
  · exact (hsettled.onChain_iff block hmem parent).1 (Relation.ReflTransGen.single hparent)
  · rw [← hsettled.onChain_iff block hmem] at hdominates
    exact (hsettled.onChain_iff parent hparentMem dominator).1 (hdominates.of_parent hparent hother)

end Search

/-- A loop that is entered at two blocks: neither of the two dominates the other. -/
def twoEntryLoop : FlowFunction where
  id := ⟨0⟩
  name := "loop"
  origin := .sourceSemantic 0
  role := .ordinary
  color := .sync
  parameters := [⟨0⟩]
  resultTypes := []
  values := []
  blocks := [⟨⟨0⟩, [], [], .branch ⟨0⟩ ⟨1⟩ [] ⟨2⟩ [], none⟩,
    ⟨⟨1⟩, [], [], .jump ⟨2⟩ [], none⟩, ⟨⟨2⟩, [], [], .jump ⟨1⟩ [], none⟩]
  entry := ⟨0⟩
  stackBound := 0
  frameBound := 0
  proofs := []
  source := none

theorem blockDominates_iff_dominates_twoEntryLoop :
    ∃ idom, immediateDominators (search twoEntryLoop).order (predecessors twoEntryLoop) 0 = some idom ∧
      ∀ dominator block, Reachable (successors twoEntryLoop) 0 dominator →
        Reachable (successors twoEntryLoop) 0 block →
        (blockDominates twoEntryLoop idom dominator block = true ↔
          Dominates (successors twoEntryLoop) 0 dominator block) :=
  @blockDominates_iff_dominates twoEntryLoop (by decide)

theorem immediateDominators_closest_twoEntryLoop :
    ∃ idom, immediateDominators (search twoEntryLoop).order (predecessors twoEntryLoop) 0 = some idom ∧
      ∀ block, Reachable (successors twoEntryLoop) 0 block → block ≠ 0 →
        ∃ parent, idom block = some parent ∧ IsClosestDominator twoEntryLoop block parent :=
  @immediateDominators_closest twoEntryLoop (by decide)

end Wrela.Validation
