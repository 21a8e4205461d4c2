import Mathlib.Logic.Relation
import Mathlib.Tactic

/-!
# Search with a stack

Nodes are taken from a stack.  A node that was not entered before is entered, and its successors are
put on the stack; nodes outside the graph are passed over.  When the stack is empty, just the nodes
that can be reached from the first ones were entered.
-/

namespace Wrela.Graph

open List

variable (next : ℕ → List ℕ) (size : ℕ)

/-- The nodes entered, the last one first. -/
def drain : ℕ → List ℕ → List ℕ → List ℕ
  | 0, entered, _ => entered
  | _ + 1, entered, [] => entered
  | fuel + 1, entered, node :: pending =>
    if node < size ∧ node ∉ entered then
      drain fuel (node :: entered) ((next node).reverse ++ pending)
    else drain fuel entered pending

/-- The nodes still to be taken: those on the stack, and those that nodes not entered yet put
there. -/
def drainCost (entered pending : List ℕ) : ℕ :=
  pending.length + (((List.range size).filter fun node ↦ node ∉ entered).map fun node ↦
    (next node).length).sum

/-- The whole search from the nodes on the stack. -/
def reached (pending : List ℕ) : List ℕ :=
  drain next size (drainCost next size [] pending) [] pending

variable {next size}

/-- Reached from a node on the first stack by way of nodes of the graph. -/
def Reached (next : ℕ → List ℕ) (size : ℕ) (starts : List ℕ) (node : ℕ) : Prop :=
  ∃ start ∈ starts,
    Relation.ReflTransGen (fun node other ↦ node < size ∧ other ∈ next node) start node

/-- What was entered or put on the stack is reached, and nothing is forgotten. -/
structure Drained (next : ℕ → List ℕ) (size : ℕ) (starts entered pending : List ℕ) : Prop where
  entered_reached : ∀ node ∈ entered, node < size ∧ Reached next size starts node
  pending_reached : ∀ node ∈ pending, Reached next size starts node
  kept : ∀ node ∈ entered, ∀ other ∈ next node, other < size → other ∈ entered ∨ other ∈ pending
  starts_kept : ∀ start ∈ starts, start < size → start ∈ entered ∨ start ∈ pending

theorem drained_start (starts : List ℕ) : Drained next size starts [] starts :=
  ⟨by simp, fun node hnode ↦ ⟨node, hnode, .refl⟩, by simp, fun _ hstart _ ↦ .inr hstart⟩

variable {starts entered pending : List ℕ}

theorem Drained.enter (h : Drained next size starts entered (node :: pending)) (hnode : node < size)
    :
    Drained next size starts (node :: entered) ((next node).reverse ++ pending) := by
  have hreached := h.pending_reached node mem_cons_self
  refine ⟨?_, ?_, ?_, ?_⟩
  · intro other hother
    rcases mem_cons.1 hother with rfl | hother
    · exact ⟨hnode, hreached⟩
    · exact h.entered_reached other hother
  · intro other hother
    rcases mem_append.1 hother with hother | hother
    · obtain ⟨start, hstart, hpath⟩ := hreached
      exact ⟨start, hstart, hpath.tail ⟨hnode, mem_reverse.1 hother⟩⟩
    · exact h.pending_reached other (mem_cons_of_mem _ hother)
  · intro source hsource other hother hlt
    rcases mem_cons.1 hsource with rfl | hsource
    · exact .inr (mem_append_left _ (mem_reverse.2 hother))
    · rcases h.kept source hsource other hother hlt with hin | hin
      · exact .inl (mem_cons_of_mem _ hin)
      · rcases mem_cons.1 hin with rfl | hin
        · exact .inl mem_cons_self
        · exact .inr (mem_append_right _ hin)
  · intro start hstart hlt
    rcases h.starts_kept start hstart hlt with hin | hin
    · exact .inl (mem_cons_of_mem _ hin)
    · rcases mem_cons.1 hin with rfl | hin
      · exact .inl mem_cons_self
      · exact .inr (mem_append_right _ hin)

theorem Drained.pass (h : Drained next size starts entered (node :: pending))
    (hnode : node < size → node ∈ entered) :
    Drained next size starts entered pending := by
  refine ⟨h.entered_reached, fun other hother ↦ h.pending_reached other (by simp [hother]), ?_, ?_⟩
  · intro source hsource other hother hlt
    rcases h.kept source hsource other hother hlt with hin | hin
    · exact .inl hin
    · rcases mem_cons.1 hin with rfl | hin
      · exact .inl (hnode hlt)
      · exact .inr hin
  · intro start hstart hlt
    rcases h.starts_kept start hstart hlt with hin | hin
    · exact .inl hin
    · rcases mem_cons.1 hin with rfl | hin
      · exact .inl (hnode hlt)
      · exact .inr hin

/-- Entering a node takes it off the stack and puts its successors there. -/
theorem drainCost_enter {node : ℕ} (hnode : node < size) (hfresh : node ∉ entered) :
    drainCost next size (node :: entered) ((next node).reverse ++ pending) + 1 =
      drainCost next size entered (node :: pending) := by
  have hperm : ((List.range size).filter fun other ↦ other ∉ entered).Perm
      (node :: (List.range size).filter fun other ↦ other ∉ node :: entered) := by
    refine (perm_ext_iff_of_nodup (nodup_range.filter _) ?_).2 fun other ↦ ?_
    · exact nodup_cons.2 ⟨by simp, nodup_range.filter _⟩
    · by_cases heq : other = node
      · simp [heq, hnode, hfresh]
      · simp [heq]
  have hsum := (hperm.map fun node ↦ (next node).length).sum_eq
  simp only [drainCost, length_append, length_reverse, length_cons, hsum, map_cons, sum_cons]
  omega

theorem Drained.drain (h : Drained next size starts entered pending)
    (hfuel : drainCost next size entered pending ≤ fuel) :
    Drained next size starts (drain next size fuel entered pending) [] := by
  induction fuel generalizing entered pending with
  | zero =>
    have hempty : pending = [] := length_eq_zero_iff.1 (by unfold drainCost at hfuel; omega)
    subst hempty
    exact h
  | succ fuel ih =>
    cases pending with
    | nil => exact h
    | cons node pending =>
      rw [Graph.drain]
      split
      · rename_i hfresh
        have hcost := @drainCost_enter next size entered pending node hfresh.1 hfresh.2
        exact ih (h.enter hfresh.1) (by omega)
      · rename_i hpass
        refine ih (h.pass fun hlt ↦ by_contra fun hfresh ↦ hpass ⟨hlt, hfresh⟩) ?_
        simp only [drainCost, length_cons] at hfuel ⊢
        omega

/-- Just the reachable nodes of the graph are entered. -/
theorem mem_reached :
    node ∈ reached next size starts ↔ node < size ∧ Reached next size starts node := by
  have hdrained : Drained next size starts (reached next size starts) [] :=
    (drained_start starts).drain le_rfl
  refine ⟨hdrained.entered_reached node, ?_⟩
  rintro ⟨hlt, start, hstart, hpath⟩
  induction hpath with
  | refl => simpa using hdrained.starts_kept start hstart hlt
  | tail hpath hedge ih => simpa using hdrained.kept _ (ih hedge.1) _ hedge.2 hlt

end Wrela.Graph
