import Mathlib.Tactic
import Mathlib.Data.Fintype.Order
import Mathlib.Logic.Relation

/-!
# Reachability and topological completion

Two searches over a finite graph whose nodes are the numbers below `size` and whose edges are given
by a successor list.  `explore` marks what a first-in first-out queue reaches; `settle` completes a
node once everything it points to is complete, smallest first.  Both run on fuel, and the bounds
say how much of it is enough.
-/

namespace Wrela.Graph

open List

/-- One edge of the graph. -/
def Edge (next : ℕ → List ℕ) (node other : ℕ) : Prop := other ∈ next node

section Explore

variable {next : ℕ → List ℕ}

/-- Mark a node and queue it, unless it was marked before. -/
def discover (state : List Bool × List ℕ) (node : ℕ) : List Bool × List ℕ :=
  if state.1.getD node false then state else (state.1.set node true, state.2 ++ [node])

def explore (next : ℕ → List ℕ) : ℕ → List Bool → List ℕ → List Bool
  | 0, seen, _ => seen
  | _ + 1, seen, [] => seen
  | fuel + 1, seen, node :: queue =>
    let state := (next node).foldl discover (seen, queue)
    explore next fuel state.1 state.2

/-- What the loop keeps: marks are reached from the start, queued nodes are marked, and a marked
node that left the queue has only marked successors. -/
structure Explored (next : ℕ → List ℕ) (start size : ℕ) (seen : List Bool) (queue : List ℕ) :
    Prop where
  length_eq : seen.length = size
  origin : seen.getD start false = true
  reached : ∀ node, seen.getD node false = true → Relation.ReflTransGen (Edge next) start node
  queued : ∀ node ∈ queue, seen.getD node false = true
  closed : ∀ node, seen.getD node false = true → node ∉ queue → ∀ other ∈ next node,
    seen.getD other false = true

/-- The work left: nodes not yet marked and nodes still queued. -/
def exploreCost (seen : List Bool) (queue : List ℕ) : ℕ := seen.count false + queue.length

theorem getD_set_true {seen : List Bool} {node other : ℕ} (hnode : node < seen.length) :
    (seen.set node true).getD other false = (decide (node = other) || seen.getD other false) := by
  by_cases h : node = other
  · subst h
    simp [List.getD, hnode]
  · simp [List.getD, h]

theorem discover_cost (seen : List Bool) (queue : List ℕ) (hnode : node < seen.length) :
    exploreCost (discover (seen, queue) node).1 (discover (seen, queue) node).2 =
      exploreCost seen queue := by
  unfold discover exploreCost
  split
  · rfl
  · rename_i h
    have hget : seen[node] = false := by simpa [List.getD, hnode] using h
    have hcount := @count_set _ _ true false seen node hnode
    have hpos : 0 < seen.count false := count_pos_iff.2 (hget ▸ getElem_mem hnode)
    simp only [hget] at hcount
    simp only [length_append, length_singleton]
    simp at hcount
    omega

/-- What processing one successor list does to the marks and to the queue. -/
theorem foldl_discover (targets : List ℕ) (seen : List Bool) (queue : List ℕ)
    (hbound : ∀ node ∈ targets, node < seen.length) :
    (targets.foldl discover (seen, queue)).1.length = seen.length ∧
    (∀ node, (targets.foldl discover (seen, queue)).1.getD node false = true ↔
      seen.getD node false = true ∨ node ∈ targets) ∧
    (∀ node, node ∈ (targets.foldl discover (seen, queue)).2 ↔
      node ∈ queue ∨ (node ∈ targets ∧ ¬ seen.getD node false = true)) ∧
    exploreCost (targets.foldl discover (seen, queue)).1 (targets.foldl discover (seen, queue)).2 =
      exploreCost seen queue := by
  induction targets generalizing seen queue with
  | nil => simp
  | cons target targets ih =>
    have htarget : target < seen.length := hbound target mem_cons_self
    have hcost := discover_cost seen queue htarget
    rw [foldl_cons]
    by_cases hseen : seen.getD target false = true
    · have hstep : discover (seen, queue) target = (seen, queue) := if_pos hseen
      rw [hstep]
      obtain ⟨hlength, hmarks, hqueue, hcosts⟩ :=
        ih seen queue fun node hnode ↦ hbound node (mem_cons_of_mem _ hnode)
      refine ⟨hlength, fun node ↦ ?_, fun node ↦ ?_, hcosts⟩
      · rw [hmarks, mem_cons]
        grind
      · rw [hqueue, mem_cons]
        grind
    · have hstep : discover (seen, queue) target = (seen.set target true, queue ++ [target]) :=
        if_neg hseen
      rw [hstep] at hcost ⊢
      obtain ⟨hlength, hmarks, hqueue, hcosts⟩ :=
        ih (seen.set target true) (queue ++ [target]) fun node hnode ↦ by
          simpa using hbound node (mem_cons_of_mem _ hnode)
      refine ⟨by simpa using hlength, fun node ↦ ?_, fun node ↦ ?_, hcosts.trans hcost⟩
      · rw [hmarks, getD_set_true htarget, mem_cons]
        grind
      · rw [hqueue, getD_set_true htarget, mem_cons, mem_append, mem_singleton]
        grind

/-- One round of the queue. -/
theorem Explored.step {start size node : ℕ} {seen : List Bool} {queue : List ℕ}
    (hbound : ∀ other ∈ next node, other < size)
    (h : Explored next start size seen (node :: queue)) :
    Explored next start size ((next node).foldl discover (seen, queue)).1
      ((next node).foldl discover (seen, queue)).2 := by
  obtain ⟨hlength, hmarks, hqueue, -⟩ := foldl_discover (next node) seen queue
    fun other hother ↦ h.length_eq.symm ▸ hbound other hother
  have hnode := h.queued node mem_cons_self
  refine ⟨hlength.trans h.length_eq, (hmarks start).2 (.inl h.origin), fun other hother ↦ ?_,
    fun other hother ↦ ?_, fun other hother hout target htarget ↦ ?_⟩
  · rcases (hmarks other).1 hother with hseen | hnext
    · exact h.reached other hseen
    · exact (h.reached node hnode).tail hnext
  · rw [hmarks]
    rcases (hqueue other).1 hother with hold | ⟨hnext, -⟩
    · exact .inl (h.queued other (mem_cons_of_mem _ hold))
    · exact .inr hnext
  · rw [hqueue, not_or, not_and_not_right] at hout
    rw [hmarks]
    rcases (hmarks other).1 hother with hseen | hnext
    · by_cases hself : other = node
      · exact .inr (hself ▸ htarget)
      · exact .inl (h.closed other hseen (by simp [hself, hout.1]) target htarget)
    · rcases eq_or_ne other node with rfl | hself
      · exact .inr htarget
      · exact .inl (h.closed other (hout.2 hnext) (by simp [hself, hout.1]) target htarget)

/-- The order of the queue does not matter to what is kept. -/
theorem Explored.perm (h : Explored next start size seen queue) (hperm : queue.Perm other) :
    Explored next start size seen other where
  length_eq := h.length_eq
  origin := h.origin
  reached := h.reached
  queued node hnode := h.queued node (hperm.mem_iff.2 hnode)
  closed node hnode hout := h.closed node hnode fun hmem ↦ hout (hperm.mem_iff.1 hmem)

theorem Explored.run {start size fuel : ℕ} {seen : List Bool} {queue : List ℕ}
    (hbound : ∀ node other, other ∈ next node → other < size)
    (h : Explored next start size seen queue) (hfuel : exploreCost seen queue ≤ fuel) :
    Explored next start size (explore next fuel seen queue) [] := by
  induction fuel generalizing seen queue with
  | zero =>
    obtain rfl : queue = [] := eq_nil_of_length_eq_zero (by unfold exploreCost at hfuel; omega)
    exact h
  | succ fuel ih =>
    cases queue with
    | nil => exact h
    | cons node queue =>
      refine ih (h.step (hbound node)) ?_
      rw [(foldl_discover _ _ _ fun other hother ↦
        h.length_eq.symm ▸ hbound node other hother).2.2.2]
      simp only [exploreCost, length_cons] at hfuel ⊢
      omega

theorem Explored.start {start size : ℕ} (hstart : start < size) :
    Explored next start size ((List.replicate size false).set start true) [start] := by
  have hlength : start < (List.replicate size false).length := by simpa using hstart
  have hmarks : ∀ node, ((List.replicate size false).set start true).getD node false = true ↔
      start = node := by
    intro node
    have hfalse : (List.replicate size false).getD node false = false := by
      rw [List.getD, List.getElem?_replicate]
      split <;> rfl
    rw [getD_set_true hlength, hfalse]
    simp
  refine ⟨by simp, (hmarks start).2 rfl, fun node hnode ↦ ?_, fun node hnode ↦ ?_,
    fun node hnode hout ↦ ?_⟩
  · rw [(hmarks node).1 hnode]
  · rw [hmarks, mem_singleton.1 hnode]
  · exact absurd (mem_singleton.2 ((hmarks node).1 hnode).symm) hout

theorem exploreCost_start (hstart : start < size) :
    exploreCost ((List.replicate size false).set start true) [start] = size := by
  have hdiscover := discover_cost (List.replicate size false) []
    (show start < _ by simpa using hstart)
  have hnot : ¬ (List.replicate size false).getD start false = true := by
    simp [List.getD, hstart]
  rw [show discover (List.replicate size false, []) start =
    ((List.replicate size false).set start true, [start]) from if_neg hnot] at hdiscover
  rw [hdiscover]
  simp [exploreCost]

theorem Explored.whole {start size : ℕ} (hstart : start < size)
    (hbound : ∀ node other, other ∈ next node → other < size) :
    Explored next start size
      (explore next size ((List.replicate size false).set start true) [start]) [] :=
  (Explored.start hstart).run hbound (exploreCost_start hstart).le

theorem length_explore {start size : ℕ} (hstart : start < size)
    (hbound : ∀ node other, other ∈ next node → other < size) :
    (explore next size ((List.replicate size false).set start true) [start]).length = size :=
  (Explored.whole hstart hbound).length_eq

/-- When nothing is queued any more, the marks are exactly what can be reached from the start. -/
theorem Explored.marked_iff {start size : ℕ} {seen : List Bool}
    (h : Explored next start size seen []) (node : ℕ) :
    seen.getD node false = true ↔ Relation.ReflTransGen (Edge next) start node := by
  refine ⟨h.reached node, fun hpath ↦ ?_⟩
  induction hpath with
  | refl => exact h.origin
  | tail _ hedge ih => exact h.closed _ ih not_mem_nil _ hedge

/-- With fuel for every node, the marks are exactly what can be reached from the start. -/
theorem explore_eq_true_iff {start size : ℕ} (hstart : start < size)
    (hbound : ∀ node other, other ∈ next node → other < size) (node : ℕ) :
    (explore next size ((List.replicate size false).set start true) [start]).getD node false =
      true ↔ Relation.ReflTransGen (Edge next) start node :=
  (Explored.whole hstart hbound).marked_iff node

end Explore

section Settle

variable {next : ℕ → List ℕ}

/-- The nodes that point to `node`, one occurrence for each edge. -/
def dependents (next : ℕ → List ℕ) (size node : ℕ) : List ℕ :=
  (List.range size).flatMap fun other ↦ ((next other).filter (· == node)).map fun _ ↦ other

/-- One edge of a completed node is gone; the node it came from is ready once it was the last. -/
def release (state : List ℕ × Finset ℕ) (node : ℕ) : List ℕ × Finset ℕ :=
  let remaining := state.1.set node (state.1.getD node 0 - 1)
  (remaining, if remaining.getD node 0 = 0 then insert node state.2 else state.2)

/-- Complete ready nodes, smallest first; the edges that remain and the number completed. -/
def settle (next : ℕ → List ℕ) (size : ℕ) : ℕ → List ℕ → Finset ℕ → ℕ → List ℕ × ℕ
  | 0, remaining, _, completed => (remaining, completed)
  | fuel + 1, remaining, ready, completed =>
    match ready.min with
    | none => (remaining, completed)
    | some node =>
      let state := (dependents next size node).foldl release (remaining, ready.erase node)
      settle next size fuel state.1 state.2 (completed + 1)

/-- What the loop keeps, with `done` the nodes completed so far. -/
structure Settled (next : ℕ → List ℕ) (size : ℕ) (done : Finset ℕ) (remaining : List ℕ)
    (ready : Finset ℕ) : Prop where
  length_eq : remaining.length = size
  done_lt : ∀ node ∈ done, node < size
  count : ∀ node < size, remaining.getD node 0 = (next node).countP (· ∉ done)
  ready_iff : ∀ node, node ∈ ready ↔ node < size ∧ node ∉ done ∧ remaining.getD node 0 = 0
  done_closed : ∀ node ∈ done, ∀ other ∈ next node, other ∈ done
  grounded : ∀ node ∈ done, Acc (fun other node ↦ Edge next node other) node

theorem count_dependents (size node other : ℕ) :
    (dependents next size node).count other =
      if other < size then (next other).count node else 0 := by
  induction size with
  | zero => simp [dependents]
  | succ size ih =>
    have hlast : (dependents next (size + 1) node).count other =
        (dependents next size node).count other +
          (((next size).filter (· == node)).map fun _ ↦ size).count other := by
      simp [dependents, range_succ]
    have hmap : (((next size).filter (· == node)).map fun _ ↦ size).count other =
        if size = other then (next other).count node else 0 := by
      rw [map_const', count_replicate]
      by_cases h : size = other
      · subst h
        simp [count_eq_length_filter]
      · simp [h]
    rw [hlast, hmap, ih]
    grind

theorem getD_set_nat {values : List ℕ} {index other value : ℕ} (hindex : index < values.length) :
    (values.set index value).getD other 0 = if index = other then value else values.getD other 0 := by
  by_cases h : index = other
  · subst h
    simp [List.getD, hindex]
  · simp [List.getD, h]

/-- What the edges of one completed node do to the counts and to the ready set. -/
theorem foldl_release (targets remaining : List ℕ) (ready : Finset ℕ)
    (hbound : ∀ node ∈ targets, node < remaining.length)
    (hcount : ∀ node, targets.count node ≤ remaining.getD node 0) :
    (targets.foldl release (remaining, ready)).1.length = remaining.length ∧
    (∀ node, (targets.foldl release (remaining, ready)).1.getD node 0 =
      remaining.getD node 0 - targets.count node) ∧
    (∀ node, node ∈ (targets.foldl release (remaining, ready)).2 ↔
      node ∈ ready ∨ (node ∈ targets ∧ remaining.getD node 0 = targets.count node)) := by
  induction targets generalizing remaining ready with
  | nil => simp
  | cons target targets ih =>
    have htarget : target < remaining.length := hbound target mem_cons_self
    have hget : ∀ node, (remaining.set target (remaining.getD target 0 - 1)).getD node 0 =
        if target = node then remaining.getD target 0 - 1 else remaining.getD node 0 :=
      fun node ↦ getD_set_nat htarget
    have hcons : ∀ node, (target :: targets).count node =
        targets.count node + if target = node then 1 else 0 := by
      intro node
      rw [count_cons]
      simp
    have hafter : ∀ node, targets.count node ≤
        (remaining.set target (remaining.getD target 0 - 1)).getD node 0 := by
      intro node
      have hnode := hcount node
      rw [hcons] at hnode
      rw [hget]
      split
      · rename_i h
        subst h
        simp only [if_true] at hnode
        omega
      · rename_i h
        simpa [h] using hnode
    rw [foldl_cons]
    obtain ⟨hlength, hremaining, hready⟩ := ih
      (remaining.set target (remaining.getD target 0 - 1))
      (release (remaining, ready) target).2
      (fun node hnode ↦ by simpa using hbound node (mem_cons_of_mem _ hnode)) hafter
    refine ⟨by simpa [release] using hlength, fun node ↦ ?_, fun node ↦ ?_⟩
    · have hnode := hremaining node
      simp only [release] at hnode ⊢
      rw [hnode, hget, hcons]
      grind
    · have hnode := hready node
      have hself := hcount target
      rw [hcons, if_pos rfl] at hself
      have hzero : targets.count target = 0 ↔ target ∉ targets := count_eq_zero
      simp only [release, hget, if_true] at hnode ⊢
      rw [hnode, hcons, mem_cons]
      grind

/-- One completion. -/
theorem Settled.step {size node : ℕ} {done ready : Finset ℕ} {remaining : List ℕ}
    (h : Settled next size done remaining ready) (hnode : node ∈ ready) :
    Settled next size (insert node done)
      ((dependents next size node).foldl release (remaining, ready.erase node)).1
      ((dependents next size node).foldl release (remaining, ready.erase node)).2 := by
  obtain ⟨hlt, hfresh, hzero⟩ := (h.ready_iff node).1 hnode
  have hdeps : ∀ other ∈ next node, other ∈ done := by
    have hcount := h.count node hlt
    rw [hzero, eq_comm, countP_eq_zero] at hcount
    simpa using hcount
  have hsplit : ∀ other, (next other).countP (· ∉ done) =
      (next other).countP (· ∉ insert node done) + (next other).count node := by
    intro other
    induction next other with
    | nil => rfl
    | cons head tail ih =>
      simp only [countP_cons, count_cons, ih, Finset.mem_insert]
      grind
  have hmem : ∀ other, other ∈ dependents next size node ↔ other < size ∧ node ∈ next other := by
    intro other
    rw [← count_pos_iff, count_dependents, ← count_pos_iff]
    split <;> simp [*]
  obtain ⟨hlength, hremaining, hready⟩ := foldl_release (dependents next size node) remaining
    (ready.erase node) (fun other hother ↦ h.length_eq.symm ▸ ((hmem other).1 hother).1)
    (fun other ↦ by
      rw [count_dependents]
      split
      · rename_i hother
        rw [h.count other hother, hsplit]
        omega
      · omega)
  have hcount : ∀ other < size,
      ((dependents next size node).foldl release (remaining, ready.erase node)).1.getD other 0 =
        (next other).countP (· ∉ insert node done) := by
    intro other hother
    rw [hremaining, count_dependents, if_pos hother, h.count other hother, hsplit]
    omega
  refine ⟨hlength.trans h.length_eq, fun other hother ↦ ?_, hcount, fun other ↦ ?_,
    fun other hother target htarget ↦ ?_, fun other hother ↦ ?_⟩
  · rcases Finset.mem_insert.1 hother with rfl | hother
    · exact hlt
    · exact h.done_lt other hother
  · rw [hready, Finset.mem_erase, h.ready_iff, Finset.mem_insert, hmem, count_dependents]
    by_cases hother : other < size
    · have hdone : other ∈ done → node ∉ next other := fun hin hedge ↦
        hfresh (h.done_closed other hin node hedge)
      have hself : node ∉ next node := fun hedge ↦ hfresh (hdeps node hedge)
      have hpos : 0 < (next other).count node ↔ node ∈ next other := count_pos_iff
      have hcounts := h.count other hother
      rw [hsplit] at hcounts
      rw [hcount other hother, if_pos hother]
      grind
    · simp [hother]
  · rcases Finset.mem_insert.1 hother with rfl | hother
    · exact Finset.mem_insert_of_mem (hdeps target htarget)
    · exact Finset.mem_insert_of_mem (h.done_closed other hother target htarget)
  · rcases Finset.mem_insert.1 hother with rfl | hother
    · exact Acc.intro _ fun target htarget ↦ h.grounded target (hdeps target htarget)
    · exact h.grounded other hother

/-- The loop ends with no node ready, and counts what it completed. -/
theorem Settled.run {size fuel : ℕ} {done ready : Finset ℕ} {remaining : List ℕ}
    (h : Settled next size done remaining ready) (hfuel : size ≤ fuel + done.card) :
    ∃ done', Settled next size done' (settle next size fuel remaining ready done.card).1 ∅ ∧
      (settle next size fuel remaining ready done.card).2 = done'.card := by
  induction fuel generalizing done ready remaining with
  | zero =>
    refine ⟨done, ?_, rfl⟩
    have hall : done = Finset.range size := by
      refine Finset.eq_of_subset_of_card_le (fun node hnode ↦ ?_) (by simpa using hfuel)
      exact Finset.mem_range.2 (h.done_lt node hnode)
    have hready : ready = ∅ := by
      refine Finset.eq_empty_of_forall_notMem fun node hnode ↦ ?_
      obtain ⟨hlt, hfresh, -⟩ := (h.ready_iff node).1 hnode
      exact hfresh (hall ▸ Finset.mem_range.2 hlt)
    exact hready ▸ h
  | succ fuel ih =>
    unfold settle
    split
    · rename_i hmin
      exact ⟨done, Finset.min_eq_top.1 hmin ▸ h, rfl⟩
    · rename_i node hmin
      have hnode : node ∈ ready := Finset.mem_of_min hmin
      have hcard : (insert node done).card = done.card + 1 :=
        Finset.card_insert_of_notMem ((h.ready_iff node).1 hnode).2.1
      have hrun := ih (h.step hnode) (by rw [hcard]; omega)
      rwa [hcard] at hrun

/-- The state the loop starts from. -/
def initialRemaining (next : ℕ → List ℕ) (size : ℕ) : List ℕ :=
  (List.range size).map fun node ↦ (next node).length

def initialReady (next : ℕ → List ℕ) (size : ℕ) : Finset ℕ :=
  {node ∈ Finset.range size | (next node).length = 0}

theorem Settled.start (size : ℕ) :
    Settled next size ∅ (initialRemaining next size) (initialReady next size) := by
  have hget : ∀ node < size, (initialRemaining next size).getD node 0 = (next node).length := by
    intro node hnode
    simp [initialRemaining, List.getD, hnode]
  refine ⟨by simp [initialRemaining], by simp, fun node hnode ↦ ?_, fun node ↦ ?_, by simp, by simp⟩
  · rw [hget node hnode]
    simp
  · by_cases hnode : node < size
    · rw [hget node hnode]
      simp [initialReady, hnode]
    · simp [initialReady, hnode]

/-- Every node completes exactly when the graph has no infinite descent. -/
theorem settle_eq_size_iff (hbound : ∀ node other, other ∈ next node → other < size) :
    (settle next size size (initialRemaining next size) (initialReady next size) 0).2 = size ↔
      ∀ node < size, Acc (fun other node ↦ Edge next node other) node := by
  obtain ⟨done, hdone, hcard⟩ := (@Settled.start next size).run (show size ≤ size + _ by simp)
  rw [Finset.card_empty] at hdone hcard
  have hsubset : done ⊆ Finset.range size := fun node hnode ↦
    Finset.mem_range.2 (hdone.done_lt node hnode)
  rw [hcard]
  constructor
  · intro hfull node hnode
    have hall : done = Finset.range size := Finset.eq_of_subset_of_card_le hsubset (by simp [hfull])
    exact hdone.grounded node (hall ▸ Finset.mem_range.2 hnode)
  · intro hacc
    have hmem : ∀ node < size, node ∈ done := by
      intro node hnode
      induction hacc node hnode with
      | intro node _ ih =>
        by_contra hout
        have hdeps : ∀ other ∈ next node, other ∈ done := fun other hedge ↦
          ih other hedge (hbound node other hedge)
        have hzero : (next node).countP (· ∉ done) = 0 := by
          rw [countP_eq_zero]
          simpa using hdeps
        have hready := (hdone.ready_iff node).2 ⟨hnode, hout, (hdone.count node hnode).trans hzero⟩
        cases hready
    have hall : done = Finset.range size :=
      hsubset.antisymm fun node hnode ↦ hmem node (Finset.mem_range.1 hnode)
    rw [hall, Finset.card_range]

/-- On finitely many nodes, no infinite descent means no cycle. -/
theorem forall_acc_iff_acyclic (hbound : ∀ node other, other ∈ next node → other < size)
    (hsource : ∀ node, size ≤ node → next node = []) :
    (∀ node < size, Acc (fun other node ↦ Edge next node other) node) ↔
      ∀ node, ¬ Relation.TransGen (Edge next) node node := by
  constructor
  · intro hacc node hcycle
    have hnode : node < size := by
      by_contra hout
      obtain ⟨other, hedge, -⟩ := Relation.TransGen.head'_iff.1 hcycle
      rw [Edge, hsource node (not_lt.1 hout)] at hedge
      cases hedge
    have hswap : Relation.TransGen (fun other node ↦ Edge next node other) node node :=
      Relation.transGen_swap.2 hcycle
    have hfalse : ∀ other, Acc (Relation.TransGen fun other node ↦ Edge next node other) other →
        ¬ Relation.TransGen (fun other node ↦ Edge next node other) other other := by
      intro other hother
      induction hother with
      | intro other _ ih => exact fun hself ↦ ih other hself hself
    exact hfalse node (hacc node hnode).transGen hswap
  · intro hacyclic node hnode
    let below : Fin size → Fin size → Prop := fun a b ↦ Relation.TransGen (Edge next) b a
    have htrans : IsTrans (Fin size) below := ⟨fun _ _ _ hab hbc ↦ hbc.trans hab⟩
    have hirrefl : Std.Irrefl below := ⟨fun a ↦ hacyclic a⟩
    have hwf : WellFounded below := Finite.wellFounded_of_trans_of_irrefl below
    have hall : ∀ a : Fin size, Acc (fun other node ↦ Edge next node other) (a : ℕ) := by
      intro a
      induction hwf.apply a with
      | intro a _ ih =>
        refine Acc.intro _ fun other hedge ↦ ?_
        exact ih ⟨other, hbound a other hedge⟩ (.single hedge)
    exact hall ⟨node, hnode⟩

end Settle


end Wrela.Graph
