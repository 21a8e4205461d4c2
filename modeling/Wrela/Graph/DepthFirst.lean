import Mathlib.Logic.Relation
import Mathlib.Data.List.Basic
import Mathlib.Data.Finset.Card
import Mathlib.Tactic

/-!
# Depth-first search with an explicit stack

The search keeps a stack of nodes still to enter and of markers for nodes to leave.  A node is put
on the order when its marker is reached, so that reading the order from the front gives the reverse
postorder.  The search visits exactly the reachable nodes, and every node but the first has a
predecessor before it in the reverse postorder.
-/

namespace Wrela.Graph

open List

/-- What is still on the stack, what has been entered, and what has been left. -/
structure Search where
  pending : List (ℕ × Bool)
  entered : List ℕ
  order : List ℕ
  peak : ℕ

def Search.start (entry : ℕ) : Search := ⟨[(entry, false)], [], [], 1⟩

/-- The stack after entering a node: its marker, and above it the successors not entered yet. -/
def pushed (successors : ℕ → List ℕ) (entered : List ℕ) (node : ℕ) (pending : List (ℕ × Bool)) :
    List (ℕ × Bool) :=
  ((successors node).filter fun next ↦ !entered.contains next).map (·, false) ++
    (node, true) :: pending

def Search.step (successors : ℕ → List ℕ) (search : Search) : Search :=
  match search.pending with
  | [] => search
  | (node, true) :: pending => { search with pending, order := node :: search.order }
  | (node, false) :: pending =>
    if search.entered.contains node then { search with pending }
    else
      let entered := node :: search.entered
      let pending := pushed successors entered node pending
      { search with pending, entered, peak := max search.peak pending.length }

def Search.run (successors : ℕ → List ℕ) : ℕ → Search → Search
  | 0, search => search
  | fuel + 1, search => Search.run successors fuel (search.step successors)

/-- Steps that are enough to empty the stack: one to leave each node and one for each edge. -/
def searchFuel (successors : ℕ → List ℕ) (nodes : ℕ) : ℕ :=
  1 + ((List.range nodes).map fun node ↦ 1 + (successors node).length).sum

def depthFirst (successors : ℕ → List ℕ) (nodes entry : ℕ) : Search :=
  Search.run successors (searchFuel successors nodes) (.start entry)

section Invariant

variable {successors : ℕ → List ℕ} {entry : ℕ}

/-- The nodes that can be reached from the entry. -/
def Reachable (successors : ℕ → List ℕ) (entry : ℕ) : ℕ → Prop :=
  Relation.ReflTransGen (fun source target ↦ target ∈ successors source) entry

/-- The nodes whose marker is on the stack. -/
def Search.open (search : Search) : List ℕ :=
  search.pending.filterMap fun item ↦ if item.2 then some item.1 else none

/-- What the search has left, it has entered; what it has entered is left or still open; everything
it knows is reachable; and no successor of an entered node is forgotten. -/
structure Search.Sound (successors : ℕ → List ℕ) (entry : ℕ) (search : Search) : Prop where
  entered_nodup : search.entered.Nodup
  entered_perm : (search.open ++ search.order).Perm search.entered
  entered_reachable : ∀ node ∈ search.entered, Reachable successors entry node
  pending_reachable : ∀ item ∈ search.pending, Reachable successors entry item.1
  successors_kept : ∀ node ∈ search.entered, ∀ next ∈ successors node,
    next ∈ search.entered ∨ (next, false) ∈ search.pending
  entry_kept : entry ∈ search.entered ∨ (entry, false) ∈ search.pending

theorem Search.sound_start (successors : ℕ → List ℕ) (entry : ℕ) :
    (Search.start entry).Sound successors entry where
  entered_nodup := nodup_nil
  entered_perm := by simp [Search.start, Search.open]
  entered_reachable := by simp [Search.start]
  pending_reachable := by
    intro item hitem
    obtain rfl : item = (entry, false) := by simpa [Search.start] using hitem
    exact .refl
  successors_kept := by simp [Search.start]
  entry_kept := .inr (by simp [Search.start])

variable {search : Search} {node : ℕ} {pending : List (ℕ × Bool)}

/-- What was entered or is still to be entered, after the top of the stack is taken off. -/
theorem kept_of_pending {next : ℕ} (hpending : search.pending = (node, false) :: pending)
    (h : next ∈ search.entered ∨ (next, false) ∈ search.pending) :
    next ∈ node :: search.entered ∨ (next, false) ∈ pending := by
  rw [hpending, mem_cons, Prod.mk.injEq] at h
  rw [mem_cons]
  tauto

/-- A node found on top of the stack again changes nothing but the stack. -/
theorem Search.Sound.skip
    (h : search.Sound successors entry) (hpending : search.pending = (node, false) :: pending)
    (hentered : node ∈ search.entered) : Search.Sound successors entry { search with pending } where
  entered_nodup := h.entered_nodup
  entered_perm := by simpa [Search.open, hpending] using h.entered_perm
  entered_reachable := h.entered_reachable
  pending_reachable item hitem := h.pending_reachable item (by simp [hpending, hitem])
  successors_kept source hsource next hnext :=
    (kept_of_pending hpending (h.successors_kept source hsource next hnext)).imp_left
      fun hkept ↦ cons_subset.2 ⟨hentered, List.Subset.refl _⟩ hkept
  entry_kept := (kept_of_pending hpending h.entry_kept).imp_left
    fun hkept ↦ cons_subset.2 ⟨hentered, List.Subset.refl _⟩ hkept

theorem Search.Sound.leave
    (h : search.Sound successors entry) (hpending : search.pending = (node, true) :: pending) :
    Search.Sound successors entry { search with pending, order := node :: search.order } where
  entered_nodup := h.entered_nodup
  entered_perm := by
    refine List.Perm.trans ?_ h.entered_perm
    simp [Search.open, hpending, perm_middle]
  entered_reachable := h.entered_reachable
  pending_reachable item hitem := h.pending_reachable item (by simp [hpending, hitem])
  successors_kept source hsource next hnext := by
    have hkept := h.successors_kept source hsource next hnext
    simpa [hpending] using hkept
  entry_kept := by simpa [hpending] using h.entry_kept

theorem open_pushed (entered : List ℕ) (node : ℕ) (pending : List (ℕ × Bool)) :
    (pushed successors entered node pending).filterMap
        (fun item ↦ if item.2 then some item.1 else none) =
      node :: pending.filterMap fun item ↦ if item.2 then some item.1 else none := by
  simp [pushed, filterMap_append, filterMap_map]

theorem mem_pushed :
    item ∈ pushed successors entered node pending ↔
      (item.1 ∈ successors node ∧ item.1 ∉ entered ∧ item.2 = false) ∨ item = (node, true) ∨
        item ∈ pending := by
  obtain ⟨next, marker⟩ := item
  simp [pushed]
  tauto

theorem Search.Sound.enter
    (h : search.Sound successors entry) (hpending : search.pending = (node, false) :: pending)
    (hentered : node ∉ search.entered) (peak : ℕ) :
    Search.Sound successors entry
      { search with
        pending := pushed successors (node :: search.entered) node pending
        entered := node :: search.entered
        peak } where
  entered_nodup := nodup_cons.2 ⟨hentered, h.entered_nodup⟩
  entered_perm := by
    have hperm := h.entered_perm
    simp only [Search.open, hpending] at hperm
    simpa [Search.open, open_pushed] using hperm
  entered_reachable := by
    have hnode : Reachable successors entry node :=
      h.pending_reachable (node, false) (by simp [hpending])
    simpa using ⟨hnode, h.entered_reachable⟩
  pending_reachable item hitem := by
    have hnode : Reachable successors entry node :=
      h.pending_reachable (node, false) (by simp [hpending])
    rcases mem_pushed.1 hitem with ⟨hnext, -⟩ | rfl | hitem
    · exact hnode.tail hnext
    · exact hnode
    · exact h.pending_reachable item (by simp [hpending, hitem])
  successors_kept source hsource next hnext := by
    rcases mem_cons.1 hsource with rfl | hsource
    · by_cases hknown : next ∈ source :: search.entered
      · exact .inl hknown
      · exact .inr (mem_pushed.2 (.inl ⟨hnext, hknown, rfl⟩))
    · exact (kept_of_pending hpending (h.successors_kept source hsource next hnext)).imp_right
        fun hkept ↦ mem_pushed.2 (.inr (.inr hkept))
  entry_kept := (kept_of_pending hpending h.entry_kept).imp_right
    fun hkept ↦ mem_pushed.2 (.inr (.inr hkept))

theorem Search.Sound.step (h : search.Sound successors entry) :
    (search.step successors).Sound successors entry := by
  unfold Search.step
  split
  · exact h
  · rename_i node pending hpending
    exact h.leave hpending
  · rename_i node pending hpending
    split
    · rename_i hentered
      exact h.skip hpending (contains_iff_mem.1 hentered)
    · rename_i hentered
      exact h.enter hpending (fun hmem ↦ hentered (contains_iff_mem.2 hmem)) _

/-- What holds at the start and is kept by every step holds after any number of steps. -/
theorem Search.run_invariant {invariant : Search → Prop}
    (hstep : ∀ search, invariant search → invariant (search.step successors)) (fuel : ℕ)
    (h : invariant search) : invariant (search.run successors fuel) := by
  induction fuel generalizing search with
  | zero => exact h
  | succ fuel ih => exact ih (hstep search h)

/-- Steps that are certainly enough to empty the stack from here. -/
def Search.potential (successors : ℕ → List ℕ) (nodes : ℕ) (search : Search) : ℕ :=
  search.pending.length +
    ∑ node ∈ (Finset.range nodes).filter (· ∉ search.entered), (1 + (successors node).length)

theorem Search.potential_start (successors : ℕ → List ℕ) (nodes entry : ℕ) :
    (Search.start entry).potential successors nodes = searchFuel successors nodes := by
  simp only [Search.potential, Search.start, length_singleton, not_mem_nil,
    not_false_eq_true, Finset.filter_true, searchFuel]
  rfl

theorem length_pushed_le (entered : List ℕ) (node : ℕ) (pending : List (ℕ × Bool)) :
    (pushed successors entered node pending).length ≤
      (successors node).length + 1 + pending.length := by
  have hfilter := length_filter_le (fun next ↦ !entered.contains next) (successors node)
  simp only [pushed, length_append, length_map, length_cons]
  omega

variable {nodes : ℕ}

/-- A graph whose nodes are numbered below a bound. -/
structure Bounded (successors : ℕ → List ℕ) (entry nodes : ℕ) : Prop where
  entry_lt : entry < nodes
  successors_lt : ∀ node < nodes, ∀ next ∈ successors node, next < nodes

theorem Bounded.reachable_lt (hbounded : Bounded successors entry nodes)
    (h : Reachable successors entry node) : node < nodes := by
  induction h with
  | refl => exact hbounded.entry_lt
  | tail _ hedge ih => exact hbounded.successors_lt _ ih _ hedge

theorem Search.potential_step_lt (hbounded : Bounded successors entry nodes)
    (h : search.Sound successors entry) (hpending : search.pending ≠ []) :
    (search.step successors).potential successors nodes < search.potential successors nodes := by
  unfold Search.step
  split
  · contradiction
  · rename_i node pending heq
    simp [Search.potential, heq]
  · rename_i node pending heq
    split
    · simp [Search.potential, heq]
    · rename_i hentered
      have hnode : node < nodes :=
        hbounded.reachable_lt (h.pending_reachable (node, false) (by simp [heq]))
      have hmem : node ∈ (Finset.range nodes).filter (· ∉ search.entered) := by
        simpa [hnode] using hentered
      have hfilter : (Finset.range nodes).filter (· ∉ node :: search.entered) =
          ((Finset.range nodes).filter (· ∉ search.entered)).erase node := by
        ext other
        simp
        tauto
      have hsum := Finset.add_sum_erase _ (fun node ↦ 1 + (successors node).length) hmem
      have hlength := @length_pushed_le successors (node :: search.entered) node pending
      simp only [Search.potential, hfilter, heq, length_cons]
      omega

theorem Search.run_finished (h : search.pending = []) (fuel : ℕ) :
    search.run successors fuel = search := by
  induction fuel with
  | zero => rfl
  | succ fuel ih =>
    have hstep : search.step successors = search := by
      unfold Search.step
      rw [h]
    rw [Search.run, hstep, ih]

theorem Search.run_pending (hbounded : Bounded successors entry nodes) (fuel : ℕ)
    (h : search.Sound successors entry) (hfuel : search.potential successors nodes ≤ fuel) :
    (search.run successors fuel).pending = [] := by
  induction fuel generalizing search with
  | zero =>
    have hzero : search.pending.length ≤ 0 := (Nat.le_add_right _ _).trans hfuel
    exact length_eq_zero_iff.1 (Nat.le_zero.1 hzero)
  | succ fuel ih =>
    by_cases hpending : search.pending = []
    · rw [Search.run_finished hpending, hpending]
    · have hlt := Search.potential_step_lt hbounded h hpending
      exact ih h.step (by omega)

/-- The entry is at the bottom of the stack until it is left last. -/
def Search.Rooted (entry : ℕ) (search : Search) : Prop :=
  search = .start entry ∨ (∃ above, search.pending = above ++ [(entry, true)]) ∨
    (search.pending = [] ∧ ∃ rest, search.order = entry :: rest)

theorem Search.Rooted.step (h : search.Rooted entry) : (search.step successors).Rooted entry := by
  rcases h with rfl | ⟨above, habove⟩ | ⟨hpending, hrest⟩
  · exact .inr (.inl ⟨_, rfl⟩)
  · cases above with
    | nil =>
      rw [nil_append] at habove
      unfold Search.step
      rw [habove]
      exact .inr (.inr ⟨rfl, search.order, rfl⟩)
    | cons item above =>
      obtain ⟨node, marker⟩ := item
      rw [cons_append] at habove
      unfold Search.step
      rw [habove]
      cases marker with
      | true => exact .inr (.inl ⟨above, rfl⟩)
      | false =>
        simp only
        split
        · exact .inr (.inl ⟨above, rfl⟩)
        · refine .inr (.inl ⟨pushed successors (node :: search.entered) node above, ?_⟩)
          simp [pushed]
  · right
    right
    unfold Search.step
    rw [hpending]
    exact ⟨hpending, hrest⟩

/-- Each item of a stack is the entry, or is a successor of a node that is open below it. -/
def Supported (successors : ℕ → List ℕ) (entry : ℕ) : List (ℕ × Bool) → Prop
  | [] => True
  | item :: below =>
    (item.1 = entry ∨ ∃ parent, (parent, true) ∈ below ∧ item.1 ∈ successors parent) ∧
      Supported successors entry below

theorem supported_pushed (h : Supported successors entry ((node, false) :: pending)) :
    Supported successors entry (pushed successors entered node pending) := by
  have hbelow : Supported successors entry ((node, true) :: pending) := h
  unfold pushed
  generalize hnext : (successors node).filter _ = fresh
  have hfresh : ∀ next ∈ fresh, next ∈ successors node := by
    intro next hmem
    rw [← hnext] at hmem
    exact mem_of_mem_filter hmem
  clear hnext
  induction fresh with
  | nil => exact hbelow
  | cons next fresh ih =>
    refine ⟨.inr ⟨node, by simp, hfresh next (by simp)⟩, ih fun other hother ↦ ?_⟩
    exact hfresh other (by simp [hother])

/-- Every node but the entry has a predecessor before it in the order, or still open. -/
structure Search.Parented (successors : ℕ → List ℕ) (entry : ℕ) (search : Search) : Prop where
  pending : Supported successors entry search.pending
  order : ∀ before node after, search.order = before ++ node :: after →
    node = entry ∨
      ∃ parent, node ∈ successors parent ∧ (parent ∈ before ∨ (parent, true) ∈ search.pending)

theorem Search.Parented.step (h : search.Parented successors entry) :
    (search.step successors).Parented successors entry := by
  have hsupported := h.pending
  unfold Search.step
  split
  · exact h
  · rename_i node pending hpending
    rw [hpending] at hsupported
    refine ⟨hsupported.2, fun before other after heq ↦ ?_⟩
    cases before with
    | nil =>
      obtain ⟨rfl, -⟩ := List.cons.inj heq
      rcases hsupported.1 with hentry | ⟨parent, hparent, hedge⟩
      · exact .inl hentry
      · exact .inr ⟨parent, hedge, .inr hparent⟩
    | cons first before =>
      obtain ⟨rfl, hsplit⟩ := List.cons.inj heq
      rcases h.order before other after hsplit with hentry | ⟨parent, hedge, hparent | hparent⟩
      · exact .inl hentry
      · exact .inr ⟨parent, hedge, .inl (mem_cons_of_mem _ hparent)⟩
      · rw [hpending, mem_cons] at hparent
        rcases hparent with hnode | hparent
        · obtain ⟨rfl, -⟩ := Prod.mk.inj hnode
          exact .inr ⟨parent, hedge, .inl (mem_cons_self ..)⟩
        · exact .inr ⟨parent, hedge, .inr hparent⟩
  · rename_i node pending hpending
    rw [hpending] at hsupported
    have hmarker {parent : ℕ} (hparent : (parent, true) ∈ search.pending) :
        (parent, true) ∈ pending := by
      simpa [hpending] using hparent
    split
    · refine ⟨hsupported.2, fun before other after heq ↦ ?_⟩
      rcases h.order before other after heq with hentry | ⟨parent, hedge, hparent | hparent⟩
      · exact .inl hentry
      · exact .inr ⟨parent, hedge, .inl hparent⟩
      · exact .inr ⟨parent, hedge, .inr (hmarker hparent)⟩
    · refine ⟨supported_pushed hsupported, fun before other after heq ↦ ?_⟩
      rcases h.order before other after heq with hentry | ⟨parent, hedge, hparent | hparent⟩
      · exact .inl hentry
      · exact .inr ⟨parent, hedge, .inl hparent⟩
      · exact .inr ⟨parent, hedge, .inr (mem_pushed.2 (.inr (.inr (hmarker hparent))))⟩

theorem depthFirst_sound (successors : ℕ → List ℕ) (nodes entry : ℕ) :
    (depthFirst successors nodes entry).Sound successors entry :=
  Search.run_invariant (fun _ h ↦ h.step) _ (Search.sound_start successors entry)

section Result

variable (hbounded : Bounded successors entry nodes)
include hbounded

theorem depthFirst_pending : (depthFirst successors nodes entry).pending = [] :=
  Search.run_pending hbounded _ (Search.sound_start successors entry)
    (Search.potential_start successors nodes entry).le

theorem depthFirst_order_perm :
    (depthFirst successors nodes entry).order.Perm (depthFirst successors nodes entry).entered := by
  have hperm := (depthFirst_sound successors nodes entry).entered_perm
  rwa [Search.open, depthFirst_pending hbounded] at hperm

theorem depthFirst_order_nodup : (depthFirst successors nodes entry).order.Nodup :=
  (depthFirst_order_perm hbounded).nodup_iff.2 (depthFirst_sound successors nodes entry).entered_nodup

/-- The search enters exactly the reachable nodes. -/
theorem mem_depthFirst_entered :
    node ∈ (depthFirst successors nodes entry).entered ↔ Reachable successors entry node := by
  have hsound := depthFirst_sound successors nodes entry
  have hpending := depthFirst_pending hbounded
  refine ⟨hsound.entered_reachable node, fun hreachable ↦ ?_⟩
  induction hreachable with
  | refl => simpa [hpending] using hsound.entry_kept
  | tail _ hedge ih => simpa [hpending] using hsound.successors_kept _ ih _ hedge

theorem mem_depthFirst_order :
    node ∈ (depthFirst successors nodes entry).order ↔ Reachable successors entry node :=
  (depthFirst_order_perm hbounded).mem_iff.trans (mem_depthFirst_entered hbounded)

theorem depthFirst_order_head :
    ∃ rest, (depthFirst successors nodes entry).order = entry :: rest := by
  have hrooted : (depthFirst successors nodes entry).Rooted entry :=
    Search.run_invariant (fun _ h ↦ h.step) _ (.inl rfl)
  have hpending := depthFirst_pending hbounded
  rcases hrooted with hstart | ⟨above, habove⟩ | ⟨-, hrest⟩
  · rw [hstart] at hpending
    cases hpending
  · simp [hpending] at habove
  · exact hrest

/-- Every node of the order but the entry has a predecessor before it. -/
theorem depthFirst_order_parent {before after : List ℕ} {node : ℕ}
    (hsplit : (depthFirst successors nodes entry).order = before ++ node :: after)
    (hnode : node ≠ entry) : ∃ parent ∈ before, node ∈ successors parent := by
  have hparented : (depthFirst successors nodes entry).Parented successors entry := by
    refine Search.run_invariant (fun _ h ↦ h.step) _ ⟨⟨.inl rfl, trivial⟩, ?_⟩
    intro before node after heq
    simp [Search.start] at heq
  rcases hparented.order before node after hsplit with hentry | ⟨parent, hedge, hparent | hparent⟩
  · exact absurd hentry hnode
  · exact ⟨parent, hparent, hedge⟩
  · rw [depthFirst_pending hbounded] at hparent
    cases hparent

end Result

end Invariant

end Wrela.Graph
