import Wrela.FlowOpt.CompactionExact
import Wrela.Graph.Search

/-!
# Removing unreachable blocks

Blocks are marked from the entry along the edges of the terminators, with a stack of marked blocks
whose edges were not followed yet.  The blocks that stay unmarked are recorded as removed, and the
function is compacted to the marked ones.
-/

namespace Wrela.FlowOpt

open List Wrela.Source Wrela.Flow Wrela.Graph

/-- The targets of `for_each_edge`. -/
def edgeTargets : Terminator → List BlockId
  | .jump target _ => [target]
  | .branch _ thenBlock _ elseBlock _ => [thenBlock, elseBlock]
  | .switch _ cases default _ => cases.map SwitchCase.target ++ [default]
  | .suspend _ _ resume => [resume]
  | .return _ | .tailCall _ _ | .trap _ _ | .unreachable => []

/-- The marks, and the stack of marked blocks, the one pushed last at its end. -/
structure Marking where
  reachable : List Bool
  pending : List ℕ

/-- Follow the edges of a block: what is not marked yet is marked and pushed. -/
def followEdges (function : FlowFunction) (marking : Marking) (block : ℕ) :
    Except OptimizeError Marking :=
  match function.blocks[block]? with
  | none => proofViolation unreachablePass "encountered an unknown block record"
  | some record =>
    let targets := (edgeTargets record.terminator).map Id.index
    if targets.all (· < marking.reachable.length) then
      let marks := targets.foldl discover (marking.reachable, marking.pending)
      .ok ⟨marks.1, marks.2⟩
    else proofViolation unreachablePass "encountered an unknown block edge"

/-- So many turns of the loop, each of which pops a block. -/
def markTurns (function : FlowFunction) : ℕ → Marking → Except OptimizeError Marking
  | 0, marking => .ok marking
  | turns + 1, marking =>
    match marking.pending.getLast? with
    | none => .ok marking
    | some block => do
      let next ← followEdges function ⟨marking.reachable, marking.pending.dropLast⟩ block
      markTurns function turns next

/-- The entry is marked first. -/
def markEntry (function : FlowFunction) : Marking :=
  ⟨(List.replicate function.blocks.length false).set function.entry.index true,
    [function.entry.index]⟩

/-- Each block is popped at most once. -/
def reachableBlocks (function : FlowFunction) (limits : OptimizationLimits) :
    Except OptimizeError (List Bool) := do
  reserveItems function.blocks.length "optimizer temporary blocks" limits.blocks
  ensure (function.entry.index < function.blocks.length)
    (.proofViolation unreachablePass "function entry is an unknown block")
  let marking ← markTurns function function.blocks.length (markEntry function)
  return marking.reachable

/-- Record the blocks that are not marked, in their order. -/
def recordUnreachable (function : FlowFunction) (limits : OptimizationLimits)
    (reachable : List Bool) (sink : DecisionSink) : Except OptimizeError DecisionSink :=
  reachable.zipIdx.foldlM (fun sink (mark, index) ↦
    if mark then .ok sink
    else do
      ensure (index < 2 ^ 32) (.resourceLimit "FlowWir blocks" limits.blocks)
      sink.push limits unreachablePass (blockSubject function.id ⟨.ofNat index⟩) .removed
        "removed a block with no path from the function entry after control-flow simplification"
        []) sink

/-- What the pass leaves of a function, the decisions it takes, and whether it changed. -/
def eliminateInFunction (limits : OptimizationLimits) (function : FlowFunction)
    (sink : DecisionSink) : Except OptimizeError (FlowFunction × DecisionSink × Bool) := do
  let reachable ← reachableBlocks function limits
  if reachable.all (·) then return (function, sink, false)
  else
    let sink ← recordUnreachable function limits reachable sink
    let function ← compactFunction function reachable none limits
    return (function, sink, true)

def eliminateFunctions (limits : OptimizationLimits) :
    List FlowFunction → DecisionSink →
      Except OptimizeError (List FlowFunction × DecisionSink × Bool)
  | [], sink => .ok ([], sink, false)
  | function :: functions, sink => do
    let (function, sink, changed) ← eliminateInFunction limits function sink
    let (functions, sink, others) ← eliminateFunctions limits functions sink
    return (function :: functions, sink, changed || others)

def eliminateUnreachableBlocks (limits : OptimizationLimits) (wir : FlowWir)
    (sink : DecisionSink) : Except OptimizeError (FlowWir × DecisionSink × Bool) := do
  let (functions, sink, changed) ← eliminateFunctions limits wir.functions sink
  return ({ wir with functions }, sink, changed)

end Wrela.FlowOpt

/-!
## Just the unreachable blocks are removed

The marks are what can be reached from the entry along the edges of the terminators, the stack never
holds more blocks than the function has, and what the pass leaves of a function is its marked blocks
with all their instructions.
-/

namespace Wrela.FlowOpt

open List Wrela.Source Wrela.Flow Wrela.Graph Wrela.Checked Wrela.Ranking

variable {function : FlowFunction} {limits : OptimizationLimits}

/-- The targets of the edges of a block. -/
def blockTargets (function : FlowFunction) (block : ℕ) : List ℕ :=
  match function.blocks[block]? with
  | none => []
  | some record => record.terminator.edges.map fun edge ↦ edge.1.index

/-- No kind of edge is missed. -/
theorem edgeTargets_eq (terminator : Terminator) :
    edgeTargets terminator = terminator.edges.map Prod.fst := by
  cases terminator <;> simp [edgeTargets, Terminator.edges]

/-- What every turn keeps. -/
structure Marked (function : FlowFunction) (marking : Marking) : Prop where
  explored : Explored (blockTargets function) function.entry.index function.blocks.length
    marking.reachable marking.pending
  bounded : exploreCost marking.reachable marking.pending ≤ function.blocks.length

theorem Marked.pending_le (h : Marked function marking) :
    marking.pending.length ≤ function.blocks.length :=
  (Nat.le_add_left _ _).trans h.bounded

theorem marked_entry (hentry : function.entry.index < function.blocks.length) :
    Marked function (markEntry function) :=
  ⟨.start hentry, (exploreCost_start hentry).le⟩

/-- Following the edges of a block marks and pushes its targets. -/
theorem followEdges_eq_ok {marking next : Marking} {block : ℕ}
    (h : followEdges function marking block = .ok next) :
    (∀ target ∈ blockTargets function block, target < marking.reachable.length) ∧
      next.reachable = ((blockTargets function block).foldl discover
        (marking.reachable, marking.pending)).1 ∧
      next.pending = ((blockTargets function block).foldl discover
        (marking.reachable, marking.pending)).2 := by
  cases hrecord : function.blocks[block]? with
  | none =>
    rw [followEdges, hrecord] at h
    cases h
  | some record =>
    have htargets : blockTargets function block = (edgeTargets record.terminator).map Id.index := by
      rw [blockTargets, hrecord, edgeTargets_eq, map_map]
      rfl
    rw [followEdges, hrecord] at h
    rw [htargets]
    dsimp only at h
    split at h
    · rename_i hall
      cases h
      simp only [all_eq_true, decide_eq_true_eq] at hall
      exact ⟨hall, rfl, rfl⟩
    · cases h

/-- One turn keeps what is known of the marks, and takes one block off the work. -/
theorem Marked.turn {reachable : List Bool} {pending : List ℕ} {block : ℕ} {next : Marking}
    (h : Marked function ⟨reachable, pending ++ [block]⟩)
    (hnext : followEdges function ⟨reachable, pending⟩ block = .ok next) :
    Marked function next ∧
      exploreCost next.reachable next.pending < exploreCost reachable (pending ++ [block]) := by
  obtain ⟨hbound, hreachable, hpending⟩ := followEdges_eq_ok hnext
  dsimp only at hbound hreachable hpending
  have hexplored := h.explored.perm (perm_append_singleton block pending)
  have hlength := hexplored.length_eq
  have hstep := hexplored.step fun other hother ↦ hlength ▸ hbound other hother
  obtain ⟨-, -, -, hcost⟩ := foldl_discover (blockTargets function block) reachable pending hbound
  have hbounded := h.bounded
  simp only [exploreCost, length_append, length_singleton] at hcost hbounded ⊢
  rw [hreachable, hpending]
  refine ⟨⟨hreachable ▸ hpending ▸ hstep, ?_⟩, by omega⟩
  rw [hreachable, hpending, exploreCost]
  omega

theorem Marked.popped (h : Marked function marking) (hlast : marking.pending.getLast? = some block) :
    Marked function ⟨marking.reachable, marking.pending.dropLast ++ [block]⟩ := by
  rwa [dropLast_append_getLast? block hlast]

/-- However many turns were made, what is known of the marks holds. -/
theorem Marked.turns {turns : ℕ} {marking final : Marking} (h : Marked function marking)
    (hfinal : markTurns function turns marking = .ok final) : Marked function final := by
  induction turns generalizing marking with
  | zero =>
    cases hfinal
    exact h
  | succ turns ih =>
    rw [markTurns] at hfinal
    split at hfinal
    · cases hfinal
      exact h
    · rename_i block hlast
      obtain ⟨next, hnext, hrest⟩ := bind_eq_ok.1 hfinal
      exact ih ((h.popped hlast).turn hnext).1 hrest

/-- With a turn for every block the stack is emptied. -/
theorem Marked.turns_pending {turns : ℕ} {marking final : Marking} (h : Marked function marking)
    (hturns : exploreCost marking.reachable marking.pending ≤ turns)
    (hfinal : markTurns function turns marking = .ok final) : final.pending = [] := by
  induction turns generalizing marking with
  | zero =>
    cases hfinal
    exact eq_nil_of_length_eq_zero (by unfold exploreCost at hturns; omega)
  | succ turns ih =>
    rw [markTurns] at hfinal
    split at hfinal
    · rename_i hlast
      cases hfinal
      exact List.getLast?_eq_none_iff.1 hlast
    · rename_i block hlast
      obtain ⟨next, hnext, hrest⟩ := bind_eq_ok.1 hfinal
      obtain ⟨hmarked, hlt⟩ := (h.popped hlast).turn hnext
      rw [dropLast_append_getLast? block hlast] at hlt
      exact ih hmarked (by omega) hrest

theorem followEdges_total (hedges : ∀ block target, target ∈ blockTargets function block →
      target < function.blocks.length) (h : Marked function ⟨reachable, pending ++ [block]⟩) :
    ∃ next, followEdges function ⟨reachable, pending⟩ block = .ok next := by
  have hlength : reachable.length = function.blocks.length := h.explored.length_eq
  have hmark : reachable.getD block false = true :=
    h.explored.queued block (mem_append_right _ (mem_singleton_self block))
  have hlt : block < function.blocks.length := by
    by_contra hge
    rw [getD_eq_getElem?_getD, List.getElem?_eq_none (by omega)] at hmark
    cases hmark
  have htargets := hedges block
  rw [blockTargets, List.getElem?_eq_getElem hlt] at htargets
  have hall : ((edgeTargets function.blocks[block].terminator).map Id.index).all
      (· < reachable.length) = true := by
    rw [edgeTargets_eq, map_map, all_eq_true, hlength]
    exact fun target htarget ↦ decide_eq_true (htargets target htarget)
  rw [followEdges, List.getElem?_eq_getElem hlt]
  dsimp only
  rw [if_pos hall]
  exact ⟨_, rfl⟩

/-- The loop only stops early at an edge to a block that does not exist. -/
theorem Marked.turns_total (hedges : ∀ block target, target ∈ blockTargets function block →
      target < function.blocks.length) {turns : ℕ} {marking : Marking}
    (h : Marked function marking) : ∃ final, markTurns function turns marking = .ok final := by
  induction turns generalizing marking with
  | zero => exact ⟨marking, rfl⟩
  | succ turns ih =>
    rw [markTurns]
    split
    · exact ⟨marking, rfl⟩
    · rename_i block hlast
      obtain ⟨next, hnext⟩ := followEdges_total hedges (h.popped hlast)
      rw [hnext, ok_bind]
      exact ih ((h.popped hlast).turn hnext).1

theorem reachableBlocks_eq_ok :
    reachableBlocks function limits = .ok reachable ↔
      function.blocks.length ≤ limits.blocks.toNat ∧
        function.entry.index < function.blocks.length ∧
        ∃ marking, markTurns function function.blocks.length (markEntry function) = .ok marking ∧
          marking.reachable = reachable := by
  rw [reachableBlocks, unit_bind_eq_ok, reserveItems_eq_ok, unit_bind_eq_ok, ensure_eq_ok,
    decide_eq_true_eq]
  simp only [bind_eq_ok, pure, Except.pure, Except.ok.injEq]

/-- A block is marked when there is a path of edges from the entry to it. -/
theorem reachableBlocks_iff {reachable : List Bool}
    (h : reachableBlocks function limits = .ok reachable) :
    reachable.length = function.blocks.length ∧ ∀ block, reachable.getD block false = true ↔
      Relation.ReflTransGen (Edge (blockTargets function)) function.entry.index block := by
  obtain ⟨-, hentry, marking, hmarking, rfl⟩ := reachableBlocks_eq_ok.1 h
  have hmarked := (marked_entry hentry).turns hmarking
  have hempty := (marked_entry hentry).turns_pending (exploreCost_start hentry).le hmarking
  have hexplored := hmarked.explored
  rw [hempty] at hexplored
  exact ⟨hexplored.length_eq, hexplored.marked_iff⟩

theorem retainedInstructions_none (block : Block) :
    retainedInstructions none block = block.instructions :=
  filter_eq_self.2 fun _ _ ↦ rfl

theorem BoundedStringPart.mapValues_id (part : BoundedStringPart) : part.mapValues id = part := by
  cases part <;> rfl

theorem FlowOperation.mapValues_id (operation : FlowOperation) :
    operation.mapValues id = operation := by
  cases operation
  case formatBoundedString ty parts =>
    have hparts : parts.map (BoundedStringPart.mapValues id) = parts :=
      (map_congr_left fun part _ ↦ BoundedStringPart.mapValues_id part).trans (map_id _)
    rw [FlowOperation.mapValues, hparts]
  all_goals simp [FlowOperation.mapValues]

theorem Terminator.rename_id (terminator : Terminator) : terminator.rename id id = terminator := by
  cases terminator <;> simp [Terminator.rename]

/-- A block stands for itself when nothing is renamed. -/
theorem blockImage_id (block : Block) : BlockImage id id none block block where
  parameters := (map_id _).symm
  instructions := by
    rw [retainedInstructions_none, List.forall₂_same]
    intro instruction _
    rw [Instruction.image, FlowOperation.mapValues_id, map_id]
  terminator := (Terminator.rename_id _).symm
  source := rfl

/-- What is left of a function is its marked blocks, each with all its instructions. -/
def KeepsReachable (limits : OptimizationLimits) (function compacted : FlowFunction) : Prop :=
  ∃ reachable renameValue renameBlock, reachableBlocks function limits = .ok reachable ∧
    List.Forall₂ (fun block image ↦
      image.parameters = block.1.parameters.map renameValue ∧
        List.Forall₂ (fun instruction image ↦
          image = Instruction.image renameValue instruction image.id)
          block.1.instructions image.instructions ∧
        image.terminator = block.1.terminator.rename renameValue renameBlock)
      (kept reachable function.blocks) compacted.blocks

theorem eliminateInFunction_keeps
    (h : eliminateInFunction limits function sink = .ok (compacted, sink', changed)) :
    KeepsReachable limits function compacted := by
  obtain ⟨reachable, hreachable, h⟩ := bind_eq_ok.1 h
  have himages : ∃ renameValue renameBlock, List.Forall₂
      (fun block image ↦ BlockImage renameValue renameBlock none block.1 image)
      (kept reachable function.blocks) compacted.blocks := by
    split at h
    · rename_i hall
      cases h
      refine ⟨id, id, ?_⟩
      have hsame : List.Forall₂ (fun block image ↦ BlockImage id id none block.1 image)
          function.blocks.zipIdx (function.blocks.zipIdx.map Prod.fst) := by
        rw [List.forall₂_map_right_iff, List.forall₂_same]
        exact fun block _ ↦ blockImage_id block.1
      rw [kept_of_all (reachableBlocks_iff hreachable).1 hall]
      rwa [zipIdx_map_fst] at hsame
    · obtain ⟨_, -, h⟩ := bind_eq_ok.1 h
      obtain ⟨image, himage, h⟩ := bind_eq_ok.1 h
      cases h
      obtain ⟨renameValue, renameBlock, hcompaction⟩ := compaction_of_compactFunction himage
      exact ⟨renameValue, renameBlock, hcompaction.blocks.imp fun {_ _} h ↦ h.1⟩
  obtain ⟨renameValue, renameBlock, himages⟩ := himages
  refine ⟨reachable, renameValue, renameBlock, hreachable, himages.imp fun {block image} h ↦ ?_⟩
  exact ⟨h.parameters, retainedInstructions_none block.1 ▸ h.instructions, h.terminator⟩

theorem eliminateFunctions_keep
    (h : eliminateFunctions limits functions sink = .ok (compacted, sink', changed)) :
    List.Forall₂ (KeepsReachable limits) functions compacted := by
  induction functions generalizing sink compacted sink' changed with
  | nil =>
    cases h
    exact .nil
  | cons function functions ih =>
    obtain ⟨⟨first, middle, firstChanged⟩, hfirst, h⟩ := bind_eq_ok.1 h
    obtain ⟨⟨rest, last, restChanged⟩, hrest, h⟩ := bind_eq_ok.1 h
    cases h
    exact .cons (eliminateInFunction_keeps hfirst) (ih hrest)

/-- The marks are exact, the stack never holds more blocks than there are, and the pass leaves just
the marked blocks, with all their instructions. -/
theorem unreachable_elimination_exact (limits : OptimizationLimits) :
    (∀ function : FlowFunction, function.blocks.length ≤ limits.blocks.toNat →
      function.entry.index < function.blocks.length →
      (∀ block ∈ function.blocks, ∀ edge ∈ block.terminator.edges,
        edge.1.index < function.blocks.length) →
      ∃ reachable, reachableBlocks function limits = .ok reachable) ∧
    (∀ function reachable, reachableBlocks function limits = .ok reachable →
      reachable.length = function.blocks.length ∧
        (∀ block, reachable.getD block false = true ↔
          Relation.ReflTransGen (Edge (blockTargets function)) function.entry.index block) ∧
        ∀ turns marking, markTurns function turns (markEntry function) = .ok marking →
          marking.pending.length ≤ function.blocks.length) ∧
    ∀ wir sink output sink' changed,
      eliminateUnreachableBlocks limits wir sink = .ok (output, sink', changed) →
        List.Forall₂ (KeepsReachable limits) wir.functions output.functions := by
  refine ⟨fun function hlimit hentry hedges ↦ ?_, fun function reachable h ↦ ?_, ?_⟩
  · have htargets : ∀ block target, target ∈ blockTargets function block →
        target < function.blocks.length := by
      intro block target htarget
      unfold blockTargets at htarget
      split at htarget
      · exact absurd htarget not_mem_nil
      · rename_i record hrecord
        obtain ⟨edge, hedge, rfl⟩ := mem_map.1 htarget
        exact hedges record (mem_of_getElem? hrecord) edge hedge
    obtain ⟨marking, hmarking⟩ :=
      @Marked.turns_total function htargets function.blocks.length _ (marked_entry hentry)
    exact ⟨_, reachableBlocks_eq_ok.2 ⟨hlimit, hentry, marking, hmarking, rfl⟩⟩
  · obtain ⟨hlength, hmarks⟩ := reachableBlocks_iff h
    obtain ⟨-, hentry, -⟩ := reachableBlocks_eq_ok.1 h
    exact ⟨hlength, hmarks, fun turns marking hmarking ↦
      ((marked_entry hentry).turns hmarking).pending_le⟩
  · intro wir sink output sink' changed h
    obtain ⟨⟨functions, last, some⟩, hfunctions, h⟩ := bind_eq_ok.1 h
    cases h
    exact eliminateFunctions_keep hfunctions

theorem unreachable_elimination_exact_deadDetour :
    ∃ reachable, reachableBlocks deadDetour .standard = .ok reachable ∧
      ∀ block, reachable.getD block false = true ↔
        Relation.ReflTransGen (Edge (blockTargets deadDetour)) 0 block := by
  obtain ⟨htotal, hexact, -⟩ := unreachable_elimination_exact .standard
  obtain ⟨reachable, hreachable⟩ := htotal deadDetour (by decide) (by decide) (by decide)
  exact ⟨reachable, hreachable, (hexact deadDetour reachable hreachable).2.1⟩

section Images

variable {reachable : List Bool} {renameValue : ValueId → ValueId} {renameBlock : BlockId → BlockId}
  {block : Block} {id : BlockId} {compacted : FlowFunction}
  (h : Compaction function reachable none renameValue renameBlock compacted)
include h

theorem Compaction.image_at (hlt : index < compacted.blocks.length) :
    ∃ block position, (kept reachable function.blocks)[index]? = some (block, position) ∧
      compacted.blocks[index].terminator = block.terminator.rename renameValue renameBlock ∧
      ∀ id : BlockId, id.index = position → (renameBlock id).index = index := by
  obtain ⟨hlength, hpairs⟩ := forall₂_iff_get.1 h.blocks
  obtain ⟨himage, hid⟩ := hpairs index (hlength ▸ hlt) hlt
  refine ⟨_, _, List.getElem?_eq_getElem (hlength ▸ hlt), himage.terminator, fun id hposition ↦ ?_⟩
  rw [← hid id hposition]
  have hdense := congrArg (·[index]?) h.blocksDense
  simpa [hlt] using hdense

/-- The edges of a kept block lead to the new numbers of their targets. -/
theorem Compaction.blockTargets_eq (hkept : reachable.getD id.index false = true)
    (hblock : function.blocks[id.index]? = some block) :
    (renameBlock id).index < compacted.blocks.length ∧
      blockTargets compacted (renameBlock id).index =
        block.terminator.edges.map fun edge ↦ (renameBlock edge.1).index := by
  have hmem : (block, id.index) ∈ kept reachable function.blocks :=
    mem_filter.2 ⟨mem_zipIdx_iff_getElem?.2 hblock, hkept⟩
  obtain ⟨index, hget⟩ := mem_iff_getElem?.1 hmem
  have hlt : index < compacted.blocks.length :=
    h.blocks.length_eq ▸ (List.getElem?_eq_some_iff.1 hget).1
  obtain ⟨_, _, hget', hterminator, hindex⟩ := h.image_at hlt
  cases hget.symm.trans hget'
  rw [hindex id rfl, blockTargets, List.getElem?_eq_getElem hlt]
  dsimp only
  rw [hterminator, Terminator.edges_rename, map_map]
  exact ⟨hlt, rfl⟩

/-- A path of kept blocks leads to the new number of its end. -/
theorem Compaction.path_image (hmarks : ∀ block, reachable.getD block false = true ↔
      Relation.ReflTransGen (Edge (blockTargets function)) function.entry.index block)
    (hpath : Relation.ReflTransGen (Edge (blockTargets function)) function.entry.index target) :
    ∃ id : BlockId, id.index = target ∧ Relation.ReflTransGen (Edge (blockTargets compacted))
      compacted.entry.index (renameBlock id).index := by
  induction hpath with
  | refl => exact ⟨function.entry, rfl, h.entry ▸ .refl⟩
  | tail hpath hedge ih =>
    obtain ⟨id, rfl, hpath'⟩ := ih
    rw [Edge, blockTargets] at hedge
    split at hedge
    · cases hedge
    · rename_i record hrecord
      obtain ⟨edge, hin, rfl⟩ := mem_map.1 hedge
      refine ⟨edge.1, rfl, hpath'.tail ?_⟩
      rw [Edge, (h.blockTargets_eq ((hmarks _).2 hpath) hrecord).2]
      exact mem_map.2 ⟨edge, hin, rfl⟩

end Images

/-- What is left of a function after the pass can all be reached. -/
theorem eliminateInFunction_again
    (h : eliminateInFunction limits function sink = .ok (compacted, sink', changed))
    (again : DecisionSink) :
    eliminateInFunction limits compacted again = .ok (compacted, again, false) := by
  obtain ⟨reachable, hreachable, h⟩ := bind_eq_ok.1 h
  split at h
  · rename_i hall
    cases h
    rw [eliminateInFunction, hreachable, ok_bind, if_pos hall]
    rfl
  obtain ⟨_, -, h⟩ := bind_eq_ok.1 h
  obtain ⟨image, himage, h⟩ := bind_eq_ok.1 h
  cases h
  obtain ⟨hlength, hmarks⟩ := reachableBlocks_iff hreachable
  obtain ⟨hlimit, -⟩ := reachableBlocks_eq_ok.1 hreachable
  obtain ⟨hclosed, -⟩ := closed_of_compactFunction himage
  obtain ⟨renameValue, renameBlock, hcompaction⟩ := compaction_of_compactFunction himage
  have hkept {id : BlockId} (hmark : reachable.getD id.index false = true) :
      (renameBlock id).index < compacted.blocks.length := by
    have hlt : id.index < function.blocks.length := by
      by_contra hge
      rw [getD_eq_getElem?_getD, List.getElem?_eq_none (by omega)] at hmark
      cases hmark
    exact (hcompaction.blockTargets_eq hmark (List.getElem?_eq_getElem hlt)).1
  have hentry : compacted.entry.index < compacted.blocks.length :=
    hcompaction.entry ▸ hkept hclosed.entry
  have htargets : ∀ block target, target ∈ blockTargets compacted block →
      target < compacted.blocks.length := by
    intro index target htarget
    rw [blockTargets] at htarget
    split at htarget
    · cases htarget
    · rename_i record hrecord
      obtain ⟨hlt, rfl⟩ := List.getElem?_eq_some_iff.1 hrecord
      obtain ⟨block, position, hget, hterminator, -⟩ := hcompaction.image_at hlt
      rw [hterminator, Terminator.edges_rename, map_map] at htarget
      obtain ⟨edge, hedge, rfl⟩ := mem_map.1 htarget
      exact hkept (hclosed.edges _ (mem_of_getElem? hget) edge hedge)
  obtain ⟨marking, hmarking⟩ :=
    @Marked.turns_total compacted htargets compacted.blocks.length _ (marked_entry hentry)
  have hlimit' : compacted.blocks.length ≤ limits.blocks.toNat := by
    rw [← hcompaction.blocks.length_eq]
    exact (length_filter_le _ _).trans (length_zipIdx.trans_le hlimit)
  have hagain := reachableBlocks_eq_ok.2 ⟨hlimit', hentry, marking, hmarking, rfl⟩
  obtain ⟨hlength', hmarks'⟩ := reachableBlocks_iff hagain
  have hall : marking.reachable.all (·) = true := by
    rw [all_eq_true]
    intro mark hmem
    obtain ⟨index, hindex, rfl⟩ := getElem_of_mem hmem
    obtain ⟨block, position, hget, -, hnumber⟩ := hcompaction.image_at (hlength' ▸ hindex)
    obtain ⟨-, hkeep⟩ := mem_filter.1 (mem_of_getElem? hget)
    obtain ⟨id, rfl, hpath⟩ := hcompaction.path_image hmarks ((hmarks position).1 hkeep)
    rw [hnumber id rfl] at hpath
    simpa [hindex] using (hmarks' index).2 hpath
  rw [eliminateInFunction, hagain, ok_bind, if_pos hall]
  rfl

theorem eliminateFunctions_again
    (h : eliminateFunctions limits functions sink = .ok (compacted, sink', changed))
    (again : DecisionSink) :
    eliminateFunctions limits compacted again = .ok (compacted, again, false) := by
  induction functions generalizing sink compacted sink' changed with
  | nil =>
    cases h
    rfl
  | cons function functions ih =>
    obtain ⟨⟨first, middle, firstChanged⟩, hfirst, h⟩ := bind_eq_ok.1 h
    obtain ⟨⟨rest, last, restChanged⟩, hrest, h⟩ := bind_eq_ok.1 h
    cases h
    simp only [eliminateFunctions, eliminateInFunction_again hfirst, ih hrest, ok_bind]
    rfl

/-- **Removing unreachable blocks once is enough.** A second removal takes no decision and changes
nothing. -/
theorem eliminateUnreachableBlocks_idempotent
    (h : eliminateUnreachableBlocks limits wir sink = .ok (output, sink', changed))
    (again : DecisionSink) :
    eliminateUnreachableBlocks limits output again = .ok (output, again, false) := by
  obtain ⟨⟨functions, last, some⟩, hfunctions, h⟩ := bind_eq_ok.1 h
  cases h
  rw [eliminateUnreachableBlocks, eliminateFunctions_again hfunctions]
  rfl

theorem eliminateUnreachableBlocks_idempotent_deadDetour :
    let wir := { Validation.idleImage with functions := [deadDetour] }
    ∃ output sink, eliminateUnreachableBlocks .standard wir ⟨[], 0⟩ = .ok (output, sink, true) ∧
      eliminateUnreachableBlocks .standard output sink = .ok (output, sink, false) := by
  intro wir
  have hchanged : (eliminateUnreachableBlocks .standard wir ⟨[], 0⟩).map (·.2.2) = .ok true := by
    decide +kernel
  obtain ⟨⟨output, sink, changed⟩, hrun, rfl⟩ := map_eq_ok.1 hchanged
  exact ⟨output, sink, hrun, eliminateUnreachableBlocks_idempotent hrun sink⟩

end Wrela.FlowOpt
