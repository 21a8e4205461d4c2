import Wrela.FlowOpt.RetentionLaws
import Wrela.Validation.Ssa

/-!
# Folding constants twice

Once the constants of a validated module are folded, folding them again takes no decision: a turn
keeps the table that the instructions lead to, since every value is defined once.
-/

namespace Wrela.FlowOpt

open List Wrela.Source Wrela.Flow Wrela.Validation Wrela.Checked

variable {function image : FlowFunction} {types : List FlowType} {limits : OptimizationLimits}
  {folding folding' : Folding} {constants table : Constants} {instruction : Instruction}
  {instructions images : List Instruction} {result : ValueId}

/-- The table a function starts with. -/
def seeds (function : FlowFunction) (types : List FlowType) : Constants :=
  (functionInstructions function).foldl (seedImmediate function types)
    (.replicate function.values.length none)

/-- What an instruction is replaced with. -/
def replacement? (function : FlowFunction) (types : List FlowType) (constants : Constants)
    (instruction : Instruction) : Option (ValueId × Immediate × ScalarConstant) :=
  (foldInstruction? function types constants instruction).bind fun (result, ty, folded) ↦
    (constantFromImmediate folded ty types).map fun constant ↦ (result, folded, constant)

theorem results_of_typedResult {ty : TypeId}
    (h : typedResult function instruction = some (result, ty)) : instruction.results = [result] := by
  obtain ⟨_, hsingle, h⟩ := Option.bind_eq_some_iff.1 h
  obtain ⟨_, -, h⟩ := Option.map_eq_some_iff.1 h
  cases h
  unfold singleResult at hsingle
  split at hsingle
  · rename_i hresults
    cases hsingle
    exact hresults
  · cases hsingle

/-- A replaced instruction left the table alone; the one in its place sets its result. -/
theorem seedImmediate_of_replacement? {immediate : Immediate} {constant : ScalarConstant}
    (h : replacement? function types constants instruction = some (result, immediate, constant)) :
    (∀ table, seedImmediate function types table instruction = table) ∧
      instruction.results = [result] ∧ ∀ table,
        seedImmediate function types table { instruction with operation := .immediate immediate } =
          table.set result.index (some constant) := by
  obtain ⟨⟨value, ty, folded⟩, hfolded, h⟩ := Option.bind_eq_some_iff.1 h
  obtain ⟨known, hknown, h⟩ := Option.map_eq_some_iff.1 h
  cases h
  unfold foldInstruction? at hfolded
  split at hfolded
  · cases hfolded
  · rename_i hother
    obtain ⟨⟨_, _⟩, htyped, hfolded⟩ := Option.bind_eq_some_iff.1 hfolded
    obtain ⟨_, -, hfolded⟩ := Option.map_eq_some_iff.1 hfolded
    cases hfolded
    have hsame : typedResult function { instruction with operation := .immediate immediate } =
      some (result, ty) := htyped
    refine ⟨fun table ↦ ?_, results_of_typedResult htyped, fun table ↦ ?_⟩
    · unfold seedImmediate
      split
      · rename_i hoperation _
        exact absurd hoperation (hother _)
      · rfl
    · simp only [seedImmediate, hsame, hknown]

theorem seedImmediate_set {known : Option ScalarConstant} (hnew : result ∉ instruction.results) :
    seedImmediate function types (table.set result.index known) instruction =
      (seedImmediate function types table instruction).set result.index known := by
  unfold seedImmediate
  split
  · rename_i immediate value ty _ htyped
    cases constantFromImmediate immediate ty types with
    | none => rfl
    | some constant =>
      refine set_comm _ _ fun hindex ↦ hnew ?_
      rw [results_of_typedResult htyped, eq_of_index_eq hindex]
      exact mem_singleton_self _
  · rfl

/-- A value that no instruction defines can be set before them or after. -/
theorem foldl_seedImmediate_set {known : Option ScalarConstant}
    (hnew : result ∉ instructions.flatMap Instruction.results) :
    instructions.foldl (seedImmediate function types) (table.set result.index known) =
      (instructions.foldl (seedImmediate function types) table).set result.index known := by
  induction instructions generalizing table with
  | nil => rfl
  | cons instruction instructions ih =>
    rw [flatMap_cons, mem_append, not_or] at hnew
    rw [foldl_cons, foldl_cons, seedImmediate_set hnew.1, ih hnew.2]

/-- Folding keeps the table that the instructions lead to, and the values they define.  If it
changes nothing, nothing is left to replace. -/
structure Folds (function : FlowFunction) (types : List FlowType) (table : Constants)
    (instructions images : List Instruction) (folding folding' : Folding) : Prop where
  seeded : folding'.constants = images.foldl (seedImmediate function types) table
  results : images.flatMap Instruction.results = instructions.flatMap Instruction.results
  settled : folding'.turnChanged = false → folding' = folding ∧
    ∀ instruction ∈ images, replacement? function types folding'.constants instruction = none

theorem folds_of_threadM
    (hseeded : folding.constants = instructions.foldl (seedImmediate function types) table)
    (hnodup : (instructions.flatMap Instruction.results).Nodup)
    (h : threadM (foldInstruction limits types function) instructions folding =
      .ok (images, folding')) : Folds function types table instructions images folding folding' := by
  induction instructions generalizing folding table images with
  | nil =>
    cases h
    exact ⟨hseeded, rfl, fun _ ↦ ⟨rfl, forall_mem_nil _⟩⟩
  | cons instruction instructions ih =>
    obtain ⟨⟨replaced, middle⟩, hstep, h⟩ := bind_eq_ok.1 h
    obtain ⟨⟨rest, last⟩, hrest, h⟩ := bind_eq_ok.1 h
    cases h
    rw [flatMap_cons, nodup_append] at hnodup
    rw [foldInstruction, ← replacement?] at hstep
    split at hstep
    · rename_i hnone
      cases hstep
      obtain ⟨hseeded, hresults, hsettled⟩ := ih hseeded hnodup.2.1 hrest
      refine ⟨hseeded, by rw [flatMap_cons, hresults, flatMap_cons], fun hunchanged ↦ ?_⟩
      obtain ⟨rfl, hall⟩ := hsettled hunchanged
      exact ⟨rfl, forall_mem_cons.2 ⟨hnone, hall⟩⟩
    · rename_i result immediate constant hsome
      obtain ⟨sink, -, hstep⟩ := bind_eq_ok.1 hstep
      cases hstep
      obtain ⟨hskip, hresult, hset⟩ := seedImmediate_of_replacement? hsome
      have hnew : result ∉ instructions.flatMap Instruction.results := fun hmem ↦
        hnodup.2.2 result (hresult ▸ mem_singleton_self _) result hmem rfl
      rw [foldl_cons, hskip] at hseeded
      obtain ⟨hseeded, hresults, hsettled⟩ := @ih _ (table.set result.index (some constant)) _
        (by rw [foldl_seedImmediate_set hnew, ← hseeded]) hnodup.2.1 hrest
      refine ⟨by rw [foldl_cons, hset, hseeded], by rw [flatMap_cons, hresults, flatMap_cons],
        fun hunchanged ↦ ?_⟩
      obtain ⟨rfl, -⟩ := hsettled hunchanged
      cases hunchanged

theorem seedImmediates_eq_ok : seedImmediates function types limits = .ok constants ↔
    function.values.length ≤ limits.values.toNat ∧ seeds function types = constants := by
  rw [seedImmediates, filledVec, bind_assoc, unit_bind_eq_ok, reserveItems_eq_ok]
  simp only [pure, Except.pure, ok_bind, Except.ok.injEq, seeds]

/-- Nothing is left to fold in a function. -/
structure Settled (limits : OptimizationLimits) (types : List FlowType) (function : FlowFunction) :
    Prop where
  fits : function.values.length ≤ limits.values.toNat
  settled : ∀ instruction ∈ functionInstructions function,
    replacement? function types (seeds function types) instruction = none

/-- A function between two turns. -/
structure Seeded (limits : OptimizationLimits) (types : List FlowType) (function : FlowFunction)
    (folding : Folding) : Prop where
  fits : function.values.length ≤ limits.values.toNat
  seeded : folding.constants = seeds function types
  nodup : ((functionInstructions function).flatMap Instruction.results).Nodup

/-- A turn that changes nothing was not needed. -/
theorem Seeded.foldTurn (hkept : Seeded limits types function folding)
    (h : foldTurn limits types function folding = .ok (image, folding')) :
    Seeded limits types image folding' ∧
      (folding'.turnChanged = false → Settled limits types image) := by
  obtain ⟨⟨blocks, _⟩, hblocks, h⟩ := bind_eq_ok.1 h
  cases h
  have hflat : threadM (foldInstruction limits types function) (functionInstructions function)
      { folding with turnChanged := false } = .ok (blocks.flatMap Block.instructions, folding') := by
    refine threadM_flatMap (fun block _ folded _ hblock ↦ ?_) hblocks
    obtain ⟨⟨folded, last⟩, hfolded, hblock⟩ := bind_eq_ok.1 hblock
    cases hblock
    exact hfolded
  obtain ⟨hseeded, hresults, hsettled⟩ := folds_of_threadM (by exact hkept.seeded) hkept.nodup hflat
  refine ⟨⟨hkept.fits, hseeded, hresults.symm ▸ hkept.nodup⟩, fun hunchanged ↦ ⟨hkept.fits, ?_⟩⟩
  rw [hseeded] at hsettled
  exact (hsettled hunchanged).2

theorem settled_of_foldTurns {maximumIterations : UInt32}
    (hkept : Seeded limits types function folding)
    (h : foldTurns limits types maximumIterations remaining iterations function folding =
      .ok (image, folding', final)) : Settled limits types image := by
  induction remaining generalizing iterations function folding with
  | zero =>
    obtain ⟨⟨middle, next⟩, hturn, h⟩ := bind_eq_ok.1 h
    obtain ⟨_, hleft, h⟩ := bind_eq_ok.1 h
    cases h
    obtain ⟨hkept, hsettled⟩ := hkept.foldTurn hturn
    rw [ensure_eq_ok, Bool.not_eq_true', Bool.and_eq_false_iff] at hleft
    refine hleft.elim hsettled fun hnothing ↦ ⟨hkept.fits, fun instruction hmem ↦ ?_⟩
    rw [hasFoldableScalarOperation, any_eq_false, hkept.seeded] at hnothing
    rw [replacement?, Option.not_isSome_iff_eq_none.1 (hnothing instruction hmem)]
    rfl
  | succ remaining ih =>
    obtain ⟨⟨middle, next⟩, hturn, h⟩ := bind_eq_ok.1 h
    obtain ⟨hkept, hsettled⟩ := hkept.foldTurn hturn
    dsimp only at h
    split at h
    · exact ih hkept h
    · rename_i hunchanged
      cases h
      exact hsettled (Bool.eq_false_of_not_eq_true hunchanged)

/-- A function in which nothing is left to fold stays as it is. -/
theorem Settled.foldFunction {maximumIterations : UInt32} (h : Settled limits types function)
    (totals : FoldTotals) : foldFunction limits types maximumIterations function totals =
      .ok (function, { totals with iterations := max totals.iterations 1 }) := by
  have hturn : foldTurn limits types function ⟨seeds function types, totals.sink, totals.changed,
      false⟩ = .ok (function, ⟨seeds function types, totals.sink, totals.changed, false⟩) := by
    rw [foldTurn, threadM_fixed fun block hblock ↦ ?_]
    · rfl
    · rw [foldBlock, threadM_fixed fun instruction hinstruction ↦ ?_]
      · rfl
      · rw [foldInstruction, ← replacement?,
          h.settled instruction (mem_flatMap.2 ⟨block, hblock, hinstruction⟩)]
  rw [FlowOpt.foldFunction, seedImmediates_eq_ok.2 ⟨h.fits, rfl⟩, ok_bind]
  cases maximumIterations.toNat - 1 <;> rw [foldTurns, hturn] <;> rfl

theorem nodup_results_of_accepted (h : FunctionAccepted module function) :
    ((functionInstructions function).flatMap Instruction.results).Nodup := by
  refine Nodup.sublist ?_ (nodup_append.1 h.definedValues_nodup).2.1
  rw [functionInstructions, flatMap_assoc]
  induction function.blocks with
  | nil => exact Sublist.slnil
  | cons block blocks ih => exact (sublist_append_right _ _).append ih

end Wrela.FlowOpt
