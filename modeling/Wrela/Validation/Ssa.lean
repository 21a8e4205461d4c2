import Wrela.Validation.Module

/-!
# Single assignment along paths

A path through a function binds the results of the instructions it executes and the parameters of
the blocks it enters over an edge.  What the validator checks about dominators makes every value
that is read along a path bound before, with one exception: the parameters of the entry block, which
no edge supplies on the way in.
-/

namespace Wrela.Validation

open List Wrela.Source Wrela.Flow Wrela.Graph

variable {module : FlowWir} {function : FlowFunction}

/-- A value with the type of what it was bound to. -/
abbrev Binding := ValueId × Option TypeId

/-- What executing instructions binds: each result with its declared type. -/
def resultBindings (function : FlowFunction) (instructions : List Instruction) : List Binding :=
  instructions.flatMap fun instruction ↦
    instruction.results.map fun result ↦ (result, valueType function result)

/-- The types of what an edge supplies: those of its arguments, or the result of the activation
that is resumed. -/
def suppliedTypes (module : FlowWir) (function : FlowFunction) (terminator : Terminator)
    (arguments : List ValueId) : List (Option TypeId) :=
  match terminator with
  | .suspend _ activation _ => [activationResult module function activation]
  | _ => arguments.map (valueType function)

/-- A path from the entry to the start of a block, with everything bound along it. -/
inductive Enters (module : FlowWir) (function : FlowFunction) : ℕ → List Binding → Prop
  | entry : Enters module function function.entry.index []
  | edge {source : ℕ} {bound : List Binding} {block next : Block} {target : BlockId}
      {arguments : List ValueId} (path : Enters module function source bound)
      (atSource : function.blocks[source]? = some block)
      (edge : (target, arguments) ∈ block.terminator.edges)
      (atTarget : target.lookup function.blocks = some next) :
      Enters module function target.index
        (next.parameters.zip (suppliedTypes module function block.terminator arguments) ++
          (resultBindings function block.instructions ++ bound))

/-- A value read along a path, with everything bound before. -/
inductive Reads (module : FlowWir) (function : FlowFunction) : ValueId → List Binding → Prop
  | instruction {index position : ℕ} {bound : List Binding} {block : Block}
      {instruction : Instruction} {value : ValueId} (path : Enters module function index bound)
      (atBlock : function.blocks[index]? = some block)
      (atPosition : block.instructions[position]? = some instruction)
      (read : value ∈ instruction.operation.values) :
      Reads module function value
        (resultBindings function (block.instructions.take position) ++ bound)
  | terminator {index : ℕ} {bound : List Binding} {block : Block} {value : ValueId}
      (path : Enters module function index bound) (atBlock : function.blocks[index]? = some block)
      (read : value ∈ block.terminator.values) :
      Reads module function value (resultBindings function block.instructions ++ bound)

/-- Whatever is read along a path is a parameter of the function, or was bound before to something
of its declared type. -/
def BoundBeforeRead (module : FlowWir) (function : FlowFunction) : Prop :=
  ∀ value bound, Reads module function value bound →
    ∃ ty, valueType function value = some ty ∧
      (value ∈ function.parameters ∨ (value, some ty) ∈ bound)

/-- Everything the operations and terminators of a function read. -/
def readValues (function : FlowFunction) : List ValueId :=
  function.blocks.flatMap fun block ↦
    (block.instructions.flatMap fun instruction ↦ instruction.operation.values) ++
      block.terminator.values

def entryParameters (function : FlowFunction) : List ValueId :=
  (function.entry.lookup function.blocks).elim [] Block.parameters

/-- Nothing reads a parameter of the entry block. -/
def entryParametersUnread (function : FlowFunction) : Bool :=
  (entryParameters function).all fun parameter ↦ !(readValues function).contains parameter

variable {value : ValueId}

theorem requireValue_eq_nil :
    requireValue function value = [] ↔ value.index < function.values.length := by
  simp [requireValue, Id.index]

theorem requireId_index_eq_nil {arena : Arena} {id : Id arena} {kind : String} {length : ℕ} :
    requireId kind id.val length = [] ↔ id.index < length :=
  requireId_eq_nil

theorem values_lt_of_validateOperation (h : validateOperation module function instruction = []) :
    ∀ value ∈ instruction.operation.values, value.index < function.values.length := by
  obtain ⟨id, results, operation, source⟩ := instruction
  cases operation <;>
    simp only [validateOperation, append_eq_nil_iff, flatMap_eq_nil_iff,
      requireValue_eq_nil] at h <;>
    simp only [FlowOperation.values, forall_mem_cons, not_mem_nil, IsEmpty.forall_iff,
      implies_true, and_true] <;>
    tauto

theorem values_lt_of_validateTerminator {terminator : Terminator}
    (h : validateTerminator module function terminator = []) :
    ∀ value ∈ terminator.values, value.index < function.values.length := by
  cases terminator <;>
    simp only [validateTerminator, append_eq_nil_iff, flatMap_eq_nil_iff,
      requireId_index_eq_nil, forall_mem_append] at h <;>
    simp only [Terminator.values, forall_mem_cons, not_mem_nil, IsEmpty.forall_iff,
      implies_true, forall_mem_append, forall_mem_flatMap, and_true] <;>
    grind

/-- Every edge but a resumption passes arguments of the types of the parameters. -/
theorem validateEdge_of_mem_edges (h : validateTerminator module function terminator = [])
    (hsuspend : ∀ state activation resume, terminator ≠ .suspend state activation resume)
    (hedge : (target, arguments) ∈ terminator.edges) :
    validateEdge function target arguments = [] := by
  cases terminator <;>
    simp only [validateTerminator, append_eq_nil_iff, flatMap_eq_nil_iff] at h <;>
    simp only [Terminator.edges, mem_cons, mem_append, mem_map, Prod.mk.injEq,
      not_mem_nil, or_false] at hedge
  case jump => grind
  case branch => grind
  case switch => grind
  case suspend => exact absurd rfl (hsuspend _ _ _)

@[simp]
theorem mem_sortDedup : node ∈ sortDedup nodes ↔ node ∈ nodes := by
  simp [sortDedup]

theorem mem_successors :
    target ∈ successors function source ↔
      ∃ block id arguments, function.blocks[source]? = some block ∧
        (id, arguments) ∈ block.terminator.edges ∧ id.index = target ∧
        target < function.blocks.length := by
  unfold successors
  cases hblock : function.blocks[source]? with
  | none => simp
  | some block =>
    simp only [mem_sortDedup, blockEdges, mem_map, mem_filter, decide_eq_true_eq,
      Option.some.injEq, Prod.exists]
    constructor
    · rintro ⟨id, arguments, ⟨hedge, hlt⟩, rfl⟩
      exact ⟨block, id, arguments, rfl, hedge, rfl, hlt⟩
    · rintro ⟨_, id, arguments, rfl, hedge, rfl, hlt⟩
      exact ⟨id, arguments, ⟨hedge, hlt⟩, rfl⟩

theorem mem_predecessors :
    source ∈ predecessors function target ↔ target ∈ successors function source := by
  simp only [predecessors, mem_sortDedup, incomingEdges, mem_flatMap, Prod.exists,
    mem_zipIdx_iff_getElem?, mem_map, mem_filter, blockEdges, decide_eq_true_eq,
    mem_successors]
  constructor
  · rintro ⟨block, _, hblock, id, arguments, ⟨⟨hedge, hlt⟩, rfl⟩, rfl⟩
    exact ⟨block, id, arguments, hblock, hedge, rfl, hlt⟩
  · rintro ⟨block, id, arguments, hblock, hedge, rfl, hlt⟩
    exact ⟨block, source, hblock, id, arguments, ⟨⟨hedge, hlt⟩, rfl⟩, rfl⟩

theorem bounded_successors (hentry : function.entry.index < function.blocks.length) :
    Bounded (successors function) function.entry.index function.blocks.length where
  entry_lt := hentry
  successors_lt := by
    intro node _ next hnext
    obtain ⟨-, -, -, -, -, -, hlt⟩ := mem_successors.1 hnext
    exact hlt

theorem instructionDefinitions_map_fst (blockIndex : ℕ) (instructions : List Instruction)
    (start : ℕ) :
    ((instructions.zipIdx start).flatMap fun (instruction, index) ↦
        instruction.results.map (·, DefinitionSite.instruction blockIndex index)).map Prod.fst =
      instructions.flatMap Instruction.results := by
  induction instructions generalizing start with
  | nil => rfl
  | cons instruction instructions ih => simp [zipIdx_cons, ih, Function.comp_def]

theorem blockDefinitions_map_fst (blocks : List Block) (start : ℕ) :
    ((blocks.zipIdx start).flatMap fun (block, blockIndex) ↦
        block.parameters.map (·, DefinitionSite.blockParameter blockIndex) ++
          block.instructions.zipIdx.flatMap fun (instruction, index) ↦
            instruction.results.map (·, .instruction blockIndex index)).map Prod.fst =
      blocks.flatMap fun block ↦
        block.parameters ++ block.instructions.flatMap Instruction.results := by
  induction blocks generalizing start with
  | nil => rfl
  | cons block blocks ih =>
    rw [zipIdx_cons, flatMap_cons, map_append, ih, map_append,
      instructionDefinitions_map_fst, map_map, flatMap_cons]
    simp [Function.comp_def]

theorem definitions_map_fst (function : FlowFunction) :
    (definitions function).map Prod.fst = definedValues function := by
  rw [definitions, definedValues, map_append, blockDefinitions_map_fst, map_map]
  simp [Function.comp_def]

theorem mem_definitions_functionParameter :
    (value, .functionParameter) ∈ definitions function ↔ value ∈ function.parameters := by
  simp [definitions]

theorem mem_definitions_blockParameter :
    (value, .blockParameter index) ∈ definitions function ↔
      ∃ block, function.blocks[index]? = some block ∧ value ∈ block.parameters := by
  simp [definitions, mem_zipIdx_iff_getElem?]

theorem mem_definitions_instruction :
    (value, .instruction index position) ∈ definitions function ↔
      ∃ block instruction, function.blocks[index]? = some block ∧
        block.instructions[position]? = some instruction ∧ value ∈ instruction.results := by
  simp [definitions, mem_zipIdx_iff_getElem?]

theorem Id.ext_index {arena : Arena} {left right : Id arena} (h : left.index = right.index) :
    left = right := by
  cases left
  cases right
  exact congrArg Id.mk (UInt32.toNat_inj.1 h)

section Accepted

variable (haccepted : FunctionAccepted module function)
include haccepted

theorem FunctionAccepted.defined_lt (hmem : value ∈ definedValues function) :
    value.index < function.values.length := by
  simp only [definedValues, mem_append, mem_flatMap] at hmem
  have hblock {block : Block} (hblock : block ∈ function.blocks) :
      (∀ parameter ∈ block.parameters, parameter.index < function.values.length) ∧
        ∀ instruction ∈ block.instructions, ∀ result ∈ instruction.results,
          result.index < function.values.length := by
    have hreport := haccepted.blocks block hblock
    simp only [validateBlock, validateInstruction, append_eq_nil_iff,
      flatMap_eq_nil_iff, defineValue, reportIf_eq_nil, decide_eq_false_iff_not, not_le]
      at hreport
    exact ⟨hreport.1.1.2, fun instruction hinstruction ↦ (hreport.1.2 instruction hinstruction).1.2⟩
  rcases hmem with hparameter | ⟨block, hmem, hparameter | ⟨instruction, hinstruction, hresult⟩⟩
  · simpa [defineValue] using haccepted.parameters value hparameter
  · exact (hblock hmem).1 value hparameter
  · exact (hblock hmem).2 instruction hinstruction value hresult

theorem FunctionAccepted.count_defined {value : ValueId}
    (hlt : value.index < function.values.length) : (definedValues function).count value = 1 := by
  have hcounts := haccepted.definitionCounts
  simp only [validateDefinitionCounts, flatMap_eq_nil_iff, mem_range, reportIf_eq_nil,
    bne_eq_false_iff_eq] at hcounts
  rw [← hcounts value.index hlt]
  exact (count_map_of_injective (definedValues function) Id.index
    (fun left right h ↦ Id.ext_index h) value).symm

/-- Every value of the function has exactly one definition. -/
theorem FunctionAccepted.definedValues_nodup : (definedValues function).Nodup := by
  rw [nodup_iff_count_le_one]
  intro value
  by_cases hmem : value ∈ definedValues function
  · exact (haccepted.count_defined (haccepted.defined_lt hmem)).le
  · rw [count_eq_zero_of_not_mem hmem]
    exact zero_le_one

theorem FunctionAccepted.site_unique (hleft : (value, left) ∈ definitions function)
    (hright : (value, right) ∈ definitions function) : left = right := by
  have hnodup : ((definitions function).map Prod.fst).Nodup := by
    rw [definitions_map_fst]
    exact haccepted.definedValues_nodup
  have heq := inj_on_of_nodup_map hnodup hleft hright rfl
  exact (Prod.mk.inj heq).2

theorem FunctionAccepted.exists_site (hlt : value.index < function.values.length) :
    ∃ site, (value, site) ∈ definitions function ∧ definitionSite function value = some site := by
  have hmem : value ∈ (definitions function).map Prod.fst := by
    rw [definitions_map_fst, ← count_pos_iff, haccepted.count_defined hlt]
    exact one_pos
  rw [definitionSite, if_pos hlt]
  cases hlookup : (definitions function).lookup value with
  | none =>
    obtain ⟨⟨defined, site⟩, hsite, hdefined⟩ := mem_map.1 hmem
    have hne := lookup_eq_none_iff.1 hlookup (defined, site) hsite
    simp [← hdefined] at hne
  | some site =>
    obtain ⟨before, after, heq, -⟩ := lookup_eq_some_iff.1 hlookup
    exact ⟨site, by simp [heq], rfl⟩

end Accepted

/-- The control-flow checks of a function pass, with the dominators they were made with. -/
structure FlowAccepted (module : FlowWir) (function : FlowFunction) (idom : Idom) : Prop where
  found : immediateDominators (search function).order (predecessors function)
    function.entry.index = some idom
  parallelEdges : ∀ block ∈ function.blocks, validateParallelEdges function block = []
  reachable : validateReachable function = []
  instructionUses : ∀ index block, function.blocks[index]? = some block →
    validateInstructionUses function idom block index = []
  terminatorUses : ∀ index block, function.blocks[index]? = some block →
    validateTerminatorUses function idom block index = []
  types : ∀ block ∈ function.blocks, validateFlowTerminatorTypes module function block = []

theorem validateControlFlowAndSsa_eq_nil (hentry : function.entry.index < function.blocks.length) :
    validateControlFlowAndSsa module function = [] ↔ ∃ idom, FlowAccepted module function idom := by
  rw [validateControlFlowAndSsa, if_pos hentry]
  cases hfound : immediateDominators (search function).order (predecessors function)
      function.entry.index with
  | none =>
    refine ⟨fun h ↦ by simp at h, ?_⟩
    rintro ⟨idom, h⟩
    rw [h.found] at hfound
    cases hfound
  | some idom =>
    simp only [append_eq_nil_iff, flatMap_eq_nil_iff, Prod.forall, mem_zipIdx_iff_getElem?]
    constructor
    · rintro ⟨⟨hparallel, hreachable⟩, huses⟩
      refine ⟨idom, hfound, hparallel, hreachable, ?_, ?_, ?_⟩
      · exact fun index block hblock ↦ (huses block index hblock).1.1
      · exact fun index block hblock ↦ (huses block index hblock).1.2
      · intro block hmem
        obtain ⟨index, hindex⟩ := mem_iff_getElem?.1 hmem
        exact (huses block index hindex).2
    · rintro ⟨other, h⟩
      obtain rfl : idom = other := Option.some.inj (hfound.symm.trans h.found)
      refine ⟨⟨h.parallelEdges, h.reachable⟩, fun block index hblock ↦ ?_⟩
      exact ⟨⟨h.instructionUses index block hblock, h.terminatorUses index block hblock⟩,
        h.types block (mem_of_getElem? hblock)⟩

theorem reachable_of_walk
    (hwalk : Walk (successors function) function.entry.index (node :: visited)) :
    Reachable (successors function) function.entry.index node := by
  generalize hlist : node :: visited = path at hwalk
  induction hwalk generalizing node visited with
  | start =>
    obtain ⟨rfl, -⟩ := List.cons.inj hlist
    exact .refl
  | step walk edge ih =>
    obtain ⟨rfl, -⟩ := List.cons.inj hlist
    exact (ih rfl).tail edge

section Flow

variable {idom : Idom} (hentry : function.entry.index < function.blocks.length)
  (hflow : FlowAccepted module function idom)
include hentry hflow

theorem FlowAccepted.reachable_block (hlt : index < function.blocks.length) :
    Reachable (successors function) function.entry.index index := by
  have hreachable := hflow.reachable
  simp only [validateReachable, flatMap_eq_nil_iff, mem_range, reportIf_eq_nil,
    Bool.not_eq_false', contains_iff_mem] at hreachable
  exact (mem_depthFirst_entered (bounded_successors hentry)).1 (hreachable index hlt)

/-- A walk to a block has visited everything the table says dominates it. -/
theorem FlowAccepted.visited_of_blockDominates
    (hdominates : blockDominates function idom dominator node = true)
    (hwalk : Walk (successors function) function.entry.index (node :: visited)) :
    dominator ∈ node :: visited := by
  have hbounded := bounded_successors hentry
  obtain ⟨rest, horder⟩ := depthFirst_order_head hbounded
  obtain ⟨hfixed, hframe⟩ := settleDominators_spec hflow.found
  have hnodup := depthFirst_order_nodup hbounded
  have hroot : idom function.entry.index = some function.entry.index := by
    rw [hframe, Function.update_self]
    rw [search, horder] at *
    exact (nodup_cons.1 hnodup).1
  simp only [blockDominates, Bool.and_eq_true] at hdominates
  refine (visits_chain hroot hfixed ?_ (fun _ _ h ↦ mem_predecessors.2 h) hwalk).2 dominator
    (onChain_of_chainContains hdominates.2)
  intro visited node hwalk
  have hmem := (mem_depthFirst_order hbounded).2 (reachable_of_walk hwalk)
  rw [search, horder]
  rw [horder] at hmem
  exact mem_cons.1 hmem

end Flow

theorem valueType_of_lt (hlt : value.index < function.values.length) :
    ∃ ty, valueType function value = some ty := by
  rw [valueType, Id.lookup, List.getElem?_eq_getElem hlt]
  exact ⟨_, rfl⟩

theorem typesDiffer_eq_false (hleft : left.isSome) (hright : right.isSome)
    (h : typesDiffer left right = false) : left = right := by
  obtain ⟨left, rfl⟩ := Option.isSome_iff_exists.1 hleft
  obtain ⟨right, rfl⟩ := Option.isSome_iff_exists.1 hright
  simpa [typesDiffer] using h

theorem types_of_validateEdge (hlookup : target.lookup function.blocks = some block)
    (harguments : ∀ argument ∈ arguments, argument.index < function.values.length)
    (hparameters : ∀ parameter ∈ block.parameters, parameter.index < function.values.length)
    (h : validateEdge function target arguments = []) :
    arguments.map (valueType function) = block.parameters.map (valueType function) := by
  simp only [validateEdge, hlookup] at h
  split at h
  · cases h
  · rename_i hlength
    have hlength : arguments.length = block.parameters.length := by simpa using hlength
    simp only [flatMap_eq_nil_iff, reportIf_eq_nil, Prod.forall] at h
    apply ext_getElem?
    intro index
    rcases Nat.lt_or_ge index arguments.length with hlt | hge
    · have hlt' : index < block.parameters.length := hlength ▸ hlt
      have hmem : (arguments[index], block.parameters[index]) ∈ arguments.zip block.parameters := by
        rw [mem_iff_getElem]
        exact ⟨index, by simp [hlt, hlt'], by simp⟩
      obtain ⟨left, hleft⟩ := valueType_of_lt (harguments _ (getElem_mem hlt))
      obtain ⟨right, hright⟩ := valueType_of_lt (hparameters _ (getElem_mem hlt'))
      have heq := typesDiffer_eq_false (by rw [hleft]; rfl) (by rw [hright]; rfl) (h _ _ hmem)
      simp [hlt, hlt', heq]
    · simp [hge, hlength ▸ hge]

theorem mem_zip_map {α β : Type} {items : List α} {f : α → β} {item : α} (hmem : item ∈ items) :
    (item, f item) ∈ items.zip (items.map f) := by
  rw [zip_map_right, mem_map]
  refine ⟨(item, item), ?_, rfl⟩
  rw [mem_iff_getElem] at hmem ⊢
  obtain ⟨index, hlt, rfl⟩ := hmem
  exact ⟨index, by simpa using hlt, by simp⟩

theorem mem_entryParameters :
    parameter ∈ entryParameters function ↔
      ∃ block, function.blocks[function.entry.index]? = some block ∧
        parameter ∈ block.parameters := by
  unfold entryParameters Id.lookup
  cases function.blocks[function.entry.index]? <;> simp

theorem reads_mem_readValues (hread : Reads module function value bound) :
    value ∈ readValues function := by
  cases hread with
  | instruction path atBlock atPosition read =>
    refine mem_flatMap.2 ⟨_, mem_of_getElem? atBlock, mem_append_left _ ?_⟩
    exact mem_flatMap.2 ⟨_, mem_of_getElem? atPosition, read⟩
  | terminator path atBlock read =>
    exact mem_flatMap.2 ⟨_, mem_of_getElem? atBlock, mem_append_right _ read⟩

section Bound

variable (haccepted : FunctionAccepted module function)
include haccepted

variable {block : Block} {parameter : ValueId}

theorem FunctionAccepted.terminator_report (hmem : block ∈ function.blocks) :
    validateTerminator module function block.terminator = [] := by
  have hreport := haccepted.blocks block hmem
  simp only [validateBlock, append_eq_nil_iff] at hreport
  exact hreport.2

theorem FunctionAccepted.operation_report (hmem : block ∈ function.blocks)
    (hinstruction : instruction ∈ block.instructions) :
    validateOperation module function instruction = [] := by
  have hreport := haccepted.blocks block hmem
  simp only [validateBlock, validateInstruction, append_eq_nil_iff, flatMap_eq_nil_iff]
    at hreport
  exact (hreport.1.2 instruction hinstruction).2

theorem FunctionAccepted.parameter_lt (hmem : block ∈ function.blocks)
    (hparameter : parameter ∈ block.parameters) :
    parameter.index < function.values.length := by
  apply haccepted.defined_lt
  simp only [definedValues, mem_append, mem_flatMap]
  exact .inr ⟨block, hmem, .inl hparameter⟩

theorem FunctionAccepted.argument_lt (hmem : block ∈ function.blocks)
    (hedge : (target, arguments) ∈ block.terminator.edges) :
    ∀ argument ∈ arguments, argument.index < function.values.length := by
  intro argument hargument
  refine values_lt_of_validateTerminator (haccepted.terminator_report hmem) argument ?_
  cases hterminator : block.terminator <;> rw [hterminator] at hedge <;>
    simp only [Terminator.edges, mem_cons, mem_append, mem_map, Prod.mk.injEq,
      not_mem_nil, or_false] at hedge <;>
    simp only [Terminator.values, mem_cons, mem_append, mem_flatMap] <;>
    grind

/-- An edge supplies each parameter of its target with something of its type. -/
theorem FunctionAccepted.suppliedTypes_eq {idom : Idom} (hflow : FlowAccepted module function idom)
    {next : Block} (hmem : block ∈ function.blocks) {target : BlockId}
    {arguments : List ValueId} (hedge : (target, arguments) ∈ block.terminator.edges)
    (hlookup : target.lookup function.blocks = some next) :
    suppliedTypes module function block.terminator arguments =
      next.parameters.map (valueType function) := by
  have hterminator := haccepted.terminator_report hmem
  unfold suppliedTypes
  split
  · rename_i state activation resume heq
    have htypes := hflow.types block hmem
    rw [heq] at hedge
    obtain ⟨rfl, -⟩ : target = resume ∧ arguments = [] := by simpa [Terminator.edges] using hedge
    simp only [validateFlowTerminatorTypes, heq, reportIf_eq_nil, Bool.or_eq_false_iff,
      bne_eq_false_iff_eq, Option.isNone_eq_false_iff] at htypes
    obtain ⟨hsome, hdelivered⟩ := htypes
    rw [hdelivered] at hsome ⊢
    simp only [resumeParameterType, hlookup, Option.bind_some] at hsome ⊢
    split at hsome
    · rename_i parameter hparameters
      simp [hparameters]
    · cases hsome
  · rename_i hsuspend
    exact types_of_validateEdge hlookup (haccepted.argument_lt hmem hedge)
      (fun parameter hparameter ↦ haccepted.parameter_lt (mem_of_getElem? hlookup) hparameter)
      (validateEdge_of_mem_edges hterminator hsuspend hedge)

variable {index : ℕ} {bound : List Binding}

/-- Along a path everything defined by the blocks left behind is bound, and so are the parameters of
every block but the entry. -/
theorem FunctionAccepted.enters_visited {idom : Idom} (hflow : FlowAccepted module function idom)
    (hpath : Enters module function index bound) :
    ∃ visited, Walk (successors function) function.entry.index (index :: visited) ∧
      (∀ left ∈ visited, ∀ block, function.blocks[left]? = some block →
        ∀ binding ∈ resultBindings function block.instructions, binding ∈ bound) ∧
      ∀ entered ∈ index :: visited, entered ≠ function.entry.index →
        ∀ block, function.blocks[entered]? = some block → ∀ parameter ∈ block.parameters,
          (parameter, valueType function parameter) ∈ bound := by
  induction hpath with
  | entry =>
    refine ⟨[], .start, fun _ hmem ↦ absurd hmem not_mem_nil, fun entered hmem hne ↦ ?_⟩
    exact absurd (mem_singleton.1 hmem) hne
  | edge path atSource edge atTarget ih =>
    rename_i source bound block next target arguments
    obtain ⟨visited, hwalk, hresults, hparameters⟩ := ih
    have hsupplied := haccepted.suppliedTypes_eq hflow (mem_of_getElem? atSource) edge atTarget
    have hlt : target.index < function.blocks.length := (List.getElem?_eq_some_iff.1 atTarget).1
    refine ⟨source :: visited,
      .step hwalk (mem_successors.2 ⟨block, target, arguments, atSource, edge, rfl, hlt⟩), ?_, ?_⟩
    · intro left hleft other hother binding hbinding
      rcases mem_cons.1 hleft with rfl | hleft
      · obtain rfl : block = other := Option.some.inj (atSource.symm.trans hother)
        simp [hbinding]
      · simp [hresults left hleft other hother binding hbinding]
    · intro entered hentered hne other hother parameter hparameter
      rcases mem_cons.1 hentered with rfl | hentered
      · obtain rfl : next = other := Option.some.inj (atTarget.symm.trans hother)
        rw [hsupplied]
        exact mem_append_left _ (mem_zip_map hparameter)
      · simp [hparameters entered hentered hne other hother parameter hparameter]

/-- A use the validator lets through is bound before, unless it is of an entry parameter. -/
theorem FunctionAccepted.bound_of_dominated (hflow : FlowAccepted module function idom)
    (hpath : Enters module function index bound) (hblock : function.blocks[index]? = some block)
    (hdominated : useIsDominated function idom value index position = true)
    (hlt : value.index < function.values.length) (hentry : value ∉ entryParameters function) :
    value ∈ function.parameters ∨
      (value, valueType function value) ∈
        resultBindings function (position.elim block.instructions block.instructions.take) ++
          bound := by
  obtain ⟨visited, hwalk, hresults, hparameters⟩ := haccepted.enters_visited hflow hpath
  obtain ⟨site, hsite, hfound⟩ := haccepted.exists_site hlt
  rw [useIsDominated, hfound] at hdominated
  cases site with
  | functionParameter => exact .inl (mem_definitions_functionParameter.1 hsite)
  | blockParameter defined =>
    obtain ⟨other, hother, hparameter⟩ := mem_definitions_blockParameter.1 hsite
    have hvisited := hflow.visited_of_blockDominates haccepted.entry hdominated hwalk
    have hne : defined ≠ function.entry.index := by
      rintro rfl
      exact hentry (mem_entryParameters.2 ⟨other, hother, hparameter⟩)
    exact .inr (mem_append_right _ (hparameters defined hvisited hne other hother value hparameter))
  | instruction defined at_ =>
    obtain ⟨other, instruction, hother, hinstruction, hresult⟩ :=
      mem_definitions_instruction.1 hsite
    simp only at hdominated
    right
    split at hdominated
    · rename_i hsame
      obtain rfl : block = other := Option.some.inj (hblock.symm.trans (hsame ▸ hother))
      refine mem_append_left _
        (mem_flatMap.2 ⟨instruction, ?_, mem_map.2 ⟨value, hresult, rfl⟩⟩)
      cases position with
      | none => exact mem_of_getElem? hinstruction
      | some position =>
        have hbefore : at_ < position := by simpa using hdominated
        rw [mem_iff_getElem?]
        exact ⟨at_, by simpa [List.getElem?_take, hbefore] using hinstruction⟩
    · rename_i hother_ne
      have hvisited := hflow.visited_of_blockDominates haccepted.entry hdominated hwalk
      rcases mem_cons.1 hvisited with heq | hleft
      · exact absurd heq hother_ne
      · refine mem_append_right _ (hresults defined hleft other hother _ ?_)
        exact mem_flatMap.2 ⟨instruction, mem_of_getElem? hinstruction,
          mem_map.2 ⟨value, hresult, rfl⟩⟩

theorem FunctionAccepted.read_lt_and_dominated (hflow : FlowAccepted module function idom)
    (hblock : function.blocks[index]? = some block) :
    (∀ position instruction, block.instructions[position]? = some instruction →
      ∀ value ∈ instruction.operation.values, value.index < function.values.length ∧
        useIsDominated function idom value index (some position) = true) ∧
    ∀ value ∈ block.terminator.values, value.index < function.values.length ∧
      useIsDominated function idom value index none = true := by
  have hmem := mem_of_getElem? hblock
  have hinstructions := hflow.instructionUses index block hblock
  have hterminator := hflow.terminatorUses index block hblock
  simp only [validateInstructionUses, validateTerminatorUses, flatMap_eq_nil_iff, Prod.forall,
    mem_zipIdx_iff_getElem?, reportIf_eq_nil, Bool.not_eq_false'] at hinstructions hterminator
  constructor
  · intro position instruction hinstruction value hvalue
    have hreport := haccepted.operation_report hmem (mem_of_getElem? hinstruction)
    exact ⟨values_lt_of_validateOperation hreport value hvalue,
      hinstructions instruction position hinstruction value hvalue⟩
  · intro value hvalue
    exact ⟨values_lt_of_validateTerminator (haccepted.terminator_report hmem) value hvalue,
      hterminator value hvalue⟩

/-- What is read along a path is in range, and bound before unless it is an entry parameter. -/
theorem FunctionAccepted.reads (hread : Reads module function value bound) :
    value.index < function.values.length ∧ (value ∉ entryParameters function →
      value ∈ function.parameters ∨ (value, valueType function value) ∈ bound) := by
  obtain ⟨idom, hflow⟩ := (validateControlFlowAndSsa_eq_nil haccepted.entry).1 haccepted.controlFlow
  cases hread with
  | instruction path atBlock atPosition read =>
    obtain ⟨hlt, hdominated⟩ :=
      (haccepted.read_lt_and_dominated hflow atBlock).1 _ _ atPosition value read
    exact ⟨hlt, haccepted.bound_of_dominated hflow path atBlock hdominated hlt⟩
  | terminator path atBlock read =>
    obtain ⟨hlt, hdominated⟩ := (haccepted.read_lt_and_dominated hflow atBlock).2 value read
    exact ⟨hlt, haccepted.bound_of_dominated hflow path atBlock hdominated hlt⟩

theorem FunctionAccepted.result_ne_entryParameter
    (hparameter : parameter ∈ entryParameters function)
    (hblock : function.blocks[index]? = some block) (hsubset : instructions ⊆ block.instructions) :
    ∀ binding ∈ resultBindings function instructions, binding.1 ≠ parameter := by
  intro binding hbinding heq
  have hsite := mem_definitions_blockParameter.2 (mem_entryParameters.1 hparameter)
  obtain ⟨instruction, hinstruction, hbound⟩ := mem_flatMap.1 hbinding
  obtain ⟨result, hresult, rfl⟩ := mem_map.1 hbound
  obtain ⟨position, hposition⟩ := mem_iff_getElem?.1 (hsubset hinstruction)
  have hdefined := mem_definitions_instruction.2 ⟨block, instruction, hblock, hposition, hresult⟩
  rw [show result = parameter from heq] at hdefined
  cases haccepted.site_unique hdefined hsite

/-- Every reachable block has a path that binds no entry parameter. -/
theorem FunctionAccepted.enters_unbound (hparameter : parameter ∈ entryParameters function)
    (hreachable : Reachable (successors function) function.entry.index index) :
    ∃ bound, Enters module function index bound ∧ ∀ binding ∈ bound, binding.1 ≠ parameter := by
  have hsite := mem_definitions_blockParameter.2 (mem_entryParameters.1 hparameter)
  induction hreachable with
  | refl => exact ⟨[], .entry, fun _ hmem ↦ absurd hmem not_mem_nil⟩
  | tail _ hsuccessor ih =>
    obtain ⟨bound, hpath, hunbound⟩ := ih
    obtain ⟨block, id, arguments, hblock, hedge, rfl, hlt⟩ := mem_successors.1 hsuccessor
    by_cases hentry : id.index = function.entry.index
    · rw [hentry]
      exact ⟨[], .entry, fun _ hmem ↦ absurd hmem not_mem_nil⟩
    · have hnext : id.lookup function.blocks = some function.blocks[id.index] :=
        List.getElem?_eq_getElem hlt
      refine ⟨_, .edge hpath hblock hedge hnext, fun binding hbinding ↦ ?_⟩
      rcases mem_append.1 hbinding with hsupplied | hbinding
      · intro heq
        have hdefined := mem_definitions_blockParameter.2 ⟨_, hnext, (of_mem_zip hsupplied).1⟩
        rw [heq] at hdefined
        exact hentry (DefinitionSite.blockParameter.inj (haccepted.site_unique hdefined hsite))
      · rcases mem_append.1 hbinding with hresult | hbinding
        · exact haccepted.result_ne_entryParameter hparameter hblock (List.Subset.refl _) _ hresult
        · exact hunbound binding hbinding

/-- A read of an entry parameter is reached by a path that does not bind it. -/
theorem FunctionAccepted.reads_unbound
    (hparameter : parameter ∈ entryParameters function) (hread : parameter ∈ readValues function) :
    ∃ bound, Reads module function parameter bound ∧ ∀ binding ∈ bound, binding.1 ≠ parameter := by
  obtain ⟨idom, hflow⟩ := (validateControlFlowAndSsa_eq_nil haccepted.entry).1 haccepted.controlFlow
  obtain ⟨block, hmem, hread⟩ := mem_flatMap.1 hread
  obtain ⟨index, hblock⟩ := mem_iff_getElem?.1 hmem
  have hlt : index < function.blocks.length := (List.getElem?_eq_some_iff.1 hblock).1
  obtain ⟨bound, hpath, hunbound⟩ := haccepted.enters_unbound hparameter
    (hflow.reachable_block haccepted.entry hlt)
  rcases mem_append.1 hread with hread | hread
  · obtain ⟨instruction, hinstruction, hvalue⟩ := mem_flatMap.1 hread
    obtain ⟨position, hposition⟩ := mem_iff_getElem?.1 hinstruction
    refine ⟨_, .instruction hpath hblock hposition hvalue, fun binding hbinding ↦ ?_⟩
    rcases mem_append.1 hbinding with hresult | hbinding
    · exact haccepted.result_ne_entryParameter hparameter hblock (take_subset _ _) _ hresult
    · exact hunbound binding hbinding
  · refine ⟨_, .terminator hpath hblock hread, fun binding hbinding ↦ ?_⟩
    rcases mem_append.1 hbinding with hresult | hbinding
    · exact haccepted.result_ne_entryParameter hparameter hblock (List.Subset.refl _) _ hresult
    · exact hunbound binding hbinding

theorem FunctionAccepted.entryParameter_ne_parameter
    (hparameter : parameter ∈ entryParameters function) : parameter ∉ function.parameters := by
  intro hmem
  have hsite := mem_definitions_blockParameter.2 (mem_entryParameters.1 hparameter)
  cases haccepted.site_unique (mem_definitions_functionParameter.2 hmem) hsite

end Bound

/-- In an accepted module everything read along a path is bound before, exactly when no function
reads a parameter of its entry block. -/
theorem accepts_boundBeforeRead_iff {limits : ValidationLimits} (h : Accepts module limits) :
    (∀ function ∈ module.functions, BoundBeforeRead module function) ↔
      ∀ function ∈ module.functions, entryParametersUnread function = true := by
  refine forall₂_congr fun function hmem ↦ ?_
  have haccepted := h.accepted.functions function hmem
  simp only [entryParametersUnread, all_eq_true, Bool.not_eq_true', contains_eq_mem,
    decide_eq_false_iff_not]
  constructor
  · intro hbound parameter hparameter hread
    obtain ⟨bound, hreads, hunbound⟩ := haccepted.reads_unbound hparameter hread
    obtain ⟨ty, -, hmember | hbinding⟩ := hbound parameter bound hreads
    · exact haccepted.entryParameter_ne_parameter hparameter hmember
    · exact hunbound _ hbinding rfl
  · intro hunread value bound hread
    obtain ⟨hlt, hbound⟩ := haccepted.reads hread
    obtain ⟨ty, hty⟩ := valueType_of_lt hlt
    refine ⟨ty, hty, ?_⟩
    rw [← hty]
    exact hbound fun hparameter ↦ hunread value hparameter (reads_mem_readValues hread)

theorem accepts_boundBeforeRead_guardedImage :
    Accepts guardedImage .standard ∧
      ∀ function ∈ guardedImage.functions, BoundBeforeRead guardedImage function := by
  have haccepts := (checkWithLimits_eq_ok guardedImage).1 checkWithLimits_guardedImage
  exact ⟨haccepts, (accepts_boundBeforeRead_iff haccepts).2 (by decide)⟩

/-- An entry function whose only block takes a parameter and returns it. -/
def entryParameterImage : FlowWir :=
  { idleImage with
    types := [⟨⟨0⟩, .scalar .bool, none, true, false⟩]
    functions :=
      [{ id := ⟨0⟩, name := "entry", origin := .generatedImageEntry 0 0, role := .imageEntry,
         color := .sync, parameters := [], resultTypes := [⟨0⟩],
         values := [⟨⟨0⟩, ⟨0⟩, none, none⟩],
         blocks := [⟨⟨0⟩, [⟨0⟩], [], .return [⟨0⟩], none⟩], entry := ⟨0⟩, stackBound := 0,
         frameBound := 0, proofs := [], source := none }] }

theorem not_boundBeforeRead_entryParameterImage :
    checkWithLimits entryParameterImage .standard = .ok () ∧
      ¬ ∀ function ∈ entryParameterImage.functions, BoundBeforeRead entryParameterImage function := by
  refine ⟨by decide +kernel, fun h ↦ ?_⟩
  have hread : Reads entryParameterImage (entryParameterImage.functions[0]) ⟨0⟩ [] :=
    @Reads.terminator _ _ 0 [] ⟨⟨0⟩, [⟨0⟩], [], .return [⟨0⟩], none⟩ _ .entry rfl (by decide)
  obtain ⟨ty, -, hmember | hbinding⟩ := h _ (getElem_mem _) _ _ hread
  · exact absurd hmember (by decide)
  · exact absurd hbinding not_mem_nil

end Wrela.Validation
