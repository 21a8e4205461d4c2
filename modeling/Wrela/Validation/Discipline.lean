import Wrela.Validation.Module

/-!
# The message discipline

What the checks on actor messages amount to in an accepted module.  The validator counts messages
and receipts method by method and looks at neighbouring instructions; the discipline says which
instruction commits a reservation, which instruction receives it, and that nothing else does.
-/

namespace Wrela.Validation

open List Wrela.Source Wrela.Flow

variable {module : FlowWir}

/-- An instruction at a position of a block of a function of the module. -/
structure OccursAt (module : FlowWir) (function : FlowFunction) (block : Block) (index : ℕ)
    (instruction : Instruction) : Prop where
  function_mem : function ∈ module.functions
  block_mem : block ∈ function.blocks
  at_index : block.instructions[index]? = some instruction

/-- The first instruction a function executes. -/
def firstInstruction (function : FlowFunction) : Option Instruction :=
  (function.entry.lookup function.blocks).bind fun block ↦ block.instructions.head?

def sentMethod : FlowOperation → Option FunctionId
  | .actorReserve _ method _ | .actorReplyRequest _ method _ _ => some method
  | _ => none

def receivedMethod : FlowOperation → Option FunctionId
  | .mailboxReceive _ method => some method
  | _ => none

/-- What the instructions of a function name, in program order. -/
def namedIn {α : Type} (name : FlowOperation → Option α) (function : FlowFunction) : List α :=
  function.blocks.flatMap fun block ↦
    block.instructions.flatMap fun instruction ↦ (name instruction.operation).toList

def sentMethods (module : FlowWir) : List FunctionId :=
  module.functions.flatMap (namedIn sentMethod)

def receivedMethods (module : FlowWir) : List FunctionId :=
  module.functions.flatMap (namedIn receivedMethod)

/-- The reservations the commits of a function name, in program order. -/
def committedReservations (function : FlowFunction) : List ValueId :=
  function.blocks.flatMap fun block ↦ block.instructions.filterMap committedReservation

theorem mem_flatMap_namedIn {α : Type} {name : FlowOperation → Option α} {named : α} :
    named ∈ module.functions.flatMap (namedIn name) ↔
      ∃ function block index instruction, OccursAt module function block index instruction ∧
        name instruction.operation = some named := by
  simp only [namedIn, mem_flatMap, Option.mem_toList]
  constructor
  · rintro ⟨function, hfunction, block, hblock, instruction, hinstruction, hname⟩
    obtain ⟨index, hindex⟩ := mem_iff_getElem?.1 hinstruction
    exact ⟨function, block, index, instruction, ⟨hfunction, hblock, hindex⟩, hname⟩
  · rintro ⟨function, block, index, instruction, hat, hname⟩
    exact ⟨function, hat.function_mem, block, hat.block_mem, instruction,
      mem_of_getElem? hat.at_index, hname⟩

/-- A fold that puts what each item emits in front of what it has. -/
theorem foldl_collect {σ α β : Type} {collected : σ → List β} {next : σ → α → σ}
    {emit : α → List β}
    (hnext : ∀ state item, collected (next state item) = (emit item).reverse ++ collected state)
    (items : List α) (state : σ) :
    collected (items.foldl next state) = (items.flatMap emit).reverse ++ collected state := by
  induction items generalizing state with
  | nil => simp
  | cons item items ih => simp [ih, hnext]

theorem Dispatch.record_incoming (function : FlowFunction) (dispatch : Dispatch)
    (instruction : Instruction) :
    (dispatch.record function instruction).incoming =
      (sentMethod instruction.operation).toList.reverse ++ dispatch.incoming := by
  unfold Dispatch.record
  cases instruction.operation <;> rfl

theorem Dispatch.record_receives (function : FlowFunction) (dispatch : Dispatch)
    (instruction : Instruction) :
    (dispatch.record function instruction).receives =
      (receivedMethod instruction.operation).toList.reverse ++ dispatch.receives := by
  unfold Dispatch.record
  cases instruction.operation <;> rfl

/-- The dispatch after the whole module. -/
def finalDispatch (module : FlowWir) : Dispatch :=
  module.functions.foldl Dispatch.recordFunction .empty

theorem finalDispatch_collects {collected : Dispatch → List FunctionId}
    {name : FlowOperation → Option FunctionId}
    (hrecord : ∀ function dispatch instruction,
      collected (Dispatch.record function dispatch instruction) =
        (name instruction.operation).toList.reverse ++ collected dispatch)
    (hempty : collected .empty = []) (module : FlowWir) :
    collected (finalDispatch module) = (module.functions.flatMap (namedIn name)).reverse := by
  have hblock (function : FlowFunction) := fun dispatch (block : Block) ↦
    foldl_collect (hrecord function) block.instructions dispatch
  have hfunction := fun dispatch (function : FlowFunction) ↦
    foldl_collect (hblock function) function.blocks dispatch
  calc collected (finalDispatch module)
      = (module.functions.flatMap (namedIn name)).reverse ++ collected .empty :=
        foldl_collect hfunction module.functions .empty
    _ = (module.functions.flatMap (namedIn name)).reverse := by rw [hempty, append_nil]

theorem finalDispatch_incoming (module : FlowWir) :
    (finalDispatch module).incoming = (sentMethods module).reverse :=
  finalDispatch_collects Dispatch.record_incoming rfl module

theorem finalDispatch_receives (module : FlowWir) :
    (finalDispatch module).receives = (receivedMethods module).reverse :=
  finalDispatch_collects Dispatch.record_receives rfl module

section Accepted

variable (haccepted : ModuleAccepted module)
include haccepted

variable {function : FlowFunction} {instruction : Instruction} {method : FunctionId}

theorem ModuleAccepted.message_function (hmem : function ∈ module.functions) :
    ∃ dispatch, validateMessageFunction module function dispatch = [] := by
  have hmessages := haccepted.messages
  simp only [validateActorMessageContract, append_eq_nil_iff] at hmessages
  exact exists_check_eq_nil hmessages.1.1 hmem

variable {block : Block} {index : ℕ} {actor : ActorId}

/-- The checks of one instruction pass, whatever was sent before it. -/
theorem ModuleAccepted.message_instruction
    (hat : OccursAt module function block index instruction) :
    ∃ dispatch,
      validateMessageInstruction module function block dispatch index instruction = [] := by
  obtain ⟨before, hfunction⟩ := haccepted.message_function hat.function_mem
  simp only [validateMessageFunction, append_eq_nil_iff] at hfunction
  obtain ⟨beforeBlock, hblock⟩ := exists_check_eq_nil hfunction.1.2 hat.block_mem
  simp only [validateMessageBlock, append_eq_nil_iff] at hblock
  exact exists_check_eq_nil hblock.1.2
    (show (instruction, index) ∈ block.instructions.zipIdx from
      mem_zipIdx_iff_getElem?.2 hat.at_index)

theorem ModuleAccepted.delivery (hmem : function ∈ module.functions)
    {reservation : ValueId} (hreservation : isReservationValue module function reservation = true) :
    (committedReservations function).count reservation = 1 := by
  obtain ⟨before, hfunction⟩ := haccepted.message_function hmem
  simp only [validateMessageFunction, append_eq_nil_iff] at hfunction
  have hdelivery := hfunction.2
  simp only [validateReservationDelivery, flatMap_eq_nil_iff, reportIf_eq_nil] at hdelivery
  obtain ⟨value, hvalue⟩ : ∃ value, reservation.lookup function.values = some value := by
    cases hlookup : reservation.lookup function.values with
    | none => simp [isReservationValue, valueHasKind, valueRecord, hlookup] at hreservation
    | some value => exact ⟨value, rfl⟩
  have hid : value.id = reservation :=
    id_of_lookup (haccepted.functions function hmem).valuesDense hvalue
  have hcounts := hdelivery value (mem_of_getElem? hvalue)
  rw [hid, hreservation, Bool.true_and, Bool.not_eq_false', Bool.and_eq_true, beq_iff_eq] at hcounts
  exact hcounts.2

theorem ModuleAccepted.dispatch (hmem : function ∈ module.functions) :
    (sentMethods module).count function.id = (receivedMethods module).count function.id ∧
      (sentMethods module).count function.id ≤ 1 := by
  have hmessages := haccepted.messages
  simp only [validateActorMessageContract, append_eq_nil_iff, flatMap_eq_nil_iff]
    at hmessages
  have hfunction : validateMailboxDispatch module function (finalDispatch module) = [] :=
    hmessages.2 function hmem
  have hlookup : function.id.lookup module.functions = some function :=
    lookup_of_dense haccepted.functionsDense hmem
  have hknown : function.id.index < module.functions.length := (List.getElem?_eq_some_iff.1 hlookup).1
  simp only [validateMailboxDispatch, mentions, if_pos hknown, finalDispatch_incoming,
    finalDispatch_receives, count_reverse] at hfunction
  split at hfunction
  · simp only [reportIf_eq_nil, Bool.or_eq_false_iff, bne_eq_false_iff_eq, decide_eq_false_iff_not,
      not_lt] at hfunction
    exact ⟨hfunction.1.1.1, hfunction.1.1.2⟩
  · simp only [reportIf_eq_nil, Bool.or_eq_false_iff, bne_eq_false_iff_eq] at hfunction
    rw [hfunction.1, hfunction.2]
    exact ⟨rfl, zero_le_one⟩

/-- A method that is sent to is received at its entry, by a turn of the actor it belongs to. -/
theorem ModuleAccepted.receive (hat : OccursAt module function block index instruction)
    (hoperation : instruction.operation = .mailboxReceive actor method) :
    method.lookup module.functions = some function ∧ function.role = .actorTurn actor ∧
      firstInstruction function = some instruction ∧ instruction.results = [] := by
  obtain ⟨dispatch, hcheck⟩ := haccepted.message_instruction hat
  simp only [validateMessageInstruction, hoperation, append_eq_nil_iff, validateReceive,
    reportIf_eq_nil, Bool.not_eq_false', Bool.and_eq_true, List.isEmpty_iff, beq_iff_eq] at hcheck
  obtain ⟨-, ⟨⟨⟨hresults, rfl⟩, hrole⟩, hentry, rfl⟩, -⟩ := hcheck
  have hblock : block.id.lookup function.blocks = some block :=
    lookup_of_dense (haccepted.functions function hat.function_mem).blocksDense hat.block_mem
  refine ⟨lookup_of_dense haccepted.functionsDense hat.function_mem, hrole, ?_, hresults⟩
  rw [firstInstruction, ← hentry, hblock, Option.bind_some, List.head?_eq_getElem?, hat.at_index]

/-- A sent method exists, and its first instruction receives. -/
theorem ModuleAccepted.received (hsent : method ∈ sentMethods module)
    {target : FlowFunction} (htarget : method.lookup module.functions = some target) :
    ∃ actor receive, firstInstruction target = some receive ∧
      receive.operation = .mailboxReceive actor method ∧ target.role = .actorTurn actor ∧
      receive.results = [] := by
  have hid : target.id = method := id_of_lookup haccepted.functionsDense htarget
  have hcount := (haccepted.dispatch (mem_of_getElem? htarget)).1
  rw [hid] at hcount
  have hreceived : method ∈ receivedMethods module := by
    rw [← count_pos_iff, ← hcount]
    exact count_pos_iff.2 hsent
  obtain ⟨function, block, index, receive, hat, hname⟩ := mem_flatMap_namedIn.1 hreceived
  obtain ⟨actor, hoperation⟩ : ∃ actor, receive.operation = .mailboxReceive actor method := by
    revert hname
    cases receive.operation <;> simp [receivedMethod]
  obtain ⟨hlookup, hrole, hfirst, hresults⟩ := haccepted.receive hat hoperation
  obtain rfl : function = target := Option.some.inj (hlookup.symm.trans htarget)
  exact ⟨actor, receive, hfirst, hoperation, hrole, hresults⟩

/-- A reservation is committed by the next instruction, for a method that takes the actor's state
and nothing else. -/
theorem ModuleAccepted.reserve
    (hat : OccursAt module function block index instruction) {permit : ProofId}
    (hoperation : instruction.operation = .actorReserve actor method permit) :
    ∃ reservation commit target state, instruction.results = [reservation] ∧
      isReservationValue module function reservation = true ∧
      block.instructions[index + 1]? = some commit ∧
      commit.operation = .actorCommit reservation [] ∧
      method.lookup module.functions = some target ∧ target.role = .actorTurn actor ∧
      target.parameters = [state] := by
  obtain ⟨dispatch, hcheck⟩ := haccepted.message_instruction hat
  simp only [validateMessageInstruction, hoperation, append_eq_nil_iff, validateReserve,
    reportIf_eq_nil, Bool.not_eq_false', Bool.and_eq_true, flatMap_eq_nil_iff, isActorReserve,
    Bool.true_and, Option.any_eq_true] at hcheck
  obtain ⟨hresults, ⟨⟨⟨⟨hhead, -⟩, htarget⟩, -⟩, hcommit⟩, -⟩ := hcheck
  obtain ⟨reservation, hreservation, hkind⟩ := hhead
  obtain ⟨target, hlookup, hstate, -⟩ := htarget
  obtain ⟨hlookup, hrole⟩ := Option.filter_eq_some_iff.1 hlookup
  simp only [Bool.and_eq_true, beq_iff_eq] at hrole
  have hsingle : instruction.results = [reservation] := by
    obtain ⟨rest, hrest⟩ := List.head?_eq_some_iff.1 hreservation
    have hlength := hresults reservation (by simp [hrest])
    rw [hkind, Bool.true_and, Bool.not_eq_false', beq_iff_eq] at hlength
    rw [hrest] at hlength ⊢
    rw [length_eq_zero_iff.1 (Nat.succ.inj hlength)]
  obtain ⟨state, hparameters⟩ : ∃ state, target.parameters = [state] := by
    unfold takesOnlyState at hstate
    split at hstate
    · rename_i state hparameters
      exact ⟨state, hparameters⟩
    · cases hstate
  simp only [immediatelyCommitted, hreservation, Option.any_some, Option.any_eq_true] at hcommit
  obtain ⟨commit, hnext, hcommit⟩ := hcommit
  refine ⟨reservation, commit, target, state, hsingle, hkind, hnext, ?_, hlookup, hrole.1.2,
    hparameters⟩
  split at hcommit
  · rename_i committed arguments hcommitOperation
    simp only [Bool.and_eq_true, beq_iff_eq, List.isEmpty_iff] at hcommit
    rw [hcommitOperation, hcommit.1.1.2, hcommit.1.2]
  · cases hcommit

theorem ModuleAccepted.request (hat : OccursAt module function block index instruction)
    {permit reply : ProofId}
    (hoperation : instruction.operation = .actorReplyRequest actor method permit reply) :
    ∃ target, method.lookup module.functions = some target ∧ target.role = .actorTurn actor := by
  obtain ⟨dispatch, hcheck⟩ := haccepted.message_instruction hat
  simp only [validateMessageInstruction, hoperation, append_eq_nil_iff, validateRequest,
    reportIf_eq_nil, Bool.not_eq_false', Bool.and_eq_true, exactReplyTarget, Option.any_eq_true,
    beq_iff_eq] at hcheck
  obtain ⟨-, ⟨⟨⟨⟨⟨⟨-, target, hlookup, ⟨⟨hrole, -⟩, -⟩, -⟩, -⟩, -⟩, -⟩, -⟩, -⟩⟩ := hcheck
  exact ⟨target, hlookup, hrole⟩

/-- Every method a message names exists. -/
theorem ModuleAccepted.sent_lookup (hsent : method ∈ sentMethods module) :
    ∃ target, method.lookup module.functions = some target := by
  obtain ⟨function, block, index, instruction, hat, hname⟩ := mem_flatMap_namedIn.1 hsent
  cases hoperation : instruction.operation <;> rw [hoperation] at hname <;> try cases hname
  case actorReserve.refl =>
    obtain ⟨-, -, target, -, -, -, -, -, hlookup, -⟩ := haccepted.reserve hat hoperation
    exact ⟨target, hlookup⟩
  case actorReplyRequest.refl =>
    obtain ⟨target, hlookup, -⟩ := haccepted.request hat hoperation
    exact ⟨target, hlookup⟩

theorem ModuleAccepted.sentMethods_nodup : (sentMethods module).Nodup := by
  rw [nodup_iff_count_le_one]
  intro method
  by_cases hsent : method ∈ sentMethods module
  · obtain ⟨target, hlookup⟩ := haccepted.sent_lookup hsent
    have hid : target.id = method := id_of_lookup haccepted.functionsDense hlookup
    rw [← hid]
    exact (haccepted.dispatch (mem_of_getElem? hlookup)).2
  · rw [count_eq_zero_of_not_mem hsent]
    exact zero_le_one

end Accepted

/-- The first instruction of a method takes its messages. -/
structure ReceivesAtEntry (module : FlowWir) (actor : ActorId) (method : FunctionId)
    (target : FlowFunction) (receive : Instruction) : Prop where
  found : method.lookup module.functions = some target
  first : firstInstruction target = some receive
  receives : receive.operation = .mailboxReceive actor method

/-- Reservations are committed at once and once, with arguments that the method takes after its
state and its receipt produces; every message has one receipt and every receipt a message. -/
structure MessageDiscipline (module : FlowWir) : Prop where
  committed : ∀ {function block index instruction actor method permit},
    OccursAt module function block index instruction →
    instruction.operation = .actorReserve actor method permit →
    ∃ reservation commit arguments target receive,
      instruction.results = [reservation] ∧ block.instructions[index + 1]? = some commit ∧
      commit.operation = .actorCommit reservation arguments ∧
      (committedReservations function).count reservation = 1 ∧
      ReceivesAtEntry module actor method target receive ∧
      arguments.map (valueType function) = target.parameters.tail.map (valueType target) ∧
      receive.results.map (valueType target) = arguments.map (valueType function)
  requested : ∀ {function block index instruction actor method permit reply},
    OccursAt module function block index instruction →
    instruction.operation = .actorReplyRequest actor method permit reply →
    ∃ target receive, ReceivesAtEntry module actor method target receive ∧ receive.results = []
  sentOnce : (sentMethods module).Nodup
  receivedSent : ∀ {function block index instruction actor method},
    OccursAt module function block index instruction →
    instruction.operation = .mailboxReceive actor method → method ∈ sentMethods module

theorem ModuleAccepted.receivesAtEntry (haccepted : ModuleAccepted module) {actor : ActorId}
    {method : FunctionId} (hsent : method ∈ sentMethods module) {target : FlowFunction}
    (hlookup : method.lookup module.functions = some target)
    (hrole : target.role = .actorTurn actor) :
    ∃ receive, ReceivesAtEntry module actor method target receive ∧ receive.results = [] := by
  obtain ⟨receiver, receive, hfirst, hoperation, hreceiver, hresults⟩ :=
    haccepted.received hsent hlookup
  obtain rfl : actor = receiver := FunctionRole.actorTurn.inj (hrole.symm.trans hreceiver)
  exact ⟨receive, ⟨hlookup, hfirst, hoperation⟩, hresults⟩

/-- Every accepted module keeps the message discipline. -/
theorem accepts_messageDiscipline {limits : ValidationLimits} (h : Accepts module limits) :
    MessageDiscipline module where
  committed := by
    intro function block index instruction actor method permit hat hoperation
    obtain ⟨reservation, commit, target, state, hresults, hkind, hnext, hcommit, hlookup, hrole,
      hparameters⟩ := h.accepted.reserve hat hoperation
    have hsent : method ∈ sentMethods module :=
      mem_flatMap_namedIn.2 ⟨function, block, index, instruction, hat, by rw [hoperation]; rfl⟩
    obtain ⟨receive, hreceives, hnone⟩ := h.accepted.receivesAtEntry hsent hlookup hrole
    refine ⟨reservation, commit, [], target, receive, hresults, hnext, hcommit,
      h.accepted.delivery hat.function_mem hkind, hreceives, ?_, ?_⟩
    · rw [hparameters]
      rfl
    · rw [hnone]
      rfl
  requested := by
    intro function block index instruction actor method permit reply hat hoperation
    obtain ⟨target, hlookup, hrole⟩ := h.accepted.request hat hoperation
    have hsent : method ∈ sentMethods module :=
      mem_flatMap_namedIn.2 ⟨function, block, index, instruction, hat, by rw [hoperation]; rfl⟩
    exact ⟨target, h.accepted.receivesAtEntry hsent hlookup hrole⟩
  sentOnce := h.accepted.sentMethods_nodup
  receivedSent := by
    intro function block index instruction actor method hat hoperation
    obtain ⟨hlookup, -⟩ := h.accepted.receive hat hoperation
    have hid : function.id = method := id_of_lookup h.accepted.functionsDense hlookup
    have hreceived : method ∈ receivedMethods module :=
      mem_flatMap_namedIn.2 ⟨function, block, index, instruction, hat, by rw [hoperation]; rfl⟩
    have hcount := (h.accepted.dispatch hat.function_mem).1
    rw [hid] at hcount
    rw [← count_pos_iff, hcount]
    exact count_pos_iff.2 hreceived

theorem accepts_messageDiscipline_guardedImage :
    Accepts guardedImage .standard ∧ MessageDiscipline guardedImage := by
  have haccepts := (checkWithLimits_eq_ok guardedImage).1 checkWithLimits_guardedImage
  exact ⟨haccepts, accepts_messageDiscipline haccepts⟩

end Wrela.Validation
