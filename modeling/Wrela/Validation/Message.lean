import Wrela.Validation.ControlFlow

/-!
# Actor messages

A message is a reservation made and committed in two adjacent instructions, or a request whose
reply is resolved once.  The module is traversed once in program order; what has been sent,
received, requested and resolved so far is threaded through the traversal.
-/

namespace Wrela.Validation

open Wrela.Source Wrela.Flow

/-! ## Threading a traversal -/

/-- The reports of a traversal that carries a state along. -/
def reportsFrom {σ α : Type} (check : σ → α → Report) (next : σ → α → σ) : σ → List α → Report
  | _, [] => []
  | state, item :: items => check state item ++ reportsFrom check next (next state item) items

/-- A traversal reports nothing when no item does, each in the state its predecessors leave. -/
theorem reportsFrom_eq_nil {σ α : Type} {check : σ → α → Report} {next : σ → α → σ} {state : σ}
    {items : List α} :
    reportsFrom check next state items = [] ↔
      ∀ before item after, items = before ++ item :: after →
        check (before.foldl next state) item = [] := by
  induction items generalizing state with
  | nil => simp [reportsFrom]
  | cons first items ih =>
    rw [reportsFrom, List.append_eq_nil_iff, ih]
    constructor
    · rintro ⟨hfirst, hrest⟩ before item after heq
      cases before with
      | nil =>
        obtain ⟨rfl, -⟩ := List.cons.inj heq
        exact hfirst
      | cons head before =>
        obtain ⟨rfl, htail⟩ := List.cons.inj heq
        exact hrest before item after htail
    · intro h
      refine ⟨h [] first items rfl, fun before item after heq ↦ ?_⟩
      exact h (first :: before) item after (by rw [heq, List.cons_append])

theorem exists_check_eq_nil {σ α : Type} {check : σ → α → Report} {next : σ → α → σ} {state : σ}
    {items : List α} (h : reportsFrom check next state items = []) {item : α}
    (hmem : item ∈ items) : ∃ before, check before item = [] := by
  obtain ⟨before, after, rfl⟩ := List.append_of_mem hmem
  exact ⟨_, reportsFrom_eq_nil.1 h before item after rfl⟩

/-- The methods each kind of message operation has named so far. -/
structure Dispatch where
  incoming : List FunctionId
  receives : List FunctionId
  replyIncoming : List FunctionId
  replyResolves : List FunctionId

def Dispatch.empty : Dispatch := ⟨[], [], [], []⟩

variable (module : FlowWir)

/-- The first mention of a method that exists. -/
def firstMention (mentioned : List FunctionId) (method : FunctionId) : Bool :=
  method.index < module.functions.length && !mentioned.contains method

section Instructions

variable (function : FlowFunction) (block : Block)

def Dispatch.record (function : FlowFunction) (dispatch : Dispatch) (instruction : Instruction) :
    Dispatch :=
  match instruction.operation with
  | .actorReserve _ method _ => { dispatch with incoming := method :: dispatch.incoming }
  | .actorReplyRequest _ method _ _ =>
    { dispatch with
      incoming := method :: dispatch.incoming
      replyIncoming := method :: dispatch.replyIncoming }
  | .actorReplyResolve _ _ =>
    { dispatch with replyResolves := function.id :: dispatch.replyResolves }
  | .mailboxReceive _ method => { dispatch with receives := method :: dispatch.receives }
  | _ => dispatch

/-- The capacity proof of the one image region an actor owns. -/
def actorMailboxProof (actor : ActorId) : Option ProofId :=
  match module.regions.filter fun region ↦ region.owner == .actor actor && region.class_ == .image with
  | [region] => some region.capacityProof
  | _ => none

/-- The supervisor of the task a function runs. -/
def taskSupervisor (task : TaskId) : Option ActorId :=
  ((task.lookup module.tasks).filter (·.id == task)).bind TaskPlan.supervisor

/-- The actor on whose behalf a function sends. -/
def sendingActor : Option ActorId :=
  match function.role with
  | .taskEntry task => taskSupervisor module task
  | .actorTurn actor => some actor
  | _ => none

def reserveTarget (actor : ActorId) (method : FunctionId) : Option FlowFunction :=
  (method.lookup module.functions).filter fun target ↦
    target.id == method && target.role == .actorTurn actor && target.color == .async

/-- The method takes the actor's state and nothing else. -/
def takesOnlyState (actor : ActorId) (target : FlowFunction) : Bool :=
  match target.parameters with
  | [state] => flowValueType target state == (actor.lookup module.actors).map ActorPlan.stateType
  | _ => false

def permitMatches (instruction : Instruction) (actor : ActorId) (permit : ProofId) : Bool :=
  (permit.lookup module.proofs).any fun proof ↦
    proof.id == permit && proof.kind == .capacityBound && proof.bound == some 1 &&
      instruction.source.any (fun source ↦ proof.sources == [source]) &&
      (actorMailboxProof module actor).any (fun mailbox ↦ proof.dependsOn == [mailbox]) &&
      function.proofs.contains permit

/-- The instruction after a reservation commits it, without arguments. -/
def immediatelyCommitted (index : ℕ) (instruction : Instruction) : Bool :=
  instruction.results.head?.any fun reservation ↦ (block.instructions[index + 1]?).any fun next ↦
    match next.operation with
    | .actorCommit committed arguments =>
      next.results.isEmpty && committed == reservation && arguments.isEmpty &&
        next.source == instruction.source
    | _ => false

def priorInstruction (index : ℕ) : Option Instruction :=
  if index = 0 then none else block.instructions[index - 1]?

/-- The one message that may cross actors: from the second of two actors to the first, through a
capability taken right before. -/
def crossActor (index : ℕ) (actor : ActorId) : Bool :=
  module.actors.length == 2 && sendingActor module function == some ⟨1⟩ && actor == ⟨0⟩ &&
    (priorInstruction block index).any fun prior ↦
      match prior.operation with
      | .actorCapability capabilityActor wiring =>
        capabilityActor == actor &&
          singleResult prior (isCapabilityValue module function actor) &&
          (wiring.lookup module.proofs).any isWiringProof
      | _ => false

def validateReserve (dispatch : Dispatch) (index : ℕ) (instruction : Instruction) (actor : ActorId)
    (method : FunctionId) (permit : ProofId) : Report :=
  let target := reserveTarget module actor method
  reportIf
    (!(instruction.results.head?.any (isReservationValue module function) &&
      (sendingActor module function == some actor || crossActor module function block index actor) &&
      target.any (fun target ↦ takesOnlyState module actor target && target.resultTypes.isEmpty) &&
      permitMatches module function instruction actor permit &&
      immediatelyCommitted block index instruction &&
      firstMention module dispatch.incoming method))
    (.invalidRecord "actor reserve contract" instruction.id.val)

/-- The method whose reservation a commit follows. -/
def commitTarget (index : ℕ) (instruction : Instruction) (reservation : ValueId) :
    Option FlowFunction :=
  (priorInstruction block index).bind fun prior ↦
    match prior.operation with
    | .actorReserve _ method _ =>
      if prior.results == [reservation] && prior.source == instruction.source then
        method.lookup module.functions
      else none
    | _ => none

def validateCommit (index : ℕ) (instruction : Instruction) (reservation : ValueId)
    (arguments : List ValueId) : Report :=
  reportIf
    (!(instruction.results.isEmpty && isReservationValue module function reservation &&
      arguments.isEmpty &&
      (commitTarget module block index instruction reservation).any fun target ↦
        target.parameters.length == 1 && target.resultTypes.isEmpty))
    (.invalidRecord "actor commit contract" instruction.id.val)

def exactReplyTarget (actor : ActorId) (method : FunctionId) : Bool :=
  (method.lookup module.functions).any fun target ↦
    target.role == .actorTurn actor && target.color == .async && takesOnlyState module actor target &&
      match target.resultTypes with
      | [result] => (result.lookup module.types).any (·.kind == u64Kind)
      | _ => false

def exactCapability (index : ℕ) (actor : ActorId) : Bool :=
  (priorInstruction block index).any fun prior ↦
    match prior.operation with
    | .actorCapability capabilityActor _ => capabilityActor == actor
    | _ => false

def replyMatches (method : FunctionId) (permit reply : ProofId) : Bool :=
  (reply.lookup module.proofs).any fun proof ↦
    isReplyProof proof && (replyDependencies module method permit).any (proof.dependsOn == ·) &&
      function.proofs.contains reply

def requestingActor : Option ActorId :=
  match function.role with
  | .taskEntry task => taskSupervisor module task
  | _ => none

def validateRequest (dispatch : Dispatch) (index : ℕ) (instruction : Instruction) (actor : ActorId)
    (method : FunctionId) (permit reply : ProofId) : Report :=
  reportIf
    (!(module.actors.length == 2 && requestingActor module function == some ⟨1⟩ && actor == ⟨0⟩ &&
      singleResult instruction (fun result ↦
        ((flowValueType function result).bind fun ty ↦ ty.lookup module.types).any
          (·.kind == u64Kind)) &&
      exactReplyTarget module actor method && exactCapability block index actor &&
      ((permit.lookup module.proofs).any fun proof ↦
        proof.kind == .capacityBound && proof.bound == some 1 && function.proofs.contains permit) &&
      replyMatches module function method permit reply &&
      firstMention module dispatch.incoming method &&
      firstMention module dispatch.replyIncoming method))
    (.invalidRecord "actor reply request contract" instruction.id.val)

def isActorTurn : FunctionRole → Bool
  | .actorTurn _ => true
  | _ => false

def validateResolve (dispatch : Dispatch) (instruction : Instruction) (outcome : ValueId)
    (reply : ProofId) : Report :=
  reportIf
    (!(instruction.results.isEmpty && isActorTurn function.role &&
      (match function.resultTypes with
        | [result] => flowValueType function outcome == some result
        | _ => false) &&
      (reply.lookup module.proofs).any isReplyProof &&
      firstMention module dispatch.replyResolves function.id))
    (.invalidRecord "actor reply resolve contract" instruction.id.val)

def validateReceive (dispatch : Dispatch) (index : ℕ) (instruction : Instruction) (actor : ActorId)
    (method : FunctionId) : Report :=
  reportIf
    (!(instruction.results.isEmpty && function.id == method && function.role == .actorTurn actor &&
      (block.id == function.entry && index == 0) &&
      firstMention module dispatch.receives method))
    (.invalidRecord "mailbox receive contract" instruction.id.val)

/-- Reservations and capabilities must not be used anywhere else. -/
def escapes (kind : String) (values : List ValueId) : Report :=
  (values.find? fun value ↦ isReservationValue module function value ||
    isActorCapabilityValue module function value).toList.flatMap fun value ↦
      [.invalidRecord kind value.val]

def isActorReserve : FlowOperation → Bool
  | .actorReserve _ _ _ => true
  | _ => false

def validateMessageInstruction (dispatch : Dispatch) (index : ℕ) (instruction : Instruction) :
    Report :=
  (instruction.results.flatMap fun result ↦
    reportIf (isReservationValue module function result &&
        !(isActorReserve instruction.operation && instruction.results.length == 1))
      (.invalidRecord "actor reservation definition" result.val)) ++
  match instruction.operation with
  | .actorReserve actor method permit =>
    validateReserve module function block dispatch index instruction actor method permit
  | .actorCommit reservation arguments =>
    validateCommit module function block index instruction reservation arguments
  | .actorReplyRequest actor method permit reply =>
    validateRequest module function block dispatch index instruction actor method permit reply
  | .actorReplyResolve outcome reply =>
    validateResolve module function dispatch instruction outcome reply
  | .mailboxReceive actor method =>
    validateReceive module function block dispatch index instruction actor method
  | operation => escapes module function "actor reservation operation escape" operation.values

end Instructions

section Functions

variable (function : FlowFunction)

def validateMessageBlock (dispatch : Dispatch) (block : Block) : Report :=
  (block.parameters.flatMap fun parameter ↦
    reportIf (isReservationValue module function parameter)
      (.invalidRecord "actor reservation block parameter" parameter.val)) ++
  reportsFrom (fun dispatch (item : Instruction × ℕ) ↦
      validateMessageInstruction module function block dispatch item.2 item.1)
    (fun dispatch item ↦ dispatch.record function item.1) dispatch block.instructions.zipIdx ++
  escapes module function "actor reservation terminator escape" block.terminator.values

def Dispatch.recordBlock (function : FlowFunction) (dispatch : Dispatch) (block : Block) :
    Dispatch :=
  block.instructions.foldl (Dispatch.record function) dispatch

/-- The reservations an instruction properly defines. -/
def reservationDefinitions (instruction : Instruction) : List ValueId :=
  match instruction.results with
  | [result] =>
    if isActorReserve instruction.operation && isReservationValue module function result then
      [result] else []
  | _ => []

def committedReservation (instruction : Instruction) : Option ValueId :=
  match instruction.operation with
  | .actorCommit reservation _ => some reservation
  | _ => none

/-- Every reservation of the function is defined once and committed once. -/
def validateReservationDelivery : Report :=
  let definitions := function.blocks.flatMap fun block ↦
    block.instructions.flatMap (reservationDefinitions module function)
  let commits := function.blocks.flatMap fun block ↦
    block.instructions.filterMap committedReservation
  function.values.flatMap fun value ↦
    reportIf
      (isReservationValue module function value.id &&
        !(value.id.index < function.values.length && definitions.count value.id == 1 &&
          commits.count value.id == 1))
      (.invalidRecord "actor reservation delivery" value.id.val)

def validateMessageFunction (dispatch : Dispatch) : Report :=
  (function.parameters.flatMap fun parameter ↦
    reportIf (isReservationValue module function parameter)
      (.invalidRecord "actor reservation function parameter" parameter.val)) ++
  reportsFrom (validateMessageBlock module function) (Dispatch.recordBlock function) dispatch
    function.blocks ++
  validateReservationDelivery module function

def Dispatch.recordFunction (dispatch : Dispatch) (function : FlowFunction) : Dispatch :=
  function.blocks.foldl (Dispatch.recordBlock function) dispatch

/-- How often a method was mentioned, for methods that exist. -/
def mentions (mentioned : List FunctionId) : ℕ :=
  if function.id.index < module.functions.length then mentioned.count function.id else 0

def validateMailboxDispatch (dispatch : Dispatch) : Report :=
  let expected := mentions module function dispatch.incoming
  let actual := mentions module function dispatch.receives
  let expectedReplies := mentions module function dispatch.replyIncoming
  let actualReplies := mentions module function dispatch.replyResolves
  if isActorTurn function.role then
    reportIf (expected != actual || expected > 1 || expectedReplies != actualReplies ||
        expectedReplies > 1)
      (.invalidRecord "actor mailbox dispatch contract" function.id.val)
  else
    reportIf (expected != 0 || actual != 0)
      (.invalidRecord "actor mailbox dispatch target" function.id.val)

end Functions

def reservationTypeCount : ℕ := (module.types.filter (·.kind == .reservation)).length

def reserveCount : ℕ :=
  ((instructionSites module).filter fun site ↦ isActorReserve site.2.operation).length

def validateReservationTypeSet : Report :=
  let reserves := reserveCount module
  let types := reservationTypeCount module
  reportIf
    ((reserves == 0 && types != 0) ||
      (reserves != 0 && (!(reserves == 1 || reserves == 2) || types != 1)))
    (.invalidRecord "actor reservation type set" (UInt32.ofNat (min types 255)))

def validateActorMessageContract : Report :=
  let dispatch := module.functions.foldl Dispatch.recordFunction .empty
  reportsFrom (fun dispatch function ↦ validateMessageFunction module function dispatch)
    Dispatch.recordFunction .empty module.functions ++
  validateReservationTypeSet module ++
  module.functions.flatMap fun function ↦ validateMailboxDispatch module function dispatch

end Wrela.Validation
