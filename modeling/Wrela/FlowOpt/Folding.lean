import Wrela.Data.FixedWidth
import Wrela.Wire.Number
import Wrela.FlowOpt.Unreachable

/-!
# Constants

The scalar constants the optimizer knows and its arithmetic on them.  A machine integer of 128 bits
without a sign is a bit vector; one with a sign is an integer that was checked to be in range.
-/

namespace Wrela.FlowOpt

open Wrela.Source Wrela.Flow Wrela.Data Wrela.Wire

inductive ScalarConstant where
  | bool (value : Bool)
  | integer (signed : Bool) (bits : UInt16) (value : BitVec 128)
  | float32 (bits : UInt32)
  | float64 (bits : UInt64)
deriving DecidableEq

def integerByteWidth (bits : UInt16) : Option ℕ :=
  if bits = 0 ∨ 128 < bits then none else some ((bits.toNat + 7) / 8)

def integerMask (bits : UInt16) : Option (BitVec 128) :=
  if bits = 128 then some (BitVec.allOnes 128)
  else if 1 ≤ bits ∧ bits ≤ 127 then some ((1#128 <<< bits.toNat) - 1#128)
  else none

/-- A signed machine integer of 128 bits, when the exact value is one. -/
def checkedI128 (value : ℤ) : Option ℤ :=
  if -2 ^ 127 ≤ value ∧ value < 2 ^ 127 then some value else none

/-- An unsigned machine integer of 128 bits, when the exact value is one. -/
def checkedU128 (value : ℤ) : Option (BitVec 128) :=
  if 0 ≤ value ∧ value < 2 ^ 128 then some (BitVec.ofInt 128 value) else none

def signExtend (value : BitVec 128) (bits : UInt16) : Option ℤ := do
  let mask ← integerMask bits
  let value := value &&& mask
  if bits = 128 then
    return value.toInt
  let sign := 1#128 <<< (bits.toNat - 1)
  if value &&& sign = 0 then checkedI128 value.toNat
  else return (value ||| ~~~mask).toInt

def signedFits (value : ℤ) (bits : UInt16) : Option Bool :=
  if bits = 128 then some true
  else if 1 ≤ bits ∧ bits ≤ 127 then
    some (decide (-2 ^ (bits.toNat - 1) ≤ value) && decide (value < 2 ^ (bits.toNat - 1)))
  else none

def signedToRaw (value : ℤ) (bits : UInt16) : Option (BitVec 128) :=
  (integerMask bits).map fun mask ↦ BitVec.ofInt 128 value &&& mask

def constantFromImmediate (immediate : Immediate) (resultType : TypeId) (types : List FlowType) :
    Option ScalarConstant := do
  match immediate, ← kindOf types resultType with
  | .bool value, .scalar .bool => some (.bool value)
  | .integer bits bytesLe, .scalar (.integer signed typeBits) =>
    if bits = typeBits ∧ (← integerByteWidth bits) = bytesLe.length then
      let value := BitVec.ofNat 128 (leValue bytesLe)
      if value &&& ~~~(← integerMask bits) ≠ 0 then none
      else some (.integer signed bits value)
    else none
  | .float32 bits, .scalar .float32 => some (.float32 bits)
  | .float64 bits, .scalar .float64 => some (.float64 bits)
  | .zero ty, .scalar .bool => if ty = resultType then some (.bool false) else none
  | .zero ty, .scalar (.integer signed bits) =>
    if ty = resultType then some (.integer signed bits 0) else none
  | .zero ty, .scalar .float32 => if ty = resultType then some (.float32 0) else none
  | .zero ty, .scalar .float64 => if ty = resultType then some (.float64 0) else none
  | _, _ => none

def constantToImmediate (constant : ScalarConstant) (resultType : TypeId)
    (types : List FlowType) : Option Immediate := do
  match constant, ← kindOf types resultType with
  | .bool value, .scalar .bool => some (.bool value)
  | .integer signed bits value, .scalar (.integer resultSigned resultBits) =>
    if signed = resultSigned ∧ bits = resultBits then
      some (.integer bits (leBytes (← integerByteWidth bits) value.toNat))
    else none
  | .float32 bits, .scalar .float32 => some (.float32 bits)
  | .float64 bits, .scalar .float64 => some (.float64 bits)
  | _, _ => none

section Integer

variable (op : BinaryOp) (signed : Bool) (bits : UInt16) (left right : BitVec 128)

/-- The exact result of an arithmetic operation. -/
def exactArithmetic (left right : ℤ) : Option ℤ :=
  match op with
  | .addChecked => some (left + right)
  | .subChecked => some (left - right)
  | .mulChecked => some (left * right)
  | _ => none

def checkedIntegerArithmetic : Option (BitVec 128) := do
  if signed then
    let left ← signExtend left bits
    let right ← signExtend right bits
    let result ← (exactArithmetic op left right).bind checkedI128
    if ← signedFits result bits then signedToRaw result bits else none
  else
    let result ← (exactArithmetic op left.toNat right.toNat).bind checkedU128
    if result ≤ (← integerMask bits) then some result else none

def checkedIntegerDivision : Option (BitVec 128) := do
  if signed then
    let left ← signExtend left bits
    let right ← signExtend right bits
    if right = 0 then none
    else
      let result ← match op with
        | .divChecked => checkedI128 (left.tdiv right)
        | .remChecked => if left = -2 ^ 127 ∧ right = -1 then none else some (left.tmod right)
        | _ => none
      if op = .divChecked ∧ !(← signedFits result bits) then none
      else signedToRaw result bits
  else if right = 0 then none
  else
    match op with
    | .divChecked => some (left / right)
    | .remChecked => some (left % right)
    | _ => none

/-- The count of a shift, when it is neither negative nor past the width. -/
def shiftCount : Option ℕ := do
  let negative ← if signed then (signExtend right bits).map fun count ↦ decide (count < 0)
    else some false
  let count := right.toNat
  if negative ∨ 2 ^ 32 ≤ count ∨ bits.toNat ≤ count then none else some count

/-- Whether shifting back to the right gives what was shifted to the left. -/
def shiftRoundtrips (shifted left : BitVec 128) (count : ℕ) : Option Bool := do
  if signed then
    return decide ((← signExtend shifted bits) / 2 ^ count = (← signExtend left bits))
  else return shifted >>> count == left

def checkedIntegerShift : Option (BitVec 128) := do
  let count ← shiftCount signed bits right
  let mask ← integerMask bits
  let left := left &&& mask
  match op with
  | .shiftLeftChecked =>
    let shifted := (left <<< count) &&& mask
    if ← shiftRoundtrips signed bits shifted left count then some shifted else none
  | .shiftLeftWrapping => some ((left <<< count) &&& mask)
  | .shiftRightChecked =>
    if signed then signedToRaw ((← signExtend left bits) / 2 ^ count) bits
    else some (left >>> count)
  | _ => none

/-- The answer of an order comparison. -/
def orderComparison (left right : ℤ) : Option Bool :=
  match op with
  | .less => some (left < right)
  | .lessEqual => some (left ≤ right)
  | .greater => some (right < left)
  | .greaterEqual => some (right ≤ left)
  | _ => none

def compareInteger : Option Bool := do
  if signed then orderComparison op (← signExtend left bits) (← signExtend right bits)
  else orderComparison op left.toNat right.toNat

def foldIntegerBinary : Option ScalarConstant := do
  let mask ← integerMask bits
  let integer := fun value ↦ ScalarConstant.integer signed bits (value &&& mask)
  match op with
  | .addWrapping => some (integer (left + right))
  | .subWrapping => some (integer (left - right))
  | .mulWrapping => some (integer (left * right))
  | .bitAnd => some (integer (left &&& right))
  | .bitOr => some (integer (left ||| right))
  | .bitXor => some (integer (left ^^^ right))
  | .addChecked | .subChecked | .mulChecked =>
    (checkedIntegerArithmetic op signed bits left right).map integer
  | .divChecked | .remChecked => (checkedIntegerDivision op signed bits left right).map integer
  | .shiftLeftChecked | .shiftLeftWrapping | .shiftRightChecked =>
    (checkedIntegerShift op signed bits left right).map integer
  | .equal => some (.bool (left == right))
  | .notEqual => some (.bool (left != right))
  | .less | .lessEqual | .greater | .greaterEqual =>
    (compareInteger op signed bits left right).map .bool

end Integer

def foldUnary (op : UnaryOp) (operand : ScalarConstant) (resultType : TypeId)
    (types : List FlowType) : Option Immediate := do
  let result ← match op, operand with
    | .boolNot, .bool value => some (.bool !value)
    | .bitNot, .integer signed bits value =>
      some (.integer signed bits (~~~value &&& (← integerMask bits)))
    | .negate, .integer true bits value =>
      let negated ← checkedI128 (-(← signExtend value bits))
      if ← signedFits negated bits then
        some (.integer true bits (← signedToRaw negated bits))
      else none
    | .negate, .float32 bits => some (.float32 (bits ^^^ ((1 : UInt32) <<< 31)))
    | .negate, .float64 bits => some (.float64 (bits ^^^ ((1 : UInt64) <<< 63)))
    | _, _ => none
  constantToImmediate result resultType types

/-- The comparison of two constants that are not both integers. -/
def foldComparison (op : BinaryOp) : ScalarConstant → ScalarConstant → Option Bool
  | .bool left, .bool right =>
    match op with
    | .equal => some (left == right)
    | .notEqual => some (left != right)
    | _ => none
  | .float32 left, .float32 right => compareFloat op (float32Key left) (float32Key right)
  | .float64 left, .float64 right => compareFloat op (float64Key left) (float64Key right)
  | _, _ => none

def foldBinary (op : BinaryOp) (left right : ScalarConstant) (resultType : TypeId)
    (types : List FlowType) : Option Immediate := do
  match left, right with
  | .integer leftSigned leftBits leftValue, .integer rightSigned rightBits rightValue =>
    if leftSigned ≠ rightSigned ∨ leftBits ≠ rightBits then none
    else
      let value ← foldIntegerBinary op leftSigned leftBits leftValue rightValue
      constantToImmediate value resultType types
  | left, right =>
    let comparison ← foldComparison op left right
    constantToImmediate (.bool comparison) resultType types

/-- The constant of a value, when it is known. -/
def constant (value : ValueId) (constants : List (Option ScalarConstant)) :
    Option ScalarConstant :=
  (value.lookup constants).join

def foldOperation (operation : FlowOperation) (resultType : TypeId)
    (constants : List (Option ScalarConstant)) (types : List FlowType) : Option Immediate := do
  match operation with
  | .unary op value => foldUnary op (← constant value constants) resultType types
  | .binary op left right =>
    foldBinary op (← constant left constants) (← constant right constants) resultType types
  | .select condition thenValue elseValue =>
    match ← constant condition constants with
    | .bool condition =>
      let selected := if condition then thenValue else elseValue
      constantToImmediate (← constant selected constants) resultType types
    | _ => none
  | .cast value toType .exact =>
    if toType = resultType then constantToImmediate (← constant value constants) resultType types
    else none
  | _ => none

/-! ## Folding constants -/

open Wrela.Checked

/-- The instructions of a function in program order. -/
def functionInstructions (function : FlowFunction) : List Instruction :=
  function.blocks.flatMap Block.instructions

def functionInstructionCount (function : FlowFunction) : ℕ :=
  (function.blocks.map fun block ↦ block.instructions.length).sum

def instructionCount (functions : List FlowFunction) : ℕ :=
  (functions.map functionInstructionCount).sum

def singleResult (instruction : Instruction) : Option ValueId :=
  match instruction.results with
  | [result] => some result
  | _ => none

/-- The single result of an instruction, with its type. -/
def typedResult (function : FlowFunction) (instruction : Instruction) : Option (ValueId × TypeId) :=
  (singleResult instruction).bind fun result ↦
    (result.lookup function.values).map fun value ↦ (result, value.ty)

abbrev Constants := List (Option ScalarConstant)

def seedImmediate (function : FlowFunction) (types : List FlowType) (constants : Constants)
    (instruction : Instruction) : Constants :=
  match instruction.operation, typedResult function instruction with
  | .immediate immediate, some (result, ty) =>
    match constantFromImmediate immediate ty types with
    | some constant => constants.set result.index (some constant)
    | none => constants
  | _, _ => constants

/-- The constants of a function, before anything is folded. -/
def seedImmediates (function : FlowFunction) (types : List FlowType)
    (limits : OptimizationLimits) : Except OptimizeError Constants := do
  let constants ← filledVec function.values.length none "optimizer temporary values" limits.values
  return (functionInstructions function).foldl (seedImmediate function types) constants

/-- The immediate an instruction is folded to, unless it is one already. -/
def foldInstruction? (function : FlowFunction) (types : List FlowType) (constants : Constants)
    (instruction : Instruction) : Option (ValueId × TypeId × Immediate) :=
  match instruction.operation with
  | .immediate _ => none
  | operation => (typedResult function instruction).bind fun (result, ty) ↦
    (foldOperation operation ty constants types).map fun folded ↦ (result, ty, folded)

def hasFoldableScalarOperation (function : FlowFunction) (types : List FlowType)
    (constants : Constants) : Bool :=
  (functionInstructions function).any fun instruction ↦
    (foldInstruction? function types constants instruction).isSome

/-- Where the loop over a function stands: whether anything changed, and whether it did in this
turn. -/
structure Folding where
  constants : Constants
  sink : DecisionSink
  changed : Bool
  turnChanged : Bool

section Fold

variable (limits : OptimizationLimits) (types : List FlowType) (maximumIterations : UInt32)

def foldInstruction (function : FlowFunction) (instruction : Instruction) (folding : Folding) :
    Except OptimizeError (Instruction × Folding) :=
  match (foldInstruction? function types folding.constants instruction).bind
    fun (result, ty, folded) ↦
      (constantFromImmediate folded ty types).map fun constant ↦ (result, folded, constant) with
  | none => .ok (instruction, folding)
  | some (result, folded, constant) => do
    let sink ← folding.sink.push limits constantFoldPass
      (instructionSubject function.id instruction.id) .folded
      "replaced an exact scalar operation with its canonical immediate value" []
    return ({ instruction with operation := .immediate folded },
      ⟨folding.constants.set result.index (some constant), sink, true, true⟩)

def foldBlock (function : FlowFunction) (block : Block) (folding : Folding) :
    Except OptimizeError (Block × Folding) := do
  let (instructions, folding) ←
    threadM (foldInstruction limits types function) block.instructions folding
  return ({ block with instructions }, folding)

/-- One turn over all the blocks. -/
def foldTurn (function : FlowFunction) (folding : Folding) :
    Except OptimizeError (FlowFunction × Folding) := do
  let (blocks, folding) ←
    threadM (foldBlock limits types function) function.blocks { folding with turnChanged := false }
  return ({ function with blocks }, folding)

/-- Turns are taken until one changes nothing.  In the last one that is allowed, nothing may be left
to fold.  At least one turn is allowed. -/
def foldTurns : ℕ → ℕ → FlowFunction → Folding →
    Except OptimizeError (FlowFunction × Folding × ℕ)
  | 0, iterations, function, folding => do
    let (function, folding) ← foldTurn limits types function folding
    ensure (!(folding.turnChanged && hasFoldableScalarOperation function types folding.constants))
      (.resourceLimit "optimization iterations" maximumIterations.toUInt64)
    return (function, folding, iterations + 1)
  | remaining + 1, iterations, function, folding => do
    let (function, folding) ← foldTurn limits types function folding
    if folding.turnChanged then foldTurns remaining (iterations + 1) function folding
    else return (function, folding, iterations + 1)

/-- What the pass over the functions found so far. -/
structure FoldTotals where
  sink : DecisionSink
  changed : Bool
  iterations : ℕ

def foldFunction (function : FlowFunction) (totals : FoldTotals) :
    Except OptimizeError (FlowFunction × FoldTotals) := do
  let constants ← seedImmediates function types limits
  let (function, folding, iterations) ← foldTurns limits types maximumIterations
    (maximumIterations.toNat - 1) 0 function ⟨constants, totals.sink, totals.changed, false⟩
  return (function, ⟨folding.sink, folding.changed, max totals.iterations iterations⟩)

end Fold

def foldScalarConstants (limits : OptimizationLimits) (profile : OptimizationProfile)
    (wir : FlowWir) (sink : DecisionSink) : Except OptimizeError (FlowWir × FoldTotals) := do
  let (functions, totals) ← threadM (foldFunction limits wir.types profile.maximumIterations)
    wir.functions ⟨sink, false, 1⟩
  return ({ wir with functions }, totals)

/-- The bits a switch on a constant compares its cases with. -/
def switchBits : ScalarConstant → Option (BitVec 128)
  | .bool value => some (if value then 1 else 0)
  | .integer _ _ value => some value
  | _ => none

def selectCase (cases : List SwitchCase) (default : BlockId) (defaultArguments : List ValueId)
    (selected : BitVec 128) : Terminator :=
  match cases.find? fun case ↦ case.value == selected with
  | some case => .jump case.target case.arguments
  | none => .jump default defaultArguments

/-- The jump that takes the place of a terminator whose choice is known. -/
def chosenJump (constants : Constants) : Terminator → Option Terminator
  | .branch condition thenBlock thenArguments elseBlock elseArguments =>
    match constant condition constants with
    | some (.bool true) => some (.jump thenBlock thenArguments)
    | some (.bool false) => some (.jump elseBlock elseArguments)
    | _ => none
  | .switch value cases default defaultArguments =>
    ((constant value constants).bind switchBits).map (selectCase cases default defaultArguments)
  | _ => none

/-- A pass that records decisions, and whether it changed anything. -/
abbrev Progress := DecisionSink × Bool

def simplifyBlock (limits : OptimizationLimits) (function : FlowFunction) (constants : Constants)
    (block : Block) (progress : Progress) : Except OptimizeError (Block × Progress) :=
  match chosenJump constants block.terminator with
  | none => .ok (block, progress)
  | some terminator => do
    let sink ← progress.1.push limits controlSimplifyPass (blockSubject function.id block.id)
      .folded "replaced a constant branch or switch with its uniquely selected edge" []
    return ({ block with terminator }, sink, true)

def simplifyFunction (limits : OptimizationLimits) (types : List FlowType)
    (function : FlowFunction) (progress : Progress) :
    Except OptimizeError (FlowFunction × Progress) := do
  let constants ← seedImmediates function types limits
  let (blocks, progress) ←
    threadM (simplifyBlock limits function constants) function.blocks progress
  return ({ function with blocks }, progress)

def simplifyConstantControlFlow (limits : OptimizationLimits) (wir : FlowWir)
    (sink : DecisionSink) : Except OptimizeError (FlowWir × Progress) := do
  let (functions, progress) ←
    threadM (simplifyFunction limits wir.types) wir.functions (sink, false)
  return ({ wir with functions }, progress)

/-- The proof of a check whose condition is known to be true. -/
def provenTrueCheck (constants : Constants) : FlowOperation → Option (Option ProofId)
  | .check condition _ proof =>
    if constant condition constants = some (.bool true) then some proof else none
  | _ => none

/-- The marks of the removed instructions, the decisions, and whether there are any. -/
abbrev CheckRemoval := List Bool × DecisionSink × Bool

def removeCheck (limits : OptimizationLimits) (function : FlowFunction) (constants : Constants)
    (removal : CheckRemoval) (instruction : Instruction) : Except OptimizeError CheckRemoval :=
  match provenTrueCheck constants instruction.operation with
  | none => .ok removal
  | some proof => do
    ensure (instruction.id.index < removal.1.length)
      (.proofViolation provenTrueCheckPass "check instruction ID is not dense")
    reserveItems proof.toList.length "optimization proof links" limits.proofs.toUInt64
    let sink ← removal.2.1.push limits provenTrueCheckPass
      (instructionSubject function.id instruction.id) .removed
      "removed a check whose canonical Boolean condition proves its failure edge unreachable"
      proof.toList
    return (removal.1.set instruction.id.index true, sink, true)

def removeChecks (limits : OptimizationLimits) (types : List FlowType) (function : FlowFunction)
    (progress : Progress) : Except OptimizeError (FlowFunction × Progress) := do
  let constants ← seedImmediates function types limits
  let removed ← filledVec (functionInstructionCount function) false
    "optimizer temporary instructions" limits.instructions
  let (removed, sink, changed) ← (functionInstructions function).foldlM
    (removeCheck limits function constants) (removed, progress.1, false)
  if changed then
    let keepBlocks ←
      filledVec function.blocks.length true "optimizer temporary blocks" limits.blocks
    let function ← compactFunction function keepBlocks (some removed) limits
    return (function, sink, true)
  else return (function, sink, progress.2)

def eliminateProvenTrueChecks (limits : OptimizationLimits) (wir : FlowWir)
    (sink : DecisionSink) : Except OptimizeError (FlowWir × Progress) := do
  let (functions, progress) ← threadM (removeChecks limits wir.types) wir.functions (sink, false)
  return ({ wir with functions }, progress)

end Wrela.FlowOpt

/-!
## Removing dead instructions

An instruction whose results nobody reads is removed when it can neither trap nor be observed.  The
reads are counted; each removal takes its operands off the count and may make further instructions
dead.  What stays is recorded when it relies on a proof, or when it is dead and must not be removed.
-/

namespace Wrela.FlowOpt

open Wrela.Source Wrela.Flow Wrela.Checked

/-- The type record of a value. -/
def valueType (function : FlowFunction) (types : List FlowType) (value : ValueId) :
    Option FlowType :=
  (value.lookup function.values).bind fun record ↦ record.ty.lookup types

def removableImmediate (types : List FlowType) (immediate : Immediate) (ty : TypeId)
    (kind : FlowTypeKind) : Bool :=
  match immediate, kind with
  | .unit, .unit | .bool _, .scalar .bool | .float32 _, .scalar .float32
  | .float64 _, .scalar .float64 | .globalAddress _, .scalar .address
  | .functionAddress _, .scalar .address => true
  | .integer _ _, .scalar (.integer _ _) => (constantFromImmediate immediate ty types).isSome
  | .zero zeroType, .unit | .zero zeroType, .scalar _ => zeroType == ty
  | _, _ => false

def removableUnary : UnaryOp → FlowTypeKind → Bool
  | .boolNot, .scalar .bool | .bitNot, .scalar (.integer _ _) | .negate, .scalar .float32
  | .negate, .scalar .float64 => true
  | _, _ => false

def removableBinary (op : BinaryOp) (operandType resultType : FlowType) : Bool :=
  match op with
  | .addWrapping | .subWrapping | .mulWrapping | .bitAnd | .bitOr | .bitXor =>
    operandType.id == resultType.id &&
      match operandType.kind with
      | .scalar (.integer _ _) => true
      | _ => false
  | .equal | .notEqual | .less | .lessEqual | .greater | .greaterEqual =>
    resultType.kind == .scalar .bool &&
      match operandType.kind with
      | .scalar .bool | .scalar (.integer _ _) | .scalar .float32 | .scalar .float64 => true
      | _ => false
  | .addChecked | .subChecked | .mulChecked | .divChecked | .remChecked | .shiftLeftChecked
  | .shiftLeftWrapping | .shiftRightChecked => false

def removableOperation (function : FlowFunction) (types : List FlowType) (ty : TypeId)
    (resultType : FlowType) : FlowOperation → Bool
  | .immediate immediate => removableImmediate types immediate ty resultType.kind
  | .unary op value => (valueType function types value).any fun operandType ↦
    operandType.id == resultType.id && removableUnary op resultType.kind
  | .binary op left right => (valueType function types left).any fun leftType ↦
    (valueType function types right).any fun rightType ↦
      leftType.id == rightType.id && removableBinary op leftType resultType
  | .select condition thenValue elseValue =>
    (valueType function types condition).any (·.kind == .scalar .bool) &&
      (valueType function types thenValue).any (·.id == resultType.id) &&
      (valueType function types elseValue).any (·.id == resultType.id) &&
      match resultType.kind with
      | .unit | .scalar _ => true
      | _ => false
  | _ => false

def removableWhenDead (function : FlowFunction) (types : List FlowType)
    (instruction : Instruction) : Bool :=
  (typedResult function instruction).any fun (_, ty) ↦
    (ty.lookup types).any fun resultType ↦
      resultType.copyable && !resultType.strictLinear &&
        removableOperation function types ty resultType instruction.operation

/-- The proofs an operation relies on, as the pass lists them. -/
def listedProof : FlowOperation → Option ProofId
  | .beginAccess _ _ proof | .load _ proof | .store _ _ proof | .allocate _ _ _ proof
  | .promote _ _ proof | .actorReserve _ _ proof | .taskAcquireSlot _ proof | .checkpoint _ proof
  | .dmaTransition _ _ _ _ proof | .queueReserve _ _ proof | .validateDeviceValue _ proof =>
    some proof
  | .check _ _ proof => proof
  | _ => none

def operationProofs (operation : FlowOperation) (limits : OptimizationLimits) :
    Except OptimizeError (List ProofId) := do
  let proofs := (listedProof operation).toList
  reserveItems proofs.length "optimization proof reliance" limits.proofs.toUInt64
  return proofs

/-- The reads of each value, the instruction that defines it, and where each instruction stands. -/
structure Uses where
  counts : List ℕ
  definitions : List (Option ℕ)
  locations : List (Option (ℕ × ℕ))

/-- Count the reads of some values. -/
def chargeUses (detail : String) (values : List ValueId) (counts : List ℕ) :
    Except OptimizeError (List ℕ) := do
  ensure (values.all (·.index < counts.length)) (.proofViolation deadPurePass detail)
  return values.foldl (fun counts value ↦ counts.modify value.index (· + 1)) counts

def defineResult (instruction : Instruction) (definitions : List (Option ℕ)) (result : ValueId) :
    Except OptimizeError (List (Option ℕ)) := do
  ensure (result.index < definitions.length)
    (.proofViolation deadPurePass "instruction defines an unknown value")
  return definitions.set result.index (some instruction.id.index)

def useInstruction (block : ℕ) (uses : Uses) (instruction : Instruction × ℕ) :
    Except OptimizeError Uses := do
  ensure (instruction.1.id.index < uses.locations.length)
    (.proofViolation deadPurePass "instruction IDs are not dense")
  let locations := uses.locations.set instruction.1.id.index (some (block, instruction.2))
  let definitions ←
    instruction.1.results.foldlM (defineResult instruction.1) uses.definitions
  let counts ← chargeUses "operation use accounting overflowed" instruction.1.operation.values
    uses.counts
  return ⟨counts, definitions, locations⟩

def useBlock (uses : Uses) (block : Block × ℕ) : Except OptimizeError Uses := do
  let uses ← block.1.instructions.zipIdx.foldlM (useInstruction block.2) uses
  let counts ← chargeUses "terminator use accounting overflowed" block.1.terminator.values
    uses.counts
  return { uses with counts }

def collectUses (function : FlowFunction) (limits : OptimizationLimits) :
    Except OptimizeError Uses := do
  let counts ← filledVec function.values.length 0 "optimizer temporary values" limits.values
  let definitions ←
    filledVec function.values.length none "optimizer temporary values" limits.values
  let locations ← filledVec (functionInstructionCount function) none
    "optimizer temporary instructions" limits.instructions
  function.blocks.zipIdx.foldlM useBlock ⟨counts, definitions, locations⟩

/-- Whether no value of a list is read.  A value that is read ends the walk. -/
def allUnread (counts : List ℕ) : List ValueId → Except OptimizeError Bool
  | [] => .ok true
  | value :: values =>
    match counts[value.index]? with
    | none => proofViolation deadPurePass "instruction result is an unknown value"
    | some 0 => allUnread counts values
    | some _ => .ok false

def resultsAreDead (instruction : Instruction) (counts : List ℕ) : Except OptimizeError Bool := do
  let unread ← allUnread counts instruction.results
  return unread && !instruction.results.isEmpty

def instructionAt (function : FlowFunction) (locations : List (Option (ℕ × ℕ))) (id : ℕ) :
    Except OptimizeError Instruction := do
  let (block, instruction) ← orFail (locations.getD id none)
    (.proofViolation deadPurePass "instruction lookup failed during dead-code elimination")
  orFail ((function.blocks[block]?).bind fun block ↦ block.instructions[instruction]?)
    (.proofViolation deadPurePass
      "instruction location was not stable during dead-code elimination")

/-- The instructions still to be looked at, the one pushed last at the end. -/
structure Worklist where
  counts : List ℕ
  removed : List Bool
  queued : List Bool
  pending : List ℕ

section Removal

variable (function : FlowFunction) (types : List FlowType) (uses : Uses)

/-- Removable and dead, as far as the reads are counted now. -/
def isDead (instruction : Instruction) (counts : List ℕ) : Except OptimizeError Bool := do
  if removableWhenDead function types instruction then resultsAreDead instruction counts
  else return false

/-- The instructions that are dead from the start. -/
def queueDead (worklist : Worklist) (instruction : Instruction) :
    Except OptimizeError Worklist := do
  if ← isDead function types instruction worklist.counts then
    return { worklist with
      queued := worklist.queued.set instruction.id.index true
      pending := worklist.pending ++ [instruction.id.index] }
  else return worklist

/-- A read of a removed instruction is taken off the count. -/
def releaseUse (counts : List ℕ) (operand : ValueId) : Except OptimizeError (List ℕ) := do
  ensure (counts.getD operand.index 0 != 0)
    (.proofViolation deadPurePass "dead-instruction operand use accounting underflowed")
  return counts.modify operand.index (· - 1)

/-- The instruction that defines an operand is queued when it has become dead. -/
def queueDefinition (worklist : Worklist) (operand : ValueId) : Except OptimizeError Worklist :=
  match worklist.counts[operand.index]?, uses.definitions.getD operand.index none with
  | some 0, some definition =>
    match worklist.queued[definition]? with
    | none => proofViolation deadPurePass "dead-instruction dependency lookup failed"
    | some true => .ok worklist
    | some false =>
      match (do
        let instruction ← instructionAt function uses.locations definition
        let dead ← resultsAreDead instruction worklist.counts
        return removableWhenDead function types instruction && dead) with
      | .error _ => proofViolation deadPurePass "dead-instruction dependency lookup failed"
      | .ok false => .ok worklist
      | .ok true => .ok { worklist with
          queued := worklist.queued.set definition true
          pending := worklist.pending ++ [definition] }
  | _, _ => .ok worklist

/-- One turn of the loop, with the instruction that was popped. -/
def removeInstruction (worklist : Worklist) (id : ℕ) : Except OptimizeError Worklist :=
  match worklist.removed[id]? with
  | none => proofViolation deadPurePass "dead-instruction worklist contains an unknown instruction"
  | some true => .ok worklist
  | some false => do
    let instruction ← instructionAt function uses.locations id
    if ← isDead function types instruction worklist.counts then
      let counts ← instruction.operation.values.foldlM releaseUse worklist.counts
      instruction.operation.values.foldlM (queueDefinition function types uses)
        { worklist with counts, removed := worklist.removed.set id true }
    else return worklist

/-- So many turns of the loop. -/
def removeTurns : ℕ → Worklist → Except OptimizeError Worklist
  | 0, worklist => .ok worklist
  | turns + 1, worklist =>
    match worklist.pending.getLast? with
    | none => .ok worklist
    | some id => do
      let next ← removeInstruction function types uses
        { worklist with pending := worklist.pending.dropLast } id
      removeTurns turns next

end Removal

/-- What the worklist leaves: the marks of the removed instructions and the reads that remain.  An
instruction is queued at most once after the start. -/
def removeDead (function : FlowFunction) (types : List FlowType) (limits : OptimizationLimits) :
    Except OptimizeError Worklist := do
  let uses ← collectUses function limits
  let removed ← filledVec (functionInstructionCount function) false
    "optimizer temporary instructions" limits.instructions
  let worklist ← (functionInstructions function).foldlM (queueDead function types)
    ⟨uses.counts, removed, removed, []⟩
  removeTurns function types uses (worklist.queued.count false + worklist.pending.length) worklist

def observableJustification : String :=
  "retained a result-dead operation because it may trap or has observable ownership, memory, " ++
    "runtime, or device effects"

/-- An instruction without a proof is recorded when it is dead and has to stay. -/
def recordUnproven (function : FlowFunction) (types : List FlowType) (limits : OptimizationLimits)
    (counts : List ℕ) (sink : DecisionSink) (instruction : Instruction) :
    Except OptimizeError DecisionSink := do
  if instruction.results.isEmpty then return sink
  let dead ← resultsAreDead instruction counts
  if dead && !removableWhenDead function types instruction then
    sink.push limits deadPurePass (instructionSubject function.id instruction.id) .retained
      observableJustification []
  else return sink

def recordInstruction (function : FlowFunction) (types : List FlowType)
    (limits : OptimizationLimits) (worklist : Worklist) (sink : DecisionSink)
    (instruction : Instruction) : Except OptimizeError DecisionSink := do
  if worklist.removed.getD instruction.id.index false then
    sink.push limits deadPurePass (instructionSubject function.id instruction.id) .removed
      "removed a result-dead scalar instruction proven free of traps and observable effects" []
  else
    let proofs ← operationProofs instruction.operation limits
    if proofs.isEmpty then
      recordUnproven function types limits worklist.counts sink instruction
    else
      sink.push limits deadPurePass (instructionSubject function.id instruction.id) .retained
        "retained a proof-constrained operation without changing its safety obligation" proofs

def removeDeadInstructions (limits : OptimizationLimits) (types : List FlowType)
    (function : FlowFunction) (progress : Progress) :
    Except OptimizeError (FlowFunction × Progress) := do
  let worklist ← removeDead function types limits
  let sink ← (functionInstructions function).foldlM
    (recordInstruction function types limits worklist) progress.1
  if (functionInstructions function).any
      fun instruction ↦ worklist.removed.getD instruction.id.index false then
    let keepBlocks ←
      filledVec function.blocks.length true "optimizer temporary blocks" limits.blocks
    let function ← compactFunction function keepBlocks (some worklist.removed) limits
    return (function, sink, true)
  else return (function, sink, progress.2)

def eliminateDeadPureInstructions (limits : OptimizationLimits) (wir : FlowWir)
    (sink : DecisionSink) : Except OptimizeError (FlowWir × Progress) := do
  let (functions, progress) ←
    threadM (removeDeadInstructions limits wir.types) wir.functions (sink, false)
  return ({ wir with functions }, progress)

end Wrela.FlowOpt
