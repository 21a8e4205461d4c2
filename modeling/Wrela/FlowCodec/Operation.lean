import Wrela.FlowCodec.Mirrors

/-!
# Types, operations and terminators on the wire

Every constructor has a stable tag, followed by its fields in order.
-/

namespace Wrela.FlowCodec

open Wrela.Source Wrela.Flow Wrela.Wire

variable (limits : CodecLimits)

/-! ## Enumerations without fields -/

def unaryOpTag : UnaryOp → UInt8
  | .negate => 0
  | .boolNot => 1
  | .bitNot => 2

def unaryOpOfTag : UInt8 → Option UnaryOp
  | 0 => some .negate
  | 1 => some .boolNot
  | 2 => some .bitNot
  | _ => none

def binaryOpTag : BinaryOp → UInt8
  | .addChecked => 0
  | .addWrapping => 1
  | .subChecked => 2
  | .subWrapping => 3
  | .mulChecked => 4
  | .mulWrapping => 5
  | .divChecked => 6
  | .remChecked => 7
  | .bitAnd => 8
  | .bitOr => 9
  | .bitXor => 10
  | .shiftLeftChecked => 11
  | .shiftRightChecked => 12
  | .equal => 13
  | .notEqual => 14
  | .less => 15
  | .lessEqual => 16
  | .greater => 17
  | .greaterEqual => 18
  | .shiftLeftWrapping => 19

def binaryOpOfTag : UInt8 → Option BinaryOp
  | 0 => some .addChecked
  | 1 => some .addWrapping
  | 2 => some .subChecked
  | 3 => some .subWrapping
  | 4 => some .mulChecked
  | 5 => some .mulWrapping
  | 6 => some .divChecked
  | 7 => some .remChecked
  | 8 => some .bitAnd
  | 9 => some .bitOr
  | 10 => some .bitXor
  | 11 => some .shiftLeftChecked
  | 12 => some .shiftRightChecked
  | 13 => some .equal
  | 14 => some .notEqual
  | 15 => some .less
  | 16 => some .lessEqual
  | 17 => some .greater
  | 18 => some .greaterEqual
  | 19 => some .shiftLeftWrapping
  | _ => none

def castModeTag : CastMode → UInt8
  | .checked => 0
  | .exact => 1
  | .bitcast => 2

def castModeOfTag : UInt8 → Option CastMode
  | 0 => some .checked
  | 1 => some .exact
  | 2 => some .bitcast
  | _ => none

def accessKindTag : AccessKind → UInt8
  | .read => 0
  | .mutate => 1
  | .take => 2

def accessKindOfTag : UInt8 → Option AccessKind
  | 0 => some .read
  | 1 => some .mutate
  | 2 => some .take
  | _ => none

def dmaOwnershipTag : DmaOwnership → UInt8
  | .cpu => 0
  | .prepared => 1
  | .device => 2
  | .completed => 3
  | .quarantined => 4

def dmaOwnershipOfTag : UInt8 → Option DmaOwnership
  | 0 => some .cpu
  | 1 => some .prepared
  | 2 => some .device
  | 3 => some .completed
  | 4 => some .quarantined
  | _ => none

def fenceKindTag : FenceKind → UInt8
  | .acquire => 0
  | .release => 1
  | .acquireRelease => 2
  | .deviceRead => 3
  | .deviceWrite => 4
  | .deviceFull => 5

def fenceKindOfTag : UInt8 → Option FenceKind
  | 0 => some .acquire
  | 1 => some .release
  | 2 => some .acquireRelease
  | 3 => some .deviceRead
  | 4 => some .deviceWrite
  | 5 => some .deviceFull
  | _ => none

def failureKindTag : FailureKind → UInt8
  | .bounds => 0
  | .arithmetic => 1
  | .conversion => 2
  | .capacity => 3
  | .generation => 4
  | .dmaState => 5
  | .deviceValue => 6
  | .cancellation => 7
  | .deadline => 8
  | .peerFailure => 9
  | .taskFailure => 10
  | .fatalTarget => 11

def failureKindOfTag : UInt8 → Option FailureKind
  | 0 => some .bounds
  | 1 => some .arithmetic
  | 2 => some .conversion
  | 3 => some .capacity
  | 4 => some .generation
  | 5 => some .dmaState
  | 6 => some .deviceValue
  | 7 => some .cancellation
  | 8 => some .deadline
  | 9 => some .peerFailure
  | 10 => some .taskFailure
  | 11 => some .fatalTarget
  | _ => none

namespace Writer

def unaryOp (value : UnaryOp) : Writer Unit := u8 limits (unaryOpTag value)
def binaryOp (value : BinaryOp) : Writer Unit := u8 limits (binaryOpTag value)
def castMode (value : CastMode) : Writer Unit := u8 limits (castModeTag value)
def accessKind (value : AccessKind) : Writer Unit := u8 limits (accessKindTag value)
def dmaOwnership (value : DmaOwnership) : Writer Unit := u8 limits (dmaOwnershipTag value)
def fenceKind (value : FenceKind) : Writer Unit := u8 limits (fenceKindTag value)
def failureKind (value : FailureKind) : Writer Unit := u8 limits (failureKindTag value)

end Writer

namespace Reader

def unaryOp : Reader UnaryOp := tagged "UnaryOp" unaryOpOfTag
def binaryOp : Reader BinaryOp := tagged "BinaryOp" binaryOpOfTag
def castMode : Reader CastMode := tagged "CastMode" castModeOfTag
def accessKind : Reader AccessKind := tagged "AccessKind" accessKindOfTag
def dmaOwnership : Reader DmaOwnership := tagged "DmaOwnership" dmaOwnershipOfTag
def fenceKind : Reader FenceKind := tagged "FenceKind" fenceKindOfTag
def failureKind : Reader FailureKind := tagged "FailureKind" failureKindOfTag

end Reader

instance mirrors_unaryOp : Mirrors limits (Writer.unaryOp limits) Reader.unaryOp :=
  mirrors_tagged limits (by intro value; cases value <;> rfl)
    (by intro byte value h; unfold unaryOpOfTag at h; split at h <;> cases h <;> rfl)

instance mirrors_binaryOp : Mirrors limits (Writer.binaryOp limits) Reader.binaryOp :=
  mirrors_tagged limits (by intro value; cases value <;> rfl)
    (by intro byte value h; unfold binaryOpOfTag at h; split at h <;> cases h <;> rfl)

instance mirrors_castMode : Mirrors limits (Writer.castMode limits) Reader.castMode :=
  mirrors_tagged limits (by intro value; cases value <;> rfl)
    (by intro byte value h; unfold castModeOfTag at h; split at h <;> cases h <;> rfl)

instance mirrors_accessKind : Mirrors limits (Writer.accessKind limits) Reader.accessKind :=
  mirrors_tagged limits (by intro value; cases value <;> rfl)
    (by intro byte value h; unfold accessKindOfTag at h; split at h <;> cases h <;> rfl)

instance mirrors_dmaOwnership : Mirrors limits (Writer.dmaOwnership limits) Reader.dmaOwnership :=
  mirrors_tagged limits (by intro value; cases value <;> rfl)
    (by intro byte value h; unfold dmaOwnershipOfTag at h; split at h <;> cases h <;> rfl)

instance mirrors_fenceKind : Mirrors limits (Writer.fenceKind limits) Reader.fenceKind :=
  mirrors_tagged limits (by intro value; cases value <;> rfl)
    (by intro byte value h; unfold fenceKindOfTag at h; split at h <;> cases h <;> rfl)

instance mirrors_failureKind : Mirrors limits (Writer.failureKind limits) Reader.failureKind :=
  mirrors_tagged limits (by intro value; cases value <;> rfl)
    (by intro byte value h; unfold failureKindOfTag at h; split at h <;> cases h <;> rfl)

namespace Writer

def scalarType : ScalarType → Writer Unit
  | .bool => u8 limits 0
  | .integer signed bits => do
    u8 limits 1
    bool limits signed
    u16 limits bits
  | .float32 => u8 limits 2
  | .float64 => u8 limits 3
  | .address => u8 limits 4
  | .character => u8 limits 5

/-- The variants of an enum nest one vector in another. -/
def variants (value : List (List TypeId)) : Writer Unit :=
  if limits.nestingDepth < 2 then
    fail (.resourceLimit "nesting depth" limits.nestingDepth.toUInt64 2)
  else vector limits .general (idVector limits) value

def typeKind : FlowTypeKind → Writer Unit
  | .unit => u8 limits 0
  | .scalar value => do
    u8 limits 1
    scalarType limits value
  | .tuple values => do
    u8 limits 2
    idVector limits values
  | .array element length => do
    u8 limits 3
    id limits element
    u64 limits length
  | .struct fields => do
    u8 limits 4
    idVector limits fields
  | .enum values => do
    u8 limits 5
    variants limits values
  | .function parameters result => do
    u8 limits 6
    idVector limits parameters
    id limits result
  | .regionHandle region => do
    u8 limits 7
    id limits region
  | .poolHandle pool => do
    u8 limits 8
    id limits pool
  | .actorHandle actor => do
    u8 limits 9
    id limits actor
  | .taskHandle task => do
    u8 limits 10
    id limits task
  | .reservation => u8 limits 11
  | .receipt payload error => do
    u8 limits 12
    id limits payload
    id limits error
  | .dmaToken pool payload => do
    u8 limits 13
    id limits pool
    id limits payload
  | .opaqueTarget name => do
    u8 limits 14
    string limits name
  | .activation result => do
    u8 limits 15
    id limits result
  | .staticString bytes => do
    u8 limits 16
    u64 limits bytes
  | .boundedString capacity => do
    u8 limits 17
    u64 limits capacity
  | .staticBytes bytes => do
    u8 limits 18
    u64 limits bytes

def flowType (value : FlowType) : Writer Unit := do
  id limits value.id
  typeKind limits value.kind
  option limits (string limits) value.name
  bool limits value.copyable
  bool limits value.strictLinear

end Writer

namespace Reader

def scalarType : Reader ScalarType := do
  match ← u8 with
  | 0 => pure .bool
  | 1 => do
    let signed ← bool
    let bits ← u16
    pure (.integer signed bits)
  | 2 => pure .float32
  | 3 => pure .float64
  | 4 => pure .address
  | 5 => pure .character
  | tag => fail (invalidTag "ScalarType" tag)

def variants : Reader (List (List TypeId)) :=
  if limits.nestingDepth < 2 then
    fail (.resourceLimit "nesting depth" limits.nestingDepth.toUInt64 2)
  else vector limits .general (idVector limits)

def typeKind : Reader FlowTypeKind := do
  match ← u8 with
  | 0 => pure .unit
  | 1 => do
    let value ← scalarType
    pure (.scalar value)
  | 2 => do
    let values ← idVector limits
    pure (.tuple values)
  | 3 => do
    let element ← id
    let length ← u64
    pure (.array element length)
  | 4 => do
    let fields ← idVector limits
    pure (.struct fields)
  | 5 => do
    let values ← variants limits
    pure (.enum values)
  | 6 => do
    let parameters ← idVector limits
    let result ← id
    pure (.function parameters result)
  | 7 => do
    let region ← id
    pure (.regionHandle region)
  | 8 => do
    let pool ← id
    pure (.poolHandle pool)
  | 9 => do
    let actor ← id
    pure (.actorHandle actor)
  | 10 => do
    let task ← id
    pure (.taskHandle task)
  | 11 => pure .reservation
  | 12 => do
    let payload ← id
    let error ← id
    pure (.receipt payload error)
  | 13 => do
    let pool ← id
    let payload ← id
    pure (.dmaToken pool payload)
  | 14 => do
    let name ← string limits
    pure (.opaqueTarget name)
  | 15 => do
    let result ← id
    pure (.activation result)
  | 16 => do
    let bytes ← u64
    pure (.staticString bytes)
  | 17 => do
    let capacity ← u64
    pure (.boundedString capacity)
  | 18 => do
    let bytes ← u64
    pure (.staticBytes bytes)
  | tag => fail (invalidTag "FlowTypeKind" tag)

def flowType : Reader FlowType := do
  let id ← id
  let kind ← typeKind limits
  let name ← option (string limits)
  let copyable ← bool
  let strictLinear ← bool
  pure ⟨id, kind, name, copyable, strictLinear⟩

end Reader

instance mirrors_scalarType : Mirrors limits (Writer.scalarType limits) Reader.scalarType where
  emits value := by
    cases value
    all_goals first
      | exact emitsTag limits rfl
      | exact emitsField limits (emitsField limits (emitsLast limits rfl))
  absorbs := by
    refine AbsorbsAfter.start (absorbsField fun tag ↦ ?_)
    split
    all_goals repeat first
      | exact AbsorbsAfter.rejected
      | exact AbsorbsAfter.done (by simp [Writer.scalarType])
      | refine absorbsField fun _ ↦ ?_

instance mirrors_variants : Mirrors limits (Writer.variants limits) (Reader.variants limits) where
  emits value := by
    unfold Writer.variants Reader.variants
    split
    · exact Emits.refused _ _ _
    · exact (mirrors_vector limits).emits value
  absorbs := by
    unfold Writer.variants Reader.variants
    split
    · exact AbsorbsAfter.start AbsorbsAfter.rejected
    · exact (mirrors_vector limits).absorbs

instance mirrors_typeKind : Mirrors limits (Writer.typeKind limits) (Reader.typeKind limits) where
  emits value := by
    cases value
    all_goals first
      | exact emitsTag limits rfl
      | repeat first | exact emitsLast limits rfl | refine emitsField limits ?_
  absorbs := by
    refine AbsorbsAfter.start (absorbsField fun tag ↦ ?_)
    split
    all_goals repeat first
      | exact AbsorbsAfter.rejected
      | exact AbsorbsAfter.done (by simp [Writer.typeKind])
      | refine absorbsField fun _ ↦ ?_

instance mirrors_flowType : Mirrors limits (Writer.flowType limits) (Reader.flowType limits) where
  emits _ := emitsField limits (emitsField limits (emitsField limits (emitsField limits
    (emitsLast limits rfl))))
  absorbs := AbsorbsAfter.start (absorbsField fun _ ↦ absorbsField fun _ ↦ absorbsField fun _ ↦
    absorbsField fun _ ↦ absorbsField fun _ ↦ AbsorbsAfter.done (by simp [Writer.flowType]))

namespace Writer

def character (value : Char) : Writer Unit := u32 limits value.val

def immediate : Immediate → Writer Unit
  | .unit => u8 limits 0
  | .bool value => do
    u8 limits 1
    bool limits value
  | .character value => do
    u8 limits 9
    character limits value
  | .integer bits bytesLe => do
    u8 limits 2
    u16 limits bits
    bytes limits bytesLe
  | .float32 bits => do
    u8 limits 3
    u32 limits bits
  | .float64 bits => do
    u8 limits 4
    u64 limits bits
  | .bytes value => do
    u8 limits 5
    bytes limits value
  | .zero type => do
    u8 limits 6
    id limits type
  | .globalAddress global => do
    u8 limits 7
    id limits global
  | .functionAddress function => do
    u8 limits 8
    id limits function

def boundedStringPart : BoundedStringPart → Writer Unit
  | .text value source => do
    u8 limits 0
    string limits value
    span limits source
  | .bool value source => do
    u8 limits 1
    id limits value
    span limits source
  | .character value source => do
    u8 limits 2
    id limits value
    span limits source
  | .integer value maximumBytes source => do
    u8 limits 3
    id limits value
    u64 limits maximumBytes
    span limits source
  | .staticString value bytes source => do
    u8 limits 4
    id limits value
    u64 limits bytes
    span limits source

def assertionFailure (value : AssertionFailureDescriptor) : Writer Unit := do
  string limits value.expression
  option limits (string limits) value.message
  span limits value.source

def operation : FlowOperation → Writer Unit
  | .immediate value => do
    u8 limits 0
    immediate limits value
  | .unary op value => do
    u8 limits 1
    unaryOp limits op
    id limits value
  | .binary op left right => do
    u8 limits 2
    binaryOp limits op
    id limits left
    id limits right
  | .cast value toType mode => do
    u8 limits 3
    id limits value
    id limits toType
    castMode limits mode
  | .makeAggregate ty fields => do
    u8 limits 4
    id limits ty
    idVector limits fields
  | .extractField aggregate field => do
    u8 limits 5
    id limits aggregate
    u32 limits field
  | .insertField aggregate field value => do
    u8 limits 6
    id limits aggregate
    u32 limits field
    id limits value
  | .select condition thenValue elseValue => do
    u8 limits 7
    id limits condition
    id limits thenValue
    id limits elseValue
  | .beginAccess place kind proof => do
    u8 limits 8
    id limits place
    accessKind limits kind
    id limits proof
  | .endAccess access => do
    u8 limits 9
    id limits access
  | .load address proof => do
    u8 limits 10
    id limits address
    id limits proof
  | .store address value proof => do
    u8 limits 11
    id limits address
    id limits value
    id limits proof
  | .move value => do
    u8 limits 12
    id limits value
  | .copy value => do
    u8 limits 13
    id limits value
  | .drop value => do
    u8 limits 14
    id limits value
  | .call function arguments => do
    u8 limits 15
    id limits function
    idVector limits arguments
  | .allocate region ty count proof => do
    u8 limits 16
    id limits region
    id limits ty
    id limits count
    id limits proof
  | .regionReset region => do
    u8 limits 17
    id limits region
  | .actorReserve actor method proof => do
    u8 limits 18
    id limits actor
    id limits method
    id limits proof
  | .actorCommit reservation arguments => do
    u8 limits 19
    id limits reservation
    idVector limits arguments
  | .actorReject reservation => do
    u8 limits 20
    id limits reservation
  | .mailboxReceive actor method => do
    u8 limits 21
    id limits actor
    id limits method
  | .replyResolve endpoint outcome => do
    u8 limits 22
    id limits endpoint
    id limits outcome
  | .receiptCommit receipt payload => do
    u8 limits 23
    id limits receipt
    id limits payload
  | .receiptResolve receipt outcome => do
    u8 limits 24
    id limits receipt
    id limits outcome
  | .taskAcquireSlot task proof => do
    u8 limits 25
    id limits task
    id limits proof
  | .taskStart slot entry arguments => do
    u8 limits 26
    id limits slot
    id limits entry
    idVector limits arguments
  | .taskCancel task => do
    u8 limits 27
    id limits task
  | .park waitSet => do
    u8 limits 28
    id limits waitSet
  | .wake target => do
    u8 limits 29
    id limits target
  | .checkpoint checkpoint proof => do
    u8 limits 30
    id limits checkpoint
    id limits proof
  | .deadlineRead => u8 limits 31
  | .interruptMask => u8 limits 32
  | .interruptRestore token => do
    u8 limits 33
    id limits token
  | .interruptPublish cell value => do
    u8 limits 34
    id limits cell
    id limits value
  | .mmioRead device register => do
    u8 limits 35
    id limits device
    u32 limits register
  | .mmioWrite device register value => do
    u8 limits 36
    id limits device
    u32 limits register
    id limits value
  | .fence kind => do
    u8 limits 37
    fenceKind limits kind
  | .dmaTransition token device fromOwnership toOwnership proof => do
    u8 limits 38
    id limits token
    id limits device
    dmaOwnership limits fromOwnership
    dmaOwnership limits toOwnership
    id limits proof
  | .queueReserve device descriptors proof => do
    u8 limits 39
    id limits device
    id limits descriptors
    id limits proof
  | .queuePublish reservation payload => do
    u8 limits 40
    id limits reservation
    id limits payload
  | .validateDeviceValue value proof => do
    u8 limits 41
    id limits value
    id limits proof
  | .check condition failure proof => do
    u8 limits 42
    id limits condition
    failureKind limits failure
    option limits (id limits) proof
  | .recordEvent kind payload => do
    u8 limits 43
    u32 limits kind
    id limits payload
  | .replayEvent kind destination => do
    u8 limits 44
    u32 limits kind
    id limits destination
  | .testEmit payload => do
    u8 limits 45
    id limits payload
  | .testFinish outcome => do
    u8 limits 46
    id limits outcome
  | .asyncCall function arguments plan => do
    u8 limits 47
    id limits function
    idVector limits arguments
    id limits plan
  | .assert condition failure => do
    u8 limits 48
    id limits condition
    assertionFailure limits failure
  | .makeEnum ty variant payload => do
    u8 limits 49
    id limits ty
    u8 limits variant
    option limits (id limits) payload
  | .enumTag value => do
    u8 limits 50
    id limits value
  | .enumPayload value variant => do
    u8 limits 51
    id limits value
    option limits (u8 limits) variant
  | .actorCapability actor proof => do
    u8 limits 52
    id limits actor
    id limits proof
  | .actorStateAddress actor region proof => do
    u8 limits 53
    id limits actor
    id limits region
    id limits proof
  | .promote value destination proof => do
    u8 limits 54
    id limits value
    id limits destination
    id limits proof
  | .actorReplyRequest actor method permit reply => do
    u8 limits 55
    id limits actor
    id limits method
    id limits permit
    id limits reply
  | .actorReplyResolve outcome reply => do
    u8 limits 56
    id limits outcome
    id limits reply
  | .formatBoundedString ty parts => do
    u8 limits 57
    id limits ty
    vector limits .general (boundedStringPart limits) parts
  | .extractIndex aggregate index proof => do
    u8 limits 58
    id limits aggregate
    id limits index
    id limits proof

end Writer

namespace Reader

def character : Reader Char := do
  let scalar ← u32
  if h : scalar.isValidChar then pure ⟨scalar, h⟩ else fail (invalidTag "Unicode scalar" 9)

def immediate : Reader Immediate := do
  match ← u8 with
  | 0 => pure .unit
  | 1 => do
    let value ← bool
    pure (.bool value)
  | 2 => do
    let bits ← u16
    let bytesLe ← bytes limits
    pure (.integer bits bytesLe)
  | 3 => do
    let bits ← u32
    pure (.float32 bits)
  | 4 => do
    let bits ← u64
    pure (.float64 bits)
  | 5 => do
    let value ← bytes limits
    pure (.bytes value)
  | 6 => do
    let type ← id
    pure (.zero type)
  | 7 => do
    let global ← id
    pure (.globalAddress global)
  | 8 => do
    let function ← id
    pure (.functionAddress function)
  | 9 => do
    let value ← character
    pure (.character value)
  | tag => fail (invalidTag "Immediate" tag)

def boundedStringPart : Reader BoundedStringPart := do
  match ← u8 with
  | 0 => do
    let value ← string limits
    let source ← span
    pure (.text value source)
  | 1 => do
    let value ← id
    let source ← span
    pure (.bool value source)
  | 2 => do
    let value ← id
    let source ← span
    pure (.character value source)
  | 3 => do
    let value ← id
    let maximumBytes ← u64
    let source ← span
    pure (.integer value maximumBytes source)
  | 4 => do
    let value ← id
    let bytes ← u64
    let source ← span
    pure (.staticString value bytes source)
  | tag => fail (invalidTag "BoundedStringPart" tag)

def assertionFailure : Reader AssertionFailureDescriptor := do
  let expression ← string limits
  let message ← option (string limits)
  let source ← span
  pure ⟨expression, message, source⟩

def operation : Reader FlowOperation := do
  match ← u8 with
  | 0 => do
    let value ← immediate limits
    pure (.immediate value)
  | 1 => do
    let op ← unaryOp
    let value ← id
    pure (.unary op value)
  | 2 => do
    let op ← binaryOp
    let left ← id
    let right ← id
    pure (.binary op left right)
  | 3 => do
    let value ← id
    let toType ← id
    let mode ← castMode
    pure (.cast value toType mode)
  | 4 => do
    let ty ← id
    let fields ← idVector limits
    pure (.makeAggregate ty fields)
  | 5 => do
    let aggregate ← id
    let field ← u32
    pure (.extractField aggregate field)
  | 6 => do
    let aggregate ← id
    let field ← u32
    let value ← id
    pure (.insertField aggregate field value)
  | 7 => do
    let condition ← id
    let thenValue ← id
    let elseValue ← id
    pure (.select condition thenValue elseValue)
  | 8 => do
    let place ← id
    let kind ← accessKind
    let proof ← id
    pure (.beginAccess place kind proof)
  | 9 => do
    let access ← id
    pure (.endAccess access)
  | 10 => do
    let address ← id
    let proof ← id
    pure (.load address proof)
  | 11 => do
    let address ← id
    let value ← id
    let proof ← id
    pure (.store address value proof)
  | 12 => do
    let value ← id
    pure (.move value)
  | 13 => do
    let value ← id
    pure (.copy value)
  | 14 => do
    let value ← id
    pure (.drop value)
  | 15 => do
    let function ← id
    let arguments ← idVector limits
    pure (.call function arguments)
  | 16 => do
    let region ← id
    let ty ← id
    let count ← id
    let proof ← id
    pure (.allocate region ty count proof)
  | 17 => do
    let region ← id
    pure (.regionReset region)
  | 18 => do
    let actor ← id
    let method ← id
    let proof ← id
    pure (.actorReserve actor method proof)
  | 19 => do
    let reservation ← id
    let arguments ← idVector limits
    pure (.actorCommit reservation arguments)
  | 20 => do
    let reservation ← id
    pure (.actorReject reservation)
  | 21 => do
    let actor ← id
    let method ← id
    pure (.mailboxReceive actor method)
  | 22 => do
    let endpoint ← id
    let outcome ← id
    pure (.replyResolve endpoint outcome)
  | 23 => do
    let receipt ← id
    let payload ← id
    pure (.receiptCommit receipt payload)
  | 24 => do
    let receipt ← id
    let outcome ← id
    pure (.receiptResolve receipt outcome)
  | 25 => do
    let task ← id
    let proof ← id
    pure (.taskAcquireSlot task proof)
  | 26 => do
    let slot ← id
    let entry ← id
    let arguments ← idVector limits
    pure (.taskStart slot entry arguments)
  | 27 => do
    let task ← id
    pure (.taskCancel task)
  | 28 => do
    let waitSet ← id
    pure (.park waitSet)
  | 29 => do
    let target ← id
    pure (.wake target)
  | 30 => do
    let checkpoint ← id
    let proof ← id
    pure (.checkpoint checkpoint proof)
  | 31 => pure .deadlineRead
  | 32 => pure .interruptMask
  | 33 => do
    let token ← id
    pure (.interruptRestore token)
  | 34 => do
    let cell ← id
    let value ← id
    pure (.interruptPublish cell value)
  | 35 => do
    let device ← id
    let register ← u32
    pure (.mmioRead device register)
  | 36 => do
    let device ← id
    let register ← u32
    let value ← id
    pure (.mmioWrite device register value)
  | 37 => do
    let kind ← fenceKind
    pure (.fence kind)
  | 38 => do
    let token ← id
    let device ← id
    let fromOwnership ← dmaOwnership
    let toOwnership ← dmaOwnership
    let proof ← id
    pure (.dmaTransition token device fromOwnership toOwnership proof)
  | 39 => do
    let device ← id
    let descriptors ← id
    let proof ← id
    pure (.queueReserve device descriptors proof)
  | 40 => do
    let reservation ← id
    let payload ← id
    pure (.queuePublish reservation payload)
  | 41 => do
    let value ← id
    let proof ← id
    pure (.validateDeviceValue value proof)
  | 42 => do
    let condition ← id
    let failure ← failureKind
    let proof ← option id
    pure (.check condition failure proof)
  | 43 => do
    let kind ← u32
    let payload ← id
    pure (.recordEvent kind payload)
  | 44 => do
    let kind ← u32
    let destination ← id
    pure (.replayEvent kind destination)
  | 45 => do
    let payload ← id
    pure (.testEmit payload)
  | 46 => do
    let outcome ← id
    pure (.testFinish outcome)
  | 47 => do
    let function ← id
    let arguments ← idVector limits
    let plan ← id
    pure (.asyncCall function arguments plan)
  | 48 => do
    let condition ← id
    let failure ← assertionFailure limits
    pure (.assert condition failure)
  | 49 => do
    let ty ← id
    let variant ← u8
    let payload ← option id
    pure (.makeEnum ty variant payload)
  | 50 => do
    let value ← id
    pure (.enumTag value)
  | 51 => do
    let value ← id
    let variant ← option u8
    pure (.enumPayload value variant)
  | 52 => do
    let actor ← id
    let proof ← id
    pure (.actorCapability actor proof)
  | 53 => do
    let actor ← id
    let region ← id
    let proof ← id
    pure (.actorStateAddress actor region proof)
  | 54 => do
    let value ← id
    let destination ← id
    let proof ← id
    pure (.promote value destination proof)
  | 55 => do
    let actor ← id
    let method ← id
    let permit ← id
    let reply ← id
    pure (.actorReplyRequest actor method permit reply)
  | 56 => do
    let outcome ← id
    let reply ← id
    pure (.actorReplyResolve outcome reply)
  | 57 => do
    let ty ← id
    let parts ← vector limits .general (boundedStringPart limits)
    pure (.formatBoundedString ty parts)
  | 58 => do
    let aggregate ← id
    let index ← id
    let proof ← id
    pure (.extractIndex aggregate index proof)
  | tag => fail (invalidTag "FlowOperation" tag)

end Reader

instance mirrors_character : Mirrors limits (Writer.character limits) Reader.character where
  emits value := Emits.last ((mirrors_u32 limits).emits value.val) (by rw [dif_pos value.valid])
  absorbs := by
    refine AbsorbsAfter.start (absorbsField fun scalar ↦ ?_)
    split
    · exact AbsorbsAfter.done (by rw [pure_bind]; rfl)
    · exact AbsorbsAfter.rejected

instance mirrors_immediate :
    Mirrors limits (Writer.immediate limits) (Reader.immediate limits) where
  emits value := by
    cases value
    all_goals first
      | exact emitsTag limits rfl
      | repeat first | exact emitsLast limits rfl | refine emitsField limits ?_
  absorbs := by
    refine AbsorbsAfter.start (absorbsField fun tag ↦ ?_)
    split
    all_goals repeat first
      | exact AbsorbsAfter.rejected
      | exact AbsorbsAfter.done (by simp [Writer.immediate])
      | refine absorbsField fun _ ↦ ?_

instance mirrors_boundedStringPart :
    Mirrors limits (Writer.boundedStringPart limits) (Reader.boundedStringPart limits) where
  emits value := by
    cases value
    all_goals first
      | exact emitsTag limits rfl
      | repeat first | exact emitsLast limits rfl | refine emitsField limits ?_
  absorbs := by
    refine AbsorbsAfter.start (absorbsField fun tag ↦ ?_)
    split
    all_goals repeat first
      | exact AbsorbsAfter.rejected
      | exact AbsorbsAfter.done (by simp [Writer.boundedStringPart])
      | refine absorbsField fun _ ↦ ?_

instance mirrors_assertionFailure :
    Mirrors limits (Writer.assertionFailure limits) (Reader.assertionFailure limits) where
  emits _ := emitsField limits (emitsField limits (emitsLast limits rfl))
  absorbs := AbsorbsAfter.start (absorbsField fun _ ↦ absorbsField fun _ ↦ absorbsField fun _ ↦
    AbsorbsAfter.done (by simp [Writer.assertionFailure]))

instance mirrors_operation :
    Mirrors limits (Writer.operation limits) (Reader.operation limits) where
  emits value := by
    cases value
    all_goals first
      | exact emitsTag limits rfl
      | repeat first | exact emitsLast limits rfl | refine emitsField limits ?_
  absorbs := by
    refine AbsorbsAfter.start (absorbsField fun tag ↦ ?_)
    split
    all_goals repeat first
      | exact AbsorbsAfter.rejected
      | exact AbsorbsAfter.done (by simp [Writer.operation])
      | refine absorbsField fun _ ↦ ?_

namespace Writer

def switchCase (value : SwitchCase) : Writer Unit := do
  u128 limits value.value
  id limits value.target
  idVector limits value.arguments

def terminator : Terminator → Writer Unit
  | .jump target arguments => do
    u8 limits 0
    id limits target
    idVector limits arguments
  | .branch condition thenBlock thenArguments elseBlock elseArguments => do
    u8 limits 1
    id limits condition
    id limits thenBlock
    idVector limits thenArguments
    id limits elseBlock
    idVector limits elseArguments
  | .switch value cases default defaultArguments => do
    u8 limits 2
    id limits value
    vector limits .general (switchCase limits) cases
    id limits default
    idVector limits defaultArguments
  | .return values => do
    u8 limits 3
    idVector limits values
  | .suspend state activation resume => do
    u8 limits 4
    u32 limits state
    id limits activation
    id limits resume
  | .tailCall function arguments => do
    u8 limits 5
    id limits function
    idVector limits arguments
  | .trap failure detail => do
    u8 limits 6
    failureKind limits failure
    option limits (id limits) detail
  | .unreachable => u8 limits 7

end Writer

namespace Reader

def switchCase : Reader SwitchCase := do
  let value ← u128
  let target ← id
  let arguments ← idVector limits
  pure ⟨value, target, arguments⟩

def terminator : Reader Terminator := do
  match ← u8 with
  | 0 => do
    let target ← id
    let arguments ← idVector limits
    pure (.jump target arguments)
  | 1 => do
    let condition ← id
    let thenBlock ← id
    let thenArguments ← idVector limits
    let elseBlock ← id
    let elseArguments ← idVector limits
    pure (.branch condition thenBlock thenArguments elseBlock elseArguments)
  | 2 => do
    let value ← id
    let cases ← vector limits .general (switchCase limits)
    let default ← id
    let defaultArguments ← idVector limits
    pure (.switch value cases default defaultArguments)
  | 3 => do
    let values ← idVector limits
    pure (.return values)
  | 4 => do
    let state ← u32
    let activation ← id
    let resume ← id
    pure (.suspend state activation resume)
  | 5 => do
    let function ← id
    let arguments ← idVector limits
    pure (.tailCall function arguments)
  | 6 => do
    let failure ← failureKind
    let detail ← option id
    pure (.trap failure detail)
  | 7 => pure .unreachable
  | tag => fail (invalidTag "Terminator" tag)

end Reader

instance mirrors_switchCase :
    Mirrors limits (Writer.switchCase limits) (Reader.switchCase limits) where
  emits _ := emitsField limits (emitsField limits (emitsLast limits rfl))
  absorbs := AbsorbsAfter.start (absorbsField fun _ ↦ absorbsField fun _ ↦ absorbsField fun _ ↦
    AbsorbsAfter.done (by simp [Writer.switchCase]))

instance mirrors_terminator :
    Mirrors limits (Writer.terminator limits) (Reader.terminator limits) where
  emits value := by
    cases value
    all_goals first
      | exact emitsTag limits rfl
      | repeat first | exact emitsLast limits rfl | refine emitsField limits ?_
  absorbs := by
    refine AbsorbsAfter.start (absorbsField fun tag ↦ ?_)
    split
    all_goals repeat first
      | exact AbsorbsAfter.rejected
      | exact AbsorbsAfter.done (by simp [Writer.terminator])
      | refine absorbsField fun _ ↦ ?_

end Wrela.FlowCodec
