import Wrela.Package.Manifest

/-!
# HIR programs

The high-level IR after name resolution: modules, declarations, bodies with their scopes and locals,
statements, expressions and patterns, each kind of record in a list of its own.  Records name one
another by position; every kind has its own identifier type, made from one.
-/

namespace Wrela.Hir

open Wrela.Source Wrela.Package

/-! ## Identifiers -/

inductive Arena where
  | declaration | body | expression | statement | pattern | local_ | parameter | genericParameter
  | scope | region

/-- The identifier of a record in one arena. -/
structure Id (arena : Arena) where
  val : UInt32
deriving DecidableEq

/-- The position an identifier names in its arena. -/
def Id.index {arena : Arena} (id : Id arena) : ℕ := id.val.toNat

abbrev DeclarationId := Id .declaration
abbrev BodyId := Id .body
abbrev ExpressionId := Id .expression
abbrev StatementId := Id .statement
abbrev PatternId := Id .pattern
abbrev LocalId := Id .local_
abbrev ParameterId := Id .parameter
abbrev GenericParameterId := Id .genericParameter
abbrev ScopeId := Id .scope
abbrev RegionId := Id .region

structure Name where
  text : String
deriving DecidableEq

inductive Visibility where
  | priv | pub | reexported
deriving DecidableEq

inductive AccessMode where
  | value | read | mutate | take
deriving DecidableEq

inductive FunctionColor where
  | sync | async | isr
deriving DecidableEq

structure ResolvedDeclaration where
  package : PackageId
  module : ModuleId
  declaration : DeclarationId
deriving DecidableEq

structure ResolvedVariant where
  enumeration : ResolvedDeclaration
  variant : UInt32

inductive Builtin where
  | never | unit | bool | u8 | u16 | u32 | u64 | u128 | usize | i8 | i16 | i32 | i64 | i128 | isize
  | f32 | f64 | char | static | str | bytes | string | option | result | actor | receipt | dma
  | mmio | validated
deriving DecidableEq

inductive Definition where
  | declaration (value : ResolvedDeclaration)
  | variant (value : ResolvedVariant)
  | parameter (value : ParameterId)
  | local_ (value : LocalId)
  | generic (value : GenericParameterId)
  | builtin (value : Builtin)
  | module (package : PackageId) (module : ModuleId)

inductive BuiltinAttribute where
  | image | app | service | driver | task | isrSafe | receiptHandoff | dma | wire | mmio | offset
  | layoutAssert | test | suspendSafe | noPromote | budget | uninterrupted
deriving DecidableEq

inductive AttributeIdentity where
  | builtin (value : BuiltinAttribute)
  | tool (value : ResolvedDeclaration)
deriving DecidableEq

structure AttributeArgument where
  name : Option Name
  value : ExpressionId
  source : Span

structure Attribute where
  identity : AttributeIdentity
  arguments : List AttributeArgument
  source : Span

inductive RegionReference where
  | generic (id : GenericParameterId)
  | local_ (id : RegionId)

mutual

inductive TypeExpression where
  | mk (kind : TypeExpressionKind) (source : Span)

inductive TypeExpressionKind where
  | named (definition : Definition) (arguments : List GenericArgument)
  | selfType (owner : DeclarationId)
  | array (element : TypeExpression) (length : ExpressionId)
  | tuple (values : List TypeExpression)
  | view (mutable : Bool) (target : TypeExpression)
  | iso (brand payload : TypeExpression)
  | function (color : FunctionColor) (parameters : List FunctionTypeParameter)
      (result : TypeExpression)
  | error

inductive GenericArgument where
  | mk (kind : GenericArgumentKind) (source : Span)

inductive GenericArgumentKind where
  | type (ty : TypeExpression)
  | constant (expression : ExpressionId)
  | boundedCapacity (expression : ExpressionId)
  | region (region : RegionReference)
  | error

inductive FunctionTypeParameter where
  | mk (access : AccessMode) (ty : TypeExpression) (source : Span)

end

def TypeExpression.source : TypeExpression → Span
  | .mk _ source => source

def GenericArgument.kind : GenericArgument → GenericArgumentKind
  | .mk kind _ => kind

/-! ## Declarations -/

inductive ReexportTarget where
  | declaration (value : ResolvedDeclaration)
  | variant (value : ResolvedVariant)
  | module (package : PackageId) (module : ModuleId)

structure Reexport where
  localName : Name
  target : ReexportTarget
  source : Span

structure Module where
  id : ModuleId
  package : PackageId
  path : ModulePath
  declarations : List DeclarationId
  reexports : List Reexport
  source : Span

inductive DeclarationOwner where
  | module (module : ModuleId)
  | declaration (declaration : DeclarationId)
deriving DecidableEq

structure ConstantDeclaration where
  ty : Option TypeExpression
  value : ExpressionId

structure FunctionDeclaration where
  color : FunctionColor
  generics : List GenericParameterId
  parameters : List ParameterId
  result : Option TypeExpression
  body : Option BodyId

structure InitializerDeclaration where
  parameters : List ParameterId
  result : Option TypeExpression
  body : BodyId

structure Field where
  name : Name
  visibility : Visibility
  attributes : List Attribute
  ty : TypeExpression
  default : Option ExpressionId
  source : Span

structure AggregateDeclaration where
  generics : List GenericParameterId
  implements : List TypeExpression
  fields : List Field
  members : List DeclarationId
  linear : Bool
  copy : Bool
  deriving_ : List Name

structure VariantField where
  name : Option Name
  ty : TypeExpression
  source : Span

structure EnumVariant where
  name : Name
  fields : List VariantField
  source : Span

structure EnumDeclaration where
  generics : List GenericParameterId
  variants : List EnumVariant
  members : List DeclarationId
  deriving_ : List Name

structure InterfaceDeclaration where
  generics : List GenericParameterId
  requirements : List DeclarationId

structure ImplementationDeclaration where
  interface : TypeExpression
  implementingType : TypeExpression
  members : List DeclarationId

mutual

inductive ProjectionCarrier where
  | mk (kind : ProjectionCarrierKind) (source : Span)

inductive ProjectionCarrierKind where
  | view (mutable : Bool) (ty : TypeExpression)
  | option (carrier : ProjectionCarrier)
  | result (carrier : ProjectionCarrier) (error : TypeExpression)
  | error

end

def ProjectionCarrier.source : ProjectionCarrier → Span
  | .mk _ source => source

structure ProjectionDeclaration where
  generics : List GenericParameterId
  parameters : List ParameterId
  carrier : ProjectionCarrier
  provenance : List ParameterId
  body : Option BodyId

structure ScopeDeclaration where
  parameters : List ParameterId
  result : TypeExpression
  setup : BodyId
  enter : ExpressionId
  abort : Option BodyId
  exitParameter : ParameterId
  exit : BodyId

structure ComptimeSelection where
  condition : ExpressionId
  thenDeclarations : List DeclarationId
  elseDeclarations : List DeclarationId
deriving DecidableEq

inductive DeclarationKind where
  | constant (value : ConstantDeclaration)
  | brand
  | function (value : FunctionDeclaration)
  | initializer (value : InitializerDeclaration)
  | structure (value : AggregateDeclaration)
  | enumeration (value : EnumDeclaration)
  | interface (value : InterfaceDeclaration)
  | implementation (value : ImplementationDeclaration)
  | projection (value : ProjectionDeclaration)
  | scope (value : ScopeDeclaration)
  | comptimeSelection (value : ComptimeSelection)
  | error

structure Declaration where
  id : DeclarationId
  module : ModuleId
  owner : DeclarationOwner
  name : Option Name
  visibility : Visibility
  attributes : List Attribute
  kind : DeclarationKind
  source : Span

inductive GenericParameterKind where
  | type (bound : Option TypeExpression)
  | constant (ty : TypeExpression)
  | region

structure GenericParameter where
  id : GenericParameterId
  owner : DeclarationId
  name : Name
  kind : GenericParameterKind
  source : Span

inductive CallableOwner where
  | declaration (declaration : DeclarationId)
  | closure (expression : ExpressionId)
deriving DecidableEq

structure Parameter where
  id : ParameterId
  owner : CallableOwner
  name : Option Name
  access : AccessMode
  ty : Option TypeExpression
  receiver : Bool
  positionalOnly : Bool
  source : Span

inductive BodyOwner where
  | declaration (declaration : DeclarationId)
  | closure (expression : ExpressionId)
deriving DecidableEq

structure Body where
  id : BodyId
  owner : BodyOwner
  scope : ScopeId
  locals : List LocalId
  statements : List StatementId
  source : Span
deriving DecidableEq

structure LexicalScope where
  id : ScopeId
  body : BodyId
  parent : Option ScopeId
  source : Span
deriving DecidableEq

structure Local where
  id : LocalId
  body : BodyId
  scope : ScopeId
  name : Name
  ty : Option TypeExpression
  shadowed : Option LocalId
  source : Span

inductive PlaceProjection where
  | field (name : Name)
  | index (expression : ExpressionId)
  | tuple (position : UInt32)
deriving DecidableEq

structure PlaceTarget where
  root : Definition
  projections : List PlaceProjection
  source : Span

structure AssertionSourceWitness where
  source : Span
  expression : String
deriving DecidableEq

structure MatchArm where
  pattern : PatternId
  guard : Option ExpressionId
  body : BodyId
  source : Span
deriving DecidableEq

inductive AssignmentOperator where
  | assign | add | subtract | multiply | divide | remainder | bitAnd | bitOr | bitXor | shiftLeft
  | shiftRight
deriving DecidableEq

inductive StatementKind where
  | initialize_ (local_ : LocalId) (value : ExpressionId)
  | assign (targets : List PlaceTarget) (operator : AssignmentOperator) (value : ExpressionId)
  | return (value : Option ExpressionId)
  | break_
  | continue_
  | pass
  | assert (condition : ExpressionId) (expression : String) (witness : AssertionSourceWitness)
      (message : Option String) (comptime : Bool)
  | send (value : ExpressionId)
  | yield (value : ExpressionId)
  | expression (value : ExpressionId)
  | if_ (branches : List (ExpressionId × BodyId)) (elseBody : Option BodyId)
  | match_ (scrutinee : ExpressionId) (arms : List MatchArm)
  | for_ (takeBinding : Bool) (binding : LocalId) (takeIterable : Bool) (iterable : ExpressionId)
      (body : BodyId)
  | while_ (condition : ExpressionId) (body : BodyId)
  | loop (body : BodyId)
  | with_ (value : ExpressionId) (binding : Option LocalId) (region : Option RegionId)
      (body : BodyId)
  | comptimeIf (condition : ExpressionId) (thenBody : BodyId) (elseBody : Option BodyId)
  | error

structure Statement where
  id : StatementId
  body : BodyId
  attributes : List Attribute
  kind : StatementKind
  source : Span

inductive ExpressionOwner where
  | declaration (declaration : DeclarationId)
  | body (body : BodyId)
  | closure (expression : ExpressionId)
deriving DecidableEq

inductive ClosureBody where
  | expression (expression : ExpressionId)
  | body (body : BodyId)
deriving DecidableEq

inductive UnaryOperator where
  | negate | bitNot | boolNot | await | take | copy | comptime
deriving DecidableEq

inductive BinaryOperator where
  | logicalOr | logicalAnd | add | addWrapping | subtract | subtractWrapping | multiply
  | multiplyWrapping | divide | remainder | bitOr | bitXor | bitAnd | shiftLeft | shiftRight
deriving DecidableEq

inductive ComparisonOperator where
  | equal | notEqual | less | lessEqual | greater | greaterEqual | in_ | notIn
deriving DecidableEq

inductive ExclusiveAccess where
  | mutate | take
deriving DecidableEq

inductive CallArgumentValue where
  | value (expression : ExpressionId)
  | exclusive (access : ExclusiveAccess) (place : PlaceTarget)

structure CallArgument where
  name : Option Name
  value : CallArgumentValue
  source : Span

inductive InterpolationPart where
  | text (value : String) (source : Span)
  | value (expression : ExpressionId) (format : Option String) (formatSource : Option Span)
deriving DecidableEq

inductive Literal where
  | integer (text : String)
  | float (text : String)
  | string (text : String)
  | bytes (value : List UInt8)
  | character (value : Char)
  | boolean (value : Bool)
  | unit
deriving DecidableEq

inductive ExpressionKind where
  | literal (value : Literal)
  | reference (definition : Definition)
  | closure (color : FunctionColor) (takeCaptures : Bool) (parameters : List ParameterId)
      (body : ClosureBody) (captures : List Definition)
  | unary (operator : UnaryOperator) (operand : ExpressionId)
  | binary (operator : BinaryOperator) (left right : ExpressionId)
  | compare (left : ExpressionId) (operator : ComparisonOperator) (right : ExpressionId)
  | isPattern (value : ExpressionId) (negated : Bool) (pattern : PatternId)
  | range (start stop : ExpressionId) (inclusive : Bool)
  | cast (value : ExpressionId) (ty : TypeExpression)
  | try_ (value : ExpressionId)
  | field (base : ExpressionId) (name : Name)
  | call (callee : ExpressionId) (arguments : List CallArgument)
  | index (base index : ExpressionId)
  | tuple (values : List ExpressionId)
  | array (values : List ExpressionId)
  | dotName (spelling : Name) (candidates : List ResolvedVariant)
  | trySend (value : ExpressionId)
  | interpolate (parts : List InterpolationPart)
  | if_ (condition thenBranch : ExpressionId) (elifBranches : List (ExpressionId × ExpressionId))
      (elseBranch : ExpressionId)
  | error

structure Expression where
  id : ExpressionId
  owner : ExpressionOwner
  scope : Option ScopeId
  kind : ExpressionKind
  source : Span

structure PatternArgument where
  take : Bool
  pattern : PatternId
  source : Span
deriving DecidableEq

inductive PrimaryPattern where
  | wildcard
  | literal (negative : Bool) (literal : Literal)
  | constructor (spelling : Name) (candidates : List ResolvedVariant)
      (arguments : List PatternArgument)
  | bind (local_ : LocalId)
  | tuple (arguments : List PatternArgument)
  | array (arguments : List PatternArgument)
  | error

structure PatternAlternative where
  kind : PrimaryPattern
  source : Span

structure Pattern where
  id : PatternId
  owner : ExpressionOwner
  bindingScope : Option ScopeId
  alternatives : List PatternAlternative
  source : Span

structure RegionBinding where
  id : RegionId
  body : BodyId
  name : Name
  source : Span
deriving DecidableEq

/-! ## Programs -/

structure Program where
  packages : PackageGraph
  modules : List Module
  declarations : List Declaration
  genericParameters : List GenericParameter
  parameters : List Parameter
  bodies : List Body
  scopes : List LexicalScope
  locals : List Local
  statements : List Statement
  expressions : List Expression
  patterns : List Pattern
  regions : List RegionBinding
  imageCandidates : List DeclarationId
  testCandidates : List DeclarationId

namespace Program

variable (program : Program)

def module (id : ModuleId) : Option Module := program.modules[id.val]?

def declaration (id : DeclarationId) : Option Declaration := program.declarations[id.index]?

def genericParameter (id : GenericParameterId) : Option GenericParameter :=
  program.genericParameters[id.index]?

def parameter (id : ParameterId) : Option Parameter := program.parameters[id.index]?

def body (id : BodyId) : Option Body := program.bodies[id.index]?

def scope (id : ScopeId) : Option LexicalScope := program.scopes[id.index]?

def local_ (id : LocalId) : Option Local := program.locals[id.index]?

def statement (id : StatementId) : Option Statement := program.statements[id.index]?

def expression (id : ExpressionId) : Option Expression := program.expressions[id.index]?

def pattern (id : PatternId) : Option Pattern := program.patterns[id.index]?

def region (id : RegionId) : Option RegionBinding := program.regions[id.index]?

end Program

end Wrela.Hir

/-!
## Validation reports of HIR

A check is the list of errors it reports, in the order they are found.  The records of an arena are
dense when each sits at the position its identifier names, and covered when each is named once.
-/

namespace Wrela.Hir

open Wrela.Source Wrela.Package

inductive ValidationError where
  | nonDense (name : String)
  | nonCanonical (name : String)
  | coverage (name : String)
  | invalidName (kind : String)
  | invalidRecord (arena : String) (id : UInt32) (reason : String)
  | invalidReference (kind : String) (id : UInt32)
  | nestingLimit
  | tooManyErrors (limit : UInt32)
deriving DecidableEq

abbrev Report := List ValidationError

/-- Report `error` when something is wrong. -/
def reportIf (bad : Bool) (error : ValidationError) : Report := if bad then [error] else []

@[simp]
theorem reportIf_eq_nil {bad : Bool} {error : ValidationError} :
    reportIf bad error = [] ↔ bad = false := by
  cases bad <;> simp [reportIf]

def requireDense (name : String) (ids : List ℕ) : Report :=
  reportIf (!ids.zipIdx.all fun (id, index) ↦ id == index) (.nonDense name)

theorem requireDense_eq_nil :
    requireDense name ids = [] ↔ ∀ index id : ℕ, ids[index]? = some id → id = index := by
  simp only [requireDense, reportIf_eq_nil, Bool.not_eq_false', List.all_eq_true, beq_iff_eq]
  constructor
  · intro h index id hid
    exact h (id, index) (List.mem_zipIdx_iff_getElem?.2 hid)
  · rintro h ⟨id, index⟩ hmem
    exact h index id (List.mem_zipIdx_iff_getElem?.1 hmem)

def strictIds (ids : List UInt32) : Bool := decide (ids.IsChain (· < ·))

/-- How often a record is named.  The counters of the source stop at 255, but are only compared with
one. -/
def coverage {arena : Arena} (ids : List (Id arena)) (index : ℕ) : ℕ :=
  (ids.map (·.index)).count index

def requireExactCoverage (name : String) (length : ℕ) {arena : Arena} (ids : List (Id arena)) :
    Report :=
  reportIf (!(List.range length).all fun index ↦ coverage ids index == 1) (.coverage name)

theorem requireExactCoverage_eq_nil :
    requireExactCoverage name length ids = [] ↔ ∀ index < length, coverage ids index = 1 := by
  simp [requireExactCoverage]

/-- Equal names are neighbours once sorted. -/
def duplicateNames (names : List Name) : Bool := !decide names.Nodup

def validSpan (span : Span) : Bool := decide (span.range.start ≤ span.range.stop)

def spanContains (outer inner : Span) : Bool :=
  outer.file == inner.file && decide (outer.range.start ≤ inner.range.start) &&
    decide (inner.range.stop ≤ outer.range.stop)

variable (U : Unicode)

def Name.isValid (name : Name) : Bool := isValidSourceIdentifier U name.text

def validateName (name : Name) (kind : String) : Report :=
  reportIf (!name.isValid U) (.invalidName kind)

/-- The label `brand` is a keyword that may stand before an argument. -/
def validateArgumentName (name : Name) : Report :=
  reportIf (!(name.isValid U || name.text == "brand")) (.invalidName "call argument")

def validateMemberName (name : Name) (kind : String) : Report :=
  reportIf (!(name.isValid U || name.text == "from")) (.invalidName kind)

end Wrela.Hir
