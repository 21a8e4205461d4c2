import Wrela.Hir.Expressions

/-!
# Validation of programs

A program is sealed when every arena is dense, every record is listed by just one other, and what a
record names is there and in order.  Chains of owners are bounded before anything else is read.
-/

namespace Wrela.Hir

open Wrela.Source Wrela.Package

variable (program : Program)

/-! ## Who lists a record -/

/-- The declarations that modules and declarations list. -/
def listedDeclarations : List DeclarationId :=
  program.modules.flatMap (·.declarations) ++ program.declarations.flatMap fun declaration ↦
    declarationChildren declaration ++ selectedDeclarations declaration

def listedGenerics : List GenericParameterId := program.declarations.flatMap declarationGenerics

def listedParameters : List ParameterId :=
  program.declarations.flatMap declarationParameters ++
    program.expressions.flatMap (·.kind.closureParameters)

def listedBodies : List BodyId :=
  program.declarations.flatMap declarationBodies ++
    program.expressions.flatMap (·.kind.closureBody.toList) ++
    program.statements.flatMap fun statement ↦ statementBodies statement.kind

def collectGenericExpressions (generic : GenericParameter) : List ExpressionId :=
  match generic.kind with
  | .type bound => bound.toList.flatMap (collectTypeExpressions 0)
  | .constant ty => collectTypeExpressions 0 ty
  | .region => []

def collectOptionalTypeExpressions (ty : Option TypeExpression) : List ExpressionId :=
  ty.toList.flatMap (collectTypeExpressions 0)

def listedExpressions : List ExpressionId :=
  program.declarations.flatMap collectDeclarationExpressions ++
    program.genericParameters.flatMap collectGenericExpressions ++
    (program.parameters.flatMap fun parameter ↦ collectOptionalTypeExpressions parameter.ty) ++
    (program.locals.flatMap fun record ↦ collectOptionalTypeExpressions record.ty) ++
    (program.statements.flatMap fun statement ↦
      collectStatementExpressions statement.kind ++
        statement.attributes.flatMap collectAttributeExpressions) ++
    program.expressions.flatMap fun expression ↦ collectExpressionChildren expression.kind

def matchPatterns : StatementKind → List PatternId
  | .match_ _ arms => arms.map (·.pattern)
  | _ => []

def ExpressionKind.testedPattern : ExpressionKind → Option PatternId
  | .isPattern _ _ pattern => some pattern
  | _ => none

def patternArguments (pattern : Pattern) : List PatternId :=
  pattern.alternatives.flatMap fun alternative ↦ alternative.kind.arguments.map (·.pattern)

/-- The patterns that stand in statements and expressions. -/
def topPatterns : List PatternId :=
  (program.statements.flatMap fun statement ↦ matchPatterns statement.kind) ++
    program.expressions.flatMap fun expression ↦ expression.kind.testedPattern.toList

def listedPatterns : List PatternId :=
  topPatterns program ++ program.patterns.flatMap patternArguments

variable (U : Unicode)

def Reexport.key (reexport : Reexport) : List UInt8 ×ₗ ℕ :=
  toLex (Wire.utf8Bytes reexport.localName.text, reexport.source.range.start.toNat)

def validModule (module : Module) (record : ModuleRecord) : Bool :=
  module.id == record.id && module.package == record.package && module.path == record.path &&
    module.source.file == record.source && validSpan module.source &&
    strictIds (module.declarations.map (·.val)) &&
    decide ((module.reexports.map (·.key)).IsChain (· < ·))

def validateModule (module : Module) (record : ModuleRecord) : Report :=
  reportIf (!validModule module record)
    (.invalidRecord "module" (.ofNat module.id.val)
      "graph identity, source, declarations, or reexports") ++
  (module.declarations.flatMap fun declaration ↦
    reportIf (!(program.declaration declaration).any fun value ↦
      value.module == module.id && value.owner == .module module.id)
      (.invalidReference "module declaration" declaration.val)) ++
  (module.reexports.flatMap fun reexport ↦
    validateName U reexport.localName "reexport" ++
    reportIf (!validSpan reexport.source || !spanContains module.source reexport.source ||
      !validReexportTarget program reexport.target)
      (.invalidRecord "module reexport" (.ofNat module.id.val) "source or resolved target")) ++
  reportIf (duplicateNames
    (declarationNames program module.declarations ++ module.reexports.map (·.localName)))
    (.invalidRecord "module" (.ofNat module.id.val) "duplicate local name")

def validateDeclarationOwner (declaration : Declaration) : Report :=
  let listedOnce := coverage (listedDeclarations program) declaration.id.index == 1
  match declaration.owner with
  | .module module =>
    reportIf (module != declaration.module || !listedOnce)
      (.invalidRecord "declaration" declaration.id.val "top-level owner coverage")
  | .declaration owner =>
    reportIf (!decide (owner.val < declaration.id.val) || !listedOnce ||
      !(program.declaration owner).any fun parent ↦
        parent.module == declaration.module && declarationOwns parent declaration.id)
      (.invalidRecord "declaration" declaration.id.val "nested owner")

def validateGeneric (generic : GenericParameter) : Report :=
  validateName U generic.name "generic parameter" ++
  reportIf (!((program.declaration generic.owner).any fun owner ↦
      (declarationGenerics owner).contains generic.id &&
        spanContains owner.source generic.source) || !validSpan generic.source)
    (.invalidRecord "generic parameter" generic.id.val "owner or source") ++
  match generic.kind with
  | .type bound => bound.toList.flatMap (validateType program (.declaration generic.owner) 0)
  | .constant ty => validateType program (.declaration generic.owner) 0 ty
  | .region => []

def validParameterShape (parameter : Parameter) : Bool :=
  let implicitScopeExit := isScopeExitParameter program parameter.id
  if parameter.receiver then
    parameter.name.isNone && parameter.ty.isNone && !implicitScopeExit
  else if implicitScopeExit then parameter.name.isSome && parameter.ty.isNone
  else parameter.name.isSome && parameter.ty.isSome

def CallableOwner.expressionOwner : CallableOwner → ExpressionOwner
  | .declaration owner => .declaration owner
  | .closure owner => .closure owner

/-- The parameters that an owner lists, and its source. -/
def callableParameters : CallableOwner → Option (List ParameterId × Span)
  | .declaration owner =>
    (program.declaration owner).map fun record ↦ (declarationParameters record, record.source)
  | .closure owner =>
    (program.expression owner).map fun record ↦ (record.kind.closureParameters, record.source)

def validateParameter (parameter : Parameter) : Report :=
  reportIf (!validParameterShape program parameter)
    (.invalidRecord "parameter" parameter.id.val "receiver/name shape") ++
  (parameter.name.toList.flatMap fun name ↦ validateName U name "parameter") ++
  reportIf (!validSpan parameter.source ||
    !(callableParameters program parameter.owner).any fun (listed, source) ↦
      listed.contains parameter.id && spanContains source parameter.source)
    (.invalidRecord "parameter" parameter.id.val "owner or source") ++
  if (callableParameters program parameter.owner).isSome then
    parameter.ty.toList.flatMap (validateType program parameter.owner.expressionOwner 0)
  else []

def validateBody (body : Body) : Report :=
  reportIf (!validBodyOwner program body.owner || !validSpan body.source ||
    !((bodyOwnerSpan program body.owner).any fun owner ↦ spanContains owner body.source) ||
    !strictIds (body.locals.map (·.val)) || !strictIds (body.statements.map (·.val)) ||
    !(program.scope body.scope).any fun scope ↦ scope.body == body.id)
    (.invalidRecord "body" body.id.val "owner, source, root scope, locals, or statements") ++
  (body.locals.flatMap fun id ↦
    reportIf (!(program.local_ id).any fun value ↦ value.body == body.id)
      (.invalidReference "body local" id.val)) ++
  body.statements.flatMap fun id ↦
    reportIf (!(program.statement id).any fun value ↦ value.body == body.id)
      (.invalidReference "body statement" id.val)

/-- A scope is the root of at most one body, and a root or within another. -/
def validateScopeCoverage : Report :=
  let covered (scope : LexicalScope) : ℕ := coverage (program.bodies.map (·.scope)) scope.id.index
  reportIf (program.scopes.any fun scope ↦
    decide (covered scope > 1) || (covered scope == 0 && scope.parent.isNone))
    (.coverage "body and synthetic scopes")

def validateLexicalScope (scope : LexicalScope) : Report :=
  reportIf (!validSpan scope.source ||
    !((program.body scope.body).any fun body ↦ spanContains body.source scope.source) ||
    scope.parent.any fun parent ↦
      !(decide (parent.val < scope.id.val) && (program.scope parent).any fun parentScope ↦
        sameBodyOwner program parentScope.body scope.body))
    (.invalidRecord "scope" scope.id.val "body, parent, or source")

def validShadow (record : Local) (shadowed : LocalId) : Bool :=
  decide (shadowed.val < record.id.val) && (program.local_ shadowed).any fun shadowed ↦
    shadowed.name == record.name && sameBodyOwner program shadowed.body record.body &&
      scopeIsAncestorOrSame program shadowed.scope record.scope &&
      shadowed.source.file == record.source.file &&
      decide (shadowed.source.range.start < record.source.range.start)

def validateLocal (record : Local) : Report :=
  validateName U record.name "local" ++
  reportIf (!validSpan record.source ||
    !((program.body record.body).any fun body ↦ spanContains body.source record.source) ||
    !((program.scope record.scope).any fun scope ↦ scope.body == record.body) ||
    record.shadowed.any fun shadowed ↦ !validShadow program record shadowed)
    (.invalidRecord "local" record.id.val "body, scope, shadow, or source") ++
  record.ty.toList.flatMap (validateType program (.body record.body) 0)

def Local.key (record : Local) : List UInt8 ×ₗ ℕ :=
  toLex (Wire.utf8Bytes record.name.text, record.id.index)

/-- The latest local of the same name in the scope or one above it. -/
def expectedShadow (previous : List Local) (record : Local) : Option LocalId :=
  let scopes := record.scope :: scopesAbove program program.scopes.length record.scope
  let latest := scopes.filterMap fun scope ↦
    previous.find? fun other ↦ other.name == record.name && other.scope == scope
  latest.foldl (fun best candidate ↦
    if best.all fun best : LocalId ↦ decide (best.val < candidate.id.val) then some candidate.id
    else best) none

/-- The locals by name and then by identifier, each after those before it. -/
def validateShadowLinks : List Local → List Local → Report
  | _, [] => []
  | previous, record :: rest =>
    reportIf (record.shadowed != expectedShadow program previous record)
      (.invalidRecord "local" record.id.val "noncanonical shadow link") ++
    validateShadowLinks (record :: previous) rest

def validateLocalShadowing : Report :=
  validateShadowLinks program []
    (program.locals.insertionSort fun left right ↦ left.key ≤ right.key)

def statementBindings : StatementKind → List LocalId
  | .initialize_ local_ _ => [local_]
  | .for_ _ binding _ _ _ => [binding]
  | .with_ _ binding _ _ => binding.toList
  | _ => []

def PrimaryPattern.binding : PrimaryPattern → Option LocalId
  | .bind local_ => some local_
  | _ => none

/-- The locals that something binds. -/
def boundLocals : List LocalId :=
  (program.statements.flatMap fun statement ↦ statementBindings statement.kind) ++
    program.patterns.flatMap fun pattern ↦ pattern.alternatives.filterMap (·.kind.binding)

def validateLocalBindings : Report :=
  reportIf (!(List.range program.locals.length).all fun index ↦
    coverage (boundLocals program) index != 0) (.coverage "local bindings")

/-- The pattern whose bindings a pattern adds to; the first entry counts. -/
def patternRoots : List (PatternId × PatternId) :=
  program.patterns.foldl (fun roots pattern ↦
    let root := (roots.lookup pattern.id).getD pattern.id
    roots ++ (patternArguments pattern).map fun argument ↦ (argument, root))
    ((topPatterns program).map fun pattern ↦ (pattern, pattern))

def bindingRoot (pattern : Pattern) : Pattern :=
  (((patternRoots program).lookup pattern.id).bind program.pattern).getD pattern

def statementRegions : StatementKind → List RegionId
  | .with_ _ _ region _ => region.toList
  | _ => []

def validateRegionBinding (region : RegionBinding) : Report :=
  validateName U region.name "local region" ++
  reportIf (!validSpan region.source ||
    !(program.body region.body).any fun body ↦ body.source.file == region.source.file)
    (.invalidRecord "region" region.id.val "body, name, or source")

def validImageCandidate (declaration : Declaration) : Bool :=
  declaration.isPublic &&
    match declaration.kind with
    | .function function =>
      function.color == .sync && function.generics.isEmpty && function.parameters.isEmpty
    | _ => false

def validTestCandidate (declaration : Declaration) : Bool :=
  match declaration.kind with
  | .function function =>
    function.color != .isr && function.generics.isEmpty && function.parameters.isEmpty
  | _ => false

def validateCandidates : Report :=
  (program.imageCandidates.flatMap fun candidate ↦
    reportIf (!(program.declaration candidate).any validImageCandidate)
      (.invalidReference "image candidate" candidate.val)) ++
  (program.testCandidates.flatMap fun candidate ↦
    reportIf (!(program.declaration candidate).any validTestCandidate)
      (.invalidReference "entry candidate" candidate.val)) ++
  reportIf (!strictIds (program.imageCandidates.map (·.val)) ||
    !strictIds (program.testCandidates.map (·.val))) (.nonCanonical "entry candidates")

def attributeCount (declaration : Declaration) (builtin : BuiltinAttribute) : ℕ :=
  declaration.attributes.countP fun record ↦ record.identity == .builtin builtin

def malformedEntryAttribute (record : Attribute) : Bool :=
  (record.identity == .builtin .image && !record.arguments.isEmpty) ||
    (record.identity == .builtin .test && decide (record.arguments.length > 1))

def validateEntryAttributes (declaration : Declaration) : Report :=
  let images := attributeCount declaration .image
  let tests := attributeCount declaration .test
  reportIf (decide (images > 1) || decide (tests > 1))
    (.invalidRecord "declaration attribute" declaration.id.val "duplicate entry attribute") ++
  reportIf (declaration.attributes.any malformedEntryAttribute || (images == 1 && tests == 1))
    (.invalidRecord "declaration attribute" declaration.id.val
      "entry attribute arguments or conflict")

/-- The declarations with just one such attribute, in their order. -/
def marked (builtin : BuiltinAttribute) : List DeclarationId :=
  (program.declarations.filter fun declaration ↦ attributeCount declaration builtin == 1).map (·.id)

def validateEntryCandidateCoverage : Report :=
  program.declarations.flatMap validateEntryAttributes ++
  reportIf (program.imageCandidates != marked program .image) (.coverage "image candidates") ++
  reportIf (program.testCandidates != marked program .test) (.coverage "test candidates")

def validateArenas : Report :=
  requireDense "modules" (program.modules.map (·.id.val)) ++
  requireDense "declarations" (program.declarations.map (·.id.index)) ++
  requireDense "generic parameters" (program.genericParameters.map (·.id.index)) ++
  requireDense "parameters" (program.parameters.map (·.id.index)) ++
  requireDense "bodies" (program.bodies.map (·.id.index)) ++
  requireDense "scopes" (program.scopes.map (·.id.index)) ++
  requireDense "locals" (program.locals.map (·.id.index)) ++
  requireDense "statements" (program.statements.map (·.id.index)) ++
  requireDense "expressions" (program.expressions.map (·.id.index)) ++
  requireDense "patterns" (program.patterns.map (·.id.index)) ++
  requireDense "regions" (program.regions.map (·.id.index))

def validateModules : Report :=
  reportIf (program.modules.length != program.packages.modules.length)
    (.coverage "package modules") ++
  (program.modules.zip program.packages.modules).flatMap fun (module, record) ↦
    validateModule program U module record

def validateDeclarations : Report :=
  requireExactCoverage "declarations" program.declarations.length (listedDeclarations program) ++
  (program.declarations.flatMap fun declaration ↦
    validateDeclaration program U declaration ++ validateDeclarationOwner program declaration) ++
  program.genericParameters.flatMap (validateGeneric program U) ++
  requireExactCoverage "generic parameter" program.genericParameters.length
    (listedGenerics program) ++
  program.parameters.flatMap (validateParameter program U) ++
  requireExactCoverage "parameter" program.parameters.length (listedParameters program)

def validateCoverage : Report :=
  program.bodies.flatMap (validateBody program) ++
  requireExactCoverage "locals" program.locals.length (program.bodies.flatMap (·.locals)) ++
  requireExactCoverage "statements" program.statements.length
    (program.bodies.flatMap (·.statements)) ++
  requireExactCoverage "bodies" program.bodies.length (listedBodies program) ++
  validateScopeCoverage program ++
  requireExactCoverage "expressions" program.expressions.length (listedExpressions program) ++
  requireExactCoverage "patterns" program.patterns.length (listedPatterns program)

def validateRecords : Report :=
  program.scopes.flatMap (validateLexicalScope program) ++
  program.locals.flatMap (validateLocal program U) ++
  validateLocalShadowing program ++
  program.statements.flatMap (validateStatement program U) ++
  (program.expressions.flatMap fun expression ↦ validateExpression program expression U) ++
  (program.patterns.flatMap fun pattern ↦
    validatePattern program pattern (bindingRoot program pattern) U) ++
  validateLocalBindings program ++
  requireExactCoverage "with regions" program.regions.length
    (program.statements.flatMap fun statement ↦ statementRegions statement.kind) ++
  program.regions.flatMap (validateRegionBinding program U) ++
  validateCandidates program ++
  validateEntryCandidateCoverage program

def validateCore : Report :=
  validateArenas program ++ validateModules program U ++ validateDeclarations program U ++
    validateCoverage program ++ validateRecords program U

structure ValidationLimits where
  arenaRecords : UInt64
  modelEdges : UInt64
  payloadBytes : UInt64
  validationWork : UInt64
  nesting : UInt32
  errors : UInt32

namespace ValidationLimits

def standard : ValidationLimits where
  arenaRecords := 64000000
  modelEdges := 1000000000
  payloadBytes := 4 * 1024 * 1024 * 1024
  validationWork := 1100000000000
  nesting := 1024
  errors := 100000

def isValid (limits : ValidationLimits) : Bool :=
  decide (limits.arenaRecords > 0) && decide (limits.arenaRecords ≤ 4294967295) &&
    decide (limits.modelEdges > 0) && decide (limits.payloadBytes > 0) &&
    decide (limits.validationWork > 0) && decide (limits.nesting > 0) &&
    decide (limits.nesting ≤ 1024) && decide (limits.errors > 0)

end ValidationLimits

inductive ValidationFailure where
  | invalidLimits
  | resourceLimit (resource : String) (limit : UInt64)
  | invalid (errors : Report)
deriving DecidableEq

/-- The depths of the records from the first one on; the parent of each comes before it. -/
def ancestryDepths (nesting : ℕ) : List ℕ → List (Option ℕ) → Option (List ℕ)
  | depths, [] => some depths
  | depths, parent :: parents => do
    let depth ← match parent with
      | none => some 1
      | some parent => (depths[parent]?).map (· + 1)
    if depth ≤ nesting then ancestryDepths nesting (depths ++ [depth]) parents else none

def declarationParent (declaration : Declaration) : Option ℕ :=
  match declaration.owner with
  | .declaration parent => some parent.index
  | .module _ => none

def closureParent (expression : Expression) : Option ℕ :=
  match expression.owner with
  | .closure parent => some parent.index
  | .declaration _ | .body _ => none

def requireDepth (limits : ValidationLimits) (resource : String) (parents : List (Option ℕ)) :
    Except ValidationFailure Unit :=
  if (ancestryDepths limits.nesting.toNat [] parents).isSome then .ok ()
  else .error (.resourceLimit resource limits.nesting.toUInt64)

def validateAncestryDepths (limits : ValidationLimits) : Except ValidationFailure Unit := do
  requireDepth limits "declaration ancestry depth" (program.declarations.map declarationParent)
  requireDepth limits "lexical scope depth"
    (program.scopes.map fun scope ↦ scope.parent.map (·.index))
  requireDepth limits "expression ownership depth" (program.expressions.map closureParent)

def requireArena (limits : ValidationLimits) (resource : String) (length : ℕ) :
    Except ValidationFailure Unit :=
  if length ≤ limits.arenaRecords.toNat then .ok ()
  else .error (.resourceLimit resource limits.arenaRecords)

def validateProgramResources (limits : ValidationLimits) : Except ValidationFailure Unit := do
  requireArena limits "modules" program.modules.length
  requireArena limits "declarations" program.declarations.length
  requireArena limits "generic parameters" program.genericParameters.length
  requireArena limits "parameters" program.parameters.length
  requireArena limits "bodies" program.bodies.length
  requireArena limits "scopes" program.scopes.length
  requireArena limits "locals" program.locals.length
  requireArena limits "statements" program.statements.length
  requireArena limits "expressions" program.expressions.length
  requireArena limits "patterns" program.patterns.length
  requireArena limits "regions" program.regions.length
  validateAncestryDepths program limits

/-- Only so many errors are kept; the last one then says that there are more. -/
def retainErrors (limit : UInt32) (report : Report) : Report :=
  if report.length ≤ limit.toNat then report
  else report.take (limit.toNat - 1) ++ [.tooManyErrors limit]

def validateWithLimits (limits : ValidationLimits) : Except ValidationFailure Unit := do
  if !limits.isValid then throw .invalidLimits
  validateProgramResources program limits
  let report := validateCore program U
  if report.isEmpty then .ok () else .error (.invalid (retainErrors limits.errors report))

end Wrela.Hir
