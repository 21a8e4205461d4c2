import Wrela.Hir.Program

/-!
# Owners and visible definitions

Which declaration, body or closure a record belongs to, and which definitions are visible from
there.  The walks along owners and scopes are bounded, since a program that is not sealed may tie
them into cycles.
-/

namespace Wrela.Hir

open Wrela.Source Wrela.Package

/-! ## Declarations -/

def declarationGenerics (declaration : Declaration) : List GenericParameterId :=
  match declaration.kind with
  | .function value => value.generics
  | .structure value => value.generics
  | .enumeration value => value.generics
  | .interface value => value.generics
  | .projection value => value.generics
  | _ => []

def declarationParameters (declaration : Declaration) : List ParameterId :=
  match declaration.kind with
  | .function value => value.parameters
  | .initializer value => value.parameters
  | .projection value => value.parameters
  | .scope value => value.parameters
  | _ => []

def declarationChildren (declaration : Declaration) : List DeclarationId :=
  match declaration.kind with
  | .structure value => value.members
  | .enumeration value => value.members
  | .interface value => value.requirements
  | .implementation value => value.members
  | _ => []

/-- The declarations of both branches of a comptime selection. -/
def selectedDeclarations (declaration : Declaration) : List DeclarationId :=
  match declaration.kind with
  | .comptimeSelection value => value.thenDeclarations ++ value.elseDeclarations
  | _ => []

def declarationOwns (declaration : Declaration) (child : DeclarationId) : Bool :=
  (declarationChildren declaration).contains child ||
    (selectedDeclarations declaration).contains child

def Declaration.isPublic (declaration : Declaration) : Bool :=
  declaration.visibility == .pub || declaration.visibility == .reexported

/-- What gives `self` and `Self` a meaning. -/
def DeclarationKind.isSelfType : DeclarationKind → Bool
  | .structure _ | .enumeration _ | .interface _ | .implementation _ => true
  | _ => false

def DeclarationKind.isStructure : DeclarationKind → Bool
  | .structure _ => true
  | _ => false

variable (program : Program)

def validResolvedDeclaration (resolved : ResolvedDeclaration) : Bool :=
  (program.declaration resolved.declaration).any fun declaration ↦
    declaration.module == resolved.module &&
      (program.module resolved.module).any fun module ↦ module.package == resolved.package

def resolvedVariant (resolved : ResolvedVariant) : Option EnumVariant := do
  let declaration ← program.declaration resolved.enumeration.declaration
  if validResolvedDeclaration program resolved.enumeration then
    match declaration.kind with
    | .enumeration enumeration => enumeration.variants[resolved.variant.toNat]?
    | _ => none
  else none

def publicDeclaration (resolved : ResolvedDeclaration) : Bool :=
  validResolvedDeclaration program resolved &&
    (program.declaration resolved.declaration).any (·.isPublic)

def validReexportTarget : ReexportTarget → Bool
  | .declaration resolved => publicDeclaration program resolved
  | .variant resolved =>
    publicDeclaration program resolved.enumeration && (resolvedVariant program resolved).isSome
  | .module package module =>
    (program.module module).any fun record ↦ record.package == package

def isScopeExitParameter (parameter : ParameterId) : Bool :=
  (program.parameter parameter).any fun record ↦
    match record.owner with
    | .declaration owner =>
      (program.declaration owner).any fun declaration ↦
        match declaration.kind with
        | .scope scope => scope.exitParameter == parameter
        | _ => false
    | .closure _ => false

def declarationAllowsReceiver (declaration : Declaration) : Bool :=
  match declaration.owner with
  | .declaration parent => (program.declaration parent).any (·.kind.isSelfType)
  | .module _ => false

/-- One step from an owner towards its declaration. -/
def ownerStep : ExpressionOwner → Option (DeclarationId ⊕ ExpressionOwner)
  | .declaration declaration => some (.inl declaration)
  | .closure closure => (program.expression closure).map fun expression ↦ .inr expression.owner
  | .body body =>
    (program.body body).bind fun record ↦
      match record.owner with
      | .declaration declaration => some (.inl declaration)
      | .closure closure => (program.expression closure).map fun expression ↦ .inr expression.owner

def ownerDeclaration : ℕ → ExpressionOwner → Option DeclarationId
  | 0, _ => none
  | fuel + 1, owner =>
    match ownerStep program owner with
    | some (.inl declaration) => some declaration
    | some (.inr owner) => ownerDeclaration fuel owner
    | none => none

def expressionOwnerDeclaration (owner : ExpressionOwner) : Option DeclarationId :=
  ownerDeclaration program (program.bodies.length + program.expressions.length + 1) owner

def expressionOwnerSpan : ExpressionOwner → Option Span
  | .declaration id => (program.declaration id).map (·.source)
  | .body id => (program.body id).map (·.source)
  | .closure id => (program.expression id).map (·.source)

def bodyOwnerSpan : BodyOwner → Option Span
  | .declaration id => (program.declaration id).map (·.source)
  | .closure id => (program.expression id).map (·.source)

def ExpressionKind.isClosure : ExpressionKind → Bool
  | .closure .. => true
  | _ => false

def validBodyOwner : BodyOwner → Bool
  | .declaration id => (program.declaration id).isSome
  | .closure id => (program.expression id).any (·.kind.isClosure)

def sameBodyOwner (left right : BodyId) : Bool :=
  match program.body left, program.body right with
  | some left, some right => left.owner == right.owner
  | _, _ => false

/-- The first declaration on the way up that gives `Self` a meaning. -/
def selfTypeOwner : ℕ → DeclarationId → Option DeclarationId
  | 0, _ => none
  | fuel + 1, declaration =>
    (program.declaration declaration).bind fun record ↦
      if record.kind.isSelfType then some declaration
      else
        match record.owner with
        | .declaration parent => selfTypeOwner fuel parent
        | .module _ => none

def nearestSelfTypeOwner (owner : ExpressionOwner) : Option DeclarationId :=
  (expressionOwnerDeclaration program owner).bind
    (selfTypeOwner program (program.declarations.length + 1))

def genericOwnerAbove (owner : DeclarationId) : ℕ → DeclarationId → Bool
  | 0, _ => false
  | fuel + 1, declaration =>
    declaration == owner || (program.declaration declaration).any fun record ↦
      match record.owner with
      | .declaration parent => genericOwnerAbove owner fuel parent
      | .module _ => false

def genericVisibleFrom (generic : GenericParameterId) (owner : ExpressionOwner) : Bool :=
  (program.genericParameter generic).any fun generic ↦
    (expressionOwnerDeclaration program owner).any
      (genericOwnerAbove program generic.owner (program.declarations.length + 1))

def GenericParameterKind.isType : GenericParameterKind → Bool
  | .type _ => true
  | _ => false

def GenericParameterKind.isRegion : GenericParameterKind → Bool
  | .region => true
  | _ => false

def DeclarationKind.isType : DeclarationKind → Bool
  | .brand | .structure _ | .enumeration _ | .interface _ => true
  | _ => false

def validTypeDefinition (definition : Definition) (owner : ExpressionOwner) : Bool :=
  match definition with
  | .declaration resolved =>
    (program.declaration resolved.declaration).any fun declaration ↦
      validResolvedDeclaration program resolved && declaration.kind.isType
  | .generic id =>
    genericVisibleFrom program id owner &&
      (program.genericParameter id).any fun generic ↦ generic.kind.isType
  | .builtin _ => true
  | .variant _ | .parameter _ | .local_ _ | .module _ _ => false

def genericArgumentMatchesParameter :
    GenericArgumentKind → GenericParameterKind → Bool
  | .error, _ => true
  | .type _, .type _ => true
  | .constant _, .constant _ => true
  | .region _, .region => true
  | _, _ => false

def GenericArgumentKind.isBoundedCapacity : GenericArgumentKind → Bool
  | .boundedCapacity _ => true
  | _ => false

def genericArgumentsMatchDefinition (definition : Definition) (arguments : List GenericArgument) :
    Bool :=
  match definition with
  | .declaration resolved =>
    (program.declaration resolved.declaration).any fun declaration ↦
      let parameters := declarationGenerics declaration
      parameters.length == arguments.length &&
        (parameters.zip arguments).all fun (parameter, argument) ↦
          (program.genericParameter parameter).any fun parameter ↦
            genericArgumentMatchesParameter argument.kind parameter.kind
  | .generic _ => arguments.isEmpty
  | .builtin builtin =>
    arguments.all fun argument ↦
      !argument.kind.isBoundedCapacity || builtin == .bytes || builtin == .string
  | .variant _ | .parameter _ | .local_ _ | .module _ _ => false

/-- The scopes above a scope, the nearest first. -/
def scopesAbove : ℕ → ScopeId → List ScopeId
  | 0, _ => []
  | fuel + 1, scope =>
    match (program.scope scope).bind (·.parent) with
    | some parent => parent :: scopesAbove fuel parent
    | none => []

def scopeIsStrictAncestor (ancestor descendant : ScopeId) : Bool :=
  (scopesAbove program program.scopes.length descendant).contains ancestor

def scopeIsAncestorOrSame (ancestor descendant : ScopeId) : Bool :=
  ancestor == descendant || scopeIsStrictAncestor program ancestor descendant

/-- The scope of an expression; one in a closure without a body has that of the closure. -/
def ownerScope : ℕ → ExpressionOwner → Option ScopeId → Option ScopeId
  | 0, _, _ => none
  | _ + 1, .declaration _, _ => none
  | _ + 1, .body body, scope =>
    scope.filter fun scope ↦ (program.scope scope).any fun record ↦ record.body == body
  | fuel + 1, .closure closure, scope =>
    (program.expression closure).bind fun expression ↦ ownerScope fuel expression.owner scope

def expressionScope (expression : Expression) : Option ScopeId :=
  ownerScope program (program.expressions.length + 1) expression.owner expression.scope

def validExpressionScopeShape (expression : Expression) : Bool :=
  match expression.owner with
  | .declaration _ | .closure _ => expression.scope.isNone
  | .body body =>
    expression.scope.any fun scope ↦ (program.scope scope).any fun record ↦ record.body == body

def localVisibleAt (local_ : LocalId) (scope : Option ScopeId) (source : Span) : Bool :=
  scope.any fun scope ↦ (program.local_ local_).any fun record ↦
    record.source.file == source.file && decide (record.source.range.start ≤ source.range.start) &&
      scopeIsAncestorOrSame program record.scope scope

def BodyOwner.closure? : BodyOwner → Option ExpressionId
  | .closure id => some id
  | .declaration _ => none

/-- The closure whose body or expression an owner is. -/
def owningClosure : ExpressionOwner → Option ExpressionId
  | .closure closure => some closure
  | .declaration _ => none
  | .body body => (program.body body).bind (·.owner.closure?)

/-- The closures an owner is in, the nearest first, up to the bound. -/
def enclosingClosures : ℕ → ExpressionOwner → List ExpressionId
  | 0, _ => []
  | fuel + 1, owner =>
    match owningClosure program owner with
    | some closure =>
      match program.expression closure with
      | some expression => closure :: enclosingClosures fuel expression.owner
      | none => [closure]
    | none => []

def parameterVisibleFrom (parameter : ParameterId) (owner : ExpressionOwner) : Bool :=
  (program.parameter parameter).any fun parameter ↦
    match parameter.owner with
    | .declaration declaration => expressionOwnerDeclaration program owner == some declaration
    | .closure closure =>
      (enclosingClosures program (program.bodies.length + program.expressions.length + 1)
        owner).contains closure

def declarationVisibleFrom (resolved : ResolvedDeclaration) (owner : ExpressionOwner) : Bool :=
  (program.declaration resolved.declaration).any fun target ↦
    validResolvedDeclaration program resolved &&
      (target.isPublic ||
        ((expressionOwnerDeclaration program owner).bind program.declaration).any fun owner ↦
          owner.module == target.module)

def definitionVisibleAt (definition : Definition) (owner : ExpressionOwner)
    (scope : Option ScopeId) (source : Span) : Bool :=
  match definition with
  | .declaration resolved => declarationVisibleFrom program resolved owner
  | .variant resolved =>
    (resolvedVariant program resolved).isSome &&
      declarationVisibleFrom program resolved.enumeration owner
  | .parameter parameter => parameterVisibleFrom program parameter owner
  | .local_ local_ => localVisibleAt program local_ scope source
  | .generic generic => genericVisibleFrom program generic owner
  | .builtin _ => true
  | .module package module =>
    (program.module module).any fun record ↦ record.package == package

def ExpressionOwner.body? : ExpressionOwner → Option BodyId
  | .body id => some id
  | _ => none

/-- The body an owner is, or that of the expression a closure is. -/
def owningBody : ExpressionOwner → Option BodyId
  | .body body => some body
  | .closure closure => (program.expression closure).bind (·.owner.body?)
  | .declaration _ => none

def regionVisibleFrom (region : RegionId) (owner : ExpressionOwner) : Bool :=
  match (program.region region).bind fun binding ↦ program.body binding.body,
    (owningBody program owner).bind program.body with
  | some target, some body =>
    body.scope == target.scope ||
      (scopesAbove program program.scopes.length body.scope).contains target.scope
  | _, _ => false

end Wrela.Hir
