import Wrela.Hir.Visibility

/-!
# Types and attributes

Types, carriers and attributes hold constant expressions.  Each is collected where it stands, and
must have the owner of the record that the type or attribute belongs to.
-/

namespace Wrela.Hir

open Wrela.Source Wrela.Package

/-- Types that are nested deeper are neither collected nor accepted. -/
def nestingLimit : ℕ := 1024

mutual

def collectTypeExpressions (depth : ℕ) : TypeExpression → List ExpressionId
  | .mk kind _ => if depth ≥ nestingLimit then [] else collectKindExpressions depth kind

def collectKindExpressions (depth : ℕ) : TypeExpressionKind → List ExpressionId
  | .named _ arguments => collectArgumentExpressions depth arguments
  | .selfType _ => []
  | .array element length => collectTypeExpressions (depth + 1) element ++ [length]
  | .tuple values => collectTypesExpressions (depth + 1) values
  | .view _ target => collectTypeExpressions (depth + 1) target
  | .iso brand payload =>
    collectTypeExpressions (depth + 1) brand ++ collectTypeExpressions (depth + 1) payload
  | .function _ parameters result =>
    collectParameterExpressions (depth + 1) parameters ++ collectTypeExpressions (depth + 1) result
  | .error => []

def collectArgumentExpressions (depth : ℕ) : List GenericArgument → List ExpressionId
  | [] => []
  | .mk kind _ :: arguments =>
    collectArgumentKindExpressions depth kind ++ collectArgumentExpressions depth arguments

def collectArgumentKindExpressions (depth : ℕ) : GenericArgumentKind → List ExpressionId
  | .type ty => collectTypeExpressions (depth + 1) ty
  | .constant id | .boundedCapacity id => [id]
  | .region _ | .error => []

def collectTypesExpressions (depth : ℕ) : List TypeExpression → List ExpressionId
  | [] => []
  | ty :: types => collectTypeExpressions depth ty ++ collectTypesExpressions depth types

def collectParameterExpressions (depth : ℕ) : List FunctionTypeParameter → List ExpressionId
  | [] => []
  | .mk _ ty _ :: parameters =>
    collectTypeExpressions depth ty ++ collectParameterExpressions depth parameters

end

mutual

def collectCarrierExpressions (depth : ℕ) : ProjectionCarrier → List ExpressionId
  | .mk kind _ => if depth ≥ nestingLimit then [] else collectCarrierKindExpressions depth kind

def collectCarrierKindExpressions (depth : ℕ) : ProjectionCarrierKind → List ExpressionId
  | .view _ ty => collectTypeExpressions 0 ty
  | .option carrier => collectCarrierExpressions (depth + 1) carrier
  | .result carrier error =>
    collectCarrierExpressions (depth + 1) carrier ++ collectTypeExpressions 0 error
  | .error => []

end

def collectAttributeExpressions (record : Attribute) : List ExpressionId :=
  record.arguments.map (·.value)

/-! ## Checks -/

variable (program : Program)

/-- An expression of a record with the owner and within the source. -/
def ownedExpression (id : ExpressionId) (owner : ExpressionOwner) (source : Span) : Bool :=
  (program.expression id).any fun value ↦ value.owner == owner && spanContains source value.source

/-- The source lies within that of the owner. -/
def withinOwner (owner : ExpressionOwner) (source : Span) : Bool :=
  validSpan source && (expressionOwnerSpan program owner).any fun span ↦ spanContains span source

def validateRegion (owner : ExpressionOwner) : RegionReference → Report
  | .generic id =>
    reportIf (!(program.genericParameter id).any fun value ↦
      value.kind.isRegion && genericVisibleFrom program id owner)
      (.invalidReference "generic region" id.val)
  | .local_ id =>
    reportIf (!regionVisibleFrom program id owner) (.invalidReference "local region" id.val)

mutual

def validateType (owner : ExpressionOwner) (depth : ℕ) : TypeExpression → Report
  | .mk kind source =>
    if depth ≥ nestingLimit then [.nestingLimit]
    else
      reportIf (!withinOwner program owner source)
        (.invalidRecord "type expression" (.ofNat depth) "source owner") ++
      validateTypeKind owner depth source kind

def validateTypeKind (owner : ExpressionOwner) (depth : ℕ) (source : Span) :
    TypeExpressionKind → Report
  | .named definition arguments =>
    reportIf (!validTypeDefinition program definition owner)
      (.invalidReference "type definition" 0) ++
    reportIf (!genericArgumentsMatchDefinition program definition arguments)
      (.invalidRecord "type expression" (.ofNat depth) "generic argument count or kind") ++
    validateGenericArguments owner depth source arguments
  | .selfType selfOwner =>
    reportIf (nearestSelfTypeOwner program owner != some selfOwner)
      (.invalidReference "Self type owner" selfOwner.val)
  | .array element length =>
    validateType owner (depth + 1) element ++
    reportIf (!ownedExpression program length owner source)
      (.invalidReference "array length" length.val)
  | .tuple values => validateTypes owner (depth + 1) values
  | .view _ target => validateType owner (depth + 1) target
  | .iso brand payload =>
    validateType owner (depth + 1) brand ++ validateType owner (depth + 1) payload
  | .function _ parameters result =>
    validateTypeParameters owner depth source parameters ++ validateType owner (depth + 1) result
  | .error => []

def validateGenericArguments (owner : ExpressionOwner) (depth : ℕ) (source : Span) :
    List GenericArgument → Report
  | [] => []
  | .mk kind argumentSource :: arguments =>
    reportIf (!validSpan argumentSource || !spanContains source argumentSource)
      (.invalidRecord "generic argument" (.ofNat depth) "source") ++
    validateGenericArgumentKind owner depth argumentSource kind ++
    validateGenericArguments owner depth source arguments

def validateGenericArgumentKind (owner : ExpressionOwner) (depth : ℕ) (source : Span) :
    GenericArgumentKind → Report
  | .type ty =>
    reportIf (!spanContains source ty.source)
      (.invalidRecord "generic type argument" (.ofNat depth) "source") ++
    validateType owner (depth + 1) ty
  | .constant id | .boundedCapacity id =>
    reportIf (!ownedExpression program id owner source)
      (.invalidReference "generic constant expression" id.val)
  | .region region => validateRegion program owner region
  | .error => []

def validateTypes (owner : ExpressionOwner) (depth : ℕ) : List TypeExpression → Report
  | [] => []
  | ty :: types => validateType owner depth ty ++ validateTypes owner depth types

def validateTypeParameters (owner : ExpressionOwner) (depth : ℕ) (source : Span) :
    List FunctionTypeParameter → Report
  | [] => []
  | .mk _ ty parameterSource :: parameters =>
    reportIf (!validSpan parameterSource || !spanContains source parameterSource)
      (.invalidRecord "function type parameter" (.ofNat depth) "source") ++
    validateType owner (depth + 1) ty ++ validateTypeParameters owner depth source parameters

end

mutual

def validateCarrier (owner : ExpressionOwner) (depth : ℕ) : ProjectionCarrier → Report
  | .mk kind source =>
    if depth ≥ nestingLimit then [.nestingLimit]
    else
      reportIf (!withinOwner program owner source)
        (.invalidRecord "projection carrier" (.ofNat depth) "source") ++
      validateCarrierKind owner depth source kind

def validateCarrierKind (owner : ExpressionOwner) (depth : ℕ) (source : Span) :
    ProjectionCarrierKind → Report
  | .view _ ty => validateType program owner 0 ty
  | .option carrier =>
    reportIf (!spanContains source carrier.source)
      (.invalidRecord "projection carrier" (.ofNat depth) "child source") ++
    validateCarrier owner (depth + 1) carrier
  | .result carrier error =>
    reportIf (!spanContains source carrier.source || !spanContains source error.source)
      (.invalidRecord "projection carrier" (.ofNat depth) "child source") ++
    validateCarrier owner (depth + 1) carrier ++ validateType program owner 0 error
  | .error => []

end

variable (U : Unicode)

/-- No positional argument follows a named one. -/
def validateAttributeArguments (record : Attribute) (owner : ExpressionOwner) :
    Bool → List AttributeArgument → Report
  | _, [] => []
  | sawNamed, argument :: arguments =>
    (match argument.name with
      | some name => validateName U name "attribute argument"
      | none =>
        reportIf sawNamed
          (.invalidRecord "attribute argument" 0 "positional argument after named argument")) ++
    reportIf (!validSpan argument.source || !spanContains record.source argument.source ||
      !ownedExpression program argument.value owner argument.source)
      (.invalidReference "attribute argument" argument.value.val) ++
    validateAttributeArguments record owner (sawNamed || argument.name.isSome) arguments

def validAttributeIdentity : AttributeIdentity → Bool
  | .builtin _ => true
  | .tool identity => validResolvedDeclaration program identity

def validateAttribute (owner : ExpressionOwner) (record : Attribute) : Report :=
  reportIf (!validAttributeIdentity program record.identity ||
    !withinOwner program owner record.source)
    (.invalidRecord "attribute" 0 "name, owner, or source") ++
  validateAttributeArguments program U record owner false record.arguments ++
  reportIf (duplicateNames (record.arguments.filterMap (·.name)))
    (.invalidRecord "attribute argument" 0 "duplicate name")

end Wrela.Hir

/-!
## Declarations

What a declaration lists is there and names it as its owner, and the parts of every kind of
declaration are in order.
-/

namespace Wrela.Hir

open Wrela.Source Wrela.Package

def collectFieldExpressions (field : Field) : List ExpressionId :=
  field.attributes.flatMap collectAttributeExpressions ++ collectTypeExpressions 0 field.ty ++
    field.default.toList

def collectVariantExpressions (variant : EnumVariant) : List ExpressionId :=
  variant.fields.flatMap fun field ↦ collectTypeExpressions 0 field.ty

def collectDeclarationKindExpressions : DeclarationKind → List ExpressionId
  | .constant value => value.ty.toList.flatMap (collectTypeExpressions 0) ++ [value.value]
  | .function value => value.result.toList.flatMap (collectTypeExpressions 0)
  | .initializer value => value.result.toList.flatMap (collectTypeExpressions 0)
  | .structure value =>
    value.implements.flatMap (collectTypeExpressions 0) ++
      value.fields.flatMap collectFieldExpressions
  | .enumeration value => value.variants.flatMap collectVariantExpressions
  | .implementation value =>
    collectTypeExpressions 0 value.interface ++ collectTypeExpressions 0 value.implementingType
  | .projection value => collectCarrierExpressions 0 value.carrier
  | .scope value => collectTypeExpressions 0 value.result ++ [value.enter]
  | .comptimeSelection value => [value.condition]
  | .brand | .interface _ | .error => []

def collectDeclarationExpressions (declaration : Declaration) : List ExpressionId :=
  declaration.attributes.flatMap collectAttributeExpressions ++
    collectDeclarationKindExpressions declaration.kind

def declarationBodies (declaration : Declaration) : List BodyId :=
  match declaration.kind with
  | .function value => value.body.toList
  | .initializer value => [value.body]
  | .projection value => value.body.toList
  | .scope value => value.setup :: (value.abort.toList ++ [value.exit])
  | _ => []

variable (program : Program)

def checkExpressionOwner (id : ExpressionId) (owner : ExpressionOwner) (kind : String) : Report :=
  reportIf (!(program.expression id).any fun value ↦ value.owner == owner)
    (.invalidReference kind id.val)

/-- A body of its own: its scope has no parent. -/
def checkBodyOwner (id : BodyId) (owner : BodyOwner) (kind : String) : Report :=
  reportIf (!(program.body id).any fun value ↦
    value.owner == owner && (program.scope value.scope).any fun scope ↦ scope.parent.isNone)
    (.invalidReference kind id.val)

/-- The body of a later phase of a scope: its scope is within that of the setup. -/
def checkScopePhaseBody (id : BodyId) (declaration : DeclarationId) (setupScope : Option ScopeId)
    (kind : String) : Report :=
  reportIf (!(program.body id).any fun value ↦
    value.owner == .declaration declaration &&
      (program.scope value.scope).any fun scope ↦ scope.parent == setupScope)
    (.invalidReference kind id.val)

variable (U : Unicode)

def DeclarationKind.isNamed : DeclarationKind → Bool
  | .implementation _ | .initializer _ | .comptimeSelection _ | .error => false
  | _ => true

def declarationNames (ids : List DeclarationId) : List Name :=
  (ids.filterMap program.declaration).filterMap (·.name)

def validateGenerics (declaration : Declaration) : Report :=
  ((declarationGenerics declaration).flatMap fun generic ↦
    match program.genericParameter generic with
    | none => [.invalidReference "declaration generic" generic.val]
    | some value =>
      reportIf (value.owner != declaration.id)
        (.invalidRecord "declaration generic" generic.val "owner or duplicate name")) ++
  reportIf (duplicateNames
    (((declarationGenerics declaration).filterMap program.genericParameter).map (·.name)))
    (.invalidRecord "declaration generic" declaration.id.val "duplicate name")

/-- A receiver comes first. -/
def validateParameters (declaration : Declaration) : Report :=
  ((declarationParameters declaration).zipIdx.flatMap fun (parameter, index) ↦
    match program.parameter parameter with
    | none => [.invalidReference "declaration parameter" parameter.val]
    | some value =>
      reportIf (value.receiver &&
        (index != 0 || !declarationAllowsReceiver program declaration))
        (.invalidRecord "declaration parameter" parameter.val
          "receiver position or declaration context") ++
      reportIf (value.owner != .declaration declaration.id)
        (.invalidRecord "declaration parameter" parameter.val "owner or duplicate name")) ++
  reportIf (duplicateNames
    (((declarationParameters declaration).filterMap program.parameter).filterMap (·.name)))
    (.invalidRecord "declaration parameter" declaration.id.val "duplicate name")

def validateChildren (declaration : Declaration) : Report :=
  ((declarationChildren declaration).flatMap fun child ↦
    match program.declaration child with
    | none => [.invalidReference "nested declaration" child.val]
    | some value =>
      reportIf (value.owner != .declaration declaration.id)
        (.invalidRecord "nested declaration" child.val "owner or duplicate name")) ++
  reportIf (duplicateNames (declarationNames program (declarationChildren declaration)))
    (.invalidRecord "nested declaration" declaration.id.val "duplicate name")

def exactReceiver (parameters : List ParameterId) : Bool :=
  (parameters.head?.any fun parameter ↦ (program.parameter parameter).any fun value ↦
    value.receiver && value.access == .mutate && value.name.isNone && value.ty.isNone) &&
  parameters.tail.all fun parameter ↦ (program.parameter parameter).any fun value ↦ !value.receiver

def directStructOwner (declaration : Declaration) : Bool :=
  match declaration.owner with
  | .declaration parent => (program.declaration parent).any (·.kind.isStructure)
  | .module _ => false

def DeclarationKind.isInitializer : DeclarationKind → Bool
  | .initializer _ => true
  | _ => false

def validateField (declaration : Declaration) (field : Field) : Report :=
  validateName U field.name "field" ++
  reportIf (!validSpan field.source || !spanContains declaration.source field.source)
    (.invalidRecord "field" declaration.id.val "source or duplicate name") ++
  field.attributes.flatMap (validateAttribute program U (.declaration declaration.id)) ++
  validateType program (.declaration declaration.id) 0 field.ty ++
  field.default.toList.flatMap fun default ↦
    checkExpressionOwner program default (.declaration declaration.id) "field default"

def validateVariantField (declaration : Declaration) (variant : EnumVariant)
    (field : VariantField) : Report :=
  reportIf (field.name.isSome != variant.fields.head?.any (·.name.isSome))
    (.invalidRecord "variant field" declaration.id.val "mixed positional and named payload") ++
  (field.name.toList.flatMap fun name ↦ validateName U name "variant field") ++
  reportIf (!validSpan field.source || !spanContains variant.source field.source)
    (.invalidRecord "variant field" declaration.id.val "source") ++
  validateType program (.declaration declaration.id) 0 field.ty

def validateVariant (declaration : Declaration) (variant : EnumVariant) : Report :=
  validateName U variant.name "enum variant" ++
  reportIf (!validSpan variant.source || !spanContains declaration.source variant.source)
    (.invalidRecord "enum variant" declaration.id.val "source or duplicate name") ++
  variant.fields.flatMap (validateVariantField program U declaration variant) ++
  reportIf (duplicateNames (variant.fields.filterMap (·.name)))
    (.invalidRecord "variant field" declaration.id.val "duplicate name")

def validateInitializer (declaration : Declaration) (value : InitializerDeclaration) : Report :=
  reportIf (!directStructOwner program declaration || declaration.visibility != .priv ||
    !declaration.attributes.isEmpty || !exactReceiver program value.parameters)
    (.invalidRecord "initializer" declaration.id.val
      "struct owner, private anonymous shape, or mutate receiver") ++
  value.result.toList.flatMap (validateType program (.declaration declaration.id) 0) ++
  checkBodyOwner program value.body (.declaration declaration.id) "initializer body"

def validateStructure (declaration : Declaration) (value : AggregateDeclaration) : Report :=
  value.implements.flatMap (validateType program (.declaration declaration.id) 0) ++
  value.fields.flatMap (validateField program U declaration) ++
  reportIf (duplicateNames
    (value.fields.map (·.name) ++ declarationNames program value.members))
    (.invalidRecord "aggregate member" declaration.id.val "field/member namespace collision") ++
  reportIf (((value.members.filterMap program.declaration).countP fun member ↦
    member.kind.isInitializer) > 1)
    (.invalidRecord "initializer" declaration.id.val "more than one initializer in a struct")

def validateEnumeration (declaration : Declaration) (value : EnumDeclaration) : Report :=
  value.variants.flatMap (validateVariant program U declaration) ++
  reportIf (duplicateNames
    (value.variants.map (·.name) ++ declarationNames program value.members))
    (.invalidRecord "enum member" declaration.id.val "variant/member namespace collision")

def validateProjection (declaration : Declaration) (value : ProjectionDeclaration) : Report :=
  validateCarrier program (.declaration declaration.id) 0 value.carrier ++
  reportIf (!strictIds (value.provenance.map (·.val))) (.nonCanonical "projection provenance") ++
  (value.provenance.flatMap fun parameter ↦
    reportIf (!value.parameters.contains parameter)
      (.invalidReference "projection provenance" parameter.val)) ++
  value.body.toList.flatMap fun body ↦
    checkBodyOwner program body (.declaration declaration.id) "projection body"

def validateScope (declaration : Declaration) (value : ScopeDeclaration) : Report :=
  let setupScope := (program.body value.setup).map (·.scope)
  validateType program (.declaration declaration.id) 0 value.result ++
  checkBodyOwner program value.setup (.declaration declaration.id) "scope setup" ++
  reportIf (!(program.expression value.enter).any fun expression ↦
    expression.owner == .body value.setup && expression.scope == setupScope)
    (.invalidReference "scope enter" value.enter.val) ++
  (value.abort.toList.flatMap fun abort ↦
    checkScopePhaseBody program abort declaration.id setupScope "scope abort") ++
  reportIf (!value.parameters.contains value.exitParameter)
    (.invalidReference "scope exit parameter" value.exitParameter.val) ++
  checkScopePhaseBody program value.exit declaration.id setupScope "scope exit"

def validateSelection (declaration : Declaration) (value : ComptimeSelection) : Report :=
  checkExpressionOwner program value.condition (.declaration declaration.id)
    "comptime condition" ++
  reportIf (!strictIds (value.thenDeclarations.map (·.val)) ||
    !strictIds (value.elseDeclarations.map (·.val))) (.nonCanonical "comptime declarations") ++
  (value.thenDeclarations ++ value.elseDeclarations).flatMap fun child ↦
    reportIf (!(program.declaration child).any fun record ↦
      record.owner == .declaration declaration.id)
      (.invalidReference "comptime declaration" child.val)

def validateDeclarationKind (declaration : Declaration) : Report :=
  match declaration.kind with
  | .constant value =>
    value.ty.toList.flatMap (validateType program (.declaration declaration.id) 0) ++
    checkExpressionOwner program value.value (.declaration declaration.id) "constant value"
  | .brand | .error | .interface _ => []
  | .function value =>
    value.result.toList.flatMap (validateType program (.declaration declaration.id) 0) ++
    value.body.toList.flatMap fun body ↦
      checkBodyOwner program body (.declaration declaration.id) "function body"
  | .initializer value => validateInitializer program declaration value
  | .structure value => validateStructure program U declaration value
  | .enumeration value => validateEnumeration program U declaration value
  | .implementation value =>
    validateType program (.declaration declaration.id) 0 value.interface ++
    validateType program (.declaration declaration.id) 0 value.implementingType
  | .projection value => validateProjection program declaration value
  | .scope value => validateScope program declaration value
  | .comptimeSelection value => validateSelection program declaration value

def validateDeclaration (declaration : Declaration) : Report :=
  reportIf (declaration.name.isSome != declaration.kind.isNamed)
    (.invalidRecord "declaration" declaration.id.val "source name presence") ++
  (declaration.name.toList.flatMap fun name ↦ validateName U name "declaration") ++
  match program.module declaration.module with
  | none => [.invalidReference "declaration module" (.ofNat declaration.module.val)]
  | some module =>
    reportIf (!validSpan declaration.source || !spanContains module.source declaration.source)
      (.invalidRecord "declaration" declaration.id.val "source") ++
    declaration.attributes.flatMap (validateAttribute program U (.declaration declaration.id)) ++
    reportIf (!strictIds ((declarationGenerics declaration).map (·.val)) ||
      !strictIds ((declarationParameters declaration).map (·.val)) ||
      !strictIds ((declarationChildren declaration).map (·.val)))
      (.nonCanonical "declaration references") ++
    validateGenerics program declaration ++ validateParameters program declaration ++
    validateChildren program declaration ++ validateDeclarationKind program U declaration

end Wrela.Hir
