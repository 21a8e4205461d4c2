import Wrela.Hir.Declarations

/-!
# Statements

The expressions and bodies of a statement.  An expression belongs to the body of the statement; a
body within the statement comes later than the one the statement stands in and has the same owner.
-/

namespace Wrela.Hir

open Wrela.Source Wrela.Package

def statementBodies : StatementKind → List BodyId
  | .if_ branches elseBody => branches.map (·.2) ++ elseBody.toList
  | .match_ _ arms => arms.map (·.body)
  | .for_ _ _ _ _ body | .while_ _ body | .loop body | .with_ _ _ _ body => [body]
  | .comptimeIf _ thenBody elseBody => thenBody :: elseBody.toList
  | _ => []

def collectPlaceExpressions (projections : List PlaceProjection) : List ExpressionId :=
  projections.filterMap fun projection ↦
    match projection with
    | .index index => some index
    | .field _ | .tuple _ => none

def collectStatementExpressions : StatementKind → List ExpressionId
  | .initialize_ _ value => [value]
  | .assign targets _ value =>
    (targets.flatMap fun target ↦ collectPlaceExpressions target.projections) ++ [value]
  | .return value => value.toList
  | .assert condition _ _ _ _ => [condition]
  | .send value | .yield value | .expression value => [value]
  | .if_ branches _ => branches.map (·.1)
  | .match_ scrutinee arms => scrutinee :: arms.filterMap (·.guard)
  | .for_ _ _ _ iterable _ => [iterable]
  | .while_ condition _ | .comptimeIf condition _ _ => [condition]
  | .with_ value _ _ _ => [value]
  | .break_ | .continue_ | .pass | .loop _ | .error => []

variable (program : Program)

section Statement

variable (statement : Statement) (body : Body)

def statementExpression (id : ExpressionId) (kind : String) : Report :=
  reportIf (!(program.expression id).any fun value ↦
    value.owner == .body statement.body && value.scope == some body.scope &&
      spanContains statement.source value.source)
    (.invalidReference kind id.val)

def childBody (id : BodyId) (kind : String) : Report :=
  reportIf (!(decide (statement.body.val < id.val) && (program.body id).any fun value ↦
    value.owner == body.owner && spanContains statement.source value.source &&
      (program.scope value.scope).any fun scope ↦ scope.parent == some body.scope))
    (.invalidReference kind id.val)

/-- The body of a branch may lie in a scope of its own that the condition opens. -/
def conditionalChildBody (condition : ExpressionId) (id : BodyId) (kind : String) : Report :=
  reportIf (!(decide (statement.body.val < id.val) && (program.body id).any fun value ↦
    value.owner == body.owner && spanContains statement.source value.source &&
      (program.scope value.scope).any fun scope ↦
        scope.parent.any fun parent ↦
          parent == body.scope || (program.scope parent).any fun parentScope ↦
            parentScope.body == statement.body &&
              ((program.expression condition).map (·.source)).any fun source ↦
                spanContains source parentScope.source))
    (.invalidReference kind id.val)

variable (U : Unicode)

def validateStatementProjection (projection : PlaceProjection) : Report :=
  match projection with
  | .field name => validateName U name "field"
  | .index index => statementExpression program statement body index "place index"
  | .tuple _ => []

def validateAssignmentTarget (target : PlaceTarget) : Report :=
  reportIf (!definitionVisibleAt program target.root (.body statement.body) (some body.scope)
      target.source || !validSpan target.source || !spanContains statement.source target.source)
    (.invalidRecord "assignment target" statement.id.val "root or source") ++
  target.projections.flatMap (validateStatementProjection program statement body U)

def validateMatchArm (arm : MatchArm) : Report :=
  let armScope := (program.body arm.body).map (·.scope)
  reportIf (!validSpan arm.source || !spanContains statement.source arm.source)
    (.invalidRecord "match arm" statement.id.val "source") ++
  childBody program statement body arm.body "match body" ++
  reportIf (!(program.pattern arm.pattern).any fun value ↦
    value.owner == .body arm.body && value.bindingScope == armScope &&
      spanContains arm.source value.source)
    (.invalidReference "match pattern" arm.pattern.val) ++
  arm.guard.toList.flatMap fun guard ↦
    reportIf (!(program.expression guard).any fun value ↦
      value.owner == .body arm.body && value.scope == armScope &&
        spanContains arm.source value.source)
      (.invalidReference "match guard" guard.val)

/-- A local that a child body binds. -/
def childBinding (binding : LocalId) (child : BodyId) (kind : String) : Report :=
  reportIf (!(program.local_ binding).any fun binding ↦
    binding.body == child && spanContains statement.source binding.source)
    (.invalidReference kind binding.val)

def validateStatementKind : Report :=
  let expression := statementExpression program statement body
  let childBody := childBody program statement body
  match statement.kind with
  | .initialize_ local_ value =>
    reportIf (!(program.local_ local_).any fun value ↦
      value.body == statement.body && value.scope == body.scope &&
        spanContains statement.source value.source)
      (.invalidReference "initialized local" local_.val) ++
    expression value "initializer"
  | .assign targets _ value =>
    reportIf targets.isEmpty (.invalidRecord "assignment" statement.id.val "empty targets") ++
    targets.flatMap (validateAssignmentTarget program statement body U) ++
    expression value "assignment value"
  | .return value => value.toList.flatMap fun value ↦ expression value "return value"
  | .break_ | .continue_ | .pass | .error => []
  | .assert condition sourceExpression witness _ _ =>
    expression condition "assertion" ++
    reportIf (isBlank sourceExpression || witness.expression != sourceExpression ||
      (program.expression condition).map (·.source) != some witness.source)
      (.invalidRecord "statements" statement.id.val
        "assertion condition source witness disagrees with its expression")
  | .send value | .yield value | .expression value => expression value "statement expression"
  | .if_ branches elseBody =>
    reportIf branches.isEmpty (.invalidRecord "if statement" statement.id.val "empty branches") ++
    (branches.flatMap fun (condition, branch) ↦
      expression condition "if condition" ++
        conditionalChildBody program statement body condition branch "if body") ++
    elseBody.toList.flatMap fun child ↦ childBody child "else body"
  | .match_ scrutinee arms =>
    expression scrutinee "match scrutinee" ++ arms.flatMap (validateMatchArm program statement body)
  | .for_ _ binding _ iterable child =>
    childBinding program statement binding child "for binding" ++
      expression iterable "for iterable" ++ childBody child "for body"
  | .while_ condition child =>
    expression condition "while condition" ++ childBody child "while body"
  | .loop child => childBody child "loop body"
  | .with_ value binding region child =>
    expression value "with value" ++
    (binding.toList.flatMap fun binding ↦
      childBinding program statement binding child "with binding") ++
    (region.toList.flatMap fun region ↦
      reportIf (!(program.region region).any fun value ↦
        value.body == child && spanContains statement.source value.source)
        (.invalidReference "with region" region.val)) ++
    childBody child "with body"
  | .comptimeIf condition thenBody elseBody =>
    expression condition "comptime condition" ++ childBody thenBody "comptime body" ++
      elseBody.toList.flatMap fun child ↦ childBody child "comptime else body"

end Statement

variable (U : Unicode)

def StatementKind.isLoop : StatementKind → Bool
  | .for_ .. | .while_ .. | .loop _ => true
  | _ => false

/-- At most one attribute, and only on a loop. -/
def validStatementAttributes (statement : Statement) : Bool :=
  decide (statement.attributes.length ≤ 1) &&
    (statement.attributes.all fun record ↦ record.identity == .builtin .uninterrupted) &&
    (statement.attributes.isEmpty || statement.kind.isLoop)

def validateStatement (statement : Statement) : Report :=
  match program.body statement.body with
  | none => [.invalidReference "statement body" statement.body.val]
  | some body =>
    reportIf (!validSpan statement.source || !spanContains body.source statement.source)
      (.invalidRecord "statement" statement.id.val "body or source") ++
    statement.attributes.flatMap (validateAttribute program U (.body statement.body)) ++
    reportIf (!validStatementAttributes statement)
      (.invalidRecord "statement attribute" statement.id.val
        "only one uninterrupted attribute is legal on a loop") ++
    validateStatementKind program statement body U

end Wrela.Hir

/-!
## Expressions and patterns

An operand comes later than its expression and shares its owner and scope.  A closure is the owner
of its parameters and of its body, be that an expression or a body of statements.
-/

namespace Wrela.Hir

open Wrela.Source Wrela.Package

def collectArgumentValueExpressions (argument : CallArgument) : List ExpressionId :=
  match argument.value with
  | .value value => [value]
  | .exclusive _ place => collectPlaceExpressions place.projections

def InterpolationPart.value? : InterpolationPart → Option ExpressionId
  | .value id _ _ => some id
  | .text _ _ => none

def collectExpressionChildren : ExpressionKind → List ExpressionId
  | .closure _ _ _ (.expression body) _ => [body]
  | .unary _ operand | .try_ operand | .trySend operand => [operand]
  | .binary _ left right | .compare left _ right => [left, right]
  | .isPattern value _ _ => [value]
  | .range start stop _ => [start, stop]
  | .cast value ty => value :: collectTypeExpressions 0 ty
  | .field base _ => [base]
  | .call callee arguments => callee :: arguments.flatMap collectArgumentValueExpressions
  | .index base index => [base, index]
  | .tuple values | .array values => values
  | .interpolate parts => parts.filterMap (·.value?)
  | .if_ condition thenBranch elifBranches elseBranch =>
    condition :: thenBranch ::
      ((elifBranches.flatMap fun (condition, branch) ↦ [condition, branch]) ++ [elseBranch])
  | .literal _ | .reference _ | .dotName _ _ | .closure _ _ _ (.body _) _ | .error => []

def ExpressionKind.closureParameters : ExpressionKind → List ParameterId
  | .closure _ _ parameters _ _ => parameters
  | _ => []

def ExpressionKind.closureBody : ExpressionKind → Option BodyId
  | .closure _ _ _ (.body body) _ => some body
  | _ => none

def PrimaryPattern.arguments : PrimaryPattern → List PatternArgument
  | .constructor _ _ arguments | .tuple arguments | .array arguments => arguments
  | _ => []

variable (program : Program)

def validLiteral : Literal → Bool
  | .integer value | .float value | .string value =>
    !value.isEmpty && decide (byteLength value ≤ 16 * 1024 * 1024)
  | .bytes value => decide (value.length ≤ 16 * 1024 * 1024)
  | .character _ | .boolean _ | .unit => true

def validateLiteral (value : Literal) (id : UInt32) : Report :=
  reportIf (!validLiteral value) (.invalidRecord "literal" id "empty or oversized spelling")

/-- The order of candidates: by package, module and declaration, then by variant. -/
def ResolvedVariant.key (value : ResolvedVariant) : ℕ ×ₗ ℕ ×ₗ ℕ ×ₗ ℕ :=
  toLex (value.enumeration.package.val, toLex (value.enumeration.module.val,
    toLex (value.enumeration.declaration.index, value.variant.toNat)))

def validCandidates (spelling : Name) (candidates : List ResolvedVariant) : Bool :=
  !candidates.isEmpty && decide ((candidates.map (·.key)).IsChain (· < ·)) &&
    candidates.all fun value ↦
      (resolvedVariant program value).any fun variant ↦ variant.name == spelling

section Expression

variable (expression : Expression)

def validOperand (id : ExpressionId) : Bool :=
  decide (expression.id.val < id.val) && (program.expression id).any fun value ↦
    value.owner == expression.owner && value.scope == expression.scope &&
      spanContains expression.source value.source

def operand (id : ExpressionId) (kind : String) : Report :=
  reportIf (!validOperand program expression id) (.invalidReference kind id.val)

/-- The right side of a conjunction may lie in a scope that the left side opens. -/
def validConjunct (id : ExpressionId) : Bool :=
  (program.expression id).any fun right ↦
    decide (expression.id.val < id.val) && right.owner == expression.owner &&
      spanContains expression.source right.source &&
      match expression.scope, right.scope with
      | some parent, some child => scopeIsAncestorOrSame program parent child
      | none, none => true
      | _, _ => false

def visible (definition : Definition) (source : Span) : Bool :=
  definitionVisibleAt program definition expression.owner (expressionScope program expression)
    source

def validateClosureBody : ClosureBody → Report
  | .expression id =>
    reportIf (!(decide (expression.id.val < id.val) && (program.expression id).any fun value ↦
      value.owner == .closure expression.id && value.scope.isNone &&
        spanContains expression.source value.source))
      (.invalidReference "closure expression" id.val)
  | .body id => checkBodyOwner program id (.closure expression.id) "closure body"

variable (U : Unicode)

def Definition.isPlaceRoot : Definition → Bool
  | .local_ _ | .parameter _ => true
  | _ => false

def validateOperandProjection (projection : PlaceProjection) : Report :=
  match projection with
  | .field name => validateName U name "exclusive call field"
  | .index index => operand program expression index "exclusive call index"
  | .tuple _ => []

def validateArgumentValue (argument : CallArgument) : Report :=
  match argument.value with
  | .value value => operand program expression value "call argument"
  | .exclusive _ place =>
    reportIf (!place.root.isPlaceRoot || !visible program expression place.root place.source ||
      !validSpan place.source || !spanContains argument.source place.source)
      (.invalidRecord "exclusive call place" expression.id.val "root or source") ++
    place.projections.flatMap (validateOperandProjection program expression U)

/-- The arguments after those with the given names. -/
def validateCallArguments : List Name → List CallArgument → Report
  | _, [] => []
  | names, argument :: arguments =>
    (argument.name.toList.flatMap fun name ↦
      validateArgumentName U name ++
        reportIf (names.contains name)
          (.invalidRecord "call argument" expression.id.val "duplicate named argument")) ++
    reportIf (!validSpan argument.source || !spanContains expression.source argument.source)
      (.invalidRecord "call argument" expression.id.val "source") ++
    validateArgumentValue program expression U argument ++
    validateCallArguments (names ++ argument.name.toList) arguments

def validFormat (format : String) : Bool :=
  !format.isEmpty && decide (byteLength format ≤ 4096) &&
    format.toList.all fun character ↦
      decide (character.toNat < 128) && character.toNat != 123 && character.toNat != 125

def validateInterpolationPart : InterpolationPart → Report
  | .text value source =>
    reportIf (decide (byteLength value > 16 * 1024 * 1024) ||
      !spanContains expression.source source)
      (.invalidRecord "interpolation" expression.id.val "text bound or source")
  | .value value format formatSource =>
    operand program expression value "interpolation value" ++
    reportIf ((format.any fun format ↦ !validFormat format) ||
      format.isSome != formatSource.isSome ||
      formatSource.any fun source ↦ !spanContains expression.source source)
      (.invalidRecord "interpolation" value.val "format bound or source")

def validateExpressionKind : Report :=
  let child := operand program expression
  match expression.kind with
  | .literal value => validateLiteral value expression.id.val
  | .reference value =>
    reportIf (!visible program expression value expression.source)
      (.invalidReference "expression definition" expression.id.val)
  | .closure _ _ parameters body captures =>
    reportIf (!strictIds (parameters.map (·.val))) (.nonCanonical "closure parameters") ++
    (parameters.flatMap fun parameter ↦
      reportIf (!(program.parameter parameter).any fun value ↦
        value.owner == .closure expression.id && !value.receiver)
        (.invalidReference "closure parameter" parameter.val)) ++
    validateClosureBody program expression body ++
    captures.flatMap fun capture ↦
      reportIf (!visible program expression capture expression.source)
        (.invalidReference "closure capture" expression.id.val)
  | .unary _ value => child value "unary operand"
  | .binary operator left right =>
    child left "binary left" ++
    if operator = .logicalAnd then
      reportIf (!validConjunct program expression right)
        (.invalidReference "logical-and right" right.val)
    else child right "binary right"
  | .compare left _ right => child left "comparison left" ++ child right "comparison right"
  | .isPattern value _ pattern =>
    child value "pattern value" ++
    reportIf (!(program.pattern pattern).any fun value ↦ value.owner == expression.owner)
      (.invalidReference "expression pattern" pattern.val)
  | .range start stop _ => child start "range start" ++ child stop "range end"
  | .cast value ty => child value "cast value" ++ validateType program expression.owner 0 ty
  | .try_ value | .trySend value => child value "try value"
  | .field base name => child base "field base" ++ validateMemberName U name "field"
  | .call callee arguments =>
    child callee "callee" ++ validateCallArguments program expression U [] arguments ++
    reportIf (duplicateNames (arguments.filterMap (·.name)))
      (.invalidRecord "call argument" expression.id.val "duplicate name")
  | .index base index => child base "index base" ++ child index "index"
  | .tuple values | .array values =>
    values.flatMap fun value ↦ child value "aggregate expression"
  | .dotName spelling candidates =>
    validateName U spelling "dot-name expression" ++
    reportIf (!validCandidates program spelling candidates)
      (.invalidRecord "dot-name expression" expression.id.val "candidates")
  | .interpolate parts => parts.flatMap (validateInterpolationPart program expression)
  | .if_ condition thenBranch elifBranches elseBranch =>
    child condition "if condition" ++ child thenBranch "if then branch" ++
    (elifBranches.flatMap fun (condition, branch) ↦
      child condition "if elif condition" ++ child branch "if elif branch") ++
    child elseBranch "if else branch"
  | .error => []

def validateExpression : Report :=
  reportIf (!validExpressionScopeShape program expression ||
    !withinOwner program expression.owner expression.source)
    (.invalidRecord "expression" expression.id.val "owner or source") ++
  validateExpressionKind program expression U

end Expression

section Pattern

variable (pattern bindingRoot : Pattern)

def validPatternScope (scope : ScopeId) : Bool :=
  match pattern.owner with
  | .body ownerBody =>
    (program.scope scope).any fun scope ↦
      sameBodyOwner program ownerBody scope.body &&
        spanContains ((expressionOwnerSpan program pattern.owner).getD pattern.source) scope.source
  | .declaration _ | .closure _ => false

def validPatternBinding (local_ : LocalId) : Bool :=
  pattern.bindingScope.any fun bindingScope ↦ (program.local_ local_).any fun record ↦
    bindingRoot.owner == pattern.owner && bindingRoot.bindingScope == pattern.bindingScope &&
      spanContains bindingRoot.source pattern.source && record.scope == bindingScope &&
      spanContains bindingRoot.source record.source &&
      (program.scope bindingScope).any fun scope ↦ record.body == scope.body

def validatePatternArgument (argument : PatternArgument) : Report :=
  reportIf (!validSpan argument.source || !spanContains pattern.source argument.source ||
    !decide (pattern.id.val < argument.pattern.val) ||
    !(program.pattern argument.pattern).any fun value ↦
      value.owner == pattern.owner && value.bindingScope == pattern.bindingScope &&
        spanContains argument.source value.source)
    (.invalidReference "pattern argument" argument.pattern.val)

variable (U : Unicode)

def validatePrimaryPattern : PrimaryPattern → Report
  | .wildcard | .error => []
  | .literal _ value => validateLiteral value pattern.id.val
  | .constructor spelling candidates arguments =>
    validateName U spelling "constructor pattern" ++
    reportIf (!validCandidates program spelling candidates)
      (.invalidRecord "constructor pattern" pattern.id.val "candidates") ++
    arguments.flatMap (validatePatternArgument program pattern)
  | .bind local_ =>
    reportIf (!validPatternBinding program pattern bindingRoot local_)
      (.invalidReference "pattern binding" local_.val)
  | .tuple arguments | .array arguments =>
    arguments.flatMap (validatePatternArgument program pattern)

def validatePattern : Report :=
  reportIf (pattern.alternatives.isEmpty || !withinOwner program pattern.owner pattern.source ||
    pattern.bindingScope.any fun scope ↦ !validPatternScope program pattern scope)
    (.invalidRecord "pattern" pattern.id.val "alternatives, body, or source") ++
  pattern.alternatives.flatMap fun alternative ↦
    reportIf (!validSpan alternative.source || !spanContains pattern.source alternative.source)
      (.invalidRecord "pattern alternative" pattern.id.val "source") ++
    validatePrimaryPattern program pattern bindingRoot U alternative.kind

end Pattern

end Wrela.Hir
