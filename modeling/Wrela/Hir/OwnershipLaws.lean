import Wrela.Graph.Forest
import Wrela.Hir.Validate

/-!
# The ownership graph

The containment relation of a program: declarations in modules and in one another, the parts of a
declaration, the locals and statements of a body, the expressions and bodies of a statement, and the
operands, patterns and bodies of an expression.  The guard and the pattern of a match arm belong to
the body of the arm, in whose scope they stand, and the value a scope enters with to its setup.
-/

namespace Wrela.Hir

open Relation
open Wrela.Source Wrela.Package Wrela.Graph

inductive Node where
  | module (id : ModuleId)
  | declaration (id : DeclarationId)
  | generic (id : GenericParameterId)
  | parameter (id : ParameterId)
  | body (id : BodyId)
  | local_ (id : LocalId)
  | statement (id : StatementId)
  | expression (id : ExpressionId)
  | pattern (id : PatternId)
deriving DecidableEq

def Node.isModule : Node → Prop
  | .module _ => True
  | _ => False

def DeclarationOwner.node : DeclarationOwner → Node
  | .module id => .module id
  | .declaration id => .declaration id

def CallableOwner.node : CallableOwner → Node
  | .declaration id => .declaration id
  | .closure id => .expression id

def BodyOwner.node : BodyOwner → Node
  | .declaration id => .declaration id
  | .closure id => .expression id

def ExpressionOwner.node : ExpressionOwner → Node
  | .declaration id => .declaration id
  | .body id => .body id
  | .closure id => .expression id

/-! ## Edges -/

/-- Edges from one node to each of the records. -/
def edgesFrom {β : Type} (owner : Node) (ids : List β) : List (Node × β) := ids.map (owner, ·)

@[simp]
theorem map_snd_edgesFrom {β : Type} (owner : Node) (ids : List β) :
    (edgesFrom owner ids).map Prod.snd = ids := by
  simp [edgesFrom]

@[simp]
theorem mem_edgesFrom {β : Type} {owner owner' : Node} {ids : List β} {id : β} :
    (owner', id) ∈ edgesFrom owner ids ↔ owner' = owner ∧ id ∈ ids := by
  simp [edgesFrom, eq_comm, and_comm]

theorem mem_flatMap_edgesFrom {α β : Type} {records : List α} {node : α → Node}
    {ids : α → List β} {owner : Node} {id : β} :
    (owner, id) ∈ records.flatMap (fun record ↦ edgesFrom (node record) (ids record)) ↔
      ∃ record ∈ records, owner = node record ∧ id ∈ ids record := by
  simp only [List.mem_flatMap, mem_edgesFrom]

def scopeExpressionEdges (declaration : DeclarationId) (value : ScopeDeclaration) :
    List (Node × ExpressionId) :=
  edgesFrom (.declaration declaration) (collectTypeExpressions 0 value.result) ++
    [(.body value.setup, value.enter)]

def declarationExpressionEdges (declaration : Declaration) : List (Node × ExpressionId) :=
  edgesFrom (.declaration declaration.id)
    (declaration.attributes.flatMap collectAttributeExpressions) ++
  match declaration.kind with
  | .scope value => scopeExpressionEdges declaration.id value
  | kind => edgesFrom (.declaration declaration.id) (collectDeclarationKindExpressions kind)

def armEdges (arms : List MatchArm) : List (Node × ExpressionId) :=
  arms.filterMap fun arm ↦ arm.guard.map fun guard ↦ (.body arm.body, guard)

def statementExpressionEdges (statement : Statement) : List (Node × ExpressionId) :=
  (match statement.kind with
    | .match_ scrutinee arms => (.statement statement.id, scrutinee) :: armEdges arms
    | kind => edgesFrom (.statement statement.id) (collectStatementExpressions kind)) ++
  edgesFrom (.statement statement.id) (statement.attributes.flatMap collectAttributeExpressions)

def matchPatternEdges : StatementKind → List (Node × PatternId)
  | .match_ _ arms => arms.map fun arm ↦ (.body arm.body, arm.pattern)
  | _ => []

variable (program : Program)

def declarationEdges : List (Node × DeclarationId) :=
  (program.modules.flatMap fun module ↦ edgesFrom (.module module.id) module.declarations) ++
    program.declarations.flatMap fun declaration ↦ edgesFrom (.declaration declaration.id)
      (declarationChildren declaration ++ selectedDeclarations declaration)

def genericEdges : List (Node × GenericParameterId) :=
  program.declarations.flatMap fun declaration ↦
    edgesFrom (.declaration declaration.id) (declarationGenerics declaration)

def parameterEdges : List (Node × ParameterId) :=
  (program.declarations.flatMap fun declaration ↦
    edgesFrom (.declaration declaration.id) (declarationParameters declaration)) ++
  program.expressions.flatMap fun expression ↦
    edgesFrom (.expression expression.id) expression.kind.closureParameters

def bodyEdges : List (Node × BodyId) :=
  (program.declarations.flatMap fun declaration ↦
    edgesFrom (.declaration declaration.id) (declarationBodies declaration)) ++
  (program.expressions.flatMap fun expression ↦
    edgesFrom (.expression expression.id) expression.kind.closureBody.toList) ++
  program.statements.flatMap fun statement ↦
    edgesFrom (.statement statement.id) (statementBodies statement.kind)

def localEdges : List (Node × LocalId) :=
  program.bodies.flatMap fun body ↦ edgesFrom (.body body.id) body.locals

def statementEdges : List (Node × StatementId) :=
  program.bodies.flatMap fun body ↦ edgesFrom (.body body.id) body.statements

def expressionEdges : List (Node × ExpressionId) :=
  program.declarations.flatMap declarationExpressionEdges ++
  (program.genericParameters.flatMap fun generic ↦
    edgesFrom (.generic generic.id) (collectGenericExpressions generic)) ++
  (program.parameters.flatMap fun parameter ↦
    edgesFrom (.parameter parameter.id) (collectOptionalTypeExpressions parameter.ty)) ++
  (program.locals.flatMap fun record ↦
    edgesFrom (.local_ record.id) (collectOptionalTypeExpressions record.ty)) ++
  program.statements.flatMap statementExpressionEdges ++
  program.expressions.flatMap fun expression ↦
    edgesFrom (.expression expression.id) (collectExpressionChildren expression.kind)

def patternEdges : List (Node × PatternId) :=
  (program.statements.flatMap fun statement ↦ matchPatternEdges statement.kind) ++
  (program.expressions.flatMap fun expression ↦
    edgesFrom (.expression expression.id) expression.kind.testedPattern.toList) ++
  program.patterns.flatMap fun pattern ↦ edgesFrom (.pattern pattern.id) (patternArguments pattern)

def tagged {β : Type} (node : β → Node) (edges : List (Node × β)) : List (Node × Node) :=
  edges.map (Prod.map id node)

/-- The edges from the nodes to the records that they directly contain. -/
def ownershipEdges : List (Node × Node) :=
  tagged .declaration (declarationEdges program) ++ tagged .generic (genericEdges program) ++
    tagged .parameter (parameterEdges program) ++ tagged .body (bodyEdges program) ++
    tagged .local_ (localEdges program) ++ tagged .statement (statementEdges program) ++
    tagged .expression (expressionEdges program) ++ tagged .pattern (patternEdges program)

/-- One node directly contains another. -/
def Owns (owner node : Node) : Prop := (owner, node) ∈ ownershipEdges program

/-- A record of the program. -/
def HasRecord : Node → Prop
  | .module id => (program.module id).isSome
  | .declaration id => (program.declaration id).isSome
  | .generic id => (program.genericParameter id).isSome
  | .parameter id => (program.parameter id).isSome
  | .body id => (program.body id).isSome
  | .local_ id => (program.local_ id).isSome
  | .statement id => (program.statement id).isSome
  | .expression id => (program.expression id).isSome
  | .pattern id => (program.pattern id).isSome

/-- The records that a node directly contains. -/
def children (owner : Node) : List Node :=
  ((ownershipEdges program).filter fun edge ↦ edge.1 = owner).map Prod.snd

abbrev OwnershipPath : List Node → Node → Prop := PathTo Node.isModule (Owns program)

/-- What a record names as its owner contains it. -/
structure OwnerLinks : Prop where
  bodies : ∀ body ∈ program.bodies, TransGen (Owns program) body.owner.node (.body body.id)
  expressions : ∀ expression ∈ program.expressions,
    TransGen (Owns program) expression.owner.node (.expression expression.id)
  statements : ∀ statement ∈ program.statements,
    Owns program (.body statement.body) (.statement statement.id)
  locals : ∀ record ∈ program.locals, Owns program (.body record.body) (.local_ record.id)
  parameters : ∀ parameter ∈ program.parameters,
    Owns program parameter.owner.node (.parameter parameter.id)

/-- The records of the program form a forest that is rooted in its modules. -/
structure ModuleForest : Prop where
  reached : ∀ node, HasRecord program node → ∃! path, OwnershipPath program path node
  acyclic : ∀ node, ¬ TransGen (Owns program) node node
  traversed : ∀ declaration ∈ program.declarations,
    Traversed (Owns program) (children program) (.declaration declaration.id)
  owners : OwnerLinks program

/-- One expression belongs to the closure that another one is, or to a body of it. -/
def Encloses (closure expression : ExpressionId) : Prop :=
  ∃ record ∈ program.expressions, record.id = expression ∧
    owningClosure program record.owner = some closure

/-- One expression is an operand of another, or stands in the type it casts to. -/
def Operand (expression operand : ExpressionId) : Prop :=
  ∃ record ∈ program.expressions, record.id = expression ∧
    operand ∈ collectExpressionChildren record.kind

/-- No closure lies within itself, and no cast within an expression of its own type. -/
structure Grounded : Prop where
  closures : ∀ closure, ¬ TransGen (Encloses program) closure closure
  casts : ∀ expression ∈ program.expressions, ∀ value ty, expression.kind = .cast value ty →
    ∀ id ∈ collectTypeExpressions 0 ty, ¬ ReflTransGen (Operand program) id expression.id

/-! ## Checked owners -/

open List

variable {arena : Arena} {name : String} {owner : ExpressionOwner}

theorem getElem?_of_dense {α : Type} {records : List α} (id : α → Id arena)
    (hdense : requireDense name (records.map fun record ↦ (id record).index) = [])
    {record : α} (hmem : record ∈ records) : records[(id record).index]? = some record := by
  obtain ⟨index, hindex⟩ := mem_iff_getElem?.1 hmem
  have hid := requireDense_eq_nil.1 hdense index (id record).index (by simp [hindex])
  rw [hid, hindex]

theorem Id.index_injective : Function.Injective (Id.index : Id arena → ℕ) := by
  rintro ⟨left⟩ ⟨right⟩ h
  exact congrArg Id.mk (UInt32.toNat_inj.1 h)

theorem id_eq_of_getElem? {α : Type} {records : List α} (id : α → Id arena)
    (hdense : requireDense name (records.map fun record ↦ (id record).index) = [])
    {reference : Id arena} {record : α} (hlookup : records[reference.index]? = some record) :
    id record = reference :=
  Id.index_injective
    (requireDense_eq_nil.1 hdense reference.index (id record).index (by simp [hlookup]))

/-- The records of an arena are listed once each. -/
structure ListedOnce {arena : Arena} (ids : List (Id arena)) (length : ℕ) : Prop where
  nodup : ids.Nodup
  mem_iff : ∀ id : Id arena, id ∈ ids ↔ id.index < length

theorem listedOnce_of_coverage {ids : List (Id arena)} {length : ℕ}
    (hcoverage : requireExactCoverage name length ids = []) (hin : ∀ id ∈ ids, id.index < length) :
    ListedOnce ids length := by
  rw [requireExactCoverage_eq_nil] at hcoverage
  have hnodup : (ids.map (·.index)).Nodup := by
    refine nodup_iff_count_le_one.2 fun index ↦ ?_
    by_cases hmem : index ∈ ids.map (·.index)
    · obtain ⟨id, hid, rfl⟩ := mem_map.1 hmem
      exact (hcoverage _ (hin id hid)).le
    · rw [count_eq_zero.2 hmem]
      exact Nat.zero_le _
  refine ⟨hnodup.of_map _, fun id ↦ ⟨hin id, fun hlt ↦ ?_⟩⟩
  have hcount := hcoverage id.index hlt
  have hmem : id.index ∈ ids.map (·.index) := by
    refine count_pos_iff.1 ?_
    rw [coverage] at hcount
    omega
  obtain ⟨other, hother, heq⟩ := mem_map.1 hmem
  rwa [← Id.index_injective heq]

variable {program : Program} {U : Unicode}

/-- An expression that is there and names its owner. -/
def OwnedExpression (program : Program) (owner : ExpressionOwner) (id : ExpressionId) : Prop :=
  ∃ expression, program.expression id = some expression ∧ expression.owner = owner

theorem OwnedExpression.of_ownedExpression {id : ExpressionId}
    {source : Span} (h : ownedExpression program id owner source = true) :
    OwnedExpression program owner id := by
  obtain ⟨expression, hexpression, h⟩ := (Option.any_eq_true ..).1 h
  exact ⟨expression, hexpression, beq_iff_eq.1 (Bool.and_eq_true_iff.1 h).1⟩

section Types

variable (owner : ExpressionOwner)

mutual

theorem owned_of_validateType (depth : ℕ) : (ty : TypeExpression) →
    validateType program owner depth ty = [] →
      ∀ id ∈ collectTypeExpressions depth ty, OwnedExpression program owner id
  | .mk kind source => by
    intro h
    rw [validateType] at h
    rw [collectTypeExpressions]
    split at h
    · cases h
    · rename_i hdepth
      rw [if_neg hdepth]
      exact owned_of_validateTypeKind depth source kind (append_eq_nil_iff.1 h).2

theorem owned_of_validateTypeKind (depth : ℕ) (source : Span) : (kind : TypeExpressionKind) →
    validateTypeKind program owner depth source kind = [] →
      ∀ id ∈ collectKindExpressions depth kind, OwnedExpression program owner id
  | .named definition arguments => by
    intro h
    rw [validateTypeKind] at h
    rw [collectKindExpressions]
    exact owned_of_validateGenericArguments depth source arguments (append_eq_nil_iff.1 h).2
  | .selfType _ => by
    rw [collectKindExpressions]
    exact fun _ ↦ forall_mem_nil _
  | .array element length => by
    intro h
    rw [validateTypeKind, append_eq_nil_iff, reportIf_eq_nil, Bool.not_eq_false'] at h
    rw [collectKindExpressions, forall_mem_append, forall_mem_singleton]
    exact ⟨owned_of_validateType (depth + 1) element h.1, .of_ownedExpression h.2⟩
  | .tuple values => by
    intro h
    rw [validateTypeKind] at h
    rw [collectKindExpressions]
    exact owned_of_validateTypes (depth + 1) values h
  | .view _ target => by
    intro h
    rw [validateTypeKind] at h
    rw [collectKindExpressions]
    exact owned_of_validateType (depth + 1) target h
  | .iso brand payload => by
    intro h
    rw [validateTypeKind, append_eq_nil_iff] at h
    rw [collectKindExpressions, forall_mem_append]
    exact ⟨owned_of_validateType (depth + 1) brand h.1,
      owned_of_validateType (depth + 1) payload h.2⟩
  | .function _ parameters result => by
    intro h
    rw [validateTypeKind, append_eq_nil_iff] at h
    rw [collectKindExpressions, forall_mem_append]
    exact ⟨owned_of_validateTypeParameters depth source parameters h.1,
      owned_of_validateType (depth + 1) result h.2⟩
  | .error => by
    rw [collectKindExpressions]
    exact fun _ ↦ forall_mem_nil _

theorem owned_of_validateGenericArguments (depth : ℕ) (source : Span) :
    (arguments : List GenericArgument) →
      validateGenericArguments program owner depth source arguments = [] →
        ∀ id ∈ collectArgumentExpressions depth arguments, OwnedExpression program owner id
  | [] => by
    rw [collectArgumentExpressions]
    exact fun _ ↦ forall_mem_nil _
  | .mk kind argumentSource :: arguments => by
    intro h
    rw [validateGenericArguments, append_eq_nil_iff, append_eq_nil_iff] at h
    rw [collectArgumentExpressions, forall_mem_append]
    exact ⟨owned_of_validateGenericArgumentKind depth argumentSource kind h.1.2,
      owned_of_validateGenericArguments depth source arguments h.2⟩

theorem owned_of_validateGenericArgumentKind (depth : ℕ) (source : Span) :
    (kind : GenericArgumentKind) →
      validateGenericArgumentKind program owner depth source kind = [] →
        ∀ id ∈ collectArgumentKindExpressions depth kind, OwnedExpression program owner id
  | .type ty => by
    intro h
    rw [validateGenericArgumentKind, append_eq_nil_iff] at h
    rw [collectArgumentKindExpressions]
    exact owned_of_validateType (depth + 1) ty h.2
  | .constant expression | .boundedCapacity expression => by
    intro h
    rw [validateGenericArgumentKind, reportIf_eq_nil, Bool.not_eq_false'] at h
    rw [collectArgumentKindExpressions, forall_mem_singleton]
    exact .of_ownedExpression h
  | .region _ | .error => by
    rw [collectArgumentKindExpressions]
    exact fun _ ↦ forall_mem_nil _

theorem owned_of_validateTypes (depth : ℕ) : (types : List TypeExpression) →
    validateTypes program owner depth types = [] →
      ∀ id ∈ collectTypesExpressions depth types, OwnedExpression program owner id
  | [] => by
    rw [collectTypesExpressions]
    exact fun _ ↦ forall_mem_nil _
  | ty :: types => by
    intro h
    rw [validateTypes, append_eq_nil_iff] at h
    rw [collectTypesExpressions, forall_mem_append]
    exact ⟨owned_of_validateType depth ty h.1, owned_of_validateTypes depth types h.2⟩

theorem owned_of_validateTypeParameters (depth : ℕ) (source : Span) :
    (parameters : List FunctionTypeParameter) →
      validateTypeParameters program owner depth source parameters = [] →
        ∀ id ∈ collectParameterExpressions (depth + 1) parameters, OwnedExpression program owner id
  | [] => by
    rw [collectParameterExpressions]
    exact fun _ ↦ forall_mem_nil _
  | .mk _ ty parameterSource :: parameters => by
    intro h
    rw [validateTypeParameters, append_eq_nil_iff, append_eq_nil_iff] at h
    rw [collectParameterExpressions, forall_mem_append]
    exact ⟨owned_of_validateType (depth + 1) ty h.1.2,
      owned_of_validateTypeParameters depth source parameters h.2⟩

end

mutual

theorem owned_of_validateCarrier (depth : ℕ) : (carrier : ProjectionCarrier) →
    validateCarrier program owner depth carrier = [] →
      ∀ id ∈ collectCarrierExpressions depth carrier, OwnedExpression program owner id
  | .mk kind source => by
    intro h
    rw [validateCarrier] at h
    rw [collectCarrierExpressions]
    split at h
    · cases h
    · rename_i hdepth
      rw [if_neg hdepth]
      exact owned_of_validateCarrierKind depth source kind (append_eq_nil_iff.1 h).2

theorem owned_of_validateCarrierKind (depth : ℕ) (source : Span) :
    (kind : ProjectionCarrierKind) → validateCarrierKind program owner depth source kind = [] →
      ∀ id ∈ collectCarrierKindExpressions depth kind, OwnedExpression program owner id
  | .view _ ty => by
    intro h
    rw [validateCarrierKind] at h
    rw [collectCarrierKindExpressions]
    exact owned_of_validateType owner 0 ty h
  | .option carrier => by
    intro h
    rw [validateCarrierKind, append_eq_nil_iff] at h
    rw [collectCarrierKindExpressions]
    exact owned_of_validateCarrier (depth + 1) carrier h.2
  | .result carrier error => by
    intro h
    rw [validateCarrierKind, append_eq_nil_iff, append_eq_nil_iff] at h
    rw [collectCarrierKindExpressions, forall_mem_append]
    exact ⟨owned_of_validateCarrier (depth + 1) carrier h.1.2,
      owned_of_validateType owner 0 error h.2⟩
  | .error => by
    rw [collectCarrierKindExpressions]
    exact fun _ ↦ forall_mem_nil _

end

end Types

theorem owned_of_validateTypeList {types : List TypeExpression}
    (h : types.flatMap (validateType program owner 0) = []) :
    ∀ id ∈ types.flatMap (collectTypeExpressions 0), OwnedExpression program owner id := by
  intro id hid
  obtain ⟨ty, hty, hid⟩ := mem_flatMap.1 hid
  exact owned_of_validateType owner 0 ty (flatMap_eq_nil_iff.1 h ty hty) id hid

theorem owned_of_validateAttributeArguments
    (h : validateAttributeArguments program U record owner sawNamed arguments = []) :
    ∀ argument ∈ arguments, OwnedExpression program owner argument.value := by
  induction arguments generalizing sawNamed with
  | nil => simp
  | cons argument arguments ih =>
    rw [validateAttributeArguments, append_eq_nil_iff, append_eq_nil_iff,
      reportIf_eq_nil, Bool.or_eq_false_iff, Bool.not_eq_false'] at h
    intro other hother
    rcases mem_cons.1 hother with rfl | hother
    · exact .of_ownedExpression h.1.2.2
    · exact ih h.2 other hother

theorem owned_of_validateAttributes {records : List Attribute}
    (h : records.flatMap (validateAttribute program U owner) = []) :
    ∀ id ∈ records.flatMap collectAttributeExpressions, OwnedExpression program owner id := by
  intro id hid
  obtain ⟨record, hrecord, hid⟩ := mem_flatMap.1 hid
  obtain ⟨argument, hargument, rfl⟩ := mem_map.1 hid
  have hvalid := flatMap_eq_nil_iff.1 h record hrecord
  rw [validateAttribute, append_eq_nil_iff, append_eq_nil_iff] at hvalid
  exact owned_of_validateAttributeArguments hvalid.1.2 argument hargument

/-- The checks of the validator, one field for each arena or kind of record. -/
structure Checked (program : Program) (U : Unicode) : Prop where
  arenas : validateArenas program = []
  modules : validateModules program U = []
  declarations : validateDeclarations program U = []
  coverage : validateCoverage program = []
  records : validateRecords program U = []

theorem checked_iff : validateCore program U = [] ↔ Checked program U := by
  simp only [validateCore, append_eq_nil_iff]
  exact ⟨fun ⟨⟨⟨⟨harenas, hmodules⟩, hdeclarations⟩, hcoverage⟩, hrecords⟩ ↦
    ⟨harenas, hmodules, hdeclarations, hcoverage, hrecords⟩, fun h ↦
    ⟨⟨⟨⟨h.arenas, h.modules⟩, h.declarations⟩, h.coverage⟩, h.records⟩⟩

/-- Every arena is dense. -/
structure DenseArenas (program : Program) : Prop where
  modules : requireDense "modules" (program.modules.map (·.id.val)) = []
  declarations : requireDense "declarations" (program.declarations.map (·.id.index)) = []
  genericParameters :
    requireDense "generic parameters" (program.genericParameters.map (·.id.index)) = []
  parameters : requireDense "parameters" (program.parameters.map (·.id.index)) = []
  bodies : requireDense "bodies" (program.bodies.map (·.id.index)) = []
  locals : requireDense "locals" (program.locals.map (·.id.index)) = []
  statements : requireDense "statements" (program.statements.map (·.id.index)) = []
  expressions : requireDense "expressions" (program.expressions.map (·.id.index)) = []
  patterns : requireDense "patterns" (program.patterns.map (·.id.index)) = []

theorem Checked.dense (h : Checked program U) : DenseArenas program := by
  have harenas := h.arenas
  simp only [validateArenas, append_eq_nil_iff] at harenas
  obtain ⟨⟨⟨⟨⟨⟨⟨⟨⟨⟨hmodules, hdeclarations⟩, hgenerics⟩, hparameters⟩, hbodies⟩, -⟩, hlocals⟩,
    hstatements⟩, hexpressions⟩, hpatterns⟩, -⟩ := harenas
  exact ⟨hmodules, hdeclarations, hgenerics, hparameters, hbodies, hlocals, hstatements,
    hexpressions, hpatterns⟩

namespace Checked

theorem module_mem (h : Checked program U) (hmem : module ∈ program.modules) :
    program.module module.id = some module := by
  obtain ⟨index, hindex⟩ := mem_iff_getElem?.1 hmem
  have hid := requireDense_eq_nil.1 h.dense.modules index module.id.val (by simp [hindex])
  rw [Program.module, hid, hindex]

theorem declaration_mem (h : Checked program U)
    {declaration : Declaration} (hmem : declaration ∈ program.declarations) :
    program.declaration declaration.id = some declaration :=
  getElem?_of_dense Declaration.id h.dense.declarations hmem

variable {id : Id _}

section

variable (h : Checked program U)
include h

theorem declaration_id {declaration : Declaration}
    (hlookup : program.declaration id = some declaration) : declaration.id = id :=
  id_eq_of_getElem? Declaration.id h.dense.declarations hlookup

theorem genericParameter_mem {generic : GenericParameter}
    (hmem : generic ∈ program.genericParameters) :
    program.genericParameter generic.id = some generic :=
  getElem?_of_dense GenericParameter.id h.dense.genericParameters hmem

theorem parameter_mem {parameter : Parameter} (hmem : parameter ∈ program.parameters) :
    program.parameter parameter.id = some parameter :=
  getElem?_of_dense Parameter.id h.dense.parameters hmem

theorem parameter_id {parameter : Parameter} (hlookup : program.parameter id = some parameter) :
    parameter.id = id :=
  id_eq_of_getElem? Parameter.id h.dense.parameters hlookup

theorem body_mem {body : Body} (hmem : body ∈ program.bodies) : program.body body.id = some body :=
  getElem?_of_dense Body.id h.dense.bodies hmem

theorem local_mem {record : Local} (hmem : record ∈ program.locals) :
    program.local_ record.id = some record :=
  getElem?_of_dense Local.id h.dense.locals hmem

theorem local_id {record : Local} (hlookup : program.local_ id = some record) : record.id = id :=
  id_eq_of_getElem? Local.id h.dense.locals hlookup

theorem statement_mem {statement : Statement} (hmem : statement ∈ program.statements) :
    program.statement statement.id = some statement :=
  getElem?_of_dense Statement.id h.dense.statements hmem

theorem statement_id {statement : Statement} (hlookup : program.statement id = some statement) :
    statement.id = id :=
  id_eq_of_getElem? Statement.id h.dense.statements hlookup

theorem expression_mem {expression : Expression} (hmem : expression ∈ program.expressions) :
    program.expression expression.id = some expression :=
  getElem?_of_dense Expression.id h.dense.expressions hmem

theorem expression_id {expression : Expression}
    (hlookup : program.expression id = some expression) : expression.id = id :=
  id_eq_of_getElem? Expression.id h.dense.expressions hlookup

theorem pattern_mem {pattern : Pattern} (hmem : pattern ∈ program.patterns) :
    program.pattern pattern.id = some pattern :=
  getElem?_of_dense Pattern.id h.dense.patterns hmem

end

end Checked

end Wrela.Hir
