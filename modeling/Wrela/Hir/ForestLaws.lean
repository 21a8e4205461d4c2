import Wrela.Hir.EdgeLaws

/-!
# The forest of records

The ownership graph of a validated program gives every record one owner.  It is a forest just in
case no closure lies within itself and no cast within an expression of its own type, which the
validator does not check.
-/

namespace Wrela.Hir

open List Relation
open Wrela.Source Wrela.Package Wrela.Graph

variable {program : Program} {U : Unicode} {owner : Node}

@[simp]
theorem owns_module {id : ModuleId} : ¬ Owns program owner (.module id) := by
  simp [Owns, ownershipEdges, tagged]

theorem owns_declaration {id : DeclarationId} :
    Owns program owner (.declaration id) ↔ (owner, id) ∈ declarationEdges program := by
  simp [Owns, ownershipEdges, tagged]

theorem owns_generic {id : GenericParameterId} :
    Owns program owner (.generic id) ↔ (owner, id) ∈ genericEdges program := by
  simp [Owns, ownershipEdges, tagged]

theorem owns_parameter {id : ParameterId} :
    Owns program owner (.parameter id) ↔ (owner, id) ∈ parameterEdges program := by
  simp [Owns, ownershipEdges, tagged]

theorem owns_body {id : BodyId} :
    Owns program owner (.body id) ↔ (owner, id) ∈ bodyEdges program := by
  simp [Owns, ownershipEdges, tagged]

theorem owns_local {id : LocalId} :
    Owns program owner (.local_ id) ↔ (owner, id) ∈ localEdges program := by
  simp [Owns, ownershipEdges, tagged]

theorem owns_statement {id : StatementId} :
    Owns program owner (.statement id) ↔ (owner, id) ∈ statementEdges program := by
  simp [Owns, ownershipEdges, tagged]

theorem owns_expression {id : ExpressionId} :
    Owns program owner (.expression id) ↔ (owner, id) ∈ expressionEdges program := by
  simp [Owns, ownershipEdges, tagged]

theorem owns_pattern {id : PatternId} :
    Owns program owner (.pattern id) ↔ (owner, id) ∈ patternEdges program := by
  simp [Owns, ownershipEdges, tagged]

/-! ## Listed records -/

theorem map_snd_declarationEdges :
    (declarationEdges program).map Prod.snd = listedDeclarations program := by
  simp [declarationEdges, listedDeclarations, map_flatMap]

theorem map_snd_genericEdges : (genericEdges program).map Prod.snd = listedGenerics program := by
  simp [genericEdges, listedGenerics, map_flatMap]

theorem map_snd_parameterEdges :
    (parameterEdges program).map Prod.snd = listedParameters program := by
  simp [parameterEdges, listedParameters, map_flatMap]

theorem map_snd_bodyEdges : (bodyEdges program).map Prod.snd = listedBodies program := by
  simp [bodyEdges, listedBodies, map_flatMap]

theorem map_snd_localEdges :
    (localEdges program).map Prod.snd = program.bodies.flatMap (·.locals) := by
  simp [localEdges, map_flatMap]

theorem map_snd_statementEdges :
    (statementEdges program).map Prod.snd = program.bodies.flatMap (·.statements) := by
  simp [statementEdges, map_flatMap]

theorem map_snd_declarationExpressionEdges (declaration : Declaration) :
    (declarationExpressionEdges declaration).map Prod.snd =
      collectDeclarationExpressions declaration := by
  rw [declarationExpressionEdges, collectDeclarationExpressions, map_append, map_snd_edgesFrom]
  split
  · rename_i value hvalue
    rw [hvalue, scopeExpressionEdges, collectDeclarationKindExpressions, map_append,
      map_snd_edgesFrom, map_singleton]
  · rw [map_snd_edgesFrom]

theorem map_snd_armEdges (arms : List MatchArm) :
    (armEdges arms).map Prod.snd = arms.filterMap (·.guard) := by
  rw [armEdges, map_filterMap]
  congr 1
  funext arm
  cases arm.guard <;> rfl

theorem map_snd_statementExpressionEdges (statement : Statement) :
    (statementExpressionEdges statement).map Prod.snd =
      collectStatementExpressions statement.kind ++
        statement.attributes.flatMap collectAttributeExpressions := by
  rw [statementExpressionEdges, map_append, map_snd_edgesFrom]
  split
  · rename_i scrutinee arms hkind
    rw [hkind, collectStatementExpressions, map_cons, map_snd_armEdges]
  · rw [map_snd_edgesFrom]

theorem map_snd_expressionEdges :
    (expressionEdges program).map Prod.snd = listedExpressions program := by
  simp [expressionEdges, listedExpressions, map_flatMap, map_snd_declarationExpressionEdges,
    map_snd_statementExpressionEdges]

theorem map_snd_matchPatternEdges (kind : StatementKind) :
    (matchPatternEdges kind).map Prod.snd = matchPatterns kind := by
  cases kind <;> simp [matchPatternEdges, matchPatterns]

theorem map_snd_patternEdges : (patternEdges program).map Prod.snd = listedPatterns program := by
  simp [patternEdges, listedPatterns, topPatterns, map_flatMap, map_snd_matchPatternEdges]

section Once

variable {arena : Arena} {α : Type} {name : String} {edges : List (Node × Id arena)}
  {records : List α}

/-- The records of an arena are listed once each, by the edges to them. -/
theorem listedOnce_of_edges
    (hcoverage : requireExactCoverage name records.length (edges.map Prod.snd) = [])
    (hlookup : ∀ owner id, (owner, id) ∈ edges → ∃ record, records[id.index]? = some record) :
    ListedOnce (edges.map Prod.snd) records.length := by
  refine listedOnce_of_coverage hcoverage fun id hid ↦ ?_
  obtain ⟨⟨owner, _⟩, hedge, rfl⟩ := mem_map.1 hid
  obtain ⟨record, hrecord⟩ := hlookup owner _ hedge
  exact (List.getElem?_eq_some_iff.1 hrecord).1

theorem ListedOnce.exists_edge (h : ListedOnce (edges.map Prod.snd) records.length) {id : Id arena}
    (hrecord : records[id.index]?.isSome) : ∃ owner, (owner, id) ∈ edges := by
  have hlt : id.index < records.length := by simpa using hrecord
  obtain ⟨⟨owner, _⟩, hedge, rfl⟩ := mem_map.1 ((h.mem_iff id).2 hlt)
  exact ⟨owner, hedge⟩

end Once

/-- The records of every arena are listed once each. -/
structure OwnedOnce (program : Program) : Prop where
  declarations : ListedOnce ((declarationEdges program).map Prod.snd) program.declarations.length
  generics : ListedOnce ((genericEdges program).map Prod.snd) program.genericParameters.length
  parameters : ListedOnce ((parameterEdges program).map Prod.snd) program.parameters.length
  bodies : ListedOnce ((bodyEdges program).map Prod.snd) program.bodies.length
  locals : ListedOnce ((localEdges program).map Prod.snd) program.locals.length
  statements : ListedOnce ((statementEdges program).map Prod.snd) program.statements.length
  expressions : ListedOnce ((expressionEdges program).map Prod.snd) program.expressions.length
  patterns : ListedOnce ((patternEdges program).map Prod.snd) program.patterns.length

theorem Checked.ownedOnce (h : Checked program U) : OwnedOnce program where
  declarations := listedOnce_of_edges
    (by rw [map_snd_declarationEdges]; exact h.coverages.declarations)
    fun owner id hedge ↦ (h.declaration_edge hedge).imp fun _ ↦ And.left
  generics := listedOnce_of_edges (by rw [map_snd_genericEdges]; exact h.coverages.generics)
    fun owner id hedge ↦ (h.generic_edge hedge).imp fun _ ↦ And.left
  parameters := listedOnce_of_edges (by rw [map_snd_parameterEdges]; exact h.coverages.parameters)
    fun owner id hedge ↦ (h.parameter_edge hedge).imp fun _ ↦ And.left
  bodies := listedOnce_of_edges (by rw [map_snd_bodyEdges]; exact h.coverages.bodies)
    fun owner id hedge ↦ (h.body_edge hedge).imp fun _ ↦ And.left
  locals := listedOnce_of_edges (by rw [map_snd_localEdges]; exact h.coverages.locals)
    fun owner id hedge ↦ (h.local_edge hedge).imp fun _ ↦ And.left
  statements := listedOnce_of_edges (by rw [map_snd_statementEdges]; exact h.coverages.statements)
    fun owner id hedge ↦ (h.statement_edge hedge).imp fun _ ↦ And.left
  expressions := listedOnce_of_edges
    (by rw [map_snd_expressionEdges]; exact h.coverages.expressions)
    fun owner id hedge ↦ (h.expression_edge hedge).imp fun _ ↦ And.left
  patterns := listedOnce_of_edges (by rw [map_snd_patternEdges]; exact h.coverages.patterns)
    fun owner id hedge ↦ (h.pattern_edge hedge).imp fun _ ↦ And.left

theorem map_snd_tagged {β : Type} (node : β → Node) (edges : List (Node × β)) :
    (tagged node edges).map Prod.snd = (edges.map Prod.snd).map node := by
  simp [tagged, Function.comp_def]

theorem OwnedOnce.nodup (h : OwnedOnce program) :
    ((ownershipEdges program).map Prod.snd).Nodup := by
  simp only [ownershipEdges, map_append, map_snd_tagged, nodup_append]
  refine ⟨⟨⟨⟨⟨⟨⟨h.declarations.nodup.map ?_, h.generics.nodup.map ?_, ?_⟩,
    h.parameters.nodup.map ?_, ?_⟩, h.bodies.nodup.map ?_, ?_⟩, h.locals.nodup.map ?_, ?_⟩,
    h.statements.nodup.map ?_, ?_⟩, h.expressions.nodup.map ?_, ?_⟩, h.patterns.nodup.map ?_, ?_⟩
  all_goals first
    | exact fun _ _ heq ↦ by cases heq; rfl
    | simp only [mem_append, mem_map]; grind

theorem OwnedOnce.unique (h : OwnedOnce program) (left right node : Node)
    (hleft : Owns program left node) (hright : Owns program right node) : left = right :=
  congrArg Prod.fst (inj_on_of_nodup_map h.nodup hleft hright rfl)

theorem mem_children : node ∈ children program owner ↔ Owns program owner node := by
  simp [children, Owns]

theorem OwnedOnce.nodup_children (h : OwnedOnce program) (owner : Node) :
    (children program owner).Nodup :=
  h.nodup.sublist (filter_sublist.map Prod.snd)

/-- A record that is not a module has an owner. -/
theorem OwnedOnce.exists_owner (h : OwnedOnce program) (hrecord : HasRecord program node)
    (hnode : ¬ node.isModule) :
    ∃ owner, Owns program owner node := by
  cases node with
  | module id => exact absurd trivial hnode
  | declaration id =>
    obtain ⟨owner, hedge⟩ := h.declarations.exists_edge hrecord
    exact ⟨owner, owns_declaration.2 hedge⟩
  | generic id =>
    obtain ⟨owner, hedge⟩ := h.generics.exists_edge hrecord
    exact ⟨owner, owns_generic.2 hedge⟩
  | parameter id =>
    obtain ⟨owner, hedge⟩ := h.parameters.exists_edge hrecord
    exact ⟨owner, owns_parameter.2 hedge⟩
  | body id =>
    obtain ⟨owner, hedge⟩ := h.bodies.exists_edge hrecord
    exact ⟨owner, owns_body.2 hedge⟩
  | local_ id =>
    obtain ⟨owner, hedge⟩ := h.locals.exists_edge hrecord
    exact ⟨owner, owns_local.2 hedge⟩
  | statement id =>
    obtain ⟨owner, hedge⟩ := h.statements.exists_edge hrecord
    exact ⟨owner, owns_statement.2 hedge⟩
  | expression id =>
    obtain ⟨owner, hedge⟩ := h.expressions.exists_edge hrecord
    exact ⟨owner, owns_expression.2 hedge⟩
  | pattern id =>
    obtain ⟨owner, hedge⟩ := h.patterns.exists_edge hrecord
    exact ⟨owner, owns_pattern.2 hedge⟩

namespace Checked

variable (h : Checked program U)

include h

theorem hasRecord_declaration (hmem : declaration ∈ program.declarations) :
    HasRecord program (.declaration declaration.id) := by
  rw [HasRecord, h.declaration_mem hmem, Option.isSome_some]

variable {statement : Statement} {id : ExpressionId}

theorem hasRecord_statement (hmem : statement ∈ program.statements) :
    HasRecord program (.statement statement.id) := by
  rw [HasRecord, h.statement_mem hmem, Option.isSome_some]

theorem hasRecord_body (hmem : body ∈ program.bodies) : HasRecord program (.body body.id) := by
  rw [HasRecord, h.body_mem hmem, Option.isSome_some]

theorem hasRecord_expression (hmem : expression ∈ program.expressions) :
    HasRecord program (.expression expression.id) := by
  rw [HasRecord, h.expression_mem hmem, Option.isSome_some]

/-- The body of a match arm is there. -/
theorem hasRecord_arm (hmem : statement ∈ program.statements)
    (hkind : statement.kind = .match_ scrutinee arms) (harm : arm ∈ arms) :
    HasRecord program (.body arm.body) := by
  obtain ⟨body, hchecked⟩ := h.checkedStatement hmem
  obtain ⟨-, record, hrecord, -⟩ := innerBody_of_validateStatementKind hchecked.kind arm.body
    (by rw [hkind]; exact mem_map_of_mem harm)
  rw [HasRecord, hrecord, Option.isSome_some]

theorem hasRecord_declarationExpression (hmem : declaration ∈ program.declarations)
    (hedge : (owner, id) ∈ declarationExpressionEdges declaration) : HasRecord program owner := by
  have hdeclaration := h.hasRecord_declaration hmem
  rcases mem_append.1 hedge with hedge | hedge
  · rw [(mem_edgesFrom.1 hedge).1]
    exact hdeclaration
  split at hedge
  · rename_i value hvalue
    rcases mem_append.1 hedge with hedge | hedge
    · rw [(mem_edgesFrom.1 hedge).1]
      exact hdeclaration
    · obtain ⟨rfl, rfl⟩ := Prod.mk.inj (mem_singleton.1 hedge)
      obtain ⟨record, hrecord, -⟩ := ownedBody_of_validateDeclarationKind
        (h.checkedDeclaration hmem).kind value.setup (by simp [declarationBodies, hvalue])
      rw [HasRecord, hrecord, Option.isSome_some]
  · rw [(mem_edgesFrom.1 hedge).1]
    exact hdeclaration

theorem hasRecord_statementExpression (hmem : statement ∈ program.statements)
    (hedge : (owner, id) ∈ statementExpressionEdges statement) : HasRecord program owner := by
  have hstatement := h.hasRecord_statement hmem
  rcases mem_append.1 hedge with hedge | hedge
  · split at hedge
    · rename_i scrutinee arms hkind
      rcases mem_cons.1 hedge with hedge | hedge
      · obtain ⟨rfl, rfl⟩ := Prod.mk.inj hedge
        exact hstatement
      · obtain ⟨arm, harm, hedge⟩ := mem_filterMap.1 hedge
        obtain ⟨guard, -, hedge⟩ := Option.map_eq_some_iff.1 hedge
        obtain ⟨rfl, rfl⟩ := Prod.mk.inj hedge
        exact h.hasRecord_arm hmem hkind harm
    · rw [(mem_edgesFrom.1 hedge).1]
      exact hstatement
  · rw [(mem_edgesFrom.1 hedge).1]
    exact hstatement

theorem hasRecord_expressionOwner
    (hedge : (owner, id) ∈ expressionEdges program) : HasRecord program owner := by
  simp only [expressionEdges, mem_append, mem_flatMap] at hedge
  obtain ((((⟨declaration, hmem, hedge⟩ | ⟨generic, hmem, hedge⟩) | ⟨parameter, hmem, hedge⟩) |
    ⟨record, hmem, hedge⟩) | ⟨statement, hmem, hedge⟩) | ⟨expression, hmem, hedge⟩ := hedge
  · exact h.hasRecord_declarationExpression hmem hedge
  · rw [(mem_edgesFrom.1 hedge).1, HasRecord, h.genericParameter_mem hmem, Option.isSome_some]
  · rw [(mem_edgesFrom.1 hedge).1, HasRecord, h.parameter_mem hmem, Option.isSome_some]
  · rw [(mem_edgesFrom.1 hedge).1, HasRecord, h.local_mem hmem, Option.isSome_some]
  · exact h.hasRecord_statementExpression hmem hedge
  · rw [(mem_edgesFrom.1 hedge).1]
    exact h.hasRecord_expression hmem

theorem hasRecord_patternOwner {id : PatternId} (hedge : (owner, id) ∈ patternEdges program) :
    HasRecord program owner := by
  simp only [patternEdges, mem_append, mem_flatMap] at hedge
  obtain (⟨statement, hmem, hedge⟩ | ⟨expression, hmem, hedge⟩) | ⟨pattern, hmem, hedge⟩ := hedge
  · unfold matchPatternEdges at hedge
    split at hedge
    · rename_i scrutinee arms hkind
      obtain ⟨arm, harm, hedge⟩ := mem_map.1 hedge
      obtain ⟨rfl, rfl⟩ := Prod.mk.inj hedge
      exact h.hasRecord_arm hmem hkind harm
    · cases hedge
  · rw [(mem_edgesFrom.1 hedge).1]
    exact h.hasRecord_expression hmem
  · rw [(mem_edgesFrom.1 hedge).1, HasRecord, h.pattern_mem hmem, Option.isSome_some]

/-- What owns a record is a record. -/
theorem hasRecord_owner (howns : Owns program owner node) : HasRecord program owner := by
  cases node with
  | module id => exact absurd howns owns_module
  | declaration id =>
    rcases mem_append.1 (owns_declaration.1 howns) with hedge | hedge
    · obtain ⟨module, hmem, rfl, -⟩ := mem_flatMap_edgesFrom.1 hedge
      rw [HasRecord, h.module_mem hmem, Option.isSome_some]
    · obtain ⟨declaration, hmem, rfl, -⟩ := mem_flatMap_edgesFrom.1 hedge
      exact h.hasRecord_declaration hmem
  | generic id =>
    obtain ⟨declaration, hmem, hedge⟩ := mem_flatMap.1 (owns_generic.1 howns)
    rw [(mem_edgesFrom.1 hedge).1]
    exact h.hasRecord_declaration hmem
  | parameter id =>
    rcases mem_append.1 (owns_parameter.1 howns) with hedge | hedge
    · obtain ⟨declaration, hmem, rfl, -⟩ := mem_flatMap_edgesFrom.1 hedge
      exact h.hasRecord_declaration hmem
    · obtain ⟨expression, hmem, rfl, -⟩ := mem_flatMap_edgesFrom.1 hedge
      exact h.hasRecord_expression hmem
  | body id =>
    rcases mem_append.1 (owns_body.1 howns) with hedge | hedge
    · rcases mem_append.1 hedge with hedge | hedge
      · obtain ⟨declaration, hmem, rfl, -⟩ := mem_flatMap_edgesFrom.1 hedge
        exact h.hasRecord_declaration hmem
      · obtain ⟨expression, hmem, rfl, -⟩ := mem_flatMap_edgesFrom.1 hedge
        exact h.hasRecord_expression hmem
    · obtain ⟨statement, hmem, rfl, -⟩ := mem_flatMap_edgesFrom.1 hedge
      exact h.hasRecord_statement hmem
  | local_ id =>
    obtain ⟨body, hmem, hedge⟩ := mem_flatMap.1 (owns_local.1 howns)
    rw [(mem_edgesFrom.1 hedge).1]
    exact h.hasRecord_body hmem
  | statement id =>
    obtain ⟨body, hmem, hedge⟩ := mem_flatMap.1 (owns_statement.1 howns)
    rw [(mem_edgesFrom.1 hedge).1]
    exact h.hasRecord_body hmem
  | expression id => exact h.hasRecord_expressionOwner (owns_expression.1 howns)
  | pattern id => exact h.hasRecord_patternOwner (owns_pattern.1 howns)

end Checked

end Wrela.Hir
