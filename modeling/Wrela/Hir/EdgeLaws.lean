import Wrela.Hir.OwnershipLaws

/-!
# Checked edges

What the validator has checked about the ends of every edge of the ownership graph: the record that
is contained names its owner, and comes later than the record that contains it except where a
closure or the type of a cast contains it.
-/

namespace Wrela.Hir

open List Relation
open Wrela.Source Wrela.Package Wrela.Graph

variable {program : Program} {U : Unicode}

namespace Checked

theorem validModule (h : Checked program U) (hmem : module ∈ program.modules) :
    ∃ record, validateModule program U module record = [] := by
  have hmodules := h.modules
  rw [validateModules, append_eq_nil_iff, reportIf_eq_nil, bne_eq_false_iff_eq,
    flatMap_eq_nil_iff] at hmodules
  have hzip : (program.modules.zip program.packages.modules).map Prod.fst = program.modules :=
    map_fst_zip hmodules.1.le
  rw [← hzip] at hmem
  obtain ⟨⟨_, record⟩, hpair, rfl⟩ := mem_map.1 hmem
  exact ⟨record, hmodules.2 _ hpair⟩

end Checked

/-- The checks of the records of each arena. -/
structure ValidRecords (program : Program) (U : Unicode) : Prop where
  declarations : ∀ declaration ∈ program.declarations,
    validateDeclaration program U declaration = [] ∧
      validateDeclarationOwner program declaration = []
  generics : ∀ generic ∈ program.genericParameters, validateGeneric program U generic = []
  parameters : ∀ parameter ∈ program.parameters, validateParameter program U parameter = []
  bodies : ∀ body ∈ program.bodies, validateBody program body = []
  locals : ∀ record ∈ program.locals, validateLocal program U record = []
  statements : ∀ statement ∈ program.statements, validateStatement program U statement = []
  expressions : ∀ expression ∈ program.expressions, validateExpression program expression U = []
  patterns : ∀ pattern ∈ program.patterns,
    validatePattern program pattern (bindingRoot program pattern) U = []

theorem Checked.validRecords (h : Checked program U) : ValidRecords program U := by
  have hdeclarations := h.declarations
  have hcoverage := h.coverage
  have hrecords := h.records
  simp only [validateDeclarations, append_eq_nil_iff, flatMap_eq_nil_iff] at hdeclarations
  simp only [validateCoverage, append_eq_nil_iff, flatMap_eq_nil_iff] at hcoverage
  simp only [validateRecords, append_eq_nil_iff, flatMap_eq_nil_iff] at hrecords
  obtain ⟨⟨⟨⟨⟨-, hdeclaration⟩, hgeneric⟩, -⟩, hparameter⟩, -⟩ := hdeclarations
  obtain ⟨⟨⟨⟨⟨⟨hbody, -⟩, -⟩, -⟩, -⟩, -⟩, -⟩ := hcoverage
  obtain ⟨⟨⟨⟨⟨⟨⟨⟨⟨⟨-, hlocal⟩, -⟩, hstatement⟩, hexpression⟩, hpattern⟩, -⟩, -⟩, -⟩, -⟩, -⟩ :=
    hrecords
  exact ⟨hdeclaration, hgeneric, hparameter, hbody, hlocal, hstatement, hexpression, hpattern⟩

/-- The records of each arena are listed once. -/
structure Coverages (program : Program) : Prop where
  declarations : requireExactCoverage "declarations" program.declarations.length
    (listedDeclarations program) = []
  generics : requireExactCoverage "generic parameter" program.genericParameters.length
    (listedGenerics program) = []
  parameters : requireExactCoverage "parameter" program.parameters.length
    (listedParameters program) = []
  locals : requireExactCoverage "locals" program.locals.length
    (program.bodies.flatMap (·.locals)) = []
  statements : requireExactCoverage "statements" program.statements.length
    (program.bodies.flatMap (·.statements)) = []
  bodies : requireExactCoverage "bodies" program.bodies.length (listedBodies program) = []
  expressions : requireExactCoverage "expressions" program.expressions.length
    (listedExpressions program) = []
  patterns : requireExactCoverage "patterns" program.patterns.length (listedPatterns program) = []

theorem Checked.coverages (h : Checked program U) : Coverages program := by
  have hdeclarations := h.declarations
  have hcoverage := h.coverage
  simp only [validateDeclarations, append_eq_nil_iff] at hdeclarations
  simp only [validateCoverage, append_eq_nil_iff] at hcoverage
  obtain ⟨⟨⟨⟨⟨hdeclarations, -⟩, -⟩, hgenerics⟩, -⟩, hparameters⟩ := hdeclarations
  obtain ⟨⟨⟨⟨⟨⟨-, hlocals⟩, hstatements⟩, hbodies⟩, -⟩, hexpressions⟩, hpatterns⟩ := hcoverage
  exact ⟨hdeclarations, hgenerics, hparameters, hlocals, hstatements, hbodies, hexpressions,
    hpatterns⟩

/-- What the validator checks of a declaration in its module. -/
structure CheckedDeclaration (program : Program) (U : Unicode) (declaration : Declaration) :
    Prop where
  attributes : declaration.attributes.flatMap
    (validateAttribute program U (.declaration declaration.id)) = []
  generics : ∀ generic ∈ declarationGenerics declaration,
    ∃ record, program.genericParameter generic = some record ∧ record.owner = declaration.id
  parameters : ∀ parameter ∈ declarationParameters declaration,
    ∃ record, program.parameter parameter = some record ∧ record.owner = .declaration declaration.id
  children : ∀ child ∈ declarationChildren declaration,
    ∃ record, program.declaration child = some record ∧ record.owner = .declaration declaration.id
  kind : validateDeclarationKind program U declaration = []

variable {declaration : Declaration} {owner : Node} {id : ExpressionId} {kind : String}
  {statement : Statement} {body : Body} {expression : Expression}

theorem checkedDeclaration (h : validateDeclaration program U declaration = []) :
    CheckedDeclaration program U declaration := by
  rw [validateDeclaration, append_eq_nil_iff] at h
  obtain ⟨-, h⟩ := h
  split at h
  · cases h
  simp only [append_eq_nil_iff] at h
  obtain ⟨⟨⟨⟨⟨⟨-, hattributes⟩, -⟩, hgenerics⟩, hparameters⟩, hchildren⟩, hkind⟩ := h
  rw [validateGenerics, append_eq_nil_iff, flatMap_eq_nil_iff] at hgenerics
  rw [validateParameters, append_eq_nil_iff, flatMap_eq_nil_iff] at hparameters
  rw [validateChildren, append_eq_nil_iff, flatMap_eq_nil_iff] at hchildren
  refine ⟨hattributes, fun generic hgeneric ↦ ?_, fun parameter hparameter ↦ ?_,
    fun child hchild ↦ ?_, hkind⟩
  · have hvalid := hgenerics.1 generic hgeneric
    split at hvalid
    · cases hvalid
    · rename_i record hrecord
      rw [reportIf_eq_nil, bne_eq_false_iff_eq] at hvalid
      exact ⟨record, hrecord, hvalid⟩
  · obtain ⟨index, hindex⟩ := mem_iff_getElem?.1 hparameter
    have hvalid := hparameters.1 (parameter, index) (mem_zipIdx_iff_getElem?.2 hindex)
    dsimp only at hvalid
    split at hvalid
    · cases hvalid
    · rename_i record hrecord
      rw [append_eq_nil_iff, reportIf_eq_nil, reportIf_eq_nil, bne_eq_false_iff_eq] at hvalid
      exact ⟨record, hrecord, hvalid.2⟩
  · have hvalid := hchildren.1 child hchild
    split at hvalid
    · cases hvalid
    · rename_i record hrecord
      rw [reportIf_eq_nil, bne_eq_false_iff_eq] at hvalid
      exact ⟨record, hrecord, hvalid⟩

theorem Checked.checkedDeclaration (h : Checked program U)
    (hmem : declaration ∈ program.declarations) : CheckedDeclaration program U declaration :=
  Hir.checkedDeclaration (h.validRecords.declarations declaration hmem).1

/-- A declaration names what lists it as its owner. -/
theorem Checked.declaration_edge (h : Checked program U) {id : DeclarationId}
    (hedge : (owner, id) ∈ declarationEdges program) :
    ∃ record, program.declaration id = some record ∧ record.owner.node = owner := by
  rcases mem_append.1 hedge with hedge | hedge
  · obtain ⟨module, hmodule, rfl, hid⟩ := mem_flatMap_edgesFrom.1 hedge
    obtain ⟨_, hvalid⟩ := h.validModule hmodule
    simp only [validateModule, append_eq_nil_iff, flatMap_eq_nil_iff] at hvalid
    have hlisted := hvalid.1.1.2 id hid
    rw [reportIf_eq_nil, Bool.not_eq_false'] at hlisted
    obtain ⟨record, hrecord, hlisted⟩ := (Option.any_eq_true ..).1 hlisted
    exact ⟨record, hrecord, by rw [beq_iff_eq.1 (Bool.and_eq_true_iff.1 hlisted).2]; rfl⟩
  · obtain ⟨declaration, hdeclaration, rfl, hid⟩ := mem_flatMap_edgesFrom.1 hedge
    have hchecked := h.checkedDeclaration hdeclaration
    rcases mem_append.1 hid with hid | hid
    · obtain ⟨record, hrecord, howner⟩ := hchecked.children id hid
      exact ⟨record, hrecord, by rw [howner]; rfl⟩
    · have hkind := hchecked.kind
      rw [selectedDeclarations] at hid
      split at hid
      · rename_i value hvalue
        simp only [validateDeclarationKind, hvalue, validateSelection, append_eq_nil_iff,
          flatMap_eq_nil_iff, reportIf_eq_nil, Bool.not_eq_false'] at hkind
        obtain ⟨record, hrecord, howner⟩ := (Option.any_eq_true ..).1 (hkind.2 id hid)
        exact ⟨record, hrecord, by rw [beq_iff_eq.1 howner]; rfl⟩
      · cases hid

/-- A declaration within another comes later. -/
theorem Checked.declaration_owner_lt (h : Checked program U)
    (hmem : declaration ∈ program.declarations) {owner : DeclarationId}
    (howner : declaration.owner = .declaration owner) : owner.index < declaration.id.index := by
  have hvalid := (h.validRecords.declarations declaration hmem).2
  simp only [validateDeclarationOwner, howner, reportIf_eq_nil, Bool.or_eq_false_iff,
    Bool.not_eq_false', decide_eq_true_eq] at hvalid
  exact UInt32.lt_iff_toNat_lt.1 hvalid.1.1

theorem Checked.generic_edge (h : Checked program U) {id : GenericParameterId}
    (hedge : (owner, id) ∈ genericEdges program) :
    ∃ record, program.genericParameter id = some record ∧ owner = .declaration record.owner := by
  obtain ⟨declaration, hdeclaration, rfl, hid⟩ := mem_flatMap_edgesFrom.1 hedge
  obtain ⟨record, hrecord, howner⟩ := (h.checkedDeclaration hdeclaration).generics id hid
  exact ⟨record, hrecord, by rw [howner]⟩

/-! ## Bodies -/

/-- A body that is there and names its owner. -/
def OwnedBody (program : Program) (owner : BodyOwner) (id : BodyId) : Prop :=
  ∃ body, program.body id = some body ∧ body.owner = owner

theorem OwnedBody.of_checkBodyOwner {owner : BodyOwner} {id : BodyId}
    (h : checkBodyOwner program id owner kind = []) : OwnedBody program owner id := by
  rw [checkBodyOwner, reportIf_eq_nil, Bool.not_eq_false'] at h
  obtain ⟨body, hbody, h⟩ := (Option.any_eq_true ..).1 h
  exact ⟨body, hbody, beq_iff_eq.1 (Bool.and_eq_true_iff.1 h).1⟩

theorem OwnedBody.of_checkScopePhaseBody {declaration : DeclarationId} {id : BodyId}
    {setupScope : Option ScopeId}
    (h : checkScopePhaseBody program id declaration setupScope kind = []) :
    OwnedBody program (.declaration declaration) id := by
  rw [checkScopePhaseBody, reportIf_eq_nil, Bool.not_eq_false'] at h
  obtain ⟨body, hbody, h⟩ := (Option.any_eq_true ..).1 h
  exact ⟨body, hbody, beq_iff_eq.1 (Bool.and_eq_true_iff.1 h).1⟩

theorem ownedBody_of_validateDeclarationKind
    (h : validateDeclarationKind program U declaration = []) :
    ∀ id ∈ declarationBodies declaration, OwnedBody program (.declaration declaration.id) id := by
  intro id hid
  rw [declarationBodies] at hid
  rw [validateDeclarationKind] at h
  cases hkind : declaration.kind <;> simp only [hkind] at h hid
  case function value =>
    simp only [append_eq_nil_iff, flatMap_eq_nil_iff] at h
    exact .of_checkBodyOwner (h.2 id hid)
  case initializer value =>
    rw [validateInitializer, append_eq_nil_iff] at h
    rw [mem_singleton.1 hid]
    exact .of_checkBodyOwner h.2
  case projection value =>
    rw [validateProjection, append_eq_nil_iff, flatMap_eq_nil_iff] at h
    exact .of_checkBodyOwner (h.2 id hid)
  case scope value =>
    simp only [validateScope, append_eq_nil_iff, flatMap_eq_nil_iff] at h
    obtain ⟨⟨⟨⟨⟨-, hsetup⟩, -⟩, habort⟩, -⟩, hexit⟩ := h
    rcases mem_cons.1 hid with rfl | hid
    · exact .of_checkBodyOwner hsetup
    rcases mem_append.1 hid with hid | hid
    · exact .of_checkScopePhaseBody (habort id hid)
    · rw [mem_singleton.1 hid]
      exact .of_checkScopePhaseBody hexit
  all_goals cases hid

/-- What the validator checks of a statement in its body. -/
structure CheckedStatement (program : Program) (U : Unicode) (statement : Statement) (body : Body) :
    Prop where
  lookup : program.body statement.body = some body
  attributes : statement.attributes.flatMap
    (validateAttribute program U (.body statement.body)) = []
  kind : validateStatementKind program statement body U = []

theorem Checked.checkedStatement (h : Checked program U) (hmem : statement ∈ program.statements) :
    ∃ body, CheckedStatement program U statement body := by
  have hvalid := h.validRecords.statements statement hmem
  rw [validateStatement] at hvalid
  split at hvalid
  · cases hvalid
  · rename_i body hbody
    simp only [append_eq_nil_iff] at hvalid
    exact ⟨body, hbody, hvalid.1.1.2, hvalid.2⟩

/-- A body in a statement comes later than the body of the statement and has the same owner. -/
def InnerBody (program : Program) (statement : Statement) (body : Body) (id : BodyId) : Prop :=
  statement.body.index < id.index ∧ OwnedBody program body.owner id

/-- What is checked of a record that comes later under a given owner. -/
theorem later_of_reportIf {α β : Type} [BEq β] [LawfulBEq β] {first later : UInt32}
    {found : Option α} {named : α → β} {owner : β} {inside open_ : α → Bool}
    (h : reportIf (!(decide (first < later) && found.any fun record ↦
      named record == owner && inside record && open_ record)) error = []) :
    first.toNat < later.toNat ∧ ∃ record, found = some record ∧ named record = owner := by
  rw [reportIf_eq_nil, Bool.not_eq_false', Bool.and_eq_true_iff, decide_eq_true_eq] at h
  obtain ⟨record, hrecord, hvalid⟩ := (Option.any_eq_true ..).1 h.2
  simp only [Bool.and_eq_true_iff, beq_iff_eq] at hvalid
  exact ⟨UInt32.lt_iff_toNat_lt.1 h.1, record, hrecord, hvalid.1.1⟩

theorem InnerBody.of_childBody {id : BodyId}
    (h : childBody program statement body id kind = []) : InnerBody program statement body id :=
  later_of_reportIf h

theorem InnerBody.of_conditionalChildBody {id : BodyId}
    (h : conditionalChildBody program statement body condition id kind = []) :
    InnerBody program statement body id :=
  later_of_reportIf h

theorem innerBody_of_validateStatementKind
    (h : validateStatementKind program statement body U = []) :
    ∀ id ∈ statementBodies statement.kind, InnerBody program statement body id := by
  intro id hid
  rw [validateStatementKind] at h
  cases hkind : statement.kind <;> simp only [hkind, statementBodies] at h hid
  case if_ branches elseBody =>
    simp only [append_eq_nil_iff, flatMap_eq_nil_iff] at h
    rcases mem_append.1 hid with hid | hid
    · obtain ⟨branch, hbranch, rfl⟩ := mem_map.1 hid
      exact .of_conditionalChildBody (h.1.2 branch hbranch).2
    · exact .of_childBody (h.2 id hid)
  case match_ scrutinee arms =>
    simp only [validateMatchArm, append_eq_nil_iff, flatMap_eq_nil_iff] at h
    obtain ⟨arm, harm, rfl⟩ := mem_map.1 hid
    exact .of_childBody (h.2 arm harm).1.1.2
  case for_ | while_ | with_ =>
    rw [append_eq_nil_iff] at h
    rw [mem_singleton.1 hid]
    exact .of_childBody h.2
  case loop child =>
    rw [mem_singleton.1 hid]
    exact .of_childBody h
  case comptimeIf condition thenBody elseBody =>
    simp only [append_eq_nil_iff, flatMap_eq_nil_iff] at h
    rcases mem_cons.1 hid with rfl | hid
    · exact .of_childBody h.1.2
    · exact .of_childBody (h.2 id hid)
  all_goals cases hid

section

variable (h : Checked program U)
include h

/-- What the validator checks of an expression. -/
theorem Checked.validExpression (hmem : expression ∈ program.expressions) :
    validateExpressionKind program expression U = [] := by
  have hvalid := h.validRecords.expressions expression hmem
  rw [validateExpression, append_eq_nil_iff] at hvalid
  exact hvalid.2

/-- A body is contained in its owner, or in a statement of an earlier body with the same owner. -/
theorem Checked.body_edge {id : BodyId} (hedge : (owner, id) ∈ bodyEdges program) :
    ∃ record, program.body id = some record ∧ (record.owner.node = owner ∨
      ∃ statement ∈ program.statements, owner = .statement statement.id ∧
        ∃ body, program.body statement.body = some body ∧ body.owner = record.owner ∧
          statement.body.index < id.index) := by
  rcases mem_append.1 hedge with hedge | hedge
  · rcases mem_append.1 hedge with hedge | hedge
    · obtain ⟨declaration, hdeclaration, rfl, hid⟩ := mem_flatMap_edgesFrom.1 hedge
      obtain ⟨record, hrecord, howner⟩ :=
        ownedBody_of_validateDeclarationKind (h.checkedDeclaration hdeclaration).kind id hid
      exact ⟨record, hrecord, .inl (by rw [howner]; rfl)⟩
    · obtain ⟨expression, hexpression, rfl, hid⟩ := mem_flatMap_edgesFrom.1 hedge
      have hvalid := h.validExpression hexpression
      rw [Option.mem_toList] at hid
      unfold ExpressionKind.closureBody at hid
      split at hid
      · rename_i hkind
        cases hid
        simp only [validateExpressionKind, hkind, validateClosureBody, append_eq_nil_iff]
          at hvalid
        obtain ⟨record, hrecord, howner⟩ := OwnedBody.of_checkBodyOwner hvalid.1.2
        exact ⟨record, hrecord, .inl (by rw [howner]; rfl)⟩
      · cases hid
  · obtain ⟨statement, hstatement, rfl, hid⟩ := mem_flatMap_edgesFrom.1 hedge
    obtain ⟨body, hchecked⟩ := h.checkedStatement hstatement
    obtain ⟨hlt, record, hrecord, howner⟩ := innerBody_of_validateStatementKind hchecked.kind id hid
    exact ⟨record, hrecord, .inr ⟨statement, hstatement, rfl, body, hchecked.lookup, howner.symm,
      hlt⟩⟩

theorem Checked.parameter_edge {id : ParameterId} (hedge : (owner, id) ∈ parameterEdges program) :
    ∃ record, program.parameter id = some record ∧ record.owner.node = owner := by
  rcases mem_append.1 hedge with hedge | hedge
  · obtain ⟨declaration, hdeclaration, rfl, hid⟩ := mem_flatMap_edgesFrom.1 hedge
    obtain ⟨record, hrecord, howner⟩ := (h.checkedDeclaration hdeclaration).parameters id hid
    exact ⟨record, hrecord, by rw [howner]; rfl⟩
  · obtain ⟨expression, hexpression, rfl, hid⟩ := mem_flatMap_edgesFrom.1 hedge
    have hvalid := h.validExpression hexpression
    unfold ExpressionKind.closureParameters at hid
    split at hid
    · rename_i hkind
      simp only [validateExpressionKind, hkind, append_eq_nil_iff, flatMap_eq_nil_iff,
        reportIf_eq_nil, Bool.not_eq_false'] at hvalid
      obtain ⟨record, hrecord, howner⟩ := (Option.any_eq_true ..).1 (hvalid.1.1.2 id hid)
      exact ⟨record, hrecord, by rw [beq_iff_eq.1 (Bool.and_eq_true_iff.1 howner).1]; rfl⟩
    · cases hid

theorem Checked.validBody (hmem : body ∈ program.bodies) :
    (∀ id ∈ body.locals, ∃ record, program.local_ id = some record ∧ record.body = body.id) ∧
      ∀ id ∈ body.statements,
        ∃ record, program.statement id = some record ∧ record.body = body.id := by
  have hvalid := h.validRecords.bodies body hmem
  simp only [validateBody, append_eq_nil_iff, flatMap_eq_nil_iff, reportIf_eq_nil,
    Bool.not_eq_false'] at hvalid
  refine ⟨fun id hid ↦ ?_, fun id hid ↦ ?_⟩
  · obtain ⟨record, hrecord, hbody⟩ := (Option.any_eq_true ..).1 (hvalid.1.2 id hid)
    exact ⟨record, hrecord, beq_iff_eq.1 hbody⟩
  · obtain ⟨record, hrecord, hbody⟩ := (Option.any_eq_true ..).1 (hvalid.2 id hid)
    exact ⟨record, hrecord, beq_iff_eq.1 hbody⟩

theorem Checked.local_edge {id : LocalId} (hedge : (owner, id) ∈ localEdges program) :
    ∃ record, program.local_ id = some record ∧ owner = .body record.body := by
  obtain ⟨body, hbody, rfl, hid⟩ := mem_flatMap_edgesFrom.1 hedge
  obtain ⟨record, hrecord, howner⟩ := (h.validBody hbody).1 id hid
  exact ⟨record, hrecord, by rw [howner]⟩

theorem Checked.statement_edge {id : StatementId} (hedge : (owner, id) ∈ statementEdges program) :
    ∃ record, program.statement id = some record ∧ owner = .body record.body := by
  obtain ⟨body, hbody, rfl, hid⟩ := mem_flatMap_edgesFrom.1 hedge
  obtain ⟨record, hrecord, howner⟩ := (h.validBody hbody).2 id hid
  exact ⟨record, hrecord, by rw [howner]⟩

end

theorem OwnedExpression.of_checkExpressionOwner {owner : ExpressionOwner}
    (h : checkExpressionOwner program id owner kind = []) :
    OwnedExpression program owner id := by
  rw [checkExpressionOwner, reportIf_eq_nil, Bool.not_eq_false'] at h
  obtain ⟨record, hrecord, h⟩ := (Option.any_eq_true ..).1 h
  exact ⟨record, hrecord, beq_iff_eq.1 h⟩

theorem owned_of_validateField (h : validateField program U declaration field = []) :
    ∀ id ∈ collectFieldExpressions field,
      OwnedExpression program (.declaration declaration.id) id := by
  intro id hid
  simp only [validateField, append_eq_nil_iff] at h
  obtain ⟨⟨⟨-, hattributes⟩, htype⟩, hdefault⟩ := h
  rcases mem_append.1 hid with hid | hid
  · rcases mem_append.1 hid with hid | hid
    · exact owned_of_validateAttributes hattributes id hid
    · exact owned_of_validateType _ 0 field.ty htype id hid
  · exact .of_checkExpressionOwner (flatMap_eq_nil_iff.1 hdefault id hid)

theorem owned_of_validateVariant (h : validateVariant program U declaration variant = []) :
    ∀ id ∈ collectVariantExpressions variant,
      OwnedExpression program (.declaration declaration.id) id := by
  intro id hid
  simp only [validateVariant, append_eq_nil_iff, flatMap_eq_nil_iff] at h
  obtain ⟨field, hfield, hid⟩ := mem_flatMap.1 hid
  have hvalid := h.1.2 field hfield
  rw [validateVariantField, append_eq_nil_iff] at hvalid
  exact owned_of_validateType _ 0 field.ty hvalid.2 id hid

theorem owned_of_validateDeclarationKind (h : validateDeclarationKind program U declaration = [])
    (hscope : ∀ value, declaration.kind ≠ .scope value) :
    ∀ id ∈ collectDeclarationKindExpressions declaration.kind,
      OwnedExpression program (.declaration declaration.id) id := by
  intro id hid
  rw [validateDeclarationKind] at h
  cases hkind : declaration.kind <;>
    simp only [hkind, collectDeclarationKindExpressions] at h hid
  case scope value => exact absurd hkind (hscope value)
  case constant value =>
    rw [append_eq_nil_iff] at h
    rcases mem_append.1 hid with hid | hid
    · exact owned_of_validateTypeList h.1 id hid
    · rw [mem_singleton.1 hid]
      exact .of_checkExpressionOwner h.2
  case function value => exact owned_of_validateTypeList (append_eq_nil_iff.1 h).1 id hid
  case initializer value =>
    simp only [validateInitializer, append_eq_nil_iff] at h
    exact owned_of_validateTypeList h.1.2 id hid
  case «structure» value =>
    simp only [validateStructure, append_eq_nil_iff] at h
    rcases mem_append.1 hid with hid | hid
    · exact owned_of_validateTypeList h.1.1.1 id hid
    · obtain ⟨field, hfield, hid⟩ := mem_flatMap.1 hid
      exact owned_of_validateField (flatMap_eq_nil_iff.1 h.1.1.2 field hfield) id hid
  case enumeration value =>
    rw [validateEnumeration, append_eq_nil_iff] at h
    obtain ⟨variant, hvariant, hid⟩ := mem_flatMap.1 hid
    exact owned_of_validateVariant (flatMap_eq_nil_iff.1 h.1 variant hvariant) id hid
  case implementation value =>
    rw [append_eq_nil_iff] at h
    rcases mem_append.1 hid with hid | hid
    · exact owned_of_validateType _ 0 value.interface h.1 id hid
    · exact owned_of_validateType _ 0 value.implementingType h.2 id hid
  case projection value =>
    simp only [validateProjection, append_eq_nil_iff] at h
    exact owned_of_validateCarrier _ 0 value.carrier h.1.1.1 id hid
  case comptimeSelection value =>
    simp only [validateSelection, append_eq_nil_iff] at h
    rw [mem_singleton.1 hid]
    exact .of_checkExpressionOwner h.1.1
  all_goals cases hid

/-- Whose expressions a node holds: those of its own record, or of the one it stands in. -/
inductive Holds (program : Program) : Node → ExpressionOwner → Prop
  | declaration (id : DeclarationId) : Holds program (.declaration id) (.declaration id)
  | generic {id : GenericParameterId} {record : GenericParameter}
      (h : program.genericParameter id = some record) :
      Holds program (.generic id) (.declaration record.owner)
  | parameter {id : ParameterId} {record : Parameter} (h : program.parameter id = some record) :
      Holds program (.parameter id) record.owner.expressionOwner
  | local_ {id : LocalId} {record : Local} (h : program.local_ id = some record) :
      Holds program (.local_ id) (.body record.body)
  | statement {id : StatementId} {record : Statement} (h : program.statement id = some record) :
      Holds program (.statement id) (.body record.body)
  | body (id : BodyId) : Holds program (.body id) (.body id)
  | expression {id : ExpressionId} {record : Expression} (h : program.expression id = some record) :
      Holds program (.expression id) record.owner
  | closure (id : ExpressionId) : Holds program (.expression id) (.closure id)

/-- An expression that is there and belongs where its owner holds expressions. -/
def HeldExpression (program : Program) (owner : Node) (id : ExpressionId) : Prop :=
  ∃ record, program.expression id = some record ∧ Holds program owner record.owner

theorem OwnedExpression.held (h : OwnedExpression program record id)
    (howner : Holds program owner record) :
    HeldExpression program owner id := by
  obtain ⟨expression, hexpression, rfl⟩ := h
  exact ⟨expression, hexpression, howner⟩

theorem CheckedDeclaration.held (h : CheckedDeclaration program U declaration)
    (hedge : (owner, id) ∈ declarationExpressionEdges declaration) :
    HeldExpression program owner id := by
  rcases mem_append.1 hedge with hedge | hedge
  · obtain ⟨rfl, hid⟩ := mem_edgesFrom.1 hedge
    exact (owned_of_validateAttributes h.attributes id hid).held (.declaration _)
  · split at hedge
    · rename_i value hvalue
      have hkind := h.kind
      simp only [validateDeclarationKind, hvalue, validateScope, append_eq_nil_iff] at hkind
      obtain ⟨⟨⟨⟨⟨htype, -⟩, henter⟩, -⟩, -⟩, -⟩ := hkind
      rcases mem_append.1 hedge with hedge | hedge
      · obtain ⟨rfl, hid⟩ := mem_edgesFrom.1 hedge
        exact (owned_of_validateType _ 0 value.result htype id hid).held (.declaration _)
      · obtain ⟨rfl, rfl⟩ := Prod.mk.inj (mem_singleton.1 hedge)
        rw [reportIf_eq_nil, Bool.not_eq_false'] at henter
        obtain ⟨record, hrecord, hvalid⟩ := (Option.any_eq_true ..).1 henter
        exact OwnedExpression.held
          ⟨record, hrecord, beq_iff_eq.1 (Bool.and_eq_true_iff.1 hvalid).1⟩ (.body _)
    · rename_i hscope
      obtain ⟨rfl, hid⟩ := mem_edgesFrom.1 hedge
      exact (owned_of_validateDeclarationKind h.kind hscope id hid).held (.declaration _)

theorem OwnedExpression.of_statementExpression
    (h : statementExpression program statement body id kind = []) :
    OwnedExpression program (.body statement.body) id := by
  rw [statementExpression, reportIf_eq_nil, Bool.not_eq_false'] at h
  obtain ⟨record, hrecord, h⟩ := (Option.any_eq_true ..).1 h
  simp only [Bool.and_eq_true_iff, beq_iff_eq] at h
  exact ⟨record, hrecord, h.1.1⟩

theorem owned_of_validateAssignmentTarget
    (h : validateAssignmentTarget program statement body U target = []) :
    ∀ id ∈ collectPlaceExpressions target.projections,
      OwnedExpression program (.body statement.body) id := by
  intro id hid
  rw [validateAssignmentTarget, append_eq_nil_iff, flatMap_eq_nil_iff] at h
  obtain ⟨projection, hprojection, hid⟩ := mem_filterMap.1 hid
  have hvalid := h.2 projection hprojection
  cases projection with
  | index index =>
    cases hid
    exact .of_statementExpression hvalid
  | field _ => cases hid
  | tuple _ => cases hid

theorem owned_of_validateStatementKind (h : validateStatementKind program statement body U = [])
    (hmatch : ∀ scrutinee arms, statement.kind ≠ .match_ scrutinee arms) :
    ∀ id ∈ collectStatementExpressions statement.kind,
      OwnedExpression program (.body statement.body) id := by
  intro id hid
  rw [validateStatementKind] at h
  cases hkind : statement.kind <;> simp only [hkind, collectStatementExpressions] at h hid
  case match_ scrutinee arms => exact absurd hkind (hmatch scrutinee arms)
  case initialize_ local_ value =>
    rw [mem_singleton.1 hid]
    exact .of_statementExpression (append_eq_nil_iff.1 h).2
  case assign targets operator value =>
    simp only [append_eq_nil_iff, flatMap_eq_nil_iff] at h
    rcases mem_append.1 hid with hid | hid
    · obtain ⟨target, htarget, hid⟩ := mem_flatMap.1 hid
      exact owned_of_validateAssignmentTarget (h.1.2 target htarget) id hid
    · rw [mem_singleton.1 hid]
      exact .of_statementExpression h.2
  case «return» value =>
    exact .of_statementExpression (flatMap_eq_nil_iff.1 h id hid)
  case assert | while_ =>
    rw [mem_singleton.1 hid]
    exact .of_statementExpression (append_eq_nil_iff.1 h).1
  case if_ branches elseBody =>
    simp only [append_eq_nil_iff, flatMap_eq_nil_iff] at h
    obtain ⟨branch, hbranch, rfl⟩ := mem_map.1 hid
    exact .of_statementExpression (h.1.2 branch hbranch).1
  case for_ binding iterable child =>
    simp only [append_eq_nil_iff] at h
    rw [mem_singleton.1 hid]
    exact .of_statementExpression h.1.2
  case with_ value binding region child =>
    simp only [append_eq_nil_iff] at h
    rw [mem_singleton.1 hid]
    exact .of_statementExpression h.1.1.1
  case comptimeIf condition thenBody elseBody =>
    simp only [append_eq_nil_iff] at h
    rw [mem_singleton.1 hid]
    exact .of_statementExpression h.1.1
  case send | yield | expression =>
    rw [mem_singleton.1 hid]
    exact .of_statementExpression h
  all_goals cases hid

theorem CheckedStatement.held (h : CheckedStatement program U statement body)
    (hlookup : program.statement statement.id = some statement)
    (hedge : (owner, id) ∈ statementExpressionEdges statement) :
    HeldExpression program owner id := by
  have hstatement : Holds program (.statement statement.id) (.body statement.body) :=
    .statement hlookup
  rcases mem_append.1 hedge with hedge | hedge
  · split at hedge
    · rename_i scrutinee arms hkind
      have hvalid := h.kind
      simp only [validateStatementKind, hkind, append_eq_nil_iff, flatMap_eq_nil_iff]
        at hvalid
      rcases mem_cons.1 hedge with hedge | hedge
      · obtain ⟨rfl, rfl⟩ := Prod.mk.inj hedge
        exact (OwnedExpression.of_statementExpression hvalid.1).held hstatement
      · obtain ⟨arm, harm, hedge⟩ := mem_filterMap.1 hedge
        obtain ⟨guard, hguard, hedge⟩ := Option.map_eq_some_iff.1 hedge
        obtain ⟨rfl, rfl⟩ := Prod.mk.inj hedge
        have hchecked := hvalid.2 arm harm
        simp only [validateMatchArm, append_eq_nil_iff, flatMap_eq_nil_iff] at hchecked
        have hguardChecked := hchecked.2 guard (by rw [hguard]; exact mem_singleton_self _)
        rw [reportIf_eq_nil, Bool.not_eq_false'] at hguardChecked
        obtain ⟨record, hrecord, howner⟩ := (Option.any_eq_true ..).1 hguardChecked
        simp only [Bool.and_eq_true_iff, beq_iff_eq] at howner
        exact OwnedExpression.held ⟨record, hrecord, howner.1.1⟩ (.body _)
    · rename_i hmatch
      obtain ⟨rfl, hid⟩ := mem_edgesFrom.1 hedge
      exact (owned_of_validateStatementKind h.kind hmatch id hid).held hstatement
  · obtain ⟨rfl, hid⟩ := mem_edgesFrom.1 hedge
    exact (owned_of_validateAttributes h.attributes id hid).held hstatement

/-- An expression in the type that another one casts to. -/
def InCast (expression : Expression) (id : ExpressionId) : Prop :=
  ∃ value ty, expression.kind = .cast value ty ∧ id ∈ collectTypeExpressions 0 ty

/-- What is checked of an operand: it has the same owner, or the closure that it is the value of,
and comes later unless it stands in the type of a cast. -/
def CheckedOperand (program : Program) (expression : Expression) (id : ExpressionId) : Prop :=
  (OwnedExpression program expression.owner id ∨
    OwnedExpression program (.closure expression.id) id) ∧
  (expression.id.index < id.index ∨ InCast expression id)

theorem CheckedOperand.of_operand
    (h : operand program expression id kind = []) : CheckedOperand program expression id := by
  have hlater := later_of_reportIf h
  exact ⟨.inl hlater.2, .inl hlater.1⟩

theorem CheckedOperand.of_validConjunct
    (h : validConjunct program expression id = true) : CheckedOperand program expression id := by
  obtain ⟨record, hrecord, hvalid⟩ := (Option.any_eq_true ..).1 h
  simp only [Bool.and_eq_true_iff, beq_iff_eq, decide_eq_true_eq] at hvalid
  exact ⟨.inl ⟨record, hrecord, hvalid.1.1.2⟩, .inl (UInt32.lt_iff_toNat_lt.1 hvalid.1.1.1)⟩

theorem CheckedOperand.of_validateClosureBody
    (h : validateClosureBody program expression (.expression id) = []) :
    CheckedOperand program expression id := by
  have hlater := later_of_reportIf h
  exact ⟨.inr hlater.2, .inl hlater.1⟩

theorem operand_of_validateCallArguments
    (h : validateCallArguments program expression U names arguments = []) :
    ∀ id ∈ arguments.flatMap collectArgumentValueExpressions,
      CheckedOperand program expression id := by
  induction arguments generalizing names with
  | nil => simp
  | cons argument arguments ih =>
    simp only [validateCallArguments, append_eq_nil_iff] at h
    intro id hid
    rcases mem_append.1 hid with hid | hid
    · have hvalue := h.1.2
      rw [collectArgumentValueExpressions] at hid
      rw [validateArgumentValue] at hvalue
      split at hid
      · rename_i value hkind
        rw [hkind] at hvalue
        rw [mem_singleton.1 hid]
        exact .of_operand hvalue
      · rename_i access place hkind
        rw [hkind, append_eq_nil_iff, flatMap_eq_nil_iff] at hvalue
        obtain ⟨projection, hprojection, hid⟩ := mem_filterMap.1 hid
        have hvalid := hvalue.2 projection hprojection
        cases projection with
        | index index =>
          cases hid
          exact .of_operand hvalid
        | field _ => cases hid
        | tuple _ => cases hid
    · exact ih h.2 id hid

theorem operand_of_validateExpressionKind (h : validateExpressionKind program expression U = []) :
    ∀ id ∈ collectExpressionChildren expression.kind, CheckedOperand program expression id := by
  intro id hid
  rw [validateExpressionKind] at h
  cases hkind : expression.kind <;> simp only [hkind] at h hid
  case closure color takeCaptures parameters body captures =>
    cases body with
    | expression value =>
      rw [collectExpressionChildren, mem_singleton] at hid
      simp only [append_eq_nil_iff] at h
      rw [hid]
      exact .of_validateClosureBody h.1.2
    | body body => cases hid
  case unary | try_ | trySend =>
    rw [mem_singleton.1 hid]
    exact .of_operand h
  case binary operator left right =>
    rw [append_eq_nil_iff] at h
    rcases mem_pair.1 hid with rfl | rfl
    · exact .of_operand h.1
    · have hright := h.2
      split at hright
      · rw [reportIf_eq_nil, Bool.not_eq_false'] at hright
        exact .of_validConjunct hright
      · exact .of_operand hright
  case compare | range | index =>
    rw [append_eq_nil_iff] at h
    rcases mem_pair.1 hid with rfl | rfl
    · exact .of_operand h.1
    · exact .of_operand h.2
  case isPattern | field =>
    rw [mem_singleton.1 hid]
    exact .of_operand (append_eq_nil_iff.1 h).1
  case cast value ty =>
    rw [append_eq_nil_iff] at h
    rcases mem_cons.1 hid with rfl | hid
    · exact .of_operand h.1
    · exact ⟨.inl (owned_of_validateType _ 0 ty h.2 id hid), .inr ⟨value, ty, hkind, hid⟩⟩
  case call callee arguments =>
    simp only [append_eq_nil_iff] at h
    rcases mem_cons.1 hid with rfl | hid
    · exact .of_operand h.1.1
    · exact operand_of_validateCallArguments h.1.2 id hid
  case tuple | array => exact .of_operand (flatMap_eq_nil_iff.1 h id hid)
  case interpolate parts =>
    obtain ⟨part, hpart, hid⟩ := mem_filterMap.1 hid
    have hvalid := flatMap_eq_nil_iff.1 h part hpart
    cases part with
    | text value source => cases hid
    | value value format formatSource =>
      cases hid
      exact .of_operand (append_eq_nil_iff.1 hvalid).1
  case if_ condition thenBranch elifBranches elseBranch =>
    simp only [append_eq_nil_iff, flatMap_eq_nil_iff] at h
    obtain ⟨⟨⟨hcondition, hthen⟩, helif⟩, helse⟩ := h
    rcases mem_cons.1 hid with rfl | hid
    · exact .of_operand hcondition
    rcases mem_cons.1 hid with rfl | hid
    · exact .of_operand hthen
    rcases mem_append.1 hid with hid | hid
    · obtain ⟨⟨guard, branch⟩, hbranch, hid⟩ := mem_flatMap.1 hid
      have hvalid := helif _ hbranch
      rcases mem_pair.1 hid with rfl | rfl
      · exact .of_operand hvalid.1
      · exact .of_operand hvalid.2
    · rw [mem_singleton.1 hid]
      exact .of_operand helse
  all_goals cases hid

theorem CheckedOperand.held (h : CheckedOperand program expression id)
    (hlookup : program.expression expression.id = some expression) :
    HeldExpression program (.expression expression.id) id := by
  rcases h.1 with h | h
  · exact h.held (.expression hlookup)
  · exact h.held (.closure _)

theorem Checked.validGeneric (h : Checked program U) (hmem : generic ∈ program.genericParameters) :
    ∀ id ∈ collectGenericExpressions generic,
      OwnedExpression program (.declaration generic.owner) id := by
  have hvalid := h.validRecords.generics generic hmem
  rw [validateGeneric, append_eq_nil_iff] at hvalid
  rw [collectGenericExpressions]
  cases hkind : generic.kind with
  | type bound =>
    simp only [hkind] at hvalid
    exact owned_of_validateTypeList hvalid.2
  | constant ty =>
    simp only [hkind] at hvalid
    exact owned_of_validateType _ 0 ty hvalid.2
  | region => simp

theorem Checked.validParameter (h : Checked program U) (hmem : parameter ∈ program.parameters) :
    ∀ id ∈ collectOptionalTypeExpressions parameter.ty,
      OwnedExpression program parameter.owner.expressionOwner id := by
  have hvalid := h.validRecords.parameters parameter hmem
  simp only [validateParameter, append_eq_nil_iff, reportIf_eq_nil, Bool.or_eq_false_iff,
    Bool.not_eq_false'] at hvalid
  obtain ⟨⟨⟨-, -⟩, -, howner⟩, htype⟩ := hvalid
  obtain ⟨callable, hcallable, -⟩ := (Option.any_eq_true ..).1 howner
  rw [hcallable, if_pos (by rfl)] at htype
  exact owned_of_validateTypeList htype

theorem Checked.validLocal (h : Checked program U) (hmem : record ∈ program.locals) :
    ∀ id ∈ collectOptionalTypeExpressions record.ty,
      OwnedExpression program (.body record.body) id := by
  have hvalid := h.validRecords.locals record hmem
  rw [validateLocal, append_eq_nil_iff] at hvalid
  exact owned_of_validateTypeList hvalid.2

/-- An expression belongs where its owner holds expressions. -/
theorem Checked.expression_edge (h : Checked program U)
    (hedge : (owner, id) ∈ expressionEdges program) : HeldExpression program owner id := by
  simp only [expressionEdges, mem_append, mem_flatMap] at hedge
  obtain ((((⟨declaration, hmem, hedge⟩ | ⟨generic, hmem, hedge⟩) | ⟨parameter, hmem, hedge⟩) |
    ⟨record, hmem, hedge⟩) | ⟨statement, hmem, hedge⟩) | ⟨expression, hmem, hedge⟩ := hedge
  · exact (h.checkedDeclaration hmem).held hedge
  · obtain ⟨rfl, hid⟩ := mem_edgesFrom.1 hedge
    exact (h.validGeneric hmem id hid).held (.generic (h.genericParameter_mem hmem))
  · obtain ⟨rfl, hid⟩ := mem_edgesFrom.1 hedge
    exact (h.validParameter hmem id hid).held (.parameter (h.parameter_mem hmem))
  · obtain ⟨rfl, hid⟩ := mem_edgesFrom.1 hedge
    exact (h.validLocal hmem id hid).held (.local_ (h.local_mem hmem))
  · obtain ⟨body, hchecked⟩ := h.checkedStatement hmem
    exact hchecked.held (h.statement_mem hmem) hedge
  · obtain ⟨rfl, hid⟩ := mem_edgesFrom.1 hedge
    exact (operand_of_validateExpressionKind (h.validExpression hmem) id hid).held
      (h.expression_mem hmem)

/-- A pattern that is an argument of another one comes later. -/
theorem Checked.pattern_edge (h : Checked program U) {id : PatternId}
    (hedge : (owner, id) ∈ patternEdges program) :
    ∃ record, program.pattern id = some record ∧ ((∃ body, owner = .body body) ∨
      (∃ expression, owner = .expression expression) ∨
      ∃ outer : PatternId, owner = .pattern outer ∧ outer.index < id.index) := by
  simp only [patternEdges, mem_append, mem_flatMap] at hedge
  obtain (⟨statement, hmem, hedge⟩ | ⟨expression, hmem, hedge⟩) | ⟨pattern, hmem, hedge⟩ := hedge
  · obtain ⟨body, hchecked⟩ := h.checkedStatement hmem
    have hvalid := hchecked.kind
    unfold matchPatternEdges at hedge
    split at hedge
    · rename_i scrutinee arms hkind
      simp only [validateStatementKind, hkind, append_eq_nil_iff, flatMap_eq_nil_iff]
        at hvalid
      obtain ⟨arm, harm, hedge⟩ := mem_map.1 hedge
      obtain ⟨rfl, rfl⟩ := Prod.mk.inj hedge
      have hchecked := hvalid.2 arm harm
      simp only [validateMatchArm, append_eq_nil_iff, reportIf_eq_nil, Bool.not_eq_false']
        at hchecked
      obtain ⟨record, hrecord, -⟩ := (Option.any_eq_true ..).1 hchecked.1.2
      exact ⟨record, hrecord, .inl ⟨_, rfl⟩⟩
    · cases hedge
  · obtain ⟨rfl, hid⟩ := mem_edgesFrom.1 hedge
    have hvalid := h.validExpression hmem
    rw [Option.mem_toList] at hid
    unfold ExpressionKind.testedPattern at hid
    split at hid
    · rename_i hkind
      cases hid
      simp only [validateExpressionKind, hkind, append_eq_nil_iff, reportIf_eq_nil,
        Bool.not_eq_false'] at hvalid
      obtain ⟨record, hrecord, -⟩ := (Option.any_eq_true ..).1 hvalid.2
      exact ⟨record, hrecord, .inr (.inl ⟨_, rfl⟩)⟩
    · cases hid
  · obtain ⟨rfl, hid⟩ := mem_edgesFrom.1 hedge
    have hvalid := h.validRecords.patterns pattern hmem
    rw [validatePattern, append_eq_nil_iff, flatMap_eq_nil_iff] at hvalid
    obtain ⟨alternative, halternative, hid⟩ := mem_flatMap.1 hid
    obtain ⟨argument, hargument, rfl⟩ := mem_map.1 hid
    have hkind := (append_eq_nil_iff.1 (hvalid.2 alternative halternative)).2
    have hargumentValid : validatePatternArgument program pattern argument = [] := by
      unfold PrimaryPattern.arguments at hargument
      split at hargument
      case h_4 => cases hargument
      all_goals
        rename_i heq
        simp only [validatePrimaryPattern, heq, append_eq_nil_iff, flatMap_eq_nil_iff] at hkind
      · exact hkind.2 argument hargument
      · exact hkind argument hargument
      · exact hkind argument hargument
    simp only [validatePatternArgument, reportIf_eq_nil, Bool.or_eq_false_iff, Bool.not_eq_false',
      decide_eq_true_eq] at hargumentValid
    obtain ⟨record, hrecord, -⟩ := (Option.any_eq_true ..).1 hargumentValid.2
    exact ⟨record, hrecord,
      .inr (.inr ⟨pattern.id, rfl, UInt32.lt_iff_toNat_lt.1 hargumentValid.1.2⟩)⟩

end Wrela.Hir
