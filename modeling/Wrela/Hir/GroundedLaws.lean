import Wrela.Hir.ForestLaws

/-!
# Chains of owners

Owners are followed upwards.  Declarations, bodies and pattern arguments come later than what owns
them; an operand stays with the owner of its expression.  So a chain of owners ends once it has left
every closure, and it leaves every closure when none lies within itself.
-/

namespace Wrela.Hir

open List Relation
open Wrela.Source Wrela.Package Wrela.Graph

variable {program : Program} {U : Unicode} {owner : Node}

theorem owns_operand {expression id : ExpressionId} :
    Owns program (.expression expression) (.expression id) ↔ Operand program expression id := by
  rw [owns_expression]
  constructor
  · intro hedge
    simp only [expressionEdges, mem_append, mem_flatMap] at hedge
    obtain ((((⟨declaration, -, hedge⟩ | ⟨generic, -, hedge⟩) | ⟨parameter, -, hedge⟩) |
      ⟨record, -, hedge⟩) | ⟨statement, -, hedge⟩) | ⟨record, hmem, hedge⟩ := hedge
    · unfold declarationExpressionEdges at hedge
      split at hedge <;> simp [scopeExpressionEdges] at hedge
    · cases (mem_edgesFrom.1 hedge).1
    · cases (mem_edgesFrom.1 hedge).1
    · cases (mem_edgesFrom.1 hedge).1
    · unfold statementExpressionEdges at hedge
      split at hedge <;> simp [armEdges] at hedge
    · obtain ⟨howner, hid⟩ := mem_edgesFrom.1 hedge
      cases howner
      exact ⟨record, hmem, rfl, hid⟩
  · rintro ⟨record, hmem, rfl, hid⟩
    exact mem_append_right _ (mem_flatMap.2 ⟨record, hmem, mem_edgesFrom.2 ⟨rfl, hid⟩⟩)

/-- An operand comes later, unless it stands in the type of a cast on the way. -/
theorem Checked.operand_chain (h : Checked program U)
    (hchain : TransGen (Operand program) first last) :
    first.index < last.index ∨ ∃ expression ∈ program.expressions, ∃ id, InCast expression id ∧
      ReflTransGen (Operand program) first expression.id ∧
        ReflTransGen (Operand program) id last := by
  have hstep : ∀ {left right}, Operand program left right → left.index < right.index ∨
      ∃ expression ∈ program.expressions, expression.id = left ∧ InCast expression right := by
    rintro _ right ⟨expression, hmem, rfl, hid⟩
    exact (operand_of_validateExpressionKind (h.validExpression hmem) right hid).2.imp_right
      fun hcast ↦ ⟨expression, hmem, rfl, hcast⟩
  induction hchain with
  | single hfirst =>
    exact (hstep hfirst).imp_right fun ⟨expression, hmem, hid, hcast⟩ ↦
      ⟨expression, hmem, _, hcast, by rw [hid], .refl⟩
  | @tail middle last hchain hlast ih =>
    rcases ih with hlt | ⟨expression, hmem, id, hcast, hto, hfrom⟩
    · rcases hstep hlast with hlt' | ⟨expression, hmem, rfl, hcast⟩
      · exact .inl (hlt.trans hlt')
      · exact .inr ⟨expression, hmem, _, hcast, hchain.to_reflTransGen, .refl⟩
    · exact .inr ⟨expression, hmem, id, hcast, hto, hfrom.tail hlast⟩

theorem Checked.wellFounded_operand (h : Checked program U) (hgrounded : Grounded program) :
    WellFounded (Operand program) := by
  have hfinite : {id | id ∈ program.expressions.map (·.id)}.Finite := finite_toSet _
  refine wellFounded_of_acyclic hfinite ?_ fun id hcycle ↦ ?_
  · rintro _ right ⟨expression, hmem, rfl, -⟩
    exact mem_map_of_mem hmem
  · rcases h.operand_chain hcycle with hlt | ⟨expression, hmem, inner, ⟨value, ty, hkind, hinner⟩,
      hto, hfrom⟩
    · exact lt_irrefl _ hlt
    · exact hgrounded.casts expression hmem value ty hkind inner hinner (hfrom.trans hto)

theorem Grounded.wellFounded_encloses (hgrounded : Grounded program) :
    WellFounded (Encloses program) := by
  have hfinite : {id | id ∈ program.expressions.filterMap fun record ↦
    owningClosure program record.owner}.Finite := finite_toSet _
  refine wellFounded_of_acyclic hfinite ?_ hgrounded.closures
  rintro closure _ ⟨record, hmem, rfl, hclosure⟩
  exact mem_filterMap.2 ⟨record, hmem, hclosure⟩

theorem acc_module {id : ModuleId} : Acc (Owns program) (.module id) :=
  .intro _ fun _ howns ↦ absurd howns owns_module

namespace Checked

variable (h : Checked program U)

include h

theorem acc_declaration (id : DeclarationId) : Acc (Owns program) (.declaration id) := by
  induction hindex : id.index using Nat.strong_induction_on generalizing id with
  | _ index ih =>
    refine .intro _ fun owner howns ↦ ?_
    obtain ⟨record, hrecord, rfl⟩ := h.declaration_edge (owns_declaration.1 howns)
    cases howner : record.owner with
    | module module => exact acc_module
    | declaration parent =>
      have hlt := h.declaration_owner_lt (mem_of_getElem? hrecord) howner
      rw [h.declaration_id hrecord] at hlt
      exact ih parent.index (by omega) parent rfl

theorem acc_generic (id : GenericParameterId) : Acc (Owns program) (.generic id) := by
  refine .intro _ fun owner howns ↦ ?_
  obtain ⟨record, -, rfl⟩ := h.generic_edge (owns_generic.1 howns)
  exact h.acc_declaration record.owner

/-- A body within statements is owned by what owns the outermost body around it. -/
theorem acc_body (id : BodyId)
    (howner : ∀ record, program.body id = some record → Acc (Owns program) record.owner.node) :
    Acc (Owns program) (.body id) := by
  induction hindex : id.index using Nat.strong_induction_on generalizing id with
  | _ index ih =>
    refine .intro _ fun owner howns ↦ ?_
    obtain ⟨record, hrecord, rfl | ⟨statement, hmem, rfl, body, hbody, hsame, hlt⟩⟩ :=
      h.body_edge (owns_body.1 howns)
    · exact howner record hrecord
    · refine .intro _ fun owner hstatement ↦ ?_
      obtain ⟨found, hfound, rfl⟩ := h.statement_edge (owns_statement.1 hstatement)
      rw [h.statement_mem hmem] at hfound
      cases hfound
      refine ih statement.body.index (by omega) statement.body (fun other hother ↦ ?_) rfl
      rw [hbody] at hother
      cases hother
      rw [hsame]
      exact howner record hrecord

/-- What holds expressions of an owner ends where the owner does. -/
theorem acc_of_holds (hholds : Holds program node held) (hheld : Acc (Owns program) held.node)
    (hexpression : ∀ id record, node = .expression id → program.expression id = some record →
      record.owner = held → Acc (Owns program) (.expression id)) : Acc (Owns program) node := by
  cases hholds with
  | declaration id => exact hheld
  | generic hrecord => exact h.acc_generic _
  | @parameter id record hrecord =>
    refine .intro _ fun owner howns ↦ ?_
    obtain ⟨found, hfound, rfl⟩ := h.parameter_edge (owns_parameter.1 howns)
    rw [hrecord] at hfound
    cases hfound
    cases howner : record.owner <;> rw [howner] at hheld <;> exact hheld
  | @local_ id record hrecord =>
    refine .intro _ fun owner howns ↦ ?_
    obtain ⟨found, hfound, rfl⟩ := h.local_edge (owns_local.1 howns)
    rw [hrecord] at hfound
    cases hfound
    exact hheld
  | @statement id record hrecord =>
    refine .intro _ fun owner howns ↦ ?_
    obtain ⟨found, hfound, rfl⟩ := h.statement_edge (owns_statement.1 howns)
    rw [hrecord] at hfound
    cases hfound
    exact hheld
  | body id => exact hheld
  | expression hrecord => exact hexpression _ _ rfl hrecord rfl
  | closure id => exact hheld

theorem acc_expression (hoperand : WellFounded (Operand program)) (id : ExpressionId)
    (howner : ∀ record, program.expression id = some record →
      Acc (Owns program) record.owner.node) : Acc (Owns program) (.expression id) := by
  induction id using hoperand.induction with
  | _ id ih =>
    refine .intro _ fun owner howns ↦ ?_
    obtain ⟨record, hrecord, hholds⟩ := h.expression_edge (owns_expression.1 howns)
    refine h.acc_of_holds hholds (howner record hrecord) fun parent found hparent hfound hsame ↦ ?_
    subst hparent
    refine ih parent (owns_operand.1 howns) fun other hother ↦ ?_
    rw [hfound] at hother
    cases hother
    rw [hsame]
    exact howner record hrecord

/-- Whatever owns a body or an expression ends, if the closure that it lies in does. -/
theorem acc_expressionOwner (hclosure : ∀ closure, owningClosure program held = some closure →
      Acc (Owns program) (.expression closure)) : Acc (Owns program) held.node := by
  cases held with
  | declaration id => exact h.acc_declaration id
  | closure id => exact hclosure id rfl
  | body id =>
    refine h.acc_body id fun record hrecord ↦ ?_
    cases howner : record.owner with
    | declaration declaration => exact h.acc_declaration declaration
    | closure closure =>
      exact hclosure closure (by
        rw [owningClosure, hrecord, Option.bind_some, howner, BodyOwner.closure?])

theorem wellFounded_owns (hgrounded : Grounded program) : WellFounded (Owns program) := by
  have hoperand := h.wellFounded_operand hgrounded
  have hexpression : ∀ id, Acc (Owns program) (.expression id) := by
    intro id
    induction id using hgrounded.wellFounded_encloses.induction with
    | _ id ih =>
      refine h.acc_expression hoperand id fun record hrecord ↦
        h.acc_expressionOwner fun closure hclosure ↦ ih closure ?_
      exact ⟨record, mem_of_getElem? hrecord, h.expression_id hrecord, hclosure⟩
  have howner : ∀ held : ExpressionOwner, Acc (Owns program) held.node := fun held ↦
    h.acc_expressionOwner fun closure _ ↦ hexpression closure
  have hbody : ∀ id, Acc (Owns program) (.body id) := fun id ↦ howner (.body id)
  refine ⟨fun node ↦ ?_⟩
  cases node with
  | module id => exact acc_module
  | declaration id => exact h.acc_declaration id
  | generic id => exact h.acc_generic id
  | parameter id =>
    refine .intro _ fun owner howns ↦ ?_
    obtain ⟨record, -, rfl⟩ := h.parameter_edge (owns_parameter.1 howns)
    cases record.owner with
    | declaration id => exact h.acc_declaration id
    | closure id => exact hexpression id
  | body id => exact hbody id
  | local_ id =>
    refine .intro _ fun owner howns ↦ ?_
    obtain ⟨record, -, rfl⟩ := h.local_edge (owns_local.1 howns)
    exact hbody record.body
  | statement id =>
    refine .intro _ fun owner howns ↦ ?_
    obtain ⟨record, -, rfl⟩ := h.statement_edge (owns_statement.1 howns)
    exact hbody record.body
  | expression id => exact hexpression id
  | pattern id =>
    induction hindex : id.index using Nat.strong_induction_on generalizing id with
    | _ index ih =>
      refine .intro _ fun owner howns ↦ ?_
      obtain ⟨record, -, ⟨body, rfl⟩ | ⟨expression, rfl⟩ | ⟨outer, rfl, hlt⟩⟩ :=
        h.pattern_edge (owns_pattern.1 howns)
      · exact hbody body
      · exact hexpression expression
      · exact ih outer.index (by omega) outer rfl

end Checked

namespace Checked

variable (h : Checked program U)

include h

theorem owns_statement_body (hmem : statement ∈ program.statements) :
    Owns program (.body statement.body) (.statement statement.id) := by
  obtain ⟨owner, howns⟩ := h.ownedOnce.exists_owner (h.hasRecord_statement hmem)
    (by simp [Node.isModule])
  obtain ⟨record, hrecord, rfl⟩ := h.statement_edge (owns_statement.1 howns)
  rw [h.statement_mem hmem] at hrecord
  cases hrecord
  exact howns

theorem owns_local_body (hmem : record ∈ program.locals) :
    Owns program (.body record.body) (.local_ record.id) := by
  obtain ⟨owner, howns⟩ := h.ownedOnce.exists_owner
    (show HasRecord program (.local_ record.id) by
      rw [HasRecord, h.local_mem hmem, Option.isSome_some]) (by simp [Node.isModule])
  obtain ⟨found, hfound, rfl⟩ := h.local_edge (owns_local.1 howns)
  rw [h.local_mem hmem] at hfound
  cases hfound
  exact howns

theorem owns_parameter_owner (hmem : parameter ∈ program.parameters) :
    Owns program parameter.owner.node (.parameter parameter.id) := by
  obtain ⟨owner, howns⟩ := h.ownedOnce.exists_owner
    (show HasRecord program (.parameter parameter.id) by
      rw [HasRecord, h.parameter_mem hmem, Option.isSome_some]) (by simp [Node.isModule])
  obtain ⟨found, hfound, rfl⟩ := h.parameter_edge (owns_parameter.1 howns)
  rw [h.parameter_mem hmem] at hfound
  cases hfound
  exact howns

theorem owns_generic_owner {id : GenericParameterId}
    (hlookup : program.genericParameter id = some generic) :
    Owns program (.declaration generic.owner) (.generic id) := by
  obtain ⟨owner, howns⟩ := h.ownedOnce.exists_owner
    (show HasRecord program (.generic id) by rw [HasRecord, hlookup, Option.isSome_some])
    (by simp [Node.isModule])
  obtain ⟨found, hfound, rfl⟩ := h.generic_edge (owns_generic.1 howns)
  rw [hlookup] at hfound
  cases hfound
  exact howns

theorem owner_reaches_body {id : BodyId} (hlookup : program.body id = some body) :
    TransGen (Owns program) body.owner.node (.body id) := by
  induction hindex : id.index using Nat.strong_induction_on generalizing id body with
  | _ index ih =>
    obtain ⟨owner, howns⟩ := h.ownedOnce.exists_owner
      (show HasRecord program (.body id) by rw [HasRecord, hlookup, Option.isSome_some])
      (by simp [Node.isModule])
    obtain ⟨record, hrecord, rfl | ⟨statement, hmem, rfl, outer, houter, hsame, hlt⟩⟩ :=
      h.body_edge (owns_body.1 howns)
    · rw [hlookup] at hrecord
      cases hrecord
      exact .single howns
    · rw [hlookup] at hrecord
      cases hrecord
      have habove := ih statement.body.index (by omega) houter rfl
      rw [hsame] at habove
      exact (habove.tail (h.owns_statement_body hmem)).tail howns

theorem owner_reaches_expression (hwellFounded : WellFounded (Owns program)) {id : ExpressionId}
    (hlookup : program.expression id = some expression) :
    TransGen (Owns program) expression.owner.node (.expression id) := by
  have hoperand : WellFounded (Operand program) :=
    Subrelation.wf (fun hstep ↦ owns_operand.2 hstep)
      (InvImage.wf Node.expression hwellFounded)
  induction id using hoperand.induction generalizing expression with
  | _ id ih =>
    obtain ⟨owner, howns⟩ := h.ownedOnce.exists_owner
      (show HasRecord program (.expression id) by rw [HasRecord, hlookup, Option.isSome_some])
      (by simp [Node.isModule])
    obtain ⟨record, hrecord, hholds⟩ := h.expression_edge (owns_expression.1 howns)
    rw [hlookup] at hrecord
    cases hrecord
    generalize howner : expression.owner = held at hholds ⊢
    cases hholds with
    | declaration id => exact .single howns
    | generic hgeneric => exact .tail (.single (h.owns_generic_owner hgeneric)) howns
    | @parameter parameterId parameter hparameter =>
      have hlink := h.owns_parameter_owner (mem_of_getElem? hparameter)
      rw [h.parameter_id hparameter] at hlink
      cases hcallable : parameter.owner <;> rw [hcallable] at hlink <;>
        exact .tail (.single hlink) howns
    | local_ hlocal =>
      have hlink := h.owns_local_body (mem_of_getElem? hlocal)
      rw [h.local_id hlocal] at hlink
      exact .tail (.single hlink) howns
    | statement hstatement =>
      have hlink := h.owns_statement_body (mem_of_getElem? hstatement)
      rw [h.statement_id hstatement] at hlink
      exact .tail (.single hlink) howns
    | body id => exact .single howns
    | @expression parentId parent hparent =>
      exact (ih parentId (owns_operand.1 howns) hparent).tail howns
    | closure id => exact .single howns

theorem ownerLinks (hwellFounded : WellFounded (Owns program)) : OwnerLinks program where
  bodies _ hmem := h.owner_reaches_body (h.body_mem hmem)
  expressions _ hmem := h.owner_reaches_expression hwellFounded (h.expression_mem hmem)
  statements _ hmem := h.owns_statement_body hmem
  locals _ hmem := h.owns_local_body hmem
  parameters _ hmem := h.owns_parameter_owner hmem

theorem moduleForest (hgrounded : Grounded program) : ModuleForest program := by
  have hwellFounded := h.wellFounded_owns hgrounded
  have hacyclic := acyclic_of_wellFounded hwellFounded
  have hunique := h.ownedOnce.unique
  have hroot : ∀ owner node, Node.isModule node → ¬ Owns program owner node := by
    rintro owner (_ | _) hnode
    · exact owns_module
    all_goals cases hnode
  have hswap : (fun node owner ↦ node ∈ children program owner) = Function.swap (Owns program) := by
    funext node owner
    exact propext mem_children
  have hbelow : WellFounded fun node owner ↦ node ∈ children program owner := by
    rw [hswap]
    refine wellFounded_of_acyclic
      (finite_toSet ((ownershipEdges program).map Prod.snd)) (fun node owner hnode ↦ ?_)
      fun node hcycle ↦ hacyclic node (transGen_swap.1 hcycle)
    exact mem_map.2 ⟨(owner, node), hnode, rfl⟩
  refine ⟨fun node hnode ↦ ?_, hacyclic, fun declaration _ ↦ traversed hunique hacyclic
    (fun _ _ ↦ mem_children) h.ownedOnce.nodup_children hbelow _, h.ownerLinks hwellFounded⟩
  obtain ⟨path, hpath⟩ := exists_pathTo hwellFounded (fun node hrecord hmodule ↦
    (h.ownedOnce.exists_owner hrecord hmodule).imp fun owner howns ↦
      ⟨h.hasRecord_owner howns, howns⟩) node hnode
  exact ⟨path, hpath, fun other hother ↦ hother.unique hunique hroot hpath⟩

end Checked

/-- What a closure encloses is contained in it. -/
theorem Checked.owns_enclosed (h : Checked program U) (hlinks : OwnerLinks program)
    {closure expression : ExpressionId} (hencloses : Encloses program closure expression) :
    TransGen (Owns program) (.expression closure) (.expression expression) := by
  obtain ⟨record, hmem, rfl, hclosure⟩ := hencloses
  have hrecord := hlinks.expressions record hmem
  cases howner : record.owner with
  | declaration id => simp [owningClosure, howner] at hclosure
  | closure id =>
    rw [howner] at hrecord hclosure
    cases hclosure
    exact hrecord
  | body id =>
    rw [howner] at hrecord hclosure
    obtain ⟨body, hbody, hclosure⟩ := Option.bind_eq_some_iff.1 hclosure
    have habove := h.owner_reaches_body hbody
    cases hbodyOwner : body.owner with
    | declaration id => simp [hbodyOwner, BodyOwner.closure?] at hclosure
    | closure id =>
      rw [hbodyOwner] at hclosure habove
      cases hclosure
      exact habove.trans hrecord

theorem Checked.grounded (h : Checked program U) (hforest : ModuleForest program) :
    Grounded program := by
  refine ⟨fun closure hcycle ↦ hforest.acyclic (.expression closure)
    (hcycle.lift' Node.expression fun _ _ ↦ h.owns_enclosed hforest.owners), ?_⟩
  intro expression hmem value ty hkind id hid hreached
  refine hforest.acyclic (.expression expression.id) (TransGen.head' (owns_operand.2 ?_)
    (hreached.lift Node.expression fun _ _ ↦ owns_operand.2))
  exact ⟨expression, hmem, rfl, by rw [hkind]; exact mem_cons_of_mem _ hid⟩

theorem checked_of_validateWithLimits (h : validateWithLimits program U limits = .ok ()) :
    Checked program U := by
  simp only [validateWithLimits] at h
  split at h
  · cases h
  obtain ⟨_, -, h⟩ := Checked.bind_eq_ok.1 h
  split at h
  · rename_i hempty
    exact checked_iff.1 (List.isEmpty_iff.1 hempty)
  · cases h

/-- A validated program is a forest that is rooted in its modules just in case no closure lies
within itself and no cast within an expression of its own type. -/
theorem moduleForest_iff {limits : ValidationLimits}
    (h : validateWithLimits program U limits = .ok ()) :
    ModuleForest program ↔ Grounded program :=
  ⟨(checked_of_validateWithLimits h).grounded, (checked_of_validateWithLimits h).moduleForest⟩

def exampleSource : Span := ⟨⟨0⟩, ⟨0, 10⟩⟩

def unitType : TypeExpression := .mk (.named (.builtin .unit) []) exampleSource

def exampleExpression (id : UInt32) (kind : ExpressionKind) : Expression :=
  ⟨⟨id⟩, .declaration ⟨0⟩, none, kind, exampleSource⟩

/-- A constant and a cast of one literal to an array whose length is the given expression. -/
def castProgram (value length : ExpressionId) : Program where
  packages :=
    { root := ⟨0⟩
      packages := [⟨⟨0⟩, ⟨⟨"app"⟩, ⟨"1"⟩, .repeated 0⟩, []⟩]
      modules := [⟨⟨0⟩, ⟨0⟩, ⟨["app"]⟩, ⟨0⟩⟩] }
  modules := [⟨⟨0⟩, ⟨0⟩, ⟨["app"]⟩, [⟨0⟩], [], exampleSource⟩]
  declarations :=
    [{ id := ⟨0⟩, module := ⟨0⟩, owner := .module ⟨0⟩, name := some ⟨"size"⟩, visibility := .priv
       attributes := [], kind := .constant ⟨none, value⟩, source := exampleSource }]
  genericParameters := []
  parameters := []
  bodies := []
  scopes := []
  locals := []
  statements := []
  expressions :=
    [exampleExpression 0 (.cast ⟨1⟩ (.mk (.array unitType length) exampleSource)),
      exampleExpression 1 (.literal .unit), exampleExpression 2 (.literal .unit)]
  patterns := []
  regions := []
  imageCandidates := []
  testCandidates := []

theorem moduleForest_iff_castProgram :
    validateWithLimits (castProgram ⟨0⟩ ⟨2⟩) .ascii .standard = .ok () ∧
      (ModuleForest (castProgram ⟨0⟩ ⟨2⟩) ↔ Grounded (castProgram ⟨0⟩ ⟨2⟩)) := by
  have hvalid : validateWithLimits (castProgram ⟨0⟩ ⟨2⟩) .ascii .standard = .ok () := by
    decide
  exact ⟨hvalid, moduleForest_iff hvalid⟩

/-- The length of the array may be the cast itself, which nothing else then lists. -/
theorem not_moduleForest_castProgram :
    validateWithLimits (castProgram ⟨2⟩ ⟨0⟩) .ascii .standard = .ok () ∧
      ¬ ModuleForest (castProgram ⟨2⟩ ⟨0⟩) := by
  refine ⟨by decide, fun h ↦ h.acyclic (.expression ⟨0⟩) (.single ?_)⟩
  exact owns_operand.2 ⟨_, mem_cons_self, rfl, by decide⟩

end Wrela.Hir
