import Wrela.HirLower.Imports

/-!
# Laws of import resolution

What one attempt at a pending import does depends on the exports it sees and on whether its local
name is taken, and it only adds to what has been recorded.  So the attempts obey the laws of tasks
tried in rounds.
-/

namespace Wrela.HirLower

open List Wrela.Source Wrela.Package Wrela.Checked

namespace ImportState

/-- What was recorded before, and then more. -/
def append (state more : ImportState) : ImportState where
  namedImports := state.namedImports ++ more.namedImports
  moduleImports := state.moduleImports ++ more.moduleImports
  reexports := state.reexports ++ more.reexports
  importEdges := state.importEdges ∪ more.importEdges
  uses := state.uses ++ more.uses
  diagnostics := state.diagnostics ++ more.diagnostics

@[simp]
theorem append_empty (state : ImportState) : state.append empty = state := by
  simp [append, empty]

theorem append_append (first second third : ImportState) :
    (first.append second).append third = first.append (second.append third) := by
  simp [append]

/-- The same records, in whatever order. -/
structure Same (state state' : ImportState) : Prop where
  namedImports : state.namedImports.Perm state'.namedImports
  moduleImports : state.moduleImports.Perm state'.moduleImports
  reexports : state.reexports.Perm state'.reexports
  importEdges : state.importEdges = state'.importEdges
  uses : state.uses.Perm state'.uses
  diagnostics : state.diagnostics.Perm state'.diagnostics

theorem Same.refl (state : ImportState) : Same state state := ⟨.rfl, .rfl, .rfl, rfl, .rfl, .rfl⟩

theorem Same.symm {state state' : ImportState} (h : Same state state') : Same state' state :=
  ⟨h.namedImports.symm, h.moduleImports.symm, h.reexports.symm, h.importEdges.symm, h.uses.symm,
    h.diagnostics.symm⟩

theorem Same.trans {state state' state'' : ImportState} (h : Same state state')
    (h' : Same state' state'') : Same state state'' :=
  ⟨h.namedImports.trans h'.namedImports, h.moduleImports.trans h'.moduleImports,
    h.reexports.trans h'.reexports, h.importEdges.trans h'.importEdges, h.uses.trans h'.uses,
    h.diagnostics.trans h'.diagnostics⟩

theorem Same.append (h : Same state state') (h' : Same more more') :
    Same (state.append more) (state'.append more') :=
  ⟨h.namedImports.append h'.namedImports, h.moduleImports.append h'.moduleImports,
    h.reexports.append h'.reexports, congrArg₂ (· ∪ ·) h.importEdges h'.importEdges,
    h.uses.append h'.uses, h.diagnostics.append h'.diagnostics⟩

theorem same_append_comm (first second : ImportState) :
    Same (first.append second) (second.append first) :=
  ⟨perm_append_comm, perm_append_comm, perm_append_comm, Finset.union_comm _ _,
    perm_append_comm, perm_append_comm⟩

/-- Two additions can be made in either order. -/
theorem same_append_append (state first second : ImportState) :
    Same ((state.append first).append second) ((state.append second).append first) := by
  rw [append_append, append_append]
  exact (Same.refl state).append (same_append_comm first second)

end ImportState

/-- How an attempt at a ready import ends. -/
inductive Verdict where
  | ambiguous
  | conflict
  /-- The import gets the target; what it exports again may be refused. -/
  | found (target : NamespaceTarget) (exports : Bool)
deriving DecidableEq

namespace PendingNamedImport

variable (task : PendingNamedImport)

def spelling : String := task.imported.name.spelling

/-- What an import records under a verdict. -/
def changes : Verdict → ImportState
  | .ambiguous =>
    { ImportState.empty with
      uses := [⟨task.imported.name.source, task.spelling, none⟩]
      diagnostics := [⟨"hir-ambiguous-import-name", task.imported.name.source,
        "this imported name is ambiguous in its source module"⟩] }
  | .conflict =>
    { ImportState.empty with
      diagnostics := [⟨"hir-import-name-conflict", task.imported.source,
        "this imported name conflicts with another name in the module"⟩] }
  | .found target exports =>
    { namedImports :=
        match target with
        | .symbol target => [⟨task.module, task.localName, target, task.imported.source⟩]
        | .module _ _ => []
      moduleImports :=
        match target with
        | .symbol _ => []
        | .module package module =>
          [⟨task.module, [task.localName], package, module, task.imported.source⟩]
      reexports :=
        if task.isPublic && exports then
          [⟨task.module, task.localName, target, task.imported.source⟩]
        else []
      importEdges :=
        match target with
        | .symbol _ => ∅
        | .module _ module => {(task.module, module)}
      uses :=
        [⟨task.imported.name.source, task.spelling,
          match target with
          | .symbol (.declaration value) => some (.declaration value)
          | .symbol (.variant value) => some (.variant value)
          | .module package module => some (.module package module)⟩]
      diagnostics :=
        if task.isPublic && !exports then
          [⟨"hir-reexport-name-conflict", task.imported.source,
            "this public import duplicates another exported name"⟩]
        else [] }

def progress : Verdict → Bool
  | .found _ _ => task.isPublic
  | _ => false

end PendingNamedImport

namespace Session

variable (session : Session)

/-- How an import that has a single target ends. -/
def verdictOf (state : ImportState) (task : PendingNamedImport)
    (target : NamespaceTarget) : Verdict :=
  if session.importNameConflicts state task.module task.localName then .conflict
  else .found target (!state.hasReexport task.module task.localName)

/-- How an attempt ends in a state, if the import is ready. -/
def verdict (state : ImportState) (task : PendingNamedImport) : Option Verdict :=
  match session.exportedNamespaces state task.targetModule task.spelling with
  | [] => none
  | [target] => some (session.verdictOf state task target)
  | _ => some .ambiguous

variable {session}

theorem installNamedImport_eq (task : PendingNamedImport) (target : NamespaceTarget)
    (state : ImportState) :
    session.installNamedImport task target state =
      (task.progress (session.verdictOf state task target),
        state.append (task.changes (session.verdictOf state task target))) := by
  unfold installNamedImport verdictOf
  split
  · simp [ImportState.append, PendingNamedImport.changes, PendingNamedImport.progress,
      ImportState.empty, ImportState.emit]
  · cases hpublic : task.isPublic <;>
      cases hexports : state.hasReexport task.module task.localName <;>
        rcases target with (value | value) | ⟨package, module⟩ <;>
          simp_all [ImportState.append, PendingNamedImport.changes, PendingNamedImport.progress,
            PendingNamedImport.spelling, ImportState.addReexport, ImportState.hasReexport,
            ImportState.recordSymbolUse, ImportState.pushUse, ImportState.addImportEdge,
            ImportState.emit]

theorem attemptNamedImport_eq (state : ImportState) (task : PendingNamedImport) :
    session.attemptNamedImport state task = (session.verdict state task).map fun verdict ↦
      ⟨task.progress verdict, state.append (task.changes verdict)⟩ := by
  unfold attemptNamedImport verdict PendingNamedImport.spelling
  cases session.exportedNamespaces state task.targetModule task.imported.name.spelling with
  | nil => rfl
  | cons target more =>
    cases more with
    | cons other more =>
      simp [ImportState.append, PendingNamedImport.changes, PendingNamedImport.progress,
        ImportState.empty, ImportState.emit, ImportState.recordErrorUse, ImportState.pushUse,
        PendingNamedImport.spelling]
    | nil =>
      dsimp only
      rw [installNamedImport_eq]
      rfl

theorem exportedNamespaces_append (session : Session) (state more : ImportState)
    (module : ModuleId) (name : String) :
    (session.exportedNamespaces (state.append more) module name).Perm
      (session.exportedNamespaces state module name ++
        (more.reexports.filter fun reexport ↦
          reexport.module == module && reexport.localName == name).map Reexport.target) := by
  simp only [exportedNamespaces, ImportState.append, filter_append, map_append, append_assoc]
  exact perm_append_comm.append_left _

theorem hasReexport_append (state more : ImportState) (module : ModuleId) (name : String) :
    (state.append more).hasReexport module name =
      (state.hasReexport module name || more.hasReexport module name) := by
  simp [ImportState.hasReexport, ImportState.append]

variable {state state' : ImportState}

theorem exportedNamespaces_perm (session : Session) (h : state.Same state')
    (module : ModuleId) (name : String) : (session.exportedNamespaces state module name).Perm
      (session.exportedNamespaces state' module name) :=
  ((h.reexports.filter _).map _).append_right _

theorem importNameConflicts_eq (h : state.Same state') (module : ModuleId) (name : String) :
    session.importNameConflicts state module name =
      session.importNameConflicts state' module name := by
  rw [importNameConflicts, importNameConflicts, h.namedImports.any_eq, h.moduleImports.any_eq]

theorem hasReexport_eq (h : state.Same state') (module : ModuleId)
    (name : String) : state.hasReexport module name = state'.hasReexport module name :=
  h.reexports.any_eq

theorem hasReexport_eq_false (h : session.exportedNamespaces state module name = []) :
    state.hasReexport module name = false := by
  have hnone := (append_eq_nil_iff.1 h).1
  rw [map_eq_nil_iff, filter_eq_nil_iff] at hnone
  exact any_eq_false.2 hnone

/-- The verdict of an import is a matter of what it sees exported and of its local name. -/
theorem verdict_eq_of_perm
    (hexports : (session.exportedNamespaces state task.targetModule task.spelling).Perm
      (session.exportedNamespaces state' task.targetModule task.spelling))
    (hverdict : ∀ target, session.verdictOf state task target =
      session.verdictOf state' task target) :
    session.verdict state task = session.verdict state' task := by
  unfold verdict
  cases h : session.exportedNamespaces state task.targetModule task.spelling with
  | nil =>
    rw [h] at hexports
    rw [hexports.nil_eq.symm]
  | cons target more =>
    cases more with
    | nil =>
      rw [h] at hexports
      rw [← singleton_perm.1 hexports]
      exact congrArg some (hverdict target)
    | cons other more =>
      rw [h] at hexports
      have hlength := hexports.length_eq
      match hlist : session.exportedNamespaces state' task.targetModule task.spelling with
      | [] => rw [hlist] at hlength; cases hlength
      | [_] => rw [hlist] at hlength; simp at hlength
      | _ :: _ :: _ => rfl

theorem verdict_eq_of_same (h : state.Same state')
    (task : PendingNamedImport) : session.verdict state task = session.verdict state' task := by
  refine verdict_eq_of_perm (exportedNamespaces_perm session h _ _) fun target ↦ ?_
  rw [verdictOf, verdictOf, importNameConflicts_eq h, hasReexport_eq h]

theorem verdict_eq_none :
    session.verdict state task = none ↔
      session.exportedNamespaces state task.targetModule task.spelling = [] := by
  unfold verdict
  split <;> simp_all

theorem verdict_eq_found :
    session.verdict state task = some (.found target exports) ↔
      session.exportedNamespaces state task.targetModule task.spelling = [target] ∧
        session.importNameConflicts state task.module task.localName = false ∧
        exports = !state.hasReexport task.module task.localName := by
  unfold verdict verdictOf
  split
  · simp_all
  · rename_i single hsingle
    rw [hsingle]
    cases session.importNameConflicts state task.module task.localName with
    | true => simp
    | false =>
      simp only [Bool.false_eq_true, if_false, Option.some.injEq, Verdict.found.injEq,
        List.cons.injEq, and_true, true_and]
      exact and_congr_right fun _ ↦ eq_comm
  · rename_i hmany
    refine ⟨fun h ↦ (by cases h), fun h ↦ ?_⟩
    exact absurd h.1 (hmany target)

/-- Only what is exported again makes other imports ready. -/
theorem changes_quiet {task : PendingNamedImport} {verdict : Verdict}
    (h : task.progress verdict = false) : (task.changes verdict).reexports = [] := by
  cases verdict with
  | ambiguous => rfl
  | conflict => rfl
  | found target exports =>
    have hpublic : task.isPublic = false := h
    simp [PendingNamedImport.changes, hpublic]

theorem attempt_eq_some :
    session.attemptNamedImport state task = some effect ↔
      ∃ verdict, session.verdict state task = some verdict ∧
        effect = ⟨task.progress verdict, state.append (task.changes verdict)⟩ := by
  rw [attemptNamedImport_eq, Option.map_eq_some_iff]
  exact ⟨fun ⟨verdict, h, heq⟩ ↦ ⟨verdict, h, heq.symm⟩, fun ⟨verdict, h, heq⟩ ↦
    ⟨verdict, h, heq.symm⟩⟩

theorem attempt_eq_none :
    session.attemptNamedImport state task = none ↔
      session.exportedNamespaces state task.targetModule task.spelling = [] := by
  rw [attemptNamedImport_eq, Option.map_eq_none_iff, verdict_eq_none]

theorem importLaws : Worklist.Laws session.attemptNamedImport ImportState.Same where
  equivalence := ⟨ImportState.Same.refl, ImportState.Same.symm, ImportState.Same.trans⟩
  respects := by
    intro state state' task effect hsame h
    obtain ⟨verdict, hverdict, rfl⟩ := attempt_eq_some.1 h
    rw [verdict_eq_of_same hsame] at hverdict
    exact ⟨_, attempt_eq_some.2 ⟨verdict, hverdict, rfl⟩, hsame.append (.refl _)⟩
  persistent := by
    intro state task other effect h hother
    obtain ⟨verdict, -, rfl⟩ := attempt_eq_some.1 h
    rw [← Option.ne_none_iff_isSome, ne_eq, attempt_eq_none] at hother ⊢
    intro hnil
    have hperm := exportedNamespaces_append session state (task.changes verdict)
      other.targetModule other.spelling
    rw [hnil] at hperm
    exact hother (append_eq_nil_iff.1 hperm.nil_eq.symm).1
  quiet := by
    intro state task other effect h hquiet hother
    obtain ⟨verdict, -, rfl⟩ := attempt_eq_some.1 h
    rw [attempt_eq_none] at hother ⊢
    have hperm := exportedNamespaces_append session state (task.changes verdict)
      other.targetModule other.spelling
    rw [changes_quiet hquiet, hother] at hperm
    exact hperm.eq_nil

end Session

namespace ImportState

/-- Nothing is recorded for the module. -/
structure Untouched (state : ImportState) (module : ModuleId) : Prop where
  namedImports : ∀ binding ∈ state.namedImports, binding.module ≠ module
  moduleImports : ∀ binding ∈ state.moduleImports, binding.module ≠ module
  reexports : ∀ reexport ∈ state.reexports, reexport.module ≠ module

theorem untouched_empty (module : ModuleId) : Untouched empty module :=
  ⟨by simp [empty], by simp [empty], by simp [empty]⟩

theorem Untouched.append {state more : ImportState} {module : ModuleId}
    (h : state.Untouched module) (h' : more.Untouched module) :
    (state.append more).Untouched module :=
  ⟨forall_mem_append.2 ⟨h.namedImports, h'.namedImports⟩,
    forall_mem_append.2 ⟨h.moduleImports, h'.moduleImports⟩,
    forall_mem_append.2 ⟨h.reexports, h'.reexports⟩⟩

variable {state : ImportState} (more : ImportState) {module : ModuleId}

theorem Untouched.hasReexport (h : state.Untouched module) (name : String) :
    state.hasReexport module name = false := by
  rw [ImportState.hasReexport, any_eq_false]
  intro reexport hmem
  simp [h.reexports reexport hmem]

theorem emit_append (code : String) (primary : Span) (message : String) :
    (state.append more).emit code primary message =
      state.append (more.emit code primary message) := by
  simp [emit, append]

theorem pushUse_append (use : ResolvedUse) :
    (state.append more).pushUse use = state.append (more.pushUse use) := by
  simp [pushUse, append]

theorem addImportEdge_append (source target : ModuleId) :
    (state.append more).addImportEdge source target =
      state.append (more.addImportEdge source target) := by
  simp [addImportEdge, append]

theorem recordModulePathUse_append (path : QualifiedName) (package : PackageId)
    (target : ModuleId) :
    (state.append more).recordModulePathUse path package target =
      state.append (more.recordModulePathUse path package target) := by
  unfold recordModulePathUse
  split
  · rfl
  · exact pushUse_append more _

theorem addReexport_append (h : state.Untouched module) (name : String) (target : NamespaceTarget)
    (source : Span) :
    (state.append more).addReexport module name target source =
      state.append (more.addReexport module name target source) := by
  unfold addReexport
  rw [Session.hasReexport_append, h.hasReexport, Bool.false_or]
  split
  · exact emit_append more _ _ _
  · simp [append]

end ImportState

namespace Session

variable {session : Session} {state : ImportState} {module : ModuleId}

theorem importNameConflicts_append_of_untouched (h : state.Untouched module) (more : ImportState)
    (name : String) :
    session.importNameConflicts (state.append more) module name =
      session.importNameConflicts more module name := by
  have hnamed : (state.namedImports.any fun binding ↦
      binding.module == module && binding.localName == name) = false := by
    rw [any_eq_false]
    intro binding hmem
    simp [h.namedImports binding hmem]
  have hmodules : (state.moduleImports.any fun binding ↦
      binding.module == module && binding.localPath == [name]) = false := by
    rw [any_eq_false]
    intro binding hmem
    simp [h.moduleImports binding hmem]
  simp only [importNameConflicts, ImportState.append, any_append, hnamed, hmodules, Bool.false_or]

theorem resolveModuleImport_append (h : state.Untouched module) (more : ImportState)
    (package : PackageId) (declaration : ImportDeclaration) (path : QualifiedName)
    (aliasName : Option Identifier) :
    session.resolveModuleImport module package declaration path aliasName (state.append more) =
      (session.resolveModuleImport module package declaration path aliasName more).map
        state.append := by
  unfold resolveModuleImport
  cases session.importModuleTarget package path with
  | error error => rfl
  | ok found =>
    cases found with
    | none => exact congrArg Except.ok (ImportState.emit_append more _ _ _)
    | some found =>
      simp only [ok_bind, ImportState.addImportEdge_append,
        ImportState.recordModulePathUse_append, importNameConflicts_append_of_untouched h]
      cases (aliasName.elim (path.segments.map Identifier.spelling) fun aliasName ↦
        [aliasName.spelling]).head? with
      | none => rfl
      | some localName =>
        simp only [orFail, ok_bind]
        have hbind (seen : ImportState) (binding : ModuleImport) :
            { state.append seen with
              moduleImports := (state.append seen).moduleImports ++ [binding] } =
            state.append { seen with moduleImports := seen.moduleImports ++ [binding] } := by
          simp [ImportState.append]
        split
        · exact congrArg Except.ok (ImportState.emit_append _ _ _ _)
        · rw [hbind]
          split
          · exact congrArg Except.ok (ImportState.addReexport_append _ h _ _ _)
          · rfl

theorem collectImport_append (h : state.Untouched module) (pending : List PendingNamedImport)
    (package : PackageId) (collected : ImportState × List PendingNamedImport)
    (declaration : ImportDeclaration) :
    session.collectImport module package (state.append collected.1, pending ++ collected.2)
        declaration =
      (session.collectImport module package collected declaration).map fun result ↦
        (state.append result.1, pending ++ result.2) := by
  unfold collectImport
  cases declaration.items with
  | module path aliasName =>
    dsimp only
    rw [resolveModuleImport_append h]
    cases session.resolveModuleImport module package declaration path aliasName collected.1 <;> rfl
  | names path names =>
    dsimp only
    cases session.importModuleTarget package path with
    | error error => rfl
    | ok found =>
      cases found with
      | none =>
        simp only [ok_bind, ImportState.emit_append]
        rfl
      | some found =>
        simp only [ok_bind, ImportState.addImportEdge_append,
          ImportState.recordModulePathUse_append, append_assoc]
        rfl

theorem foldlM_collectImport_append (session : Session) (h : state.Untouched module)
    (pending : List PendingNamedImport) (package : PackageId)
    (collected : ImportState × List PendingNamedImport) (declarations : List ImportDeclaration) :
    declarations.foldlM (session.collectImport module package)
        (state.append collected.1, pending ++ collected.2) =
      (declarations.foldlM (session.collectImport module package) collected).map fun result ↦
        (state.append result.1, pending ++ result.2) := by
  induction declarations generalizing collected with
  | nil => rfl
  | cons declaration declarations ih =>
    rw [foldlM_cons, foldlM_cons, collectImport_append h]
    cases session.collectImport module package collected declaration with
    | error error => rfl
    | ok result => exact ih result

theorem collectModule_append (h : state.Untouched module) (pending : List PendingNamedImport) :
    session.collectModule (state, pending) module =
      (session.collectModule (.empty, []) module).map fun result ↦
        (state.append result.1, pending ++ result.2) := by
  unfold collectModule
  split
  · simp [Except.map]
  · have hfold := foldlM_collectImport_append session h pending
    simpa using hfold _ (.empty, []) _

/-- The diagnostics of imports of modules. -/
def moduleCodes : List String :=
  ["hir-unknown-import-module", "hir-import-name-conflict", "hir-reexport-name-conflict"]

/-- What the imports of one module record: entries of that module and diagnostics of these codes. -/
structure Extends (module : ModuleId) (before after : ImportState) : Prop where
  untouched : ∀ other, other ≠ module → before.Untouched other → after.Untouched other
  codes : ∀ diagnostic ∈ after.diagnostics,
    diagnostic ∈ before.diagnostics ∨ diagnostic.code ∈ moduleCodes

section Extends

variable {before middle after : ImportState}

theorem Extends.refl (before : ImportState) : Extends module before before :=
  ⟨fun _ _ h ↦ h, fun _ h ↦ .inl h⟩

theorem Extends.trans (h : Extends module before middle) (h' : Extends module middle after) :
    Extends module before after := by
  refine ⟨fun other hne hold ↦ h'.untouched other hne (h.untouched other hne hold),
    fun diagnostic hmem ↦ ?_⟩
  rcases h'.codes diagnostic hmem with hold | hcode
  · exact h.codes diagnostic hold
  · exact .inr hcode

theorem extends_emit (hcode : code ∈ moduleCodes) (primary : Span) (message : String) :
    Extends module before (before.emit code primary message) := by
  refine ⟨fun other _ hold ↦ ⟨hold.1, hold.2, hold.3⟩, fun diagnostic hmem ↦ ?_⟩
  rcases mem_append.1 hmem with hold | hnew
  · exact .inl hold
  · cases mem_singleton.1 hnew
    exact .inr hcode

theorem extends_edge (module : ModuleId) (before : ImportState) (target : ModuleId)
    (path : QualifiedName) (package : PackageId) :
    Extends module before
      ((before.addImportEdge module target).recordModulePathUse path package target) := by
  unfold ImportState.recordModulePathUse
  split <;> exact ⟨fun other _ hold ↦ ⟨hold.1, hold.2, hold.3⟩, fun _ h ↦ .inl h⟩

theorem extends_moduleImport (path : List String) (package : PackageId) (target : ModuleId)
    (source : Span) :
    Extends module before { before with
      moduleImports := before.moduleImports ++ [⟨module, path, package, target, source⟩] } := by
  refine ⟨fun other hne hold ↦ ⟨hold.1, ?_, hold.3⟩, fun _ h ↦ .inl h⟩
  exact forall_mem_append.2 ⟨hold.2, by simpa using hne.symm⟩

theorem extends_reexport (name : String) (target : NamespaceTarget) (source : Span) :
    Extends module before (before.addReexport module name target source) := by
  unfold ImportState.addReexport
  split
  · exact extends_emit (by decide) _ _
  · refine ⟨fun other hne hold ↦ ⟨hold.1, hold.2, ?_⟩, fun _ h ↦ .inl h⟩
    exact forall_mem_append.2 ⟨hold.3, by simpa using hne.symm⟩

end Extends

variable {package : PackageId} {order : List ModuleId}

theorem exists_importModuleTarget
    (h : (session.packages.package package).isSome = true) (path : QualifiedName) :
    ∃ found, session.importModuleTarget package path = .ok found ∧
      (path.segments = [] → found = none) := by
  obtain ⟨record, hrecord⟩ := Option.isSome_iff_exists.1 h
  unfold importModuleTarget
  cases path.segments with
  | nil => exact ⟨none, rfl, fun _ ↦ rfl⟩
  | cons first rest =>
    simp only [hrecord, orFail, ok_bind]
    split <;> exact ⟨_, rfl, fun hnil ↦ by cases hnil⟩

theorem exists_resolveModuleImport (module : ModuleId)
    (h : (session.packages.package package).isSome = true) (declaration : ImportDeclaration)
    (path : QualifiedName) (aliasName : Option Identifier) (before : ImportState) :
    ∃ after, session.resolveModuleImport module package declaration path aliasName before =
        .ok after ∧ Extends module before after := by
  obtain ⟨found, hfound, hnone⟩ := exists_importModuleTarget h path
  unfold resolveModuleImport
  rw [hfound, ok_bind]
  cases found with
  | none => exact ⟨_, rfl, extends_emit (by decide) _ _⟩
  | some found =>
    have hsegments : path.segments ≠ [] := fun hnil ↦ by cases hnone hnil
    obtain ⟨localName, hlocal⟩ : ∃ localName, (aliasName.elim
        (path.segments.map Identifier.spelling) fun aliasName ↦ [aliasName.spelling]).head? =
          some localName := by
      cases aliasName with
      | some aliasName => exact ⟨_, rfl⟩
      | none =>
        obtain ⟨first, rest, hlist⟩ := exists_cons_of_ne_nil hsegments
        exact ⟨first.spelling, by simp [hlist]⟩
    simp only [hlocal, orFail, ok_bind]
    have hedge := extends_edge module before found.2 path found.1
    split
    · exact ⟨_, rfl, hedge.trans (extends_emit (by decide) _ _)⟩
    · split
      · exact ⟨_, rfl, (hedge.trans (extends_moduleImport _ _ _ _)).trans (extends_reexport _ _ _)⟩
      · exact ⟨_, rfl, hedge.trans (extends_moduleImport _ _ _ _)⟩

theorem exists_collectImport (module : ModuleId)
    (h : (session.packages.package package).isSome = true)
    (before : ImportState × List PendingNamedImport) (declaration : ImportDeclaration) :
    ∃ after tasks, session.collectImport module package before declaration =
        .ok (after, before.2 ++ tasks) ∧ Extends module before.1 after ∧
      (tasks.map PendingNamedImport.imported).Sublist declaration.importedNames := by
  unfold collectImport ImportDeclaration.importedNames
  cases declaration.items with
  | module path aliasName =>
    obtain ⟨after, hafter, hextends⟩ :=
      exists_resolveModuleImport module h declaration path aliasName before.1
    refine ⟨after, [], ?_, hextends, by simp⟩
    dsimp only
    rw [hafter, append_nil]
    rfl
  | names path names =>
    obtain ⟨found, hfound, -⟩ := exists_importModuleTarget h path
    dsimp only
    rw [hfound, ok_bind]
    cases found with
    | none => exact ⟨_, [], by rw [append_nil]; rfl, extends_emit (by decide) _ _, by simp⟩
    | some found => exact ⟨_, _, rfl, extends_edge _ _ _ _ _, by simp [Function.comp_def]⟩

theorem exists_foldlM_collectImport (h : (session.packages.package package).isSome = true)
    (before : ImportState × List PendingNamedImport) (declarations : List ImportDeclaration) :
    ∃ after tasks, declarations.foldlM (session.collectImport module package) before =
        .ok (after, before.2 ++ tasks) ∧ Extends module before.1 after ∧
      (tasks.map PendingNamedImport.imported).Sublist
        (declarations.flatMap ImportDeclaration.importedNames) := by
  induction declarations generalizing before with
  | nil => exact ⟨before.1, [], by simp [pure, Except.pure], .refl _, by simp⟩
  | cons declaration declarations ih =>
    obtain ⟨middle, tasks, hmiddle, hextends, hsublist⟩ :=
      exists_collectImport module h before declaration
    obtain ⟨after, tasks', hafter, hextends', hsublist'⟩ := ih (middle, before.2 ++ tasks)
    refine ⟨after, tasks ++ tasks', ?_, hextends.trans hextends', ?_⟩
    · rw [foldlM_cons, hmiddle, ok_bind, hafter, append_assoc]
    · rw [map_append, flatMap_cons]
      exact hsublist.append hsublist'

/-- The names that one module imports. -/
def namesOf (session : Session) (module : ModuleId) : List ImportedName :=
  (session.packages.modules[module.val]?).elim [] fun record ↦
    (session.importsOf record.source).flatMap ImportDeclaration.importedNames

theorem exists_collectModule (graph : ImportGraph) (module : ModuleId) :
    ∃ after tasks, graph.session.collectModule (.empty, []) module = .ok (after, tasks) ∧
      Extends module .empty after ∧
      (tasks.map PendingNamedImport.imported).Sublist (graph.session.namesOf module) := by
  unfold collectModule namesOf
  cases hrecord : graph.session.packages.modules[module.val]? with
  | none => exact ⟨_, [], rfl, .refl _, by simp⟩
  | some record =>
    have hpackage := graph.packages_present record (mem_of_getElem? hrecord)
    exact exists_foldlM_collectImport hpackage (.empty, []) _

/-- What one module adds, wherever it stands. -/
def moduleAdds (session : Session) (module : ModuleId) : ImportState × List PendingNamedImport :=
  (session.collectModule (.empty, []) module).toOption.getD (.empty, [])

theorem collectModule_eq (graph : ImportGraph) (h : state.Untouched module)
    (pending : List PendingNamedImport) :
    graph.session.collectModule (state, pending) module =
      .ok (state.append (graph.session.moduleAdds module).1,
        pending ++ (graph.session.moduleAdds module).2) := by
  obtain ⟨after, tasks, hafter, -⟩ := exists_collectModule graph module
  rw [collectModule_append h, moduleAdds, hafter]
  rfl

theorem moduleAdds_spec (graph : ImportGraph) (module : ModuleId) :
    Extends module .empty (graph.session.moduleAdds module).1 ∧
      ((graph.session.moduleAdds module).2.map PendingNamedImport.imported).Sublist
        (graph.session.namesOf module) := by
  obtain ⟨after, tasks, hafter, hspec⟩ := exists_collectModule graph module
  rw [moduleAdds, hafter]
  exact hspec

/-- The collection is the sum of what the modules add. -/
theorem foldlM_collectModule_eq (graph : ImportGraph)
    (hnodup : order.Nodup) {state : ImportState} (h : ∀ module ∈ order, state.Untouched module)
    (pending : List PendingNamedImport) :
    order.foldlM graph.session.collectModule (state, pending) =
      .ok (order.foldl (fun state module ↦ state.append (graph.session.moduleAdds module).1) state,
        pending ++ order.flatMap fun module ↦ (graph.session.moduleAdds module).2) := by
  induction order generalizing state pending with
  | nil => simp [pure, Except.pure]
  | cons module order ih =>
    rw [nodup_cons] at hnodup
    rw [foldlM_cons, collectModule_eq graph (h module (by simp)), ok_bind,
      ih hnodup.2 fun other hother ↦ ?_]
    · simp
    · refine (h other (by simp [hother])).append ?_
      exact (moduleAdds_spec graph module).1.untouched other
        (fun heq ↦ hnodup.1 (heq ▸ hother)) (ImportState.untouched_empty other)

theorem same_foldl (hperm : order.Perm order') (add : ModuleId → ImportState)
    (h : state.Same state') :
    (order.foldl (fun state module ↦ state.append (add module)) state).Same
      (order'.foldl (fun state module ↦ state.append (add module)) state') := by
  induction hperm generalizing state state' with
  | nil => exact h
  | cons module _ ih => exact ih (h.append (.refl _))
  | swap first second order =>
    have hrefl : ∀ {state state' : ImportState}, state.Same state' →
        (order.foldl (fun state module ↦ state.append (add module)) state).Same
          (order.foldl (fun state module ↦ state.append (add module)) state') := by
      induction order with
      | nil => exact fun h ↦ h
      | cons module order ih => exact fun h ↦ ih (h.append (.refl _))
    exact hrefl ((ImportState.same_append_append state _ _).trans
      ((h.append (.refl _)).append (.refl _)))
  | trans _ _ ih ih' => exact (ih h).trans (ih' (.refl _))

theorem nodup_moduleOrder (session : Session) : session.moduleOrder.Nodup :=
  nodup_range.map fun _ _ h ↦ (ModuleId.mk.inj h)

/-- In whatever order the modules are collected, the records and the pending imports are the
same. -/
theorem collectImports_perm (graph : ImportGraph) (hperm : order.Perm graph.session.moduleOrder) :
    ∃ state pending state' pending',
      graph.session.collectImports order = .ok (state, pending) ∧
      graph.session.collectImports graph.session.moduleOrder = .ok (state', pending') ∧
      state.Same state' ∧ pending.Perm pending' := by
  have hnodup := nodup_moduleOrder graph.session
  have huntouched (modules : List ModuleId) :
      ∀ module ∈ modules, ImportState.empty.Untouched module := fun module _ ↦
    ImportState.untouched_empty module
  refine ⟨_, _, _, _, foldlM_collectModule_eq graph (hperm.nodup_iff.2 hnodup) (huntouched _) [],
    foldlM_collectModule_eq graph hnodup (huntouched _) [], same_foldl hperm _ (.refl _), ?_⟩
  exact (hperm.flatMap_right _).append_left []

theorem flatMap_range_getElem? {α β : Type} (l : List α) (f : α → List β) :
    ((List.range l.length).flatMap fun index ↦ (l[index]?).elim [] f) = l.flatMap f := by
  induction l with
  | nil => rfl
  | cons a l ih =>
    rw [length_cons, range_succ_eq_map, flatMap_cons, flatMap_map, flatMap_cons, ← ih]
    rfl

/-- The pending imports are names of the sources, each taken once, and the diagnostics so far are
about modules. -/
theorem collectImports_spec (graph : ImportGraph)
    (h : graph.session.collectImports graph.session.moduleOrder = .ok (state, pending)) :
    (∀ diagnostic ∈ state.diagnostics, diagnostic.code ∈ moduleCodes) ∧
      (pending.map PendingNamedImport.imported).Sublist graph.session.importedNames := by
  have hcollect := foldlM_collectModule_eq graph (nodup_moduleOrder graph.session)
    (fun module _ ↦ ImportState.untouched_empty module) []
  rw [collectImports, hcollect] at h
  cases h
  constructor
  · have hfold (order : List ModuleId) (state : ImportState)
        (hstate : ∀ diagnostic ∈ state.diagnostics, diagnostic.code ∈ moduleCodes) :
        ∀ diagnostic ∈ (order.foldl (fun state module ↦
          state.append (graph.session.moduleAdds module).1) state).diagnostics,
          diagnostic.code ∈ moduleCodes := by
      induction order generalizing state with
      | nil => exact hstate
      | cons module order ih =>
        refine ih _ (forall_mem_append.2 ⟨hstate, fun diagnostic hmem ↦ ?_⟩)
        have hcodes := (moduleAdds_spec graph module).1.codes diagnostic hmem
        simpa [ImportState.empty] using hcodes
    exact hfold _ _ (by simp [ImportState.empty])
  · have hnames : graph.session.importedNames =
        graph.session.moduleOrder.flatMap graph.session.namesOf := by
      rw [moduleOrder, flatMap_map]
      exact (flatMap_range_getElem? _ _).symm
    rw [hnames, nil_append]
    induction graph.session.moduleOrder with
    | nil => simp
    | cons module order ih =>
      rw [flatMap_cons, map_append, flatMap_cons]
      exact (moduleAdds_spec graph module).2.append ih

end Session

end Wrela.HirLower
