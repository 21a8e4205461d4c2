import Wrela.HirLower.ImportChains

/-!
# The order of imports

The order in which imports are tried matters in two cases.  Two imports of one module may both be
able to take one name, and the first one tried has it.  And a name that its module exports as a
variant of an enumeration may be exported again by a public import; whoever imports it before that
gets the variant, and whoever comes later finds the name ambiguous.  In every other case all orders
lead to the same records.
-/

namespace Wrela.HirLower

open List Wrela.Source Wrela.Package Wrela.Checked

/-- Two imports of a module can both take one name that is free at first. -/
def Rivals (session : Session) (pending : List PendingNamedImport) (base : ImportState) : Prop :=
  ∃ first ∈ pending, ∃ second ∈ pending, first ≠ second ∧ first.module = second.module ∧
    first.localName = second.localName ∧
    session.importNameConflicts base first.module first.localName = false ∧
    ∀ task, task = first ∨ task = second → ∃ target, Leads session pending base
      (fun other ↦ other.module = first.module ∧ other.localName = first.localName)
      task.targetModule task.spelling target

/-- A public import can export a name that is exported as one symbol at first, and another import
reads that name. -/
def LateExport (session : Session) (pending : List PendingNamedImport) (base : ImportState) :
    Prop :=
  ∃ reader ∈ pending, ∃ writer ∈ pending, reader ≠ writer ∧ reader.targetModule = writer.module ∧
    reader.spelling = writer.localName ∧ writer.isPublic = true ∧
    session.importNameConflicts base writer.module writer.localName = false ∧
    base.hasReexport writer.module writer.localName = false ∧
    (session.exportedNamespaces base writer.module writer.localName).length = 1 ∧
    ∃ target, Leads session pending base (· = reader) writer.targetModule writer.spelling target

section Pending

variable {session : Session} {pending : List PendingNamedImport} {base : ImportState}

variable {state : ImportState} {history : List (PendingNamedImport × Verdict)}

theorem verdict_eq_ambiguous :
    session.verdict state task = some .ambiguous ↔
      2 ≤ (session.exportedNamespaces state task.targetModule task.spelling).length := by
  unfold Session.verdict Session.verdictOf
  split
  · simp_all
  · rename_i single hsingle
    rw [hsingle]
    cases session.importNameConflicts state task.module task.localName <;> simp
  · rename_i hnil hsingle
    match hlist : session.exportedNamespaces state task.targetModule task.spelling with
    | [] => exact absurd hlist hnil
    | [target] => exact absurd hlist (hsingle target)
    | _ :: _ :: _ => simp

theorem verdict_eq_of_single
    (h : session.exportedNamespaces state task.targetModule task.spelling = [target]) :
    session.verdict state task = some (session.verdictOf state task target) := by
  rw [Session.verdict, h]

/-- While there are neither rivals nor late exports, doing one import leaves the verdict of another
as it is. -/
theorem History.verdict_stable (h : History session pending base history state)
    (hrivals : ¬ Rivals session pending base) (hlate : ¬ LateExport session pending base)
    (hne : first ≠ second) (hfirst : first ∈ pending) (hsecond : second ∈ pending)
    (hfresh : first ∉ history.map Prod.fst) (hready : session.verdict state first = some verdict)
    (hready' : session.verdict state second = some verdict') :
    session.verdict (state.append (second.changes verdict')) first = some verdict := by
  have hperm := Session.exportedNamespaces_append session state
    (second.changes verdict') first.targetModule first.spelling
  by_cases hambiguous : verdict = .ambiguous
  · subst hambiguous
    rw [verdict_eq_ambiguous] at hready ⊢
    rw [hperm.length_eq, length_append]
    omega
  obtain ⟨target, hsingle⟩ : ∃ target,
      session.exportedNamespaces state first.targetModule first.spelling = [target] := by
    have hsome : session.exportedNamespaces state first.targetModule first.spelling ≠ [] := by
      intro hnil
      rw [Session.verdict_eq_none.2 hnil] at hready
      cases hready
    have hshort : ¬ 2 ≤
        (session.exportedNamespaces state first.targetModule first.spelling).length := by
      intro hlong
      rw [verdict_eq_ambiguous.2 hlong] at hready
      exact hambiguous (Option.some.inj hready).symm
    have hpositive := length_pos_of_ne_nil hsome
    exact length_eq_one_iff.1 (by omega)
  have hnotFound : ¬ Found history first := by
    rintro ⟨_, _, hmem⟩
    exact hfresh (mem_map.2 ⟨_, hmem, rfl⟩)
  rcases filter_reexports_changes second verdict' first.targetModule first.spelling with
    hnone | ⟨target', rfl, hpublic, hmodule, hname, -⟩
  · by_cases hkey : (∃ target exports, verdict' = .found target exports) ∧
        second.module = first.module ∧ second.localName = first.localName
    · -- both could take the name
      obtain ⟨⟨target', exports, rfl⟩, hmodule, hname⟩ := hkey
      obtain ⟨hsingle', hfree, -⟩ := Session.verdict_eq_found.1 hready'
      rw [Bool.eq_false_iff, ne_eq, h.importNameConflicts, not_or] at hfree
      refine absurd ⟨first, hfirst, second, hsecond, hne, hmodule.symm, hname.symm, ?_, ?_⟩ hrivals
      · rw [← hmodule, ← hname]
        exact Bool.eq_false_iff.2 hfree.1
      · have havoid (other : PendingNamedImport)
            (hother : other.module = first.module ∧ other.localName = first.localName) :
            ¬ Found history other := fun hfound ↦
          hfree.2 ⟨other, hfound, hother.1.trans hmodule.symm, hother.2.trans hname.symm⟩
        rintro task (rfl | rfl)
        · exact ⟨target, (h.leads.2 _ _ _ hsingle).mono havoid⟩
        · exact ⟨target', (h.leads.2 _ _ _ hsingle').mono havoid⟩
    · rw [← hready]
      rw [hnone, append_nil] at hperm
      refine Session.verdict_eq_of_perm hperm fun target' ↦ ?_
      have hconflicts : session.importNameConflicts (state.append (second.changes verdict'))
          first.module first.localName =
            session.importNameConflicts state first.module first.localName := by
        rw [Bool.eq_iff_iff, importNameConflicts_changes]
        exact or_iff_left hkey
      have hexports : (state.append (second.changes verdict')).hasReexport first.module
          first.localName = state.hasReexport first.module first.localName := by
        rcases filter_reexports_changes second verdict' first.module first.localName with
          hnone' | ⟨target, rfl, -, hmodule, hname, -⟩
        · rw [map_eq_nil_iff, filter_eq_nil_iff] at hnone'
          have hchanges : (second.changes verdict').hasReexport first.module first.localName =
              false := any_eq_false.2 hnone'
          rw [Session.hasReexport_append, hchanges, Bool.or_false]
        · exact absurd ⟨⟨_, _, rfl⟩, hmodule, hname⟩ hkey
      rw [Session.verdictOf, Session.verdictOf, hconflicts, hexports]
  · -- the other import exports the name that this one reads
    obtain ⟨hsingle', hfree, hexports⟩ := Session.verdict_eq_found.1 hready'
    rw [Bool.eq_false_iff, ne_eq, h.importNameConflicts, not_or] at hfree
    have hunchanged := h.hasReexport_eq_of_free fun other hfound hkey ↦
      hfree.2 ⟨other, hfound, hkey⟩
    have hbase := h.exportedNamespaces first.targetModule first.spelling
    rcases h.reexported_eq first.targetModule first.spelling with
      hnil | ⟨other, target, hmem, -, hmodule', hname', -⟩
    · rw [hnil, append_nil, hsingle] at hbase
      refine absurd ⟨first, hfirst, second, hsecond, hne, hmodule.symm, hname.symm, hpublic,
        Bool.eq_false_iff.2 hfree.1, ?_, ?_, target', ?_⟩ hlate
      · rw [← hunchanged]
        simpa using hexports
      · rw [hmodule, hname, ← hbase.length_eq]
        rfl
      · exact (h.leads.2 _ _ _ hsingle').mono fun task heq ↦ heq ▸ hnotFound
    · exact absurd ⟨other, ⟨_, _, hmem⟩, hmodule'.trans hmodule.symm,
        hname'.trans hname.symm⟩ hfree.2

/-- Without rivals and late exports, any two imports can be done in either order. -/
theorem commuting_of_ordered (hrivals : ¬ Rivals session pending base)
    (hlate : ¬ LateExport session pending base) :
    Worklist.Commuting session.attemptNamedImport ImportState.Same pending base := by
  intro done state first second effect effect' later later' hrun hnodup hsubset hfirst hsecond
    hlater hlater'
  obtain ⟨history, hhistory, h⟩ := exists_history (fun _ hin ↦ hsubset (by simp [hin])) hrun
  obtain ⟨verdict, hready, rfl⟩ := Session.attempt_eq_some.1 hfirst
  obtain ⟨verdict', hready', rfl⟩ := Session.attempt_eq_some.1 hsecond
  have hin : first ∈ pending := hsubset (by simp)
  have hin' : second ∈ pending := hsubset (by simp)
  have hne : first ≠ second := by
    rintro rfl
    simp [nodup_append] at hnodup
  have hfresh : first ∉ history.map Prod.fst := by
    rw [hhistory]
    grind [nodup_append]
  have hfresh' : second ∉ history.map Prod.fst := by
    rw [hhistory]
    grind [nodup_append]
  have hstable := h.verdict_stable hrivals hlate hne hin hin' hfresh hready hready'
  have hstable' := h.verdict_stable hrivals hlate hne.symm hin' hin hfresh' hready' hready
  rw [Session.attemptNamedImport_eq, hstable'] at hlater
  rw [Session.attemptNamedImport_eq, hstable] at hlater'
  cases hlater
  cases hlater'
  exact ImportState.same_append_append _ _ _

def unknownDiagnostic (task : PendingNamedImport) : Diagnostic :=
  ⟨"hir-unknown-import-name", task.imported.name.source,
    "the imported module has no public declaration, variant, or module with this name"⟩

def ambiguousDiagnostic (task : PendingNamedImport) : Diagnostic :=
  ⟨"hir-ambiguous-import-name", task.imported.name.source,
    "this imported name is ambiguous in its source module"⟩

/-- What is recorded for the imports that stay unresolved. -/
def unresolved (left : List PendingNamedImport) : ImportState :=
  { ImportState.empty with
    uses := left.map fun task ↦ ⟨task.imported.name.source, task.imported.name.spelling, none⟩
    diagnostics := left.map unknownDiagnostic }

theorem foldl_reportUnknown (left : List PendingNamedImport) (state : ImportState) :
    left.foldl Session.reportUnknown state = state.append (unresolved left) := by
  induction left generalizing state with
  | nil => exact (ImportState.append_empty state).symm
  | cons task left ih =>
    rw [foldl_cons, ih]
    simp [ImportState.append, unresolved, Session.reportUnknown, ImportState.recordErrorUse,
      ImportState.pushUse, ImportState.emit, ImportState.empty, unknownDiagnostic]

/-- The rounds end. -/
theorem Session.isSome_importRounds (session : Session) (pending : List PendingNamedImport)
    (state : ImportState) : (session.importRounds pending state).isSome :=
  Worklist.isSome_rounds (Nat.lt_succ_self _)

/-- The import starts with a history: some order of the pending imports goes on with it. -/
theorem History.exists_resolution
    (h : History session pending base history state) (hnodup : (history.map Prod.fst).Nodup)
    (hmem : ∀ entry ∈ history, entry.1 ∈ pending) :
    ∃ arranged more left final, arranged.Perm pending ∧
      History session pending base (history ++ more) final ∧
      ((history ++ more).map Prod.fst ++ left).Perm pending ∧
      (∀ task ∈ left, session.attemptNamedImport final task = none) ∧
      session.resolvePendingNamedImports arranged base = final.append (unresolved left) := by
  have hsubset : history.map Prod.fst ⊆ pending := by
    intro task htask
    obtain ⟨entry, hentry, rfl⟩ := mem_map.1 htask
    exact hmem entry hentry
  obtain ⟨front, hfront, hsublist⟩ := subperm_of_subset hnodup hsubset
  obtain ⟨rest, hperm⟩ := hsublist.exists_perm_append
  have hrest : pending.Perm (history.map Prod.fst ++ rest) := hperm.trans (hfront.append_right rest)
  obtain ⟨⟨left, final⟩, hrounds⟩ := Option.isSome_iff_exists.1
    (session.isSome_importRounds (history.map Prod.fst ++ rest) base)
  obtain ⟨done, hrun, hperm, hfinal⟩ := Session.importLaws.rounds_of_run h.run hrounds
  obtain ⟨more, rfl, hwhole⟩ := h.extend (fun task hin ↦ hrest.symm.subset
    (mem_append_right _ (hperm.subset (mem_append_left _ hin)))) hrun
  refine ⟨_, more, left, final, hrest.symm, hwhole, ?_, hfinal, ?_⟩
  · rw [map_append, append_assoc]
    exact (hperm.append_left _).trans hrest.symm
  · have hvalue : (session.importRounds (history.map Prod.fst ++ rest) base).get
        (Worklist.isSome_rounds (Nat.lt_succ_self _)) = (left, final) :=
      Option.get_of_eq_some _ hrounds
    rw [Session.resolvePendingNamedImports, hvalue]
    exact foldl_reportUnknown left final

/-- What a resolution over one order of the pending imports leaves. -/
theorem exists_resolution (session : Session) (hperm : arranged.Perm pending) (state : ImportState)
    :
    ∃ done left final, Worklist.run session.attemptNamedImport done state = some final ∧
      (done ++ left).Perm pending ∧
      (∀ task ∈ left, session.attemptNamedImport final task = none) ∧
      session.resolvePendingNamedImports arranged state = final.append (unresolved left) := by
  obtain ⟨⟨left, final⟩, hrounds⟩ := Option.isSome_iff_exists.1
    (session.isSome_importRounds arranged state)
  obtain ⟨done, hrun, hdone, hfinal⟩ := Session.importLaws.rounds_run hrounds
  refine ⟨done, left, final, hrun, hdone.trans hperm, hfinal, ?_⟩
  have hvalue : (session.importRounds arranged state).get
      (Worklist.isSome_rounds (Nat.lt_succ_self _)) = (left, final) :=
    Option.get_of_eq_some _ hrounds
  rw [Session.resolvePendingNamedImports, hvalue]
  exact foldl_reportUnknown left final

theorem same_unresolved (h : left.Perm left') :
    (unresolved left).Same (unresolved left') :=
  ⟨.rfl, .rfl, .rfl, rfl, h.map _, h.map _⟩

/-- Without rivals and late exports, all orders of the pending imports leave the same records. -/
theorem same_resolution (hnodup : pending.Nodup) (hrivals : ¬ Rivals session pending base)
    (hlate : ¬ LateExport session pending base)
    (hrun : Worklist.run session.attemptNamedImport done base = some final)
    (hrun' : Worklist.run session.attemptNamedImport done' base = some final')
    (hperm : (done ++ left).Perm pending) (hperm' : (done' ++ left').Perm pending)
    (hfinal : ∀ task ∈ left, session.attemptNamedImport final task = none)
    (hfinal' : ∀ task ∈ left', session.attemptNamedImport final' task = none) :
    left.Perm left' ∧ final.Same final' := by
  have hleft {done left : List PendingNamedImport} {final : ImportState}
      (hperm : (done ++ left).Perm pending)
      (hfinal : ∀ task ∈ left, session.attemptNamedImport final task = none) :
      ∀ task ∈ pending, task ∉ [] ++ done → session.attemptNamedImport final task = none := by
    intro task hmem hnot
    exact hfinal task ((mem_append.1 (hperm.symm.subset hmem)).resolve_left hnot)
  have hsubset {done left : List PendingNamedImport} (hperm : (done ++ left).Perm pending) :
      [] ++ done ⊆ pending := fun task hmem ↦ hperm.subset (mem_append_left _ hmem)
  have hdistinct {done left : List PendingNamedImport} (hperm : (done ++ left).Perm pending) :
      ([] ++ done).Nodup := (nodup_append.1 (hperm.nodup_iff.2 hnodup)).1
  obtain ⟨hsame, hends⟩ := Session.importLaws.run_unique (commuting_of_ordered hrivals hlate)
    (Worklist.run_nil base) hrun hrun' (hdistinct hperm) (hdistinct hperm') (hsubset hperm)
    (hsubset hperm') (hleft hperm hfinal) (hleft hperm' hfinal')
  refine ⟨?_, hends⟩
  exact (perm_append_left_iff done).1 (hperm.trans (hperm'.symm.trans (hsame.symm.append_right _)))

/-- A name is exported by its module, or leads on to something that is. -/
def Reaches (session : Session) (pending : List PendingNamedImport) (base : ImportState)
    (module : ModuleId) (name : String) : Prop :=
  ∃ target, target ∈ session.exportedNamespaces base module name ∨
    Leads session pending base (fun _ ↦ False) module name target

/-- What an import sees at the end is what a chain leads to. -/
theorem History.reaches (h : History session pending base history state)
    (hsome : session.exportedNamespaces state module name ≠ []) :
    Reaches session pending base module name := by
  have hperm := h.exportedNamespaces module name
  by_cases hbase : session.exportedNamespaces base module name = []
  · rw [hbase, nil_append] at hperm
    rcases h.reexported_eq module name with hnil | ⟨_, target, -, -, -, -, hone⟩
    · rw [hnil] at hperm
      exact absurd hperm.eq_nil hsome
    · rw [hone] at hperm
      exact ⟨target, .inr ((h.leads.2 _ _ _ (perm_singleton.1 hperm)).mono fun _ ↦ False.elim)⟩
  · obtain ⟨target, hmem⟩ := exists_mem_of_ne_nil _ hbase
    exact ⟨target, .inl hmem⟩

end Pending

/-- The outcomes hold the same imports, the same exports and the same diagnostics. -/
structure ImportOutcome.Agrees (outcome outcome' : ImportOutcome) : Prop where
  namedImports : ∀ binding, binding ∈ outcome.namedImports ↔ binding ∈ outcome'.namedImports
  moduleImports : ∀ binding, binding ∈ outcome.moduleImports ↔ binding ∈ outcome'.moduleImports
  reexports : ∀ reexport, reexport ∈ outcome.reexports ↔ reexport ∈ outcome'.reexports
  diagnostics : ∀ diagnostic, diagnostic ∈ outcome.diagnostics ↔ diagnostic ∈ outcome'.diagnostics

/-- The resolution that tries the pending imports in a given order. -/
def Session.resolveArranged (session : Session) (state : ImportState)
    (arranged : List PendingNamedImport) : ImportOutcome :=
  session.finishImports (session.resolvePendingNamedImports arranged state)

/-- Import resolution succeeds, the order of modules and of pending imports does not matter to it,
its rounds end, and it reports a name as unknown exactly when no chain of public imports leads from
it to something exported. -/
structure OrderFree (session : Session) : Prop where
  resolves : ∃ outcome, session.resolveImports = .ok outcome
  invariant : ∀ outcome, session.resolveImports = .ok outcome →
    ∀ order, order.Perm session.moduleOrder →
      ∃ state pending, session.collectImports order = .ok (state, pending) ∧
        ∀ arranged, arranged.Perm pending → (session.resolveArranged state arranged).Agrees outcome
  terminates : ∀ pending state, (session.importRounds pending state).isSome
  exact : ∀ outcome, session.resolveImports = .ok outcome →
    ∀ state pending, session.collectImports session.moduleOrder = .ok (state, pending) →
      ∀ task ∈ pending, unknownDiagnostic task ∈ outcome.diagnostics ↔
        ¬ Reaches session pending state task.targetModule task.spelling

theorem agrees_of_same (session : Session) (h : state.Same state') :
    (session.finishImports state).Agrees (session.finishImports state') := by
  constructor
  · intro binding
    simp only [Session.finishImports, mem_insertionSort, h.namedImports.mem_iff]
  · intro binding
    simp only [Session.finishImports, mem_insertionSort, h.moduleImports.mem_iff]
  · intro reexport
    simp only [Session.finishImports, mem_insertionSort, h.reexports.mem_iff]
  · intro diagnostic
    simp only [Session.finishImports, h.diagnostics.mem_iff]

section Graph

variable {graph : ImportGraph} {base : ImportState} {pending : List PendingNamedImport}

variable {task : PendingNamedImport} {history : List (PendingNamedImport × Verdict)}
  {final : ImportState} {outcome outcome' : ImportOutcome}

section

variable (h : graph.session.collectImports graph.session.moduleOrder = .ok (base, pending))
include h

/-- Pending imports that stand at one place are one import. -/
theorem pending_injective (htask : task ∈ pending) (hother : other ∈ pending)
    (hplace : task.imported.name.source = other.imported.name.source ∨
      task.imported.source = other.imported.source) :
    task = other := by
  have hsublist := (Session.collectImports_spec graph h).2
  have hnames : (pending.map fun task ↦ task.imported.name.source).Nodup := by
    have hmap := (hsublist.map fun imported ↦ imported.name.source).nodup graph.names_distinct
    simpa [Function.comp_def] using hmap
  have himports : (pending.map fun task ↦ task.imported.source).Nodup := by
    have hmap := (hsublist.map ImportedName.source).nodup graph.imports_distinct
    simpa [Function.comp_def] using hmap
  rcases hplace with hname | himport
  · exact inj_on_of_nodup_map hnames htask hother hname
  · exact inj_on_of_nodup_map himports htask hother himport

theorem nodup_pending : pending.Nodup := by
  have hsublist := (Session.collectImports_spec graph h).2
  exact List.Nodup.of_map _ (List.Nodup.of_map _ ((hsublist.map ImportedName.source).nodup
    graph.imports_distinct))

theorem resolveImports_eq :
    graph.session.resolveImports = .ok (graph.session.resolveArranged base pending) := by
  rw [Session.resolveImports, h]
  rfl

end

/-- The diagnostics that an import adds under a verdict. -/
theorem mem_diagnostics_changes (hmem : diagnostic ∈ (task.changes verdict).diagnostics) :
    diagnostic.code ≠ "hir-unknown-import-name" ∧
      (diagnostic.code = "hir-ambiguous-import-name" →
        verdict = .ambiguous ∧ diagnostic.primary = task.imported.name.source) := by
  cases verdict with
  | ambiguous | conflict => simp_all [PendingNamedImport.changes, ImportState.empty]
  | found target exports =>
    simp only [PendingNamedImport.changes] at hmem
    split at hmem <;> simp_all

section

variable (h : graph.session.collectImports graph.session.moduleOrder = .ok (base, pending))
include h

/-- An import is reported as unknown exactly when it is left. -/
theorem unknownDiagnostic_mem_iff (hhistory : History graph.session pending base history final)
    (hleft : left ⊆ pending) (htask : task ∈ pending) :
    unknownDiagnostic task ∈ (final.append (unresolved left)).diagnostics ↔ task ∈ left := by
  have hcodes := (Session.collectImports_spec graph h).1
  constructor
  · intro hmem
    rcases mem_append.1 hmem with hmem | hmem
    · rcases hhistory.mem_diagnostics.1 hmem with hbase | ⟨entry, -, hentry⟩
      · exact absurd (hcodes _ hbase) (by simp [unknownDiagnostic, Session.moduleCodes])
      · exact absurd rfl (mem_diagnostics_changes hentry).1
    · obtain ⟨other, hother, heq⟩ := mem_map.1 hmem
      have hplace : other.imported.name.source = task.imported.name.source :=
        congrArg Diagnostic.primary heq
      exact pending_injective h (hleft hother) htask (.inl hplace) ▸ hother
  · intro hmem
    exact mem_append_right _ (mem_map.2 ⟨task, hmem, rfl⟩)

/-- An import is reported as ambiguous exactly when that was its verdict. -/
theorem ambiguousDiagnostic_mem_iff (hhistory : History graph.session pending base history final)
    (left : List PendingNamedImport) (htask : task ∈ pending) :
    ambiguousDiagnostic task ∈ (final.append (unresolved left)).diagnostics ↔
      (task, Verdict.ambiguous) ∈ history := by
  have hcodes := (Session.collectImports_spec graph h).1
  constructor
  · intro hmem
    rcases mem_append.1 hmem with hmem | hmem
    · rcases hhistory.mem_diagnostics.1 hmem with hbase | ⟨⟨other, verdict⟩, hother, hentry⟩
      · exact absurd (hcodes _ hbase) (by simp [ambiguousDiagnostic, Session.moduleCodes])
      · obtain ⟨rfl, hplace⟩ := (mem_diagnostics_changes hentry).2 rfl
        exact pending_injective h htask (hhistory.mem_pending hother) (.inl hplace) ▸ hother
    · obtain ⟨other, hother, heq⟩ := mem_map.1 hmem
      have hcode : "hir-unknown-import-name" = "hir-ambiguous-import-name" :=
        congrArg Diagnostic.code heq
      exact absurd hcode (by decide)
  · intro hmem
    exact mem_append_left _ (hhistory.mem_diagnostics.2 (.inr ⟨_, hmem, by
      simp [PendingNamedImport.changes, ambiguousDiagnostic]⟩))

theorem orderFree_of (hrivals : ¬ Rivals graph.session pending base)
    (hlate : ¬ LateExport graph.session pending base) : OrderFree graph.session := by
  have hnodup := nodup_pending h
  obtain ⟨done, left, final, hrun, hperm, hfinal, hvalue⟩ :=
    exists_resolution graph.session (List.Perm.refl pending) base
  have hsubset : done ⊆ pending := fun task hmem ↦ hperm.subset (mem_append_left _ hmem)
  obtain ⟨history, rfl, hhistory⟩ := exists_history hsubset hrun
  refine ⟨⟨_, resolveImports_eq h⟩, ?_, graph.session.isSome_importRounds, ?_⟩
  · intro outcome houtcome order horder
    rw [resolveImports_eq h] at houtcome
    cases houtcome
    obtain ⟨state, tasks, base', pending', hcollect, hcanonical, hsame, htasks⟩ :=
      Session.collectImports_perm graph horder
    rw [h] at hcanonical
    cases hcanonical
    refine ⟨state, tasks, hcollect, fun arranged harranged ↦ ?_⟩
    obtain ⟨done', left', final', hrun', hperm', hfinal', hvalue'⟩ :=
      exists_resolution graph.session (harranged.trans htasks) state
    obtain ⟨final'', hrun'', hsame''⟩ := Session.importLaws.run_respects hsame hrun'
    obtain ⟨hleft, hends⟩ := same_resolution hnodup hrivals hlate hrun'' hrun hperm' hperm
      (fun task hmem ↦ Session.importLaws.none_respects hsame'' (hfinal' task hmem)) hfinal
    rw [Session.resolveArranged, Session.resolveArranged, hvalue, hvalue']
    exact agrees_of_same _ ((hsame''.trans hends).append (same_unresolved hleft))
  · intro outcome houtcome state tasks hcollect task htask
    rw [resolveImports_eq h] at houtcome
    cases houtcome
    rw [h] at hcollect
    cases hcollect
    have hleft : left ⊆ pending := fun task hmem ↦ hperm.subset (mem_append_right _ hmem)
    have hmem : unknownDiagnostic task ∈
        (graph.session.resolveArranged base pending).diagnostics ↔ task ∈ left := by
      rw [Session.resolveArranged, hvalue]
      exact unknownDiagnostic_mem_iff h hhistory hleft htask
    rw [hmem]
    constructor
    · rintro hin ⟨target, hreaches⟩
      have hnone := Session.attempt_eq_none.1 (hfinal task hin)
      rcases hreaches with hexported | hleads
      · have hgrow := hhistory.exportedNamespaces task.targetModule task.spelling
        rw [hnone] at hgrow
        rw [(append_eq_nil_iff.1 hgrow.nil_eq.symm).1] at hexported
        cases hexported
      · -- following the chain first would resolve the name
        obtain ⟨chain, middle, hchain, hdistinct, -, hsingle⟩ := hleads.exists_history
        obtain ⟨_, more, left', final', -, hwhole, hperm', hfinal', -⟩ :=
          hchain.exists_resolution hdistinct fun _ hentry ↦ hchain.mem_pending hentry
        have hends := (same_resolution hnodup hrivals hlate hrun hwhole.run hperm hperm' hfinal
          hfinal').2
        have hseen := Session.exportedNamespaces_perm graph.session hends
          task.targetModule task.spelling
        have hgrow := hchain.exportedNamespaces_grow hwhole task.targetModule task.spelling
        rw [hnone] at hseen
        rw [← hseen.nil_eq, hsingle] at hgrow
        cases hgrow.nil_eq
    · intro hnot
      by_contra hin
      have hdone := (mem_append.1 (hperm.symm.subset htask)).resolve_right hin
      obtain ⟨⟨_, verdict⟩, hentry, rfl⟩ := mem_map.1 hdone
      obtain ⟨front, _, middle, -, hfront, hverdict⟩ := hhistory.split hentry
      refine hnot (hfront.reaches fun hnil ↦ ?_)
      rw [Session.verdict_eq_none.2 hnil] at hverdict
      cases hverdict

end

/-- The import of the name in the module stands at this place. -/
def ImportOutcome.Binds (outcome : ImportOutcome) (task : PendingNamedImport) : Prop :=
  (∃ target, (⟨task.module, task.localName, target, task.imported.source⟩ : NamedImport) ∈
      outcome.namedImports) ∨
    ∃ package module, (⟨task.module, [task.localName], package, module, task.imported.source⟩ :
      ModuleImport) ∈ outcome.moduleImports

theorem ImportOutcome.Agrees.binds (h : outcome.Agrees outcome')
    (hbinds : outcome.Binds task) : outcome'.Binds task := by
  rcases hbinds with ⟨target, hmem⟩ | ⟨package, module, hmem⟩
  · exact .inl ⟨target, (h.namedImports _).1 hmem⟩
  · exact .inr ⟨package, module, (h.moduleImports _).1 hmem⟩

theorem ImportOutcome.Agrees.trans {outcome'' : ImportOutcome}
    (h : outcome.Agrees outcome') (h' : outcome'.Agrees outcome'') : outcome.Agrees outcome'' :=
  ⟨fun _ ↦ (h.namedImports _).trans (h'.namedImports _),
    fun _ ↦ (h.moduleImports _).trans (h'.moduleImports _),
    fun _ ↦ (h.reexports _).trans (h'.reexports _),
    fun _ ↦ (h.diagnostics _).trans (h'.diagnostics _)⟩

theorem ImportOutcome.Agrees.symm (h : outcome.Agrees outcome') :
    outcome'.Agrees outcome :=
  ⟨fun _ ↦ (h.namedImports _).symm, fun _ ↦ (h.moduleImports _).symm,
    fun _ ↦ (h.reexports _).symm, fun _ ↦ (h.diagnostics _).symm⟩

/-- An import that got its target binds its name. -/
theorem binds_of_found (hhistory : History graph.session pending base history final)
    (left : List PendingNamedImport) (hfound : Found history task) :
    (graph.session.finishImports (final.append (unresolved left))).Binds task := by
  obtain ⟨target, exports, hmem⟩ := hfound
  cases target with
  | symbol target =>
    refine .inl ⟨target, (mem_insertionSort _).2 (mem_append_left _
      (hhistory.mem_namedImports.2 (.inr ⟨_, hmem, ?_⟩)))⟩
    simp [PendingNamedImport.changes]
  | module package module =>
    refine .inr ⟨package, module, (mem_insertionSort _).2 (mem_append_left _
      (hhistory.mem_moduleImports.2 (.inr ⟨_, hmem, ?_⟩)))⟩
    simp [PendingNamedImport.changes]

theorem mem_namedImports_changes (hmem : binding ∈ (task.changes verdict).namedImports) :
    ∃ exports, verdict = .found (.symbol binding.target) exports ∧ task.module = binding.module ∧
      task.localName = binding.localName ∧ task.imported.source = binding.source := by
  cases verdict with
  | ambiguous => cases hmem
  | conflict => cases hmem
  | found target exports =>
    cases target with
    | symbol target =>
      cases mem_singleton.1 hmem
      exact ⟨exports, rfl, rfl, rfl, rfl⟩
    | module package module => cases hmem

theorem mem_moduleImports_changes (hmem : binding ∈ (task.changes verdict).moduleImports) :
    ∃ target exports, verdict = .found target exports ∧ task.module = binding.module ∧
      [task.localName] = binding.localPath ∧ task.imported.source = binding.source := by
  cases verdict with
  | ambiguous => cases hmem
  | conflict => cases hmem
  | found target exports =>
    cases target with
    | symbol target => cases hmem
    | module package module =>
      cases mem_singleton.1 hmem
      exact ⟨_, exports, rfl, rfl, rfl, rfl⟩

/-- A name that was free at first is bound by an import that got its target. -/
theorem found_of_binds (hhistory : History graph.session pending base history final)
    (hfree : graph.session.importNameConflicts base task.module task.localName = false)
    (hbinds : (graph.session.finishImports (final.append (unresolved left))).Binds task) :
    ∃ other, Found history other ∧ other.module = task.module ∧ other.localName = task.localName ∧
      other.imported.source = task.imported.source := by
  simp only [Session.importNameConflicts, Bool.or_eq_false_iff, any_eq_false] at hfree
  obtain ⟨⟨-, hnamed⟩, hmodules⟩ := hfree
  rcases hbinds with ⟨target, hmem⟩ | ⟨package, module, hmem⟩
  · rw [Session.finishImports, mem_insertionSort] at hmem
    rcases mem_append.1 hmem with hmem | hmem
    · rcases hhistory.mem_namedImports.1 hmem with hbase | ⟨⟨other, verdict⟩, hother, hentry⟩
      · exact absurd (by simp) (hnamed _ hbase)
      · obtain ⟨exports, rfl, hmodule, hname, hplace⟩ := mem_namedImports_changes hentry
        exact ⟨other, ⟨_, _, hother⟩, hmodule, hname, hplace⟩
    · cases hmem
  · rw [Session.finishImports, mem_insertionSort] at hmem
    rcases mem_append.1 hmem with hmem | hmem
    · rcases hhistory.mem_moduleImports.1 hmem with hbase | ⟨⟨other, verdict⟩, hother, hentry⟩
      · exact absurd (by simp) (hmodules _ hbase)
      · obtain ⟨target, exports, rfl, hmodule, hname, hplace⟩ := mem_moduleImports_changes hentry
        exact ⟨other, ⟨_, _, hother⟩, hmodule, singleton_injective hname, hplace⟩
    · cases hmem

/-- A name that an import binds to a symbol is the end of a chain of public imports that starts at the
name in the module that the import names. -/
theorem resolveImports_sound (graph : ImportGraph) :
    ∃ base pending outcome,
      graph.session.collectImports graph.session.moduleOrder = .ok (base, pending) ∧
      graph.session.resolveImports = .ok outcome ∧
      ∀ binding ∈ outcome.namedImports, binding ∈ base.namedImports ∨
        ∃ task ∈ pending, task.module = binding.module ∧ task.localName = binding.localName ∧
          task.imported.source = binding.source ∧
          Leads graph.session pending base (fun _ ↦ False) task.targetModule task.spelling
            (.symbol binding.target) := by
  obtain ⟨base, pending, -, -, h, -⟩ :=
    Session.collectImports_perm graph (List.Perm.refl graph.session.moduleOrder)
  refine ⟨base, pending, _, h, resolveImports_eq h, fun binding hmem ↦ ?_⟩
  obtain ⟨done, left, final, hrun, hperm, -, hvalue⟩ :=
    exists_resolution graph.session (List.Perm.refl pending) base
  obtain ⟨history, -, hhistory⟩ :=
    exists_history (fun _ hdone ↦ hperm.subset (mem_append_left _ hdone)) hrun
  rw [Session.resolveArranged, hvalue, Session.finishImports, mem_insertionSort] at hmem
  obtain hmem := (mem_append.1 hmem).resolve_right (not_mem_nil)
  refine (hhistory.mem_namedImports.1 hmem).imp_right ?_
  rintro ⟨⟨task, verdict⟩, hentry, hchange⟩
  obtain ⟨exports, rfl, hmodule, hname, hplace⟩ := mem_namedImports_changes hchange
  exact ⟨task, hhistory.mem_pending hentry, hmodule, hname, hplace,
    (hhistory.leads.1 _ _ _ hentry).mono fun _ ↦ False.elim⟩

theorem nodup_append_entry (hdistinct : (history.map Prod.fst).Nodup)
    (hnew : task ∉ history.map Prod.fst) (verdict : Verdict) :
    ((history ++ [(task, verdict)]).map Prod.fst).Nodup := by
  rw [map_append]
  exact hdistinct.append (nodup_singleton _) (by simpa using hnew)

section

variable (hfree : OrderFree graph.session)
  (h : graph.session.collectImports graph.session.moduleOrder = .ok (base, pending))
include hfree h

theorem OrderFree.agrees (harranged : arranged.Perm pending) :
    (graph.session.resolveArranged base arranged).Agrees
      (graph.session.resolveArranged base pending) := by
  obtain ⟨state, tasks, hcollect, hagrees⟩ := hfree.invariant _ (resolveImports_eq h) _ (.refl _)
  rw [h] at hcollect
  cases hcollect
  exact hagrees arranged harranged

theorem not_rivals_of : ¬ Rivals graph.session pending base := by
  rintro ⟨first, hfirst, second, hsecond, hne, hmodule, hname, hopen, hleads⟩
  -- either of the two can be done first, and then binds the name
  have hrun (task : PendingNamedImport) (htask : task ∈ pending)
      (hmodule : task.module = first.module) (hname : task.localName = first.localName)
      (hleads : ∃ target, Leads graph.session pending base
        (fun other ↦ other.module = first.module ∧ other.localName = first.localName)
        task.targetModule task.spelling target) :
      ∃ history final left arranged, History graph.session pending base history final ∧
        Found history task ∧ arranged.Perm pending ∧
        graph.session.resolvePendingNamedImports arranged base =
          final.append (unresolved left) := by
    obtain ⟨target, hleads⟩ := hleads
    obtain ⟨chain, state, hchain, hdistinct, hentries, hsingle⟩ := hleads.exists_history
    have hfresh (other : PendingNamedImport) (hother : Found chain other) :
        ¬ (other.module = task.module ∧ other.localName = task.localName) := by
      obtain ⟨_, _, hmem⟩ := hother
      rw [hmodule, hname]
      exact (hentries _ hmem).1
    have hready := hchain.verdict_of_fresh hsingle (by rwa [hmodule, hname]) hfresh
    have hstep := hchain.step htask hready
    have hnew : task ∉ chain.map Prod.fst := by
      intro hmem
      obtain ⟨entry, hentry, rfl⟩ := mem_map.1 hmem
      exact (hentries entry hentry).1 ⟨hmodule, hname⟩
    obtain ⟨arranged, more, left, final, harranged, hhistory, -, -, hvalue⟩ :=
      hstep.exists_resolution (nodup_append_entry hdistinct hnew _)
        fun _ hentry ↦ hstep.mem_pending hentry
    refine ⟨_, final, left, arranged, hhistory, ?_, harranged, hvalue⟩
    exact Found.append ⟨_, _, mem_append_right _ (mem_singleton_self _)⟩ more
  obtain ⟨history, final, left, arranged, hhistory, hfound, harranged, hvalue⟩ :=
    hrun first hfirst rfl rfl (hleads first (.inl rfl))
  obtain ⟨history', final', left', arranged', hhistory', hfound', harranged', hvalue'⟩ :=
    hrun second hsecond hmodule.symm hname.symm (hleads second (.inr rfl))
  have hagrees := (hfree.agrees h harranged').trans (hfree.agrees h harranged).symm
  rw [Session.resolveArranged, Session.resolveArranged, hvalue, hvalue'] at hagrees
  obtain ⟨other, hother, hmodule', hname', hplace⟩ := found_of_binds hhistory
    (by rwa [← hmodule, ← hname]) (hagrees.binds (binds_of_found hhistory' left' hfound'))
  have hsame := hhistory.found_unique hother hfound (hmodule'.trans hmodule.symm)
    (hname'.trans hname.symm)
  subst hsame
  exact hne (pending_injective h hfirst hsecond (.inr hplace))

theorem not_lateExport_of : ¬ LateExport graph.session pending base := by
  rintro ⟨reader, hreader, writer, hwriter, hne, hmodule, hname, hpublic, hopen, hfirst, hone,
    target, hleads⟩
  -- when the writer comes first, the name is ambiguous to the reader
  have hlate : ∃ history final left arranged, History graph.session pending base history final ∧
      (reader, Verdict.ambiguous) ∈ history ∧ arranged.Perm pending ∧
      graph.session.resolvePendingNamedImports arranged base = final.append (unresolved left) := by
    obtain ⟨chain, state, hchain, hdistinct, hentries, hsingle⟩ := hleads.exists_history
    have hfresh (other : PendingNamedImport) (hother : Found chain other) :
        ¬ (other.module = writer.module ∧ other.localName = writer.localName) := by
      rintro ⟨hmodule', hname'⟩
      obtain ⟨_, _, hmem⟩ := hother
      have honly := (hentries _ hmem).2.2.2
      rw [hmodule', hname'] at honly
      rw [honly] at hone
      cases hone
    have hexports : state.hasReexport writer.module writer.localName = false := by
      rw [hchain.hasReexport_eq_of_free hfresh, hfirst]
    have hready := hchain.verdict_of_fresh hsingle hopen hfresh
    rw [hexports, Bool.not_false] at hready
    have hstep := hchain.step hwriter hready
    have hnew : writer ∉ chain.map Prod.fst := by
      intro hmem
      obtain ⟨⟨_, verdict⟩, hentry, rfl⟩ := mem_map.1 hmem
      obtain ⟨-, -, rfl, -⟩ := hentries _ hentry
      exact hfresh _ ⟨_, _, hentry⟩ ⟨rfl, rfl⟩
    obtain ⟨arranged, more, left, final, harranged, hhistory, hperm, hfinal, hvalue⟩ :=
      hstep.exists_resolution (nodup_append_entry hdistinct hnew _)
        fun _ hentry ↦ hstep.mem_pending hentry
    refine ⟨_, final, left, arranged, hhistory, ?_, harranged, hvalue⟩
    have hkey : graph.session.exportedNamespaces base reader.targetModule reader.spelling =
        graph.session.exportedNamespaces base writer.module writer.localName := by
      rw [hmodule, hname]
    have hwritten : target ∈ reexported (chain ++ [(writer, .found target true)])
        reader.targetModule reader.spelling :=
      mem_flatMap.2 ⟨_, mem_append_right _ (mem_singleton_self _), by
        simp [PendingNamedImport.changes, hpublic, hmodule, hname]⟩
    have hnotFirst : reader ∉ (chain ++ [(writer, Verdict.found target true)]).map Prod.fst := by
      intro hmem
      rw [map_append, mem_append, mem_map] at hmem
      rcases hmem with ⟨entry, hentry, rfl⟩ | hmem
      · exact (hentries entry hentry).1 rfl
      · exact hne (mem_singleton.1 hmem)
    have hnotLeft : reader ∉ left := by
      intro hmem
      have hgrow := hstep.exportedNamespaces_grow hhistory reader.targetModule reader.spelling
      rw [Session.attempt_eq_none.1 (hfinal reader hmem)] at hgrow
      have hnil := (append_eq_nil_iff.1 hgrow.nil_eq.symm).1
      have hseen := hstep.exportedNamespaces reader.targetModule reader.spelling
      rw [hnil] at hseen
      rw [(append_eq_nil_iff.1 hseen.nil_eq.symm).2] at hwritten
      cases hwritten
    have hdone := (mem_append.1 (hperm.symm.subset hreader)).resolve_right hnotLeft
    obtain ⟨⟨done, verdict⟩, hentry, hdone⟩ := mem_map.1 hdone
    have hentry : (reader, verdict) ∈ _ := (show done = reader from hdone) ▸ hentry
    obtain ⟨front, back, middle, hsplit, hfront, hverdict⟩ := hhistory.split hentry
    obtain ⟨more', hmore⟩ : ∃ more', front = chain ++ [(writer, .found target true)] ++ more' := by
      rcases append_eq_append_iff.1 hsplit with ⟨more', hmore, -⟩ | ⟨more', hmore, hrest⟩
      · exact ⟨more', hmore⟩
      · cases more' with
        | nil => exact ⟨[], by rw [append_nil, hmore, append_nil]⟩
        | cons entry more' =>
          cases (List.cons.inj hrest).1
          refine absurd ?_ hnotFirst
          rw [hmore, map_append]
          simp
    rw [hmore] at hfront
    have hlong : 2 ≤ (graph.session.exportedNamespaces middle reader.targetModule
        reader.spelling).length := by
      rw [(hfront.exportedNamespaces _ _).length_eq, reexported_append, length_append,
        length_append, hkey, hone]
      have hpositive := length_pos_of_mem hwritten
      omega
    rw [verdict_eq_ambiguous.2 hlong] at hverdict
    cases hverdict
    exact hentry
  obtain ⟨history, final, left, arranged, hhistory, hmem, harranged, hvalue⟩ := hlate
  -- when the reader comes first, it is not
  obtain ⟨single, hsingle⟩ := length_eq_one_iff.1 hone
  rw [← hmodule, ← hname] at hsingle
  have hready := verdict_eq_of_single hsingle
  have hnot : graph.session.verdictOf base reader single ≠ .ambiguous := by
    unfold Session.verdictOf
    split <;> simp
  have hstep := History.start.step hreader hready
  obtain ⟨arranged', more, left', final', harranged', hhistory', hperm, -, hvalue'⟩ :=
    hstep.exists_resolution (by simp) fun _ hentry ↦ hstep.mem_pending hentry
  have hagrees := (hfree.agrees h harranged).trans (hfree.agrees h harranged').symm
  rw [Session.resolveArranged, Session.resolveArranged, hvalue, hvalue'] at hagrees
  have hdiagnostic := (ambiguousDiagnostic_mem_iff h hhistory' left' hreader).1
    ((hagrees.diagnostics _).1 ((ambiguousDiagnostic_mem_iff h hhistory left hreader).2 hmem))
  have hdistinct := (nodup_append.1 (hperm.nodup_iff.2 (nodup_pending h))).1
  rcases mem_cons.1 hdiagnostic with heq | hlater
  · exact hnot (congrArg Prod.snd heq).symm
  · exact (nodup_cons.1 hdistinct).1 (mem_map.2 ⟨_, hlater, rfl⟩)

end

/-- The order of modules and imports does not matter exactly when no two imports can both take one
free name and no public import can export a name under which a symbol is read. -/
theorem orderFree_iff (graph : ImportGraph) :
    ∃ base pending, graph.session.collectImports graph.session.moduleOrder = .ok (base, pending) ∧
      (OrderFree graph.session ↔
        ¬ Rivals graph.session pending base ∧ ¬ LateExport graph.session pending base) := by
  obtain ⟨_, _, base, pending, -, h, -, -⟩ :=
    Session.collectImports_perm graph (List.Perm.refl graph.session.moduleOrder)
  exact ⟨base, pending, h, fun hfree ↦ ⟨not_rivals_of hfree h, not_lateExport_of hfree h⟩,
    fun hcondition ↦ orderFree_of h hcondition.1 hcondition.2⟩

end Graph

def placeAt (file : UInt32) (start : UInt32) : Span := ⟨⟨file⟩, ⟨start, start + 1⟩⟩

/-- `from path import x` in a file, `pub` or not. -/
def importOfX (file : UInt32) (isPublic : Bool) (path : String) : ImportDeclaration where
  source := placeAt file 0
  isPublic := isPublic
  items := .names ⟨placeAt file 1, [⟨placeAt file 1, path⟩]⟩
    [⟨placeAt file 3, ⟨placeAt file 2, "x"⟩, none⟩]

def lateExportSession : Session where
  packages := {
    root := ⟨0⟩
    packages := [⟨⟨0⟩, ⟨⟨"app"⟩, ⟨"1"⟩, .repeated 0⟩, []⟩]
    modules := [⟨⟨0⟩, ⟨0⟩, ⟨["a"]⟩, ⟨0⟩⟩, ⟨⟨1⟩, ⟨0⟩, ⟨["b"]⟩, ⟨1⟩⟩, ⟨⟨2⟩, ⟨0⟩, ⟨["c"]⟩, ⟨2⟩⟩] }
  parsedFiles := [⟨[importOfX 0 false "b"]⟩, ⟨[importOfX 1 true "c"]⟩, ⟨[]⟩]
  moduleSources := [placeAt 0 0, placeAt 1 0, placeAt 2 0]
  declarations := [⟨.module ⟨1⟩, .pub⟩, ⟨.module ⟨2⟩, .pub⟩]
  symbols := [⟨.module ⟨1⟩, "Choice", .declaration ⟨⟨0⟩, ⟨1⟩, ⟨0⟩⟩⟩,
    ⟨.declaration ⟨0⟩, "x", .variant ⟨⟨⟨0⟩, ⟨1⟩, ⟨0⟩⟩, 0⟩⟩,
    ⟨.module ⟨2⟩, "x", .declaration ⟨⟨0⟩, ⟨2⟩, ⟨1⟩⟩⟩]

def lateExportGraph : ImportGraph where
  session := lateExportSession
  packages_present := by decide
  names_distinct := by decide
  imports_distinct := by decide

/-- The diagnostics when the modules are gone through in a given order. -/
def Session.diagnosticsIn (session : Session) (order : List ModuleId) : List Diagnostic :=
  match session.collectImports order with
  | .error _ => []
  | .ok (state, pending) => (session.resolveArranged state pending).diagnostics

theorem not_orderFree_lateExportGraph :
    ¬ OrderFree lateExportGraph.session ∧
      lateExportGraph.session.diagnosticsIn [⟨0⟩, ⟨1⟩, ⟨2⟩] = [] ∧
      lateExportGraph.session.diagnosticsIn [⟨1⟩, ⟨0⟩, ⟨2⟩] = [⟨"hir-ambiguous-import-name",
        placeAt 0 2, "this imported name is ambiguous in its source module"⟩] := by
  have hcanonical : lateExportGraph.session.diagnosticsIn [⟨0⟩, ⟨1⟩, ⟨2⟩] = [] := by decide
  have hswapped : lateExportGraph.session.diagnosticsIn [⟨1⟩, ⟨0⟩, ⟨2⟩] =
      [⟨"hir-ambiguous-import-name", placeAt 0 2,
        "this imported name is ambiguous in its source module"⟩] := by decide
  refine ⟨fun hfree ↦ ?_, hcanonical, hswapped⟩
  have horder : lateExportGraph.session.moduleOrder = [⟨0⟩, ⟨1⟩, ⟨2⟩] := by decide
  obtain ⟨outcome, hresolves⟩ := hfree.resolves
  obtain ⟨state, pending, hcollect, hagrees⟩ := hfree.invariant outcome hresolves [⟨0⟩, ⟨1⟩, ⟨2⟩]
    (by rw [horder])
  obtain ⟨state', pending', hcollect', hagrees'⟩ :=
    hfree.invariant outcome hresolves [⟨1⟩, ⟨0⟩, ⟨2⟩] (by rw [horder]; exact .swap _ _ _)
  rw [Session.diagnosticsIn, hcollect] at hcanonical
  rw [Session.diagnosticsIn, hcollect'] at hswapped
  have hmem := ((hagrees' _ (.refl _)).diagnostics _).1 (hswapped ▸ mem_singleton_self _)
  have hnone := ((hagrees _ (.refl _)).diagnostics _).2 hmem
  exact absurd hnone (eq_nil_iff_forall_not_mem.1 hcanonical _)

end Wrela.HirLower
