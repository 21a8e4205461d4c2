import Wrela.HirLower.ImportModules

/-!
# Chains of public imports

What a name can be resolved to is a matter of chains: a name that its module exports at first leads
to what is exported, and a public import that takes a free name leads on to what it imports.  Each
target that an import gets is reached through such a chain, and every chain can be followed, one by
one.
-/

namespace Wrela.HirLower

open List Wrela.Source Wrela.Package

variable {session : Session} {pending : List PendingNamedImport} {base : ImportState}

/-- The pending imports that were done, each with its verdict, and the state they lead to. -/
inductive History (session : Session) (pending : List PendingNamedImport) (base : ImportState) :
    List (PendingNamedImport × Verdict) → ImportState → Prop
  | start : History session pending base [] base
  | step {history state task verdict} (before : History session pending base history state)
      (mem : task ∈ pending) (ready : session.verdict state task = some verdict) :
      History session pending base (history ++ [(task, verdict)])
        (state.append (task.changes verdict))

/-- The import got a target. -/
def Found (history : List (PendingNamedImport × Verdict)) (task : PendingNamedImport) : Prop :=
  ∃ target exports, (task, Verdict.found target exports) ∈ history

variable {history : List (PendingNamedImport × Verdict)} {task : PendingNamedImport}
  {state : ImportState} {module : ModuleId} {name : String}

theorem Found.append (h : Found history task) (more : List (PendingNamedImport × Verdict)) :
    Found (history ++ more) task := by
  obtain ⟨target, exports, hmem⟩ := h
  exact ⟨target, exports, mem_append_left _ hmem⟩

theorem found_append_singleton :
    Found (history ++ [(task, verdict)]) other ↔
      Found history other ∨ other = task ∧ ∃ target exports, verdict = .found target exports := by
  constructor
  · rintro ⟨target, exports, hmem⟩
    rcases mem_append.1 hmem with hmem | hmem
    · exact .inl ⟨target, exports, hmem⟩
    · cases mem_singleton.1 hmem
      exact .inr ⟨rfl, target, exports, rfl⟩
  · rintro (h | ⟨rfl, target, exports, rfl⟩)
    · exact h.append _
    · exact ⟨target, exports, by simp⟩

theorem History.run (h : History session pending base history state) :
    Worklist.run session.attemptNamedImport (history.map Prod.fst) base = some state := by
  induction h with
  | start => rfl
  | step _ _ hready ih =>
    rw [map_append]
    exact Worklist.run_append_singleton ih (Session.attempt_eq_some.2 ⟨_, hready, rfl⟩)

/-- A run goes on with a history. -/
theorem History.extend (before : History session pending base history middle)
    (hmem : done ⊆ pending) (h : Worklist.run session.attemptNamedImport done middle = some state) :
    ∃ more, more.map Prod.fst = done ∧ History session pending base (history ++ more) state := by
  induction done generalizing history middle with
  | nil =>
    cases h
    exact ⟨[], rfl, by rwa [append_nil]⟩
  | cons task done ih =>
    obtain ⟨effect, heffect, hrest⟩ := Worklist.run_cons_eq_some.1 h
    obtain ⟨verdict, hverdict, rfl⟩ := Session.attempt_eq_some.1 heffect
    obtain ⟨more, hmore, hhistory⟩ :=
      ih (before.step (hmem (by simp)) hverdict) (fun _ hin ↦ hmem (by simp [hin])) hrest
    exact ⟨(task, verdict) :: more, by simp [hmore], by simpa using hhistory⟩

theorem exists_history (hmem : done ⊆ pending)
    (h : Worklist.run session.attemptNamedImport done base = some state) :
    ∃ history, history.map Prod.fst = done ∧ History session pending base history state := by
  obtain ⟨history, hhistory, hstate⟩ := History.start.extend hmem h
  exact ⟨history, hhistory, hstate⟩

/-- What a history says about one of its imports. -/
theorem History.split (h : History session pending base history state) {verdict : Verdict}
    (hmem : (task, verdict) ∈ history) :
    ∃ front back middle, history = front ++ (task, verdict) :: back ∧
      History session pending base front middle ∧ session.verdict middle task = some verdict := by
  induction h with
  | start => cases hmem
  | @step history state other verdict' before _ hready ih =>
    rcases mem_append.1 hmem with hold | hnew
    · obtain ⟨front, back, middle, rfl, hfront, hverdict⟩ := ih hold
      exact ⟨front, back ++ [(other, verdict')], middle, by simp, hfront, hverdict⟩
    · cases mem_singleton.1 hnew
      exact ⟨history, [], state, rfl, before, hready⟩

theorem History.mem_pending (h : History session pending base history state)
    (hmem : entry ∈ history) : entry.1 ∈ pending := by
  induction h with
  | start => cases hmem
  | step _ hpending _ ih =>
    rcases mem_append.1 hmem with hold | hnew
    · exact ih hold
    · cases mem_singleton.1 hnew
      exact hpending

theorem importNameConflicts_changes :
    session.importNameConflicts (state.append (task.changes verdict)) module name = true ↔
      session.importNameConflicts state module name = true ∨
        (∃ target exports, verdict = .found target exports) ∧
          task.module = module ∧ task.localName = name := by
  cases verdict with
  | ambiguous | conflict => simp [Session.importNameConflicts, ImportState.append,
      PendingNamedImport.changes, ImportState.empty]
  | found target exports =>
    cases target <;>
      simp [Session.importNameConflicts, ImportState.append, PendingNamedImport.changes] <;> grind

/-- A name is taken at first, or by an import that got a target. -/
theorem History.importNameConflicts (h : History session pending base history state) :
    session.importNameConflicts state module name = true ↔
      session.importNameConflicts base module name = true ∨
        ∃ task, Found history task ∧ task.module = module ∧ task.localName = name := by
  induction h with
  | start => simp [Found]
  | step _ _ _ ih =>
    rw [importNameConflicts_changes, ih]
    simp only [found_append_singleton]
    grind

/-- A task whose name is free and was bound by no import gets the one target of its path. -/
theorem History.verdict_of_fresh (h : History session pending base history state)
    (hsingle : session.exportedNamespaces state task.targetModule task.spelling = [target])
    (hopen : session.importNameConflicts base task.module task.localName = false)
    (hfresh : ∀ other, Found history other →
      ¬ (other.module = task.module ∧ other.localName = task.localName)) :
    session.verdict state task =
      some (.found target !state.hasReexport task.module task.localName) := by
  refine Session.verdict_eq_found.2 ⟨hsingle, ?_, rfl⟩
  rw [Bool.eq_false_iff, ne_eq, h.importNameConflicts, not_or]
  exact ⟨by simp [hopen], fun ⟨other, hfound, hkey⟩ ↦ hfresh other hfound hkey⟩

/-- What the imports of a history export again under one name. -/
def reexported (history : List (PendingNamedImport × Verdict)) (module : ModuleId) (name : String) :
    List NamespaceTarget :=
  history.flatMap fun entry ↦ ((entry.1.changes entry.2).reexports.filter fun reexport ↦
    reexport.module == module && reexport.localName == name).map Reexport.target

theorem History.exportedNamespaces
    (h : History session pending base history state) (module : ModuleId) (name : String) :
    (session.exportedNamespaces state module name).Perm
      (session.exportedNamespaces base module name ++ reexported history module name) := by
  induction h with
  | start => simp [reexported]
  | step _ _ _ ih =>
    refine (Session.exportedNamespaces_append _ _ _ module name).trans ?_
    rw [reexported, flatMap_append, ← reexported, ← append_assoc]
    simpa using ih.append_right _

theorem reexported_append (history more : List (PendingNamedImport × Verdict)) (module : ModuleId)
    (name : String) : reexported (history ++ more) module name =
      reexported history module name ++ reexported more module name := flatMap_append

/-- What is exported at some time stays so. -/
theorem History.exportedNamespaces_grow (h : History session pending base history state)
    (hfinal : History session pending base (history ++ more) final) (module : ModuleId)
    (name : String) : (session.exportedNamespaces final module name).Perm
      (session.exportedNamespaces state module name ++ reexported more module name) := by
  refine (hfinal.exportedNamespaces module name).trans ?_
  rw [reexported_append, ← append_assoc]
  exact (h.exportedNamespaces module name).symm.append_right _

theorem filter_reexports_changes (task : PendingNamedImport) (verdict : Verdict)
    (module : ModuleId) (name : String) :
    ((task.changes verdict).reexports.filter fun reexport ↦
        reexport.module == module && reexport.localName == name).map Reexport.target = [] ∨
      ∃ target, verdict = .found target true ∧ task.isPublic = true ∧ task.module = module ∧
        task.localName = name ∧ ((task.changes verdict).reexports.filter fun reexport ↦
          reexport.module == module && reexport.localName == name).map Reexport.target =
            [target] := by
  cases verdict with
  | ambiguous => exact .inl rfl
  | conflict => exact .inl rfl
  | found target exports =>
    by_cases hwritten : task.isPublic = true ∧ exports = true
    · obtain ⟨hpublic, rfl⟩ := hwritten
      by_cases hkey : task.module = module ∧ task.localName = name
      · refine .inr ⟨target, rfl, hpublic, hkey.1, hkey.2, ?_⟩
        simp [PendingNamedImport.changes, hpublic, hkey.1, hkey.2]
      · refine .inl ?_
        simp only [PendingNamedImport.changes, hpublic]
        simpa using hkey
    · refine .inl ?_
      have hnone : (task.isPublic && exports) = false := by simpa using hwritten
      simp [PendingNamedImport.changes, hnone]

section

variable (h : History session pending base history state)
include h

/-- One name is exported again once at most, by an import that got a target. -/
theorem History.reexported_eq (module : ModuleId) (name : String) :
    reexported history module name = [] ∨
      ∃ task target, (task, Verdict.found target true) ∈ history ∧ task.isPublic = true ∧
        task.module = module ∧ task.localName = name ∧
        reexported history module name = [target] := by
  induction h with
  | start => exact .inl rfl
  | @step history state task verdict before _ hready ih =>
    have hsplit : reexported (history ++ [(task, verdict)]) module name =
        reexported history module name ++ ((task.changes verdict).reexports.filter fun reexport ↦
          reexport.module == module && reexport.localName == name).map Reexport.target := by
      simp [reexported]
    rw [hsplit]
    rcases filter_reexports_changes task verdict module name with
      hnone | ⟨target, rfl, hpublic, hmodule, hname, hone⟩
    · rw [hnone, append_nil]
      rcases ih with hnil | ⟨other, target, hmem, hrest⟩
      · exact .inl hnil
      · exact .inr ⟨other, target, mem_append_left _ hmem, hrest⟩
    · have hfree : reexported history module name = [] := by
        rcases ih with hnil | ⟨other, target', hmem, -, hmodule', hname', -⟩
        · exact hnil
        · obtain ⟨-, hconflicts, -⟩ := Session.verdict_eq_found.1 hready
          rw [Bool.eq_false_iff, ne_eq, before.importNameConflicts, not_or] at hconflicts
          exact absurd ⟨other, ⟨target', true, hmem⟩, hmodule'.trans hmodule.symm,
            hname'.trans hname.symm⟩ hconflicts.2
      rw [hfree, hone]
      exact .inr ⟨task, target, by simp, hpublic, hmodule, hname, rfl⟩

/-- A name that no import took is exported again only if it was so at first. -/
theorem History.hasReexport_eq_of_free
    (hfree : ∀ task, Found history task → ¬ (task.module = module ∧ task.localName = name)) :
    state.hasReexport module name = base.hasReexport module name := by
  induction h with
  | start => rfl
  | @step history state task verdict _ _ _ ih =>
    have hchanges : (task.changes verdict).hasReexport module name = false := by
      rcases filter_reexports_changes task verdict module name with
        hnone | ⟨target, rfl, -, hmodule, hname, -⟩
      · rw [map_eq_nil_iff, filter_eq_nil_iff] at hnone
        exact any_eq_false.2 hnone
      · exact absurd ⟨hmodule, hname⟩ (hfree task ⟨target, true, by simp⟩)
    rw [Session.hasReexport_append, hchanges, Bool.or_false]
    exact ih fun task hfound ↦ hfree task (hfound.append _)

/-- A name goes to one import at most. -/
theorem History.found_unique (htask : Found history task) (hother : Found history other)
    (hmodule : task.module = other.module) (hname : task.localName = other.localName) :
    task = other := by
  induction h generalizing task other with
  | start => obtain ⟨_, _, hmem⟩ := htask; cases hmem
  | @step history state last verdict before _ hready ih =>
    have hfree (seen : PendingNamedImport) (hseen : Found history seen)
        (hverdict : ∃ target exports, verdict = .found target exports) :
        ¬ (seen.module = last.module ∧ seen.localName = last.localName) := by
      obtain ⟨target, exports, rfl⟩ := hverdict
      obtain ⟨-, hconflicts, -⟩ := Session.verdict_eq_found.1 hready
      rw [Bool.eq_false_iff, ne_eq, before.importNameConflicts, not_or] at hconflicts
      exact fun hkey ↦ hconflicts.2 ⟨seen, hseen, hkey⟩
    rw [found_append_singleton] at htask hother
    rcases htask with htask | ⟨rfl, hverdict⟩ <;> rcases hother with hother | ⟨rfl, hverdict'⟩
    · exact ih htask hother hmodule hname
    · exact absurd ⟨hmodule, hname⟩ (hfree task htask hverdict')
    · exact absurd ⟨hmodule.symm, hname.symm⟩ (hfree other hother hverdict)
    · rfl

theorem History.mem_diagnostics : diagnostic ∈ state.diagnostics ↔ diagnostic ∈ base.diagnostics ∨
      ∃ entry ∈ history, diagnostic ∈ (entry.1.changes entry.2).diagnostics := by
  induction h with
  | start => simp
  | step _ _ _ ih =>
    rw [ImportState.append, mem_append, ih, or_assoc]
    simp [or_and_right, exists_or]

theorem History.mem_namedImports : binding ∈ state.namedImports ↔ binding ∈ base.namedImports ∨
      ∃ entry ∈ history, binding ∈ (entry.1.changes entry.2).namedImports := by
  induction h with
  | start => simp
  | step _ _ _ ih =>
    rw [ImportState.append, mem_append, ih, or_assoc]
    simp [or_and_right, exists_or]

theorem History.mem_moduleImports : binding ∈ state.moduleImports ↔ binding ∈ base.moduleImports ∨
      ∃ entry ∈ history, binding ∈ (entry.1.changes entry.2).moduleImports := by
  induction h with
  | start => simp
  | step _ _ _ ih =>
    rw [ImportState.append, mem_append, ih, or_assoc]
    simp [or_and_right, exists_or]

/-- The import that got a target took a name that was free at first, and exports it again unless
the name was exported again at first. -/
theorem History.of_found (hmem : (task, .found target exports) ∈ history) :
    task ∈ pending ∧ session.importNameConflicts base task.module task.localName = false ∧
      exports = !base.hasReexport task.module task.localName := by
  induction h with
  | start => cases hmem
  | @step history state other verdict before hpending hready ih =>
    rcases mem_append.1 hmem with hold | hnew
    · exact ih hold
    · cases mem_singleton.1 hnew
      obtain ⟨-, hconflicts, hexports⟩ := Session.verdict_eq_found.1 hready
      have hfree := hconflicts
      rw [Bool.eq_false_iff, ne_eq, before.importNameConflicts, not_or, ← ne_eq,
        ← Bool.eq_false_iff] at hfree
      refine ⟨hpending, hfree.1, ?_⟩
      rw [hexports, before.hasReexport_eq_of_free fun task hfound hkey ↦
        hfree.2 ⟨task, hfound, hkey⟩]

end

/-- The name leads to the target through imports other than those to avoid. -/
inductive Leads (session : Session) (pending : List PendingNamedImport) (base : ImportState)
    (avoid : PendingNamedImport → Prop) : ModuleId → String → NamespaceTarget → Prop
  | here {module name target} (single : session.exportedNamespaces base module name = [target]) :
      Leads session pending base avoid module name target
  | reexport {task target} (mem : task ∈ pending) (kept : ¬ avoid task)
      (isPublic : task.isPublic = true)
      (free : session.importNameConflicts base task.module task.localName = false)
      (only : session.exportedNamespaces base task.module task.localName = [])
      (rest : Leads session pending base avoid task.targetModule task.spelling target) :
      Leads session pending base avoid task.module task.localName target

theorem Leads.mono (h : Leads session pending base avoid module name target)
    (havoid : ∀ task, avoid' task → avoid task) :
    Leads session pending base avoid' module name target := by
  induction h with
  | here hsingle => exact .here hsingle
  | reexport hmem hkept hpublic hfree honly _ ih =>
    exact .reexport hmem (fun h ↦ hkept (havoid _ h)) hpublic hfree honly ih

/-- A name that is seen to have one target leads to it through imports that got theirs. -/
theorem History.leads (h : History session pending base history state) :
    (∀ task target exports, (task, Verdict.found target exports) ∈ history →
      Leads session pending base (¬ Found history ·) task.targetModule task.spelling target) ∧
    ∀ module name target, session.exportedNamespaces state module name = [target] →
      Leads session pending base (¬ Found history ·) module name target := by
  induction h with
  | start => exact ⟨fun _ _ _ hmem ↦ (by cases hmem), fun _ _ _ hsingle ↦ .here hsingle⟩
  | @step history state other verdict before hpending hready ih =>
    have hmono {module : ModuleId} {name : String} {target : NamespaceTarget}
        (hleads : Leads session pending base (¬ Found history ·) module name target) :
        Leads session pending base (¬ Found (history ++ [(other, verdict)]) ·) module name target :=
      hleads.mono fun task hnot hfound ↦ hnot (hfound.append _)
    have hfound : ∀ task target exports,
        (task, Verdict.found target exports) ∈ history ++ [(other, verdict)] →
          Leads session pending base (¬ Found (history ++ [(other, verdict)]) ·) task.targetModule
            task.spelling target := by
      intro task target exports hmem
      rcases mem_append.1 hmem with hold | hnew
      · exact hmono (ih.1 task target exports hold)
      · cases mem_singleton.1 hnew
        exact hmono (ih.2 _ _ _ (Session.verdict_eq_found.1 hready).1)
    refine ⟨hfound, fun module name target hsingle ↦ ?_⟩
    have hwhole := History.step before hpending hready
    have hperm := hwhole.exportedNamespaces module name
    rw [hsingle] at hperm
    rcases hwhole.reexported_eq module name with hnil | ⟨task, target', hmem, hpublic, rfl, rfl, hone⟩
    · rw [hnil, append_nil] at hperm
      exact .here (singleton_perm.1 hperm).symm
    · rw [hone] at hperm
      have hlength := hperm.length_eq
      rw [length_append, length_singleton, length_singleton] at hlength
      have honly : session.exportedNamespaces base task.module task.localName = [] :=
        eq_nil_of_length_eq_zero (by omega)
      rw [honly, nil_append, singleton_perm_singleton] at hperm
      subst hperm
      obtain ⟨hin, hfree, -⟩ := hwhole.of_found hmem
      exact .reexport hin (not_not_intro ⟨_, _, hmem⟩) hpublic hfree honly (hfound _ _ _ hmem)

/-- Every chain can be followed, one import after the other. -/
theorem Leads.exists_history (h : Leads session pending base avoid module name target) :
    ∃ history state, History session pending base history state ∧ (history.map Prod.fst).Nodup ∧
      (∀ entry ∈ history, ¬ avoid entry.1 ∧ entry.1.isPublic = true ∧
        entry.2 = .found target true ∧
        session.exportedNamespaces base entry.1.module entry.1.localName = []) ∧
      session.exportedNamespaces state module name = [target] := by
  induction h with
  | here hsingle => exact ⟨[], base, .start, .nil, by simp, hsingle⟩
  | @reexport task target hmem hkept hpublic hfree honly _ ih =>
    obtain ⟨history, state, hhistory, hnodup, hentries, hsingle⟩ := ih
    have hperm := hhistory.exportedNamespaces task.module task.localName
    rw [honly, nil_append] at hperm
    by_cases htaken : ∃ other, Found history other ∧ other.module = task.module ∧
        other.localName = task.localName
    · -- another import of the chain has taken the name, and leads to the same target
      obtain ⟨other, ⟨target', exports, hother⟩, hmodule, hname⟩ := htaken
      obtain ⟨-, hotherPublic, hfound, -⟩ := hentries _ hother
      cases hfound
      have hin : target ∈ reexported history task.module task.localName :=
        mem_flatMap.2 ⟨_, hother, by
          have hlocal : other.isPublic = true := hotherPublic
          simp [PendingNamedImport.changes, hlocal, hmodule, hname]⟩
      rcases hhistory.reexported_eq task.module task.localName with hnil | ⟨_, _, -, -, -, -, hone⟩
      · rw [hnil] at hin
        cases hin
      · rw [hone] at hin hperm
        cases mem_singleton.1 hin
        exact ⟨history, state, hhistory, hnodup, hentries, perm_singleton.1 hperm⟩
    · have hfresh (other : PendingNamedImport) (hfound : Found history other)
          (hkey : other.module = task.module ∧ other.localName = task.localName) : False :=
        htaken ⟨other, hfound, hkey⟩
      have hready := hhistory.verdict_of_fresh hsingle hfree hfresh
      rw [hhistory.hasReexport_eq_of_free hfresh, Session.hasReexport_eq_false honly] at hready
      have hnew := History.step hhistory hmem hready
      refine ⟨_, _, hnew, ?_, ?_, ?_⟩
      · rw [map_append, nodup_append]
        refine ⟨hnodup, nodup_singleton _, ?_⟩
        rintro other hother _ hlast rfl
        obtain ⟨⟨_, verdict⟩, hentry, rfl⟩ := mem_map.1 hother
        cases mem_singleton.1 hlast
        obtain ⟨-, -, rfl, -⟩ := hentries _ hentry
        exact htaken ⟨_, ⟨_, _, hentry⟩, rfl, rfl⟩
      · intro entry hentry
        rcases mem_append.1 hentry with hold | hlast
        · exact hentries entry hold
        · cases mem_singleton.1 hlast
          exact ⟨hkept, hpublic, rfl, honly⟩
      · have hold : reexported history task.module task.localName = [] := by
          rcases hhistory.reexported_eq task.module task.localName with
            hnil | ⟨other, target', hother, -, hmodule, hname, -⟩
          · exact hnil
          · exact absurd ⟨other, ⟨_, _, hother⟩, hmodule, hname⟩ htaken
        have hperm' := hnew.exportedNamespaces task.module task.localName
        rw [honly, nil_append, reexported, flatMap_append, ← reexported, hold] at hperm'
        simpa [PendingNamedImport.changes, hpublic] using hperm'

end Wrela.HirLower
