import Mathlib.Data.List.Sort
import Wrela.Source.Text

/-!
# The canonical order of diagnostics

Diagnostics are compared field by field down to the edits of their repairs, and put in order before
they leave a phase: short lists by one sort, long ones by sorted runs that are merged pairwise.
-/

namespace Wrela.Diagnostics

open List Wrela.Source Wrela.Wire

/-- A category is its text. -/
structure Category where
  asStr : String

inductive Severity where
  | error | warning

/-- An annotation of a range: a label, or a related location. -/
structure Label where
  span : Span
  message : String

inductive Applicability where
  | machineApplicable | maybeIncorrect | requiresReview

structure SourceEdit where
  span : Span
  replacement : String

structure Repair where
  message : String
  applicability : Applicability
  edits : List SourceEdit

structure Diagnostic where
  category : Category
  code : Option String
  severity : Severity
  primary : Span
  message : String
  labels : List Label
  notes : List String
  help : List String
  related : List Label
  repairs : List Repair

def severityRank : Severity → ℕ
  | .error => 0
  | .warning => 1

def applicabilityRank : Applicability → ℕ
  | .machineApplicable => 0
  | .maybeIncorrect => 1
  | .requiresReview => 2

/-- Texts are compared by their bytes. -/
def compareText : String → String → Ordering := compareOn utf8Bytes

/-- Element by element, and then by length. -/
def compareSlices {α : Type} (compare : α → α → Ordering) : List α → List α → Ordering :=
  List.compareLex compare

def compareSpan : Span → Span → Ordering :=
  compareLex (compareOn fun span ↦ span.file.val)
    (compareLex (compareOn fun span ↦ span.range.start) (compareOn fun span ↦ span.range.stop))

/-- A comparison of one field. -/
def compareField {α β : Type} (compare : β → β → Ordering) (field : α → β) (left right : α) :
    Ordering :=
  compare (field left) (field right)

def compareLabel : Label → Label → Ordering :=
  compareLex (compareField compareSpan Label.span) (compareField compareText Label.message)

def compareEdit : SourceEdit → SourceEdit → Ordering :=
  compareLex (compareField compareSpan SourceEdit.span)
    (compareField compareText SourceEdit.replacement)

def compareRepair : Repair → Repair → Ordering :=
  compareLex (compareField compareText Repair.message) <|
  compareLex (compareOn fun repair ↦ applicabilityRank repair.applicability)
    (compareField (compareSlices compareEdit) Repair.edits)

/-- Every field of a diagnostic, in the order in which they count. -/
def compareDiagnostics : Diagnostic → Diagnostic → Ordering :=
  compareLex (compareField compareText fun diagnostic ↦ diagnostic.category.asStr) <|
  compareLex (compareOn fun diagnostic ↦ severityRank diagnostic.severity) <|
  compareLex (compareField compareSpan Diagnostic.primary) <|
  compareLex (compareField compareText Diagnostic.message) <|
  compareLex (compareOn fun diagnostic ↦ diagnostic.code.map utf8Bytes) <|
  compareLex (compareField (compareSlices compareLabel) Diagnostic.labels) <|
  compareLex (compareField (compareSlices compareText) Diagnostic.notes) <|
  compareLex (compareField (compareSlices compareText) Diagnostic.help) <|
  compareLex (compareField (compareSlices compareLabel) Diagnostic.related)
    (compareField (compareSlices compareRepair) Diagnostic.repairs)

def inOrder (left right : Diagnostic) : Bool := (compareDiagnostics left right).isLE

/-- The standard sort of one run.  Its order is total and tells every two diagnostics apart, so there
is one sorted list to return. -/
def sortRun (run : List Diagnostic) : List Diagnostic := run.mergeSort inOrder

def runDiagnostics : ℕ := 256

/-- The runs of a list, sorted; the last one may be short. -/
def sortedRuns : ℕ → List Diagnostic → List (List Diagnostic)
  | 0, _ => []
  | count + 1, diagnostics =>
    sortRun (diagnostics.take runDiagnostics) :: sortedRuns count (diagnostics.drop runDiagnostics)

/-- The smaller head is taken, and the left one of equal heads. -/
def mergeDiagnosticRuns (left right : List Diagnostic) : List Diagnostic := left.merge right inOrder

/-- Neighbouring runs are merged; a last run without a neighbour stays. -/
def mergePairs : List (List Diagnostic) → List (List Diagnostic)
  | [] => []
  | [run] => [run]
  | left :: right :: runs => mergeDiagnosticRuns left right :: mergePairs runs

theorem length_mergePairs (runs : List (List Diagnostic)) :
    (mergePairs runs).length = (runs.length + 1) / 2 := by
  fun_induction mergePairs runs with
  | case1 => rfl
  | case2 run => simp
  | case3 left right runs ih =>
    rw [length_cons, ih, length_cons, length_cons]
    omega

def mergeRuns (runs : List (List Diagnostic)) : List (List Diagnostic) :=
  if 1 < runs.length then mergeRuns (mergePairs runs) else runs
termination_by runs.length
decreasing_by
  rw [length_mergePairs]
  omega

/-- `none` stands for the error of a missing last run. -/
def canonicalizeDiagnostics (diagnostics : List Diagnostic) : Option (List Diagnostic) :=
  if diagnostics.length ≤ 1 then some diagnostics
  else if diagnostics.length ≤ runDiagnostics then some (sortRun diagnostics)
  else
    let runCount := (diagnostics.length + (runDiagnostics - 1)) / runDiagnostics
    (mergeRuns (sortedRuns runCount diagnostics)).getLast?

section Order

variable {α β : Type} {compare : β → β → Ordering}

instance transCmp_compareField [Std.TransCmp compare] (field : α → β) :
    Std.TransCmp (compareField compare field) where
  eq_swap {a b} := @Std.OrientedCmp.eq_swap _ compare _ (field a) (field b)
  isLE_trans {a b c} := @Std.TransCmp.isLE_trans _ compare _ (field a) (field b) (field c)

instance transCmp_compareText : Std.TransCmp compareText := inferInstanceAs
  (Std.TransCmp (compareOn utf8Bytes))

instance transCmp_compareSpan : Std.TransCmp compareSpan := inferInstanceAs
  (Std.TransCmp (compareLex _ _))

instance transCmp_compareSlices [Std.TransCmp compare] : Std.TransCmp (compareSlices compare) :=
  inferInstanceAs (Std.TransCmp (List.compareLex compare))

instance transCmp_compareLabel : Std.TransCmp compareLabel := inferInstanceAs
  (Std.TransCmp (compareLex _ _))

instance transCmp_compareEdit : Std.TransCmp compareEdit := inferInstanceAs
  (Std.TransCmp (compareLex _ _))

instance transCmp_compareRepair : Std.TransCmp compareRepair := inferInstanceAs
  (Std.TransCmp (compareLex _ _))

instance transCmp_compareDiagnostics : Std.TransCmp compareDiagnostics := inferInstanceAs
  (Std.TransCmp (compareLex _ _))

instance lawfulEqCmp_compareText : Std.LawfulEqCmp compareText where
  eq_of_compare h := utf8Bytes_injective (@Std.LawfulEqCmp.eq_of_compare _ Ord.compare _ _ _ h)

instance lawfulEqCmp_compareSpan : Std.LawfulEqCmp compareSpan where
  eq_of_compare {left right} h := by
    obtain ⟨⟨file⟩, start, stop⟩ := left
    obtain ⟨⟨file'⟩, start', stop'⟩ := right
    simpa [compareSpan, compareLex_eq_eq, compareOn] using h

instance lawfulEqCmp_compareSlices [Std.LawfulEqCmp compare] :
    Std.LawfulEqCmp (compareSlices compare) :=
  inferInstanceAs (Std.LawfulEqCmp (List.compareLex compare))

instance lawfulEqCmp_compareLabel : Std.LawfulEqCmp compareLabel where
  eq_of_compare {left right} h := by
    cases left
    cases right
    simpa [compareLabel, compareLex_eq_eq, compareField] using h

instance lawfulEqCmp_compareEdit : Std.LawfulEqCmp compareEdit where
  eq_of_compare {left right} h := by
    cases left
    cases right
    simpa [compareEdit, compareLex_eq_eq, compareField] using h

theorem severityRank_injective : Function.Injective severityRank := by
  rintro ⟨⟩ ⟨⟩ ⟨⟩ <;> rfl

theorem applicabilityRank_injective : Function.Injective applicabilityRank := by
  rintro ⟨⟩ ⟨⟩ ⟨⟩ <;> rfl

instance lawfulEqCmp_compareRepair : Std.LawfulEqCmp compareRepair where
  eq_of_compare {left right} h := by
    cases left
    cases right
    simpa [compareRepair, compareLex_eq_eq, compareField, compareOn,
      applicabilityRank_injective.eq_iff] using h

/-- A comparison that left a field out would miss it here. -/
instance lawfulEqCmp_compareDiagnostics : Std.LawfulEqCmp compareDiagnostics where
  eq_of_compare {left right} h := by
    obtain ⟨⟨category⟩, code, severity, primary, message, labels, notes, help, related, repairs⟩ :=
      left
    obtain ⟨⟨category'⟩, code', severity', primary', message', labels', notes', help', related',
      repairs'⟩ := right
    simp only [compareDiagnostics, compareLex_eq_eq, compareField, compareOn,
      Std.LawfulEqCmp.compare_eq_iff_eq, severityRank_injective.eq_iff,
      (Option.map_injective fun _ _ heq ↦ utf8Bytes_injective heq).eq_iff] at h
    simp [h]

end Order

theorem inOrder_trans (first second third : Diagnostic) :
    inOrder first second → inOrder second third → inOrder first third :=
  Std.TransCmp.isLE_trans

theorem inOrder_total (left right : Diagnostic) : (inOrder left right || inOrder right left) = true := by
  unfold inOrder
  rw [@Std.OrientedCmp.eq_swap _ compareDiagnostics _ right]
  cases compareDiagnostics left right <;> rfl

theorem eq_of_inOrder (h : inOrder left right) (h' : inOrder right left) : left = right :=
  Std.LawfulEqCmp.eq_of_compare (Std.OrientedCmp.isLE_antisymm h h')

/-- The same diagnostics, in order. -/
def Canonical (diagnostics output : List Diagnostic) : Prop :=
  (output.Pairwise fun left right ↦ inOrder left right) ∧ output.Perm diagnostics

variable {diagnostics : List Diagnostic}

theorem Canonical.unique (h : Canonical diagnostics output) (h' : Canonical diagnostics' output')
    (hperm : diagnostics.Perm diagnostics') : output = output' :=
  (h.2.trans (hperm.trans h'.2.symm)).eq_of_pairwise
    (fun _ _ _ _ hle hge ↦ eq_of_inOrder hle hge) h.1 h'.1

theorem canonical_sortRun (run : List Diagnostic) : Canonical run (sortRun run) :=
  ⟨pairwise_mergeSort inOrder_trans inOrder_total run, mergeSort_perm run inOrder⟩

/-- Sorted runs that hold the given diagnostics. -/
def RunsOf (diagnostics : List Diagnostic) (runs : List (List Diagnostic)) : Prop :=
  (∀ run ∈ runs, run.Pairwise fun left right ↦ inOrder left right) ∧ runs.flatten.Perm diagnostics

theorem runsOf_sortedRuns {count : ℕ} (h : diagnostics.length ≤ runDiagnostics * count) :
    RunsOf diagnostics (sortedRuns count diagnostics) := by
  induction count generalizing diagnostics with
  | zero =>
    have hnil : diagnostics = [] := eq_nil_of_length_eq_zero (by simpa using h)
    exact ⟨by simp [sortedRuns], by simp [sortedRuns, hnil]⟩
  | succ count ih =>
    obtain ⟨hsorted, hperm⟩ := canonical_sortRun (diagnostics.take runDiagnostics)
    obtain ⟨hrest, hflat⟩ := @ih (diagnostics.drop runDiagnostics) (by
      rw [length_drop, Nat.sub_le_iff_le_add]
      exact h)
    refine ⟨forall_mem_cons.2 ⟨hsorted, hrest⟩, ?_⟩
    calc (sortRun (diagnostics.take runDiagnostics) ++
          (sortedRuns count (diagnostics.drop runDiagnostics)).flatten).Perm
          (diagnostics.take runDiagnostics ++ diagnostics.drop runDiagnostics) := hperm.append hflat
      _ = diagnostics := take_append_drop _ _

theorem RunsOf.mergePairs (h : RunsOf diagnostics runs) : RunsOf diagnostics (mergePairs runs) := by
  obtain ⟨hsorted, hperm⟩ := h
  suffices hmerged : (∀ run ∈ Diagnostics.mergePairs runs,
      run.Pairwise fun left right ↦ inOrder left right) ∧
      (Diagnostics.mergePairs runs).flatten.Perm runs.flatten from
    ⟨hmerged.1, hmerged.2.trans hperm⟩
  clear hperm
  fun_induction Diagnostics.mergePairs runs with
  | case1 => exact ⟨hsorted, .refl _⟩
  | case2 run => exact ⟨hsorted, .refl _⟩
  | case3 left right runs ih =>
    simp only [forall_mem_cons] at hsorted ⊢
    obtain ⟨hleft, hright, hruns⟩ := hsorted
    obtain ⟨hsorted, hperm⟩ := ih hruns
    refine ⟨⟨pairwise_merge inOrder_trans inOrder_total _ _ hleft hright, hsorted⟩, ?_⟩
    simp only [flatten_cons, ← append_assoc]
    exact (merge_perm_append inOrder).append hperm

theorem runsOf_mergeRuns (h : RunsOf diagnostics runs) (hne : runs ≠ []) :
    ∃ run, mergeRuns runs = [run] ∧ Canonical diagnostics run := by
  fun_induction mergeRuns runs with
  | case1 runs hlength ih =>
    refine ih h.mergePairs fun hnil ↦ ?_
    have hpairs := length_mergePairs runs
    rw [hnil, length_nil] at hpairs
    omega
  | case2 runs hlength =>
    have hpositive := length_pos_iff.2 hne
    obtain ⟨run, rfl⟩ := length_eq_one_iff.1 (show runs.length = 1 by omega)
    exact ⟨run, rfl, h.1 run mem_cons_self, by simpa using h.2⟩

theorem canonical_canonicalizeDiagnostics (diagnostics : List Diagnostic) :
    ∃ output, canonicalizeDiagnostics diagnostics = some output ∧ Canonical diagnostics output := by
  unfold canonicalizeDiagnostics
  split
  · rename_i hshort
    refine ⟨diagnostics, rfl, ?_, .refl _⟩
    match diagnostics, hshort with
    | [], _ => exact .nil
    | [diagnostic], _ => exact pairwise_singleton _ _
  · split
    · exact ⟨_, rfl, canonical_sortRun diagnostics⟩
    · rename_i hlong hrun
      set runCount := (diagnostics.length + (runDiagnostics - 1)) / runDiagnostics with hcount
      have hruns : diagnostics.length ≤ runDiagnostics * runCount := by
        rw [hcount, runDiagnostics]
        omega
      obtain ⟨count, hsucc⟩ : ∃ count, runCount = count + 1 :=
        Nat.exists_eq_add_one.2 (Nat.div_pos (by omega) (by decide))
      have hne : sortedRuns runCount diagnostics ≠ [] := hsucc ▸ cons_ne_nil _ _
      obtain ⟨run, hmerged, hcanonical⟩ := runsOf_mergeRuns (runsOf_sortedRuns hruns) hne
      exact ⟨run, by simp only [hmerged, List.getLast?_singleton], hcanonical⟩

/-- The comparison is a total order that tells every two diagnostics apart, and what is put in order
depends only on which diagnostics there are. -/
theorem canonicalizeDiagnostics_canonical (diagnostics : List Diagnostic) :
    (∀ left right, compareDiagnostics left right = .eq ↔ left = right) ∧
    (∀ left right, compareDiagnostics left right = (compareDiagnostics right left).swap) ∧
    (∀ first second third, compareDiagnostics first second ≠ .gt →
      compareDiagnostics second third ≠ .gt → compareDiagnostics first third ≠ .gt) ∧
    ∃ output, canonicalizeDiagnostics diagnostics = some output ∧
      (output.Pairwise fun left right ↦ compareDiagnostics left right ≠ .gt) ∧
      output.Perm diagnostics ∧
      ∀ diagnostics', diagnostics'.Perm diagnostics →
        canonicalizeDiagnostics diagnostics' = some output := by
  have hle (left right : Diagnostic) : compareDiagnostics left right ≠ .gt ↔ inOrder left right := by
    rw [inOrder, Ordering.isLE_iff_ne_gt]
  simp only [hle]
  obtain ⟨output, houtput, hcanonical⟩ := canonical_canonicalizeDiagnostics diagnostics
  refine ⟨fun _ _ ↦ Std.LawfulEqCmp.compare_eq_iff_eq, fun _ _ ↦ Std.OrientedCmp.eq_swap,
    inOrder_trans, output, houtput, hcanonical.1, hcanonical.2, fun diagnostics' hperm ↦ ?_⟩
  obtain ⟨output', houtput', hcanonical'⟩ := canonical_canonicalizeDiagnostics diagnostics'
  rw [houtput', hcanonical'.unique hcanonical hperm]

end Wrela.Diagnostics
