import Mathlib.Tactic

/-!
# Tasks tried in rounds

A list of tasks is tried round after round.  A task that is not ready is kept for the next round; a
task that is ready changes the state once and tells whether it may have made others ready.  The
rounds end when none of the tasks of a round tells so.

Whatever the order of the list, the tasks that were done are a run: each was ready in its turn, and
none of those left is ready at the end.  Conversely every run is the start of the rounds over some
order of the list.  When two tasks that are ready together can be done in either order, all orders
of the list end alike.
-/

namespace Wrela.Worklist

open List

variable {τ σ : Type}

/-- What a ready task does: the state it leaves, and whether it may have made other tasks ready. -/
structure Effect (σ : Type) where
  progress : Bool
  state : σ

/-- The end of a round: whether there was progress, the tasks that were not ready, and the state. -/
structure Round (τ σ : Type) where
  progress : Bool
  left : List τ
  state : σ

section Rounds

variable (attempt : σ → τ → Option (Effect σ))

/-- Try every task once, in order. -/
def sweep : List τ → σ → Round τ σ
  | [], state => ⟨false, [], state⟩
  | task :: tasks, state =>
    match attempt state task with
    | none =>
      let round := sweep tasks state
      ⟨round.progress, task :: round.left, round.state⟩
    | some effect =>
      let round := sweep tasks effect.state
      ⟨effect.progress || round.progress, round.left, round.state⟩

/-- Rounds over the tasks that are left, until there are none or a round makes no progress. -/
def rounds : ℕ → List τ → σ → Option (List τ × σ)
  | 0, _, _ => none
  | fuel + 1, tasks, state =>
    if tasks.isEmpty then some ([], state)
    else
      let round := sweep attempt tasks state
      if round.left.isEmpty || !round.progress then some (round.left, round.state)
      else rounds fuel round.left round.state

/-- The tasks done one after the other, each of them ready in its turn. -/
def run : List τ → σ → Option σ
  | [], state => some state
  | task :: tasks, state =>
    match attempt state task with
    | none => none
    | some effect => run tasks effect.state

end Rounds

section Runs

variable {attempt : σ → τ → Option (Effect σ)}

@[simp]
theorem run_nil (state : σ) : run attempt [] state = some state := rfl

variable {state : σ}

theorem run_cons_eq_some :
    run attempt (task :: tasks) state = some final ↔
      ∃ effect, attempt state task = some effect ∧ run attempt tasks effect.state = some final := by
  cases h : attempt state task <;> simp [run, h]

theorem run_append_eq_some :
    run attempt (first ++ second) state = some final ↔
      ∃ middle, run attempt first state = some middle ∧ run attempt second middle = some final := by
  induction first generalizing state with
  | nil => simp
  | cons task first ih =>
    simp only [cons_append, run_cons_eq_some, ih]
    constructor
    · rintro ⟨effect, heffect, middle, hfirst, hsecond⟩
      exact ⟨middle, ⟨effect, heffect, hfirst⟩, hsecond⟩
    · rintro ⟨middle, ⟨effect, heffect, hfirst⟩, hsecond⟩
      exact ⟨effect, heffect, middle, hfirst, hsecond⟩

theorem run_append_singleton (hrun : run attempt tasks state = some middle)
    (htask : attempt middle task = some effect) :
    run attempt (tasks ++ [task]) state = some effect.state :=
  run_append_eq_some.2 ⟨middle, hrun, run_cons_eq_some.2 ⟨effect, htask, rfl⟩⟩

/-- The tasks done in a round are a run. -/
theorem exists_run_sweep (attempt : σ → τ → Option (Effect σ)) (tasks : List τ) (state : σ) :
    ∃ done, run attempt done state = some (sweep attempt tasks state).state ∧
      (done ++ (sweep attempt tasks state).left).Perm tasks ∧
      ((sweep attempt tasks state).progress = true → done ≠ []) := by
  induction tasks generalizing state with
  | nil => exact ⟨[], rfl, .nil, by simp [sweep]⟩
  | cons task tasks ih =>
    cases htask : attempt state task with
    | none =>
      obtain ⟨done, hrun, hperm, hprogress⟩ := ih state
      simp only [sweep, htask]
      exact ⟨done, hrun, perm_middle.trans (hperm.cons task), hprogress⟩
    | some effect =>
      obtain ⟨done, hrun, hperm, -⟩ := ih effect.state
      simp only [sweep, htask]
      exact ⟨task :: done, run_cons_eq_some.2 ⟨effect, htask, hrun⟩, hperm.cons task, by simp⟩

theorem length_left_lt (h : (sweep attempt tasks state).progress = true) :
    (sweep attempt tasks state).left.length < tasks.length := by
  obtain ⟨done, -, hperm, hprogress⟩ := exists_run_sweep attempt tasks state
  have hlength := hperm.length_eq
  have hpositive := length_pos_of_ne_nil (hprogress h)
  rw [length_append] at hlength
  omega

/-- The rounds end. -/
theorem isSome_rounds (hfuel : tasks.length < fuel) : (rounds attempt fuel tasks state).isSome := by
  induction fuel generalizing tasks state with
  | zero => exact absurd hfuel (Nat.not_lt_zero _)
  | succ fuel ih =>
    rw [rounds]
    split
    · rfl
    · dsimp only
      split
      · rfl
      · rename_i hgoes
        rw [Bool.or_eq_true, not_or, Bool.not_eq_true', Bool.not_eq_false] at hgoes
        exact ih (by have := length_left_lt hgoes.2; omega)

/-- A run at the start of the list is done in the first round. -/
theorem sweep_append_of_run (rest : List τ) (h : run attempt done state = some middle) :
    (sweep attempt (done ++ rest) state).left = (sweep attempt rest middle).left ∧
      (sweep attempt (done ++ rest) state).state = (sweep attempt rest middle).state := by
  induction done generalizing state with
  | nil =>
    cases h
    exact ⟨rfl, rfl⟩
  | cons task done ih =>
    obtain ⟨effect, htask, hrun⟩ := run_cons_eq_some.1 h
    simp only [cons_append, sweep, htask]
    exact ih hrun

end Runs

/-- `same` states are not told apart, a task that is ready stays so, and only a task that says so
makes others ready. -/
structure Laws (attempt : σ → τ → Option (Effect σ)) (same : σ → σ → Prop) : Prop where
  equivalence : Equivalence same
  respects : ∀ {state state' : σ} {task : τ} {effect : Effect σ}, same state state' →
    attempt state task = some effect →
      ∃ effect', attempt state' task = some effect' ∧ same effect.state effect'.state
  persistent : ∀ {state : σ} {task other : τ} {effect : Effect σ}, attempt state task = some effect →
    (attempt state other).isSome → (attempt effect.state other).isSome
  quiet : ∀ {state : σ} {task other : τ} {effect : Effect σ}, attempt state task = some effect →
    effect.progress = false → attempt state other = none → attempt effect.state other = none

section Laws

variable {attempt : σ → τ → Option (Effect σ)} {same : σ → σ → Prop}

variable {state final : σ}

section

variable (laws : Laws attempt same)
include laws

theorem Laws.run_respects (hsame : same state state') (h : run attempt tasks state = some final) :
    ∃ final', run attempt tasks state' = some final' ∧ same final final' := by
  induction tasks generalizing state state' with
  | nil =>
    cases h
    exact ⟨state', rfl, hsame⟩
  | cons task tasks ih =>
    obtain ⟨effect, htask, hrun⟩ := run_cons_eq_some.1 h
    obtain ⟨effect', htask', hsame'⟩ := laws.respects hsame htask
    obtain ⟨final', hrun', hfinal⟩ := ih hsame' hrun
    exact ⟨final', run_cons_eq_some.2 ⟨effect', htask', hrun'⟩, hfinal⟩

theorem Laws.none_respects (hsame : same state state') (h : attempt state task = none) :
    attempt state' task = none := by
  cases htask : attempt state' task with
  | none => rfl
  | some effect =>
    obtain ⟨effect', htask', -⟩ := laws.respects (laws.equivalence.symm hsame) htask
    rw [h] at htask'
    cases htask'

/-- A round without progress leaves every task as it was. -/
theorem Laws.sweep_quiet (h : (sweep attempt tasks state).progress = false)
    (hother : attempt state other = none) :
    attempt (sweep attempt tasks state).state other = none := by
  induction tasks generalizing state with
  | nil => exact hother
  | cons task tasks ih =>
    cases htask : attempt state task with
    | none =>
      simp only [sweep, htask] at h ⊢
      exact ih h hother
    | some effect =>
      simp only [sweep, htask, Bool.or_eq_false_iff] at h ⊢
      exact ih h.2 (laws.quiet htask h.1 hother)

theorem Laws.left_not_ready (h : (sweep attempt tasks state).progress = false) :
    ∀ task ∈ (sweep attempt tasks state).left,
      attempt (sweep attempt tasks state).state task = none := by
  induction tasks generalizing state with
  | nil => simp [sweep]
  | cons task tasks ih =>
    cases htask : attempt state task with
    | none =>
      simp only [sweep, htask, forall_mem_cons] at h ⊢
      exact ⟨laws.sweep_quiet h htask, ih h⟩
    | some effect =>
      simp only [sweep, htask, Bool.or_eq_false_iff] at h ⊢
      exact ih h.2

/-- What the rounds leave: a run, and no ready task. -/
theorem Laws.rounds_run (h : rounds attempt fuel tasks state = some (left, final)) :
    ∃ done, run attempt done state = some final ∧ (done ++ left).Perm tasks ∧
      ∀ task ∈ left, attempt final task = none := by
  induction fuel generalizing tasks state with
  | zero => cases h
  | succ fuel ih =>
    rw [rounds] at h
    split at h
    · rename_i hempty
      cases h
      rw [List.isEmpty_iff] at hempty
      exact ⟨[], rfl, by rw [hempty]; exact .nil, by simp⟩
    · obtain ⟨done, hrun, hperm, -⟩ := exists_run_sweep attempt tasks state
      dsimp only at h
      split at h
      · rename_i hends
        cases h
        refine ⟨done, hrun, hperm, ?_⟩
        rw [Bool.or_eq_true, List.isEmpty_iff, Bool.not_eq_true'] at hends
        rcases hends with hempty | hquiet
        · simp [hempty]
        · exact laws.left_not_ready hquiet
      · obtain ⟨more, hmore, hperm', hfinal⟩ := ih h
        refine ⟨done ++ more, run_append_eq_some.2 ⟨_, hrun, hmore⟩, ?_, hfinal⟩
        rw [append_assoc]
        exact (hperm'.append_left done).trans hperm

/-- Every run is the start of what the rounds do over some order of the tasks. -/
theorem Laws.rounds_of_run (hrun : run attempt done state = some middle)
    (h : rounds attempt fuel (done ++ rest) state = some (left, final)) :
    ∃ more, run attempt more middle = some final ∧ (more ++ left).Perm rest ∧
      ∀ task ∈ left, attempt final task = none := by
  cases fuel with
  | zero => cases h
  | succ fuel =>
    obtain ⟨hleft, hstate⟩ := sweep_append_of_run rest hrun
    obtain ⟨more, hmore, hperm, -⟩ := exists_run_sweep attempt rest middle
    rw [rounds] at h
    split at h
    · rename_i hempty
      cases h
      rw [List.isEmpty_iff, append_eq_nil_iff] at hempty
      obtain ⟨rfl, rfl⟩ := hempty
      cases hrun
      exact ⟨[], rfl, .nil, by simp⟩
    · dsimp only at h
      split at h
      · rename_i hends
        cases h
        rw [hleft, hstate]
        refine ⟨more, hmore, hperm, ?_⟩
        rw [Bool.or_eq_true, List.isEmpty_iff, Bool.not_eq_true'] at hends
        rcases hends with hempty | hquiet
        · simp [← hleft, hempty]
        · have hlaw := laws.left_not_ready hquiet
          rwa [hleft, hstate] at hlaw
      · rw [hleft, hstate] at h
        obtain ⟨later, hlater, hperm', hfinal⟩ := laws.rounds_run h
        refine ⟨more ++ later, run_append_eq_some.2 ⟨_, hmore, hlater⟩, ?_, hfinal⟩
        rw [append_assoc]
        exact (hperm'.append_left more).trans hperm

end

end Laws

/-- In every state that a run over the tasks reaches, two tasks that are both ready can be done in
either order. -/
def Commuting (attempt : σ → τ → Option (Effect σ)) (same : σ → σ → Prop) (tasks : List τ)
    (start : σ) : Prop :=
  ∀ {done : List τ} {state : σ} {first second : τ} {effect effect' later later' : Effect σ},
    run attempt done start = some state → (done ++ [first, second]).Nodup →
    done ++ [first, second] ⊆ tasks → attempt state first = some effect →
    attempt state second = some effect' → attempt effect.state second = some later →
    attempt effect'.state first = some later' → same later.state later'.state

section Commuting

variable {attempt : σ → τ → Option (Effect σ)} {same : σ → σ → Prop} {tasks : List τ} {start : σ}

/-- A ready task can be moved to the start of a run that leaves no ready task. -/
theorem Laws.run_erase [DecidableEq τ] (laws : Laws attempt same)
    (hcommute : Commuting attempt same tasks start) (hdone : run attempt done start = some state)
    (hnodup : (done ++ more).Nodup) (hsubset : done ++ more ⊆ tasks) (hmem : task ∈ tasks)
    (hfresh : task ∉ done) (htask : attempt state task = some effect)
    (hmore : run attempt more state = some final) (hfinal : task ∉ more → attempt final task = none)
    :
    task ∈ more ∧ ∃ final', run attempt (more.erase task) effect.state = some final' ∧
      same final final' := by
  induction more generalizing done state effect with
  | nil =>
    cases hmore
    rw [hfinal (by simp)] at htask
    cases htask
  | cons other more ih =>
    obtain ⟨effect', hother, hrest⟩ := run_cons_eq_some.1 hmore
    by_cases heq : other = task
    · subst heq
      rw [htask] at hother
      cases hother
      exact ⟨mem_cons_self, final, by rwa [erase_cons_head], laws.equivalence.refl _⟩
    · obtain ⟨later', hlater'⟩ := Option.isSome_iff_exists.1
        (laws.persistent hother (Option.isSome_iff_exists.2 ⟨effect, htask⟩))
      obtain ⟨later, hlater⟩ := Option.isSome_iff_exists.1
        (laws.persistent htask (Option.isSome_iff_exists.2 ⟨effect', hother⟩))
      have hsame : same later'.state later.state :=
        hcommute hdone (by grind [nodup_append]) (by grind) hother htask hlater' hlater
      obtain ⟨hin, final', hfinal', hsame'⟩ := ih (run_append_singleton hdone hother)
        (by simpa using hnodup) (by simpa using hsubset)
        (by simp [hfresh, Ne.symm heq]) hlater' hrest
        (fun hnot ↦ hfinal (by simp [hnot, Ne.symm heq]))
      obtain ⟨final'', hfinal'', hsame''⟩ := laws.run_respects hsame hfinal'
      refine ⟨mem_cons_of_mem _ hin, final'', ?_, laws.equivalence.trans hsame' hsame''⟩
      rw [erase_cons_tail (by simpa using heq)]
      exact run_cons_eq_some.2 ⟨later, hlater, hfinal''⟩

/-- Two runs that leave no ready task do the same tasks and end in the same state. -/
theorem Laws.run_unique [DecidableEq τ] (laws : Laws attempt same)
    (hcommute : Commuting attempt same tasks start) (hdone : run attempt done start = some state)
    (hfirst : run attempt first state = some final)
    (hsecond : run attempt second state = some final') (hnodup : (done ++ first).Nodup)
    (hnodup' : (done ++ second).Nodup) (hsubset : done ++ first ⊆ tasks)
    (hsubset' : done ++ second ⊆ tasks)
    (hfinal : ∀ task ∈ tasks, task ∉ done ++ first → attempt final task = none)
    (hfinal' : ∀ task ∈ tasks, task ∉ done ++ second → attempt final' task = none) :
    first.Perm second ∧ same final final' := by
  induction first generalizing done second state final' with
  | nil =>
    cases hfirst
    cases second with
    | nil =>
      cases hsecond
      exact ⟨.nil, laws.equivalence.refl _⟩
    | cons task second =>
      obtain ⟨effect, htask, -⟩ := run_cons_eq_some.1 hsecond
      rw [hfinal task (hsubset' (by simp)) (by grind [nodup_append])] at htask
      cases htask
  | cons task first ih =>
    obtain ⟨effect, htask, hrest⟩ := run_cons_eq_some.1 hfirst
    obtain ⟨hin, final'', hsecond', hsame⟩ := laws.run_erase hcommute hdone hnodup' hsubset'
      (hsubset (by simp)) (by grind [nodup_append]) htask hsecond fun hnot ↦
        hfinal' task (hsubset (by simp)) (by grind [nodup_append])
    have hperm : second.Perm (task :: second.erase task) := perm_cons_erase hin
    have hperm' : (done ++ second).Perm ((done ++ [task]) ++ second.erase task) := by
      rw [append_assoc]
      exact hperm.append_left done
    obtain ⟨hdoes, hends⟩ := ih (run_append_singleton hdone htask) hrest hsecond'
      (by simpa using hnodup) (hperm'.nodup hnodup') (by simpa using hsubset)
      (fun other hother ↦ hsubset' (hperm'.mem_iff.2 hother))
      (fun other hother hnot ↦ hfinal other hother (by simpa using hnot))
      (fun other hother hnot ↦ laws.none_respects hsame
        (hfinal' other hother fun hmem ↦ hnot (hperm'.mem_iff.1 hmem)))
    exact ⟨(hdoes.cons task).trans hperm.symm,
      laws.equivalence.trans hends (laws.equivalence.symm hsame)⟩

end Commuting

end Wrela.Worklist
