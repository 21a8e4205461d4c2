import Mathlib.Logic.Basic

/-!
# Runs of stateful fallible code

`Leads run state post fault` says how `run` ends when it begins in `state`: with a value and a state
that satisfy `post`, or with an error that satisfies `fault`.  The rules follow the ways such code is
put together.
-/

namespace Wrela.StateRuns

variable {σ ε α β : Type}

structure Leads (run : StateT σ (Except ε) α) (state : σ) (post : α → σ → Prop) (fault : ε → Prop) :
    Prop where
  ends : ∀ value after, run state = .ok (value, after) → post value after
  fails : ∀ error, run state = .error error → fault error

variable {state : σ} {post mid : α → σ → Prop} {fault : ε → Prop}

theorem Leads.mono (h : Leads run state post fault)
    (himp : ∀ value after, post value after → post' value after) :
    Leads run state post' fault :=
  ⟨fun value after hrun ↦ himp value after (h.ends value after hrun), h.fails⟩

theorem leads_pure (h : post value state) :
    Leads (pure value : StateT σ (Except ε) α) state post fault := by
  constructor
  · intro value' after hrun
    cases hrun
    exact h
  · intro error hrun
    cases hrun

theorem Leads.bind {run : StateT σ (Except ε) α} {next : α → StateT σ (Except ε) β}
    {post : β → σ → Prop} (h : Leads run state mid fault)
    (hnext : ∀ value after, mid value after → Leads (next value) after post fault) :
    Leads (run >>= next) state post fault := by
  have hbind : (run >>= next) state = (run state >>= fun result ↦ next result.1 result.2) := rfl
  cases hrun : run state with
  | ok result =>
    have hafter := hnext result.1 result.2 (h.ends result.1 result.2 hrun)
    rw [hrun] at hbind
    exact ⟨fun value after hok ↦ hafter.ends value after (hbind.symm.trans hok),
      fun error herror ↦ hafter.fails error (hbind.symm.trans herror)⟩
  | error error =>
    rw [hrun] at hbind
    constructor
    · intro value after hok
      cases hbind.symm.trans hok
    · intro error' herror
      cases hbind.symm.trans herror
      exact h.fails error hrun

theorem leads_get {post : σ → σ → Prop} (h : post state state) :
    Leads (get : StateT σ (Except ε) σ) state post fault := by
  constructor
  · intro value after hrun
    cases hrun
    exact h
  · intro error hrun
    cases hrun

/-- Code that begins by reading the state. -/
theorem leads_get_bind {next : σ → StateT σ (Except ε) α} (h : Leads (next state) state post fault) :
    Leads (get >>= next) state post fault := by
  have hget : Leads (get : StateT σ (Except ε) σ) state
      (fun value after ↦ value = state ∧ after = state) fault := leads_get ⟨rfl, rfl⟩
  refine hget.bind fun value after hsame ↦ ?_
  rw [hsame.1, hsame.2]
  exact h

theorem leads_set {after : σ} {post : PUnit → σ → Prop} (h : post ⟨⟩ after) :
    Leads (set after : StateT σ (Except ε) PUnit) state post fault := by
  constructor
  · intro value after' hrun
    cases hrun
    exact h
  · intro error hrun
    cases hrun

theorem leads_modify {f : σ → σ} {post : PUnit → σ → Prop} (h : post ⟨⟩ (f state)) :
    Leads (modify f : StateT σ (Except ε) PUnit) state post fault := by
  constructor
  · intro value after hrun
    cases hrun
    exact h
  · intro error hrun
    cases hrun

/-- Code that begins by changing the state. -/
theorem leads_modify_bind {f : σ → σ} {next : PUnit → StateT σ (Except ε) α}
    (h : Leads (next ⟨⟩) (f state) post fault) : Leads (modify f >>= next) state post fault := by
  have hmodify : Leads (modify f : StateT σ (Except ε) PUnit) state (fun _ after ↦ after = f state)
      fault := leads_modify rfl
  exact hmodify.bind fun _ _ hafter ↦ hafter ▸ h

theorem leads_throw (h : fault error) :
    Leads (throw error : StateT σ (Except ε) α) state post fault := by
  constructor
  · intro value after hrun
    cases hrun
  · intro error' hrun
    cases hrun
    exact h

theorem leads_ite [Decidable condition] (hfirst : condition → Leads first state post fault)
    (hsecond : ¬ condition → Leads second state post fault) :
    Leads (if condition then first else second) state post fault := by
  split
  · exact hfirst ‹_›
  · exact hsecond ‹_›

end Wrela.StateRuns
