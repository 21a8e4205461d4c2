import Mathlib.Tactic

/-!
# Checks in sequence

Fallible code is a sequence of checks in `Except`, each leaving early with its own error.  These
rules turn "the whole sequence succeeded" into the conjunction of its parts.
-/

namespace Wrela.Checked

open List

variable {ε α β : Type}

/-- Leave early with `error` when `bad` holds. -/
def failIf (bad : Bool) (error : ε) : Except ε Unit := if bad then .error error else .ok ()

variable {error : ε} {x : Except ε α} {b : β} {as : List α}

@[simp]
theorem failIf_eq_ok : failIf bad error = .ok () ↔ bad = false := by
  cases bad <;> simp [failIf]

@[simp]
theorem failIf_false : failIf false error = .ok () := rfl

@[simp]
theorem failIf_true : failIf true error = .error error := rfl

variable {f : α → Except ε β}

theorem bind_eq_ok : (x >>= f) = .ok b ↔ ∃ a, x = .ok a ∧ f a = .ok b := by
  cases x <;> simp [bind, Except.bind]

@[simp]
theorem ok_bind : ((.ok a : Except ε α) >>= f) = f a := rfl

@[simp]
theorem error_bind : ((.error error : Except ε α) >>= f) = .error error := rfl

theorem exists_unit {p : Unit → Prop} : (∃ u, p u) ↔ p () := ⟨fun ⟨_, h⟩ ↦ h, fun h ↦ ⟨(), h⟩⟩

/-- The unit-valued case of `bind_eq_ok`, as it appears between two checks. -/
theorem unit_bind_eq_ok {x : Except ε Unit} {f : Unit → Except ε β} :
    (x >>= f) = .ok b ↔ x = .ok () ∧ f () = .ok b := by
  cases x <;> simp [bind, Except.bind]

theorem map_eq_ok {f : α → β} : x.map f = .ok b ↔ ∃ a, x = .ok a ∧ f a = b := by
  cases x <;> simp [Except.map]

theorem mapError_eq_ok {ε' : Type} {f : ε → ε'} {a : α} : x.mapError f = .ok a ↔ x = .ok a := by
  cases x <;> simp [Except.mapError]

/-- Look a value up, leaving early with `error` when it is missing. -/
def orFail (value : Option α) (error : ε) : Except ε α :=
  match value with
  | some a => .ok a
  | none => .error error

@[simp]
theorem orFail_eq_ok : orFail value error = .ok a ↔ value = some a := by
  cases value <;> simp [orFail]

/-- Run a check on every element, leaving at the first failure. -/
def forAll (check : α → Except ε Unit) : List α → Except ε Unit
  | [] => .ok ()
  | a :: as => do
    check a
    forAll check as

theorem forAll_eq_ok : forAll check as = .ok () ↔ ∀ a ∈ as, check a = .ok () := by
  induction as with
  | nil => simp [forAll]
  | cons a as ih => simp [forAll, unit_bind_eq_ok, ih]

theorem mapM_eq_ok : as.mapM f = .ok bs ↔ List.Forall₂ (fun a b ↦ f a = .ok b) as bs := by
  induction as generalizing bs with
  | nil => cases bs <;> simp [pure, Except.pure]
  | cons a as ih =>
    rw [mapM_cons]
    constructor
    · intro h
      obtain ⟨b, hb, h⟩ := bind_eq_ok.1 h
      obtain ⟨rest, hrest, h⟩ := bind_eq_ok.1 h
      cases h
      exact .cons hb (ih.1 hrest)
    · rintro (_ | ⟨hb, hrest⟩)
      exact bind_eq_ok.2 ⟨_, hb, bind_eq_ok.2 ⟨_, ih.2 hrest, rfl⟩⟩

theorem exists_of_mem_mapM (h : as.mapM f = .ok bs) (hb : b ∈ bs) : ∃ a ∈ as, f a = .ok b := by
  have hpairs := mapM_eq_ok.1 h
  induction hpairs with
  | nil => cases hb
  | cons hhead hpairs ih =>
    rcases mem_cons.1 hb with rfl | hb
    · exact ⟨_, mem_cons_self, hhead⟩
    · obtain ⟨a, ha, heq⟩ := ih (mapM_eq_ok.2 hpairs) hb
      exact ⟨a, mem_cons_of_mem _ ha, heq⟩

/-- A check on every numbered element that always succeeds. -/
theorem mapM_mapIdx_eq_ok {γ : Type} {f : β → Except ε γ} {g : ℕ → α → β} {k : α → γ}
    (h : ∀ index a, as[index]? = some a → f (g index a) = .ok (k a)) :
    (as.mapIdx g).mapM f = .ok (as.map k) := by
  induction as generalizing g with
  | nil => rfl
  | cons a as ih =>
    have hrest := @ih (fun index ↦ g (index + 1)) fun index a' ha' ↦ h (index + 1) a' ha'
    rw [mapIdx_cons, mapM_cons, h 0 a rfl, hrest]
    rfl

end Wrela.Checked
