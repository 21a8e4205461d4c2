import Mathlib.Order.WellFoundedSet
import Mathlib.Tactic

/-!
# Forests

Some nodes own others.  When no node has two owners and every node but the roots has one, the nodes
form a forest just in case no chain of owners comes back to where it started: each node then has one
path from a root, and a traversal from any node visits what it owns once.
-/

namespace Wrela.Graph

open List Relation

variable {α : Type*} {owns : α → α → Prop} {root : α → Prop}

/-- A relation without cycles between finitely many nodes is well founded. -/
theorem wellFounded_of_acyclic {nodes : Set α} (hfinite : nodes.Finite)
    (hnodes : ∀ a b, owns a b → a ∈ nodes) (hacyclic : ∀ a, ¬ TransGen owns a a) :
    WellFounded owns := by
  have hstrict : IsStrictOrder α (TransGen owns) :=
    { irrefl := hacyclic
      trans := fun _ _ _ ↦ TransGen.trans }
  have hwellFounded : nodes.WellFoundedOn (TransGen owns) := hfinite.wellFoundedOn
  have hacc : ∀ a ∈ nodes, Acc owns a := fun a ha ↦
    hwellFounded.induction ha fun b _ ih ↦ .intro b fun c hcb ↦ ih c (hnodes c b hcb) (.single hcb)
  exact ⟨fun a ↦ .intro a fun b hba ↦ hacc b (hnodes b a hba)⟩

theorem acyclic_of_wellFounded (h : WellFounded owns) (a : α) : ¬ TransGen owns a a :=
  fun hcycle ↦ h.transGen.irrefl.irrefl a hcycle

/-- The nodes from one up to its root, each owned by the next. -/
inductive PathTo (root : α → Prop) (owns : α → α → Prop) : List α → α → Prop
  | root {a : α} (h : root a) : PathTo root owns [a] a
  | step {path : List α} {a b : α} (h : PathTo root owns path a) (hab : owns a b) :
      PathTo root owns (b :: path) b

section Forest

variable (hunique : ∀ a b c, owns a c → owns b c → a = b) (hroot : ∀ a b, root b → ¬ owns a b)

include hunique hroot

theorem PathTo.unique (h : PathTo root owns path a) (h' : PathTo root owns path' a) :
    path = path' := by
  induction h generalizing path' with
  | root ha =>
    cases h' with
    | root _ => rfl
    | step _ hab => exact absurd hab (hroot _ _ ha)
  | step h hab ih =>
    cases h' with
    | root hb => exact absurd hab (hroot _ _ hb)
    | step h' hab' =>
      obtain rfl := hunique _ _ _ hab hab'
      rw [ih h']

end Forest

theorem exists_pathTo {present : α → Prop} (hwellFounded : WellFounded owns)
    (howner : ∀ b, present b → ¬ root b → ∃ a, present a ∧ owns a b) (a : α) (ha : present a) :
    ∃ path, PathTo root owns path a := by
  induction a using hwellFounded.induction with
  | _ b ih =>
    by_cases hb : root b
    · exact ⟨[b], .root hb⟩
    · obtain ⟨a, hpresent, hab⟩ := howner b ha hb
      obtain ⟨path, hpath⟩ := ih a hab hpresent
      exact ⟨b :: path, .step hpath hab⟩

/-- The nodes above one are in line. -/
theorem ancestors_linear (hunique : ∀ a b c, owns a c → owns b c → a = b)
    (hac : ReflTransGen owns a c) (hbc : ReflTransGen owns b c) :
    ReflTransGen owns a b ∨ ReflTransGen owns b a := by
  induction hac with
  | refl => exact .inr hbc
  | @tail d c had hdc ih =>
    rcases ReflTransGen.cases_tail hbc with rfl | ⟨e, hbe, hec⟩
    · exact .inl (had.tail hdc)
    · obtain rfl := hunique _ _ _ hdc hec
      exact ih hbe

/-- Two nodes with the same owner have nothing in common below them. -/
theorem eq_of_common_descendant (hunique : ∀ a b c, owns a c → owns b c → a = b)
    (hacyclic : ∀ a, ¬ TransGen owns a a) (ha : owns owner a) (hb : owns owner b)
    (hac : ReflTransGen owns a c) (hbc : ReflTransGen owns b c) : a = b := by
  have hbelow : ∀ x y, owns owner x → owns owner y → ReflTransGen owns x y → x = y := by
    intro x y hx hy hxy
    rcases ReflTransGen.cases_tail hxy with rfl | ⟨z, hxz, hzy⟩
    · rfl
    · obtain rfl := hunique _ _ _ hy hzy
      exact absurd (TransGen.head' hx hxz) (hacyclic owner)
  rcases ancestors_linear hunique hac hbc with h | h
  · exact hbelow a b ha hb h
  · exact (hbelow b a hb ha h).symm

/-- A traversal that enters a node before those it owns. -/
def visit (children : α → List α) : ℕ → α → List α
  | 0, _ => []
  | fuel + 1, a => a :: (children a).flatMap (visit children fuel)

/-- From some depth on a traversal is complete, and has every node below its start once. -/
structure Traversed (owns : α → α → Prop) (children : α → List α) (a : α) : Prop where
  complete : ∃ fuel, ∀ more ≥ fuel, visit children more a = visit children fuel a ∧
    (visit children more a).Nodup ∧ ∀ b, b ∈ visit children more a ↔ ReflTransGen owns a b

variable {children : α → List α}

/-- A finite tree is visited completely from some depth on. -/
theorem exists_visit_stable (hacc : Acc (fun b c ↦ b ∈ children c) a) :
    ∃ fuel, ∀ more ≥ fuel, visit children more a = visit children fuel a := by
  induction hacc with
  | intro a _ ih =>
    have hbound : ∀ nodes : List α, (∀ b ∈ nodes, b ∈ children a) →
        ∃ fuel, ∀ b ∈ nodes, ∀ more ≥ fuel, visit children more b = visit children fuel b := by
      intro nodes
      induction nodes with
      | nil => exact fun _ ↦ ⟨0, by simp⟩
      | cons b nodes ihnodes =>
        intro hnodes
        obtain ⟨first, hfirst⟩ := ih b (hnodes b mem_cons_self)
        obtain ⟨second, hsecond⟩ := ihnodes fun c hc ↦ hnodes c (mem_cons_of_mem _ hc)
        refine ⟨max first second, fun c hc more hmore ↦ ?_⟩
        rcases mem_cons.1 hc with rfl | hc
        · rw [hfirst more (le_trans (le_max_left _ _) hmore), hfirst _ (le_max_left _ _)]
        · rw [hsecond c hc more (le_trans (le_max_right _ _) hmore),
            hsecond c hc _ (le_max_right _ _)]
    obtain ⟨fuel, hfuel⟩ := hbound (children a) fun _ ↦ id
    refine ⟨fuel + 1, fun more hmore ↦ ?_⟩
    obtain ⟨more, rfl⟩ := Nat.exists_eq_add_of_lt (Nat.lt_of_lt_of_le (Nat.lt_succ_self fuel) hmore)
    rw [visit, visit]
    congr 1
    exact flatMap_congr fun b hb ↦ hfuel b hb _ (by omega)

theorem reflTransGen_of_mem_visit (hchildren : ∀ a b, b ∈ children a ↔ owns a b)
    (h : b ∈ visit children fuel a) : ReflTransGen owns a b := by
  induction fuel generalizing a with
  | zero => cases h
  | succ fuel ih =>
    rcases mem_cons.1 h with rfl | h
    · exact .refl
    · obtain ⟨c, hc, h⟩ := mem_flatMap.1 h
      exact .head ((hchildren a c).1 hc) (ih h)

theorem nodup_visit (hunique : ∀ a b c, owns a c → owns b c → a = b)
    (hacyclic : ∀ a, ¬ TransGen owns a a) (hchildren : ∀ a b, b ∈ children a ↔ owns a b)
    (hnodup : ∀ a, (children a).Nodup) (fuel : ℕ) (a : α) : (visit children fuel a).Nodup := by
  induction fuel generalizing a with
  | zero => exact nodup_nil
  | succ fuel ih =>
    refine nodup_cons.2 ⟨fun hmem ↦ ?_, nodup_flatMap.2 ⟨fun b _ ↦ ih b, ?_⟩⟩
    · obtain ⟨b, hb, hmem⟩ := mem_flatMap.1 hmem
      exact hacyclic a
        (TransGen.head' ((hchildren a b).1 hb) (reflTransGen_of_mem_visit hchildren hmem))
    · refine (hnodup a).imp_of_mem fun {b c} hb hc hne ↦ ?_
      rw [Function.onFun, disjoint_left]
      intro d hbd hcd
      exact hne (eq_of_common_descendant hunique hacyclic ((hchildren a b).1 hb)
        ((hchildren a c).1 hc) (reflTransGen_of_mem_visit hchildren hbd)
        (reflTransGen_of_mem_visit hchildren hcd))

/-- With enough fuel a traversal comes to everything below its start. -/
theorem exists_mem_visit (hchildren : ∀ a b, b ∈ children a ↔ owns a b) {a b : α}
    (h : ReflTransGen owns a b) : ∃ fuel, ∀ more ≥ fuel, b ∈ visit children more a := by
  induction h using ReflTransGen.head_induction_on with
  | refl =>
    refine ⟨1, fun more hmore ↦ ?_⟩
    obtain ⟨more, rfl⟩ := Nat.exists_eq_add_of_le' hmore
    exact mem_cons_self
  | @head a c hac _ ih =>
    obtain ⟨fuel, hfuel⟩ := ih
    refine ⟨fuel + 1, fun more hmore ↦ ?_⟩
    obtain ⟨more, rfl⟩ := Nat.exists_eq_add_of_le' hmore
    exact mem_cons_of_mem _ (mem_flatMap.2
      ⟨c, (hchildren a c).2 hac, hfuel (more + fuel) (Nat.le_add_left _ _)⟩)

theorem traversed (hunique : ∀ a b c, owns a c → owns b c → a = b)
    (hacyclic : ∀ a, ¬ TransGen owns a a) (hchildren : ∀ a b, b ∈ children a ↔ owns a b)
    (hnodup : ∀ a, (children a).Nodup) (hwellFounded : WellFounded fun b c ↦ b ∈ children c)
    (a : α) : Traversed owns children a := by
  obtain ⟨fuel, hfuel⟩ := exists_visit_stable (hwellFounded.apply a)
  refine ⟨fuel, fun more hmore ↦ ⟨hfuel more hmore,
    nodup_visit hunique hacyclic hchildren hnodup more a, fun b ↦
      ⟨reflTransGen_of_mem_visit hchildren, fun hreached ↦ ?_⟩⟩⟩
  obtain ⟨enough, henough⟩ := exists_mem_visit hchildren hreached
  have hmem := henough (max more enough) (le_max_right _ _)
  rwa [hfuel _ (le_trans hmore (le_max_left _ _)), ← hfuel more hmore] at hmem

end Wrela.Graph
