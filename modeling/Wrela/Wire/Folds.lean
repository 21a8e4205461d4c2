import Wrela.Wire.Checked

/-!
# Loops that may fail

A loop over a list that stops at the first error, with the rule that carries a property of what was
processed through it.
-/

namespace Wrela.Checked

open List

variable {ε σ α β : Type}

variable {items : List α} {images results : List β} {relation : α → β → Prop}

variable {start final : σ} {step : α → Except ε β}

/-- What each step keeps holds after the whole loop, of all that was processed. -/
theorem foldlM_induction {step : σ → α → Except ε σ}
    (motive : List α → σ → Prop) (hstart : motive [] start)
    (hstep : ∀ done item rest state state', items = done ++ item :: rest → motive done state →
      step state item = .ok state' → motive (done ++ [item]) state')
    (h : items.foldlM step start = .ok final) : motive items final := by
  suffices hsplit : ∀ done rest state, items = done ++ rest → motive done state →
      rest.foldlM step state = .ok final → motive items final from
    hsplit [] items start rfl hstart h
  intro done rest
  induction rest generalizing done with
  | nil =>
    intro state hitems hdone hrest
    cases hrest
    rwa [hitems, append_nil]
  | cons item rest ih =>
    intro state hitems hdone hrest
    rw [foldlM_cons] at hrest
    obtain ⟨state', hitem, hrest⟩ := bind_eq_ok.1 hrest
    exact ih (done ++ [item]) state' (by simp [hitems])
      (hstep done item rest state state' hitems hdone hitem) hrest

/-- A loop whose steps each append to what is seen of the state. -/
theorem foldlM_flatMap {step : σ → α → Except ε σ} (view : σ → List β) (each : α → List β)
    (hstep : ∀ item ∈ items, ∀ state state', step state item = .ok state' →
      view state' = view state ++ each item)
    (h : items.foldlM step start = .ok final) : view final = view start ++ items.flatMap each := by
  refine foldlM_induction (fun done state ↦ view state = view start ++ done.flatMap each)
    (by simp) (fun done item rest state state' hitems hdone hitem ↦ ?_) h
  rw [hstep item (by simp [hitems]) state state' hitem, hdone]
  simp

/-- Replace every item in turn, passing a state along. -/
def threadM (step : α → σ → Except ε (β × σ)) : List α → σ → Except ε (List β × σ)
  | [], state => .ok ([], state)
  | item :: items, state => do
    let (image, state) ← step item state
    let (images, state) ← threadM step items state
    return (image :: images, state)

/-- What each step says of its item and its image, and what it keeps of the state. -/
theorem threadM_forall₂ {step : α → σ → Except ε (β × σ)} (kept : σ → Prop)
    (h : threadM step items start = .ok (images, final)) (hstart : kept start)
    (hstep : ∀ item ∈ items, ∀ state image state', kept state →
      step item state = .ok (image, state') → relation item image ∧ kept state') :
    List.Forall₂ relation items images ∧ kept final := by
  induction items generalizing start images with
  | nil =>
    cases h
    exact ⟨.nil, hstart⟩
  | cons item items ih =>
    obtain ⟨⟨image, middle⟩, himage, h⟩ := bind_eq_ok.1 h
    obtain ⟨⟨rest, last⟩, hrest, h⟩ := bind_eq_ok.1 h
    cases h
    obtain ⟨hrelation, hmiddle⟩ := hstep item mem_cons_self start image middle hstart himage
    obtain ⟨hrelations, hlast⟩ :=
      ih hrest hmiddle fun other hother ↦ hstep other (mem_cons_of_mem _ hother)
    exact ⟨.cons hrelation hrelations, hlast⟩

/-- Two loops one inside the other are one loop over all that the inner ones go through. -/
theorem threadM_flatMap {step : α → σ → Except ε (α × σ)} {outer : β → σ → Except ε (β × σ)}
    {view : β → List α} {items images : List β}
    (houter : ∀ item state image state', outer item state = .ok (image, state') →
      threadM step (view item) state = .ok (view image, state'))
    (h : threadM outer items start = .ok (images, final)) :
    threadM step (items.flatMap view) start = .ok (images.flatMap view, final) := by
  have happend (front back : List α) (state : σ) : threadM step (front ++ back) state = do
      let (images, state) ← threadM step front state
      let (others, state) ← threadM step back state
      return (images ++ others, state) := by
    induction front generalizing state with
    | nil => cases hback : threadM step back state <;> simp [threadM, hback] <;> rfl
    | cons item front ih => simp [threadM, ih]
  induction items generalizing start images with
  | nil =>
    cases h
    rfl
  | cons item items ih =>
    obtain ⟨⟨image, middle⟩, himage, h⟩ := bind_eq_ok.1 h
    obtain ⟨⟨rest, last⟩, hrest, h⟩ := bind_eq_ok.1 h
    cases h
    rw [flatMap_cons, happend, houter _ _ _ _ himage, ok_bind]
    dsimp only
    rw [ih hrest]
    rfl

/-- A loop whose steps leave every item and the state as they are. -/
theorem threadM_fixed {step : α → σ → Except ε (α × σ)} {state : σ}
    (hstep : ∀ item ∈ items, step item state = .ok (item, state)) :
    threadM step items state = .ok (items, state) := by
  induction items with
  | nil => rfl
  | cons item items ih =>
    have hrest := ih fun other hother ↦ hstep other (mem_cons_of_mem _ hother)
    simp only [threadM, hstep item mem_cons_self, hrest, ok_bind]
    rfl

/-- Related steps compose along two lists of the same length. -/
theorem forall₂_trans {γ : Type} {next : β → γ → Prop}
    {both : α → γ → Prop} {first : List α} {second : List β} {third : List γ}
    (hfirst : List.Forall₂ relation first second) (hsecond : List.Forall₂ next second third)
    (htrans : ∀ {item middle image}, relation item middle → next middle image →
      both item image) : List.Forall₂ both first third := by
  induction hfirst generalizing third with
  | nil =>
    obtain rfl := List.forall₂_nil_left_iff.1 hsecond
    exact .nil
  | cons hhead _ ih =>
    obtain ⟨_, _, hnext, hrest, rfl⟩ := List.forall₂_cons_left_iff.1 hsecond
    exact .cons (htrans hhead hnext) (ih hrest)

theorem forall_right_of_forall₂ {p : α → Prop} {q : β → Prop}
    (h : List.Forall₂ relation items images) (hitems : ∀ item ∈ items, p item)
    (hstep : ∀ {item image}, p item → relation item image → q image) :
    ∀ image ∈ images, q image := by
  induction h with
  | nil => exact fun _ hmem ↦ absurd hmem not_mem_nil
  | cons hhead _ ih =>
    rw [forall_mem_cons] at hitems ⊢
    exact ⟨hstep hitems.1 hhead, ih hitems.2⟩

theorem map_eq_map_of_forall₂ {γ : Type} {f : α → γ} {g : β → γ}
    (h : List.Forall₂ (fun item image ↦ g image = f item) items images) :
    images.map g = items.map f := by
  rw [← List.forall₂_eq_eq_eq, List.forall₂_map_left_iff, List.forall₂_map_right_iff]
  exact h.flip

theorem exists_mem_iff_of_forall₂ {p : α → Prop} {q : β → Prop}
    (h : List.Forall₂ relation items images)
    (hstep : ∀ {item image}, relation item image → (q image ↔ p item)) :
    (∃ image ∈ images, q image) ↔ ∃ item ∈ items, p item := by
  induction h with
  | nil => simp
  | cons hhead _ ih => rw [exists_mem_cons_iff, exists_mem_cons_iff, hstep hhead, ih]

theorem length_of_mapM (h : items.mapM step = .ok results) : results.length = items.length :=
  (mapM_eq_ok.1 h).length_eq.symm

theorem exists_result_of_mapM (h : items.mapM step = .ok results) (hitem : item ∈ items) :
    ∃ result, step item = .ok result := by
  have hpairs := mapM_eq_ok.1 h
  clear h
  induction hpairs with
  | nil => cases hitem
  | cons hhead hpairs ih =>
    rcases mem_cons.1 hitem with rfl | hitem
    · exact ⟨_, hhead⟩
    · exact ih hitem

theorem getElem?_of_mapM (h : items.mapM step = .ok results) {index : ℕ} {result : β}
    (hresult : results[index]? = some result) :
    ∃ item, items[index]? = some item ∧ step item = .ok result := by
  have hpairs := mapM_eq_ok.1 h
  clear h
  induction hpairs generalizing index with
  | nil => cases hresult
  | cons hhead hpairs ih =>
    cases index with
    | zero =>
      cases hresult
      exact ⟨_, rfl, hhead⟩
    | succ index => exact ih hresult

end Wrela.Checked

namespace Wrela.FiniteChecks

open List

/-- A property of all elements of a list is decided element by element, also where the type of the
elements is finite and could be searched as a whole. -/
scoped instance (priority := 2000) decidableForallMem {α : Type} {p : α → Prop} [DecidablePred p]
    (items : List α) : Decidable (∀ item ∈ items, p item) :=
  List.decidableBAll p items

end Wrela.FiniteChecks
