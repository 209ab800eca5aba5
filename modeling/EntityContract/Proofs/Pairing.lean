import Mathlib.Data.List.Forall2

/-!
Lists related element by element, where the relation is known of the elements only.
-/

namespace EntityContract.Pairing

variable {α β γ : Type} {r : α → β → Prop} {xs : List α} {ys : List β}

theorem exists_of_mem_left (h : List.Forall₂ r xs ys) {x : α} (hx : x ∈ xs) : ∃ y ∈ ys, r x y := by
  induction h with
  | nil => exact nomatch hx
  | cons hhead _ ih =>
      rcases List.mem_cons.mp hx with rfl | hx
      · exact ⟨_, List.mem_cons_self, hhead⟩
      · obtain ⟨y, hy, hr⟩ := ih hx
        exact ⟨y, List.mem_cons_of_mem _ hy, hr⟩

theorem exists_of_mem_right (h : List.Forall₂ r xs ys) {y : β} (hy : y ∈ ys) : ∃ x ∈ xs, r x y :=
  exists_of_mem_left h.flip hy

theorem exists_of_forall_mem {xs : List α} (h : ∀ x ∈ xs, ∃ y, r x y) :
    ∃ ys, List.Forall₂ r xs ys := by
  induction xs with
  | nil => exact ⟨[], .nil⟩
  | cons x xs ih =>
      rw [List.forall_mem_cons] at h
      obtain ⟨⟨y, hy⟩, htail⟩ := h
      obtain ⟨ys, hys⟩ := ih htail
      exact ⟨y :: ys, .cons hy hys⟩

theorem mono {s : α → β → Prop} (h : List.Forall₂ r xs ys)
    (hrs : ∀ x ∈ xs, ∀ y ∈ ys, r x y → s x y) : List.Forall₂ s xs ys := by
  induction h with
  | nil => exact .nil
  | cons hhead _ ih =>
      exact .cons (hrs _ List.mem_cons_self _ List.mem_cons_self hhead)
        (ih fun x hx y hy => hrs x (List.mem_cons_of_mem _ hx) y (List.mem_cons_of_mem _ hy))

theorem symm {s : β → α → Prop} (h : List.Forall₂ r xs ys)
    (hrs : ∀ x ∈ xs, ∀ y ∈ ys, r x y → s y x) : List.Forall₂ s ys xs :=
  (mono h hrs).flip

theorem trans {zs : List γ} {s : β → γ → Prop} {t : α → γ → Prop} (h : List.Forall₂ r xs ys)
    (h' : List.Forall₂ s ys zs) (hrst : ∀ x ∈ xs, ∀ y z, r x y → s y z → t x z) :
    List.Forall₂ t xs zs := by
  induction h generalizing zs with
  | nil =>
      cases h'
      exact .nil
  | cons hhead _ ih =>
      cases h' with
      | cons hhead' htail' =>
          exact .cons (hrst _ List.mem_cons_self _ _ hhead hhead')
            (ih htail' fun x hx => hrst x (List.mem_cons_of_mem _ hx))

/-- Folds over paired lists that take the same steps. -/
theorem foldl_eq {f : γ → α → γ} {g : γ → β → γ} (h : List.Forall₂ r xs ys)
    (hstep : ∀ x ∈ xs, ∀ y ∈ ys, r x y → ∀ z, f z x = g z y) (z : γ) :
    xs.foldl f z = ys.foldl g z := by
  induction h generalizing z with
  | nil => rfl
  | cons hhead _ ih =>
      rw [List.foldl_cons, List.foldl_cons,
        hstep _ List.mem_cons_self _ List.mem_cons_self hhead]
      exact ih (fun x hx y hy =>
        hstep x (List.mem_cons_of_mem _ hx) y (List.mem_cons_of_mem _ hy)) _

/-- Lists that are paired with related lists are related. -/
theorem square {α' β' : Type} {r' : α' → β' → Prop} {s : β → β' → Prop} {t : α → α' → Prop}
    {xs' : List α'} {ys' : List β'} (h : List.Forall₂ r xs ys) (h' : List.Forall₂ r' xs' ys')
    (hs : List.Forall₂ s ys ys')
    (hsquare : ∀ x x', ∀ y ∈ ys, ∀ y' ∈ ys', r x y → r' x' y' → s y y' → t x x') :
    List.Forall₂ t xs xs' := by
  induction h generalizing xs' ys' with
  | nil =>
      cases hs
      cases h'
      exact .nil
  | cons hhead _ ih =>
      cases hs with
      | cons hshead hs =>
          cases h' with
          | cons hhead' h' =>
              exact .cons
                (hsquare _ _ _ List.mem_cons_self _ List.mem_cons_self hhead hhead' hshead)
                (ih h' hs fun x x' y hy y' hy' =>
                  hsquare x x' y (List.mem_cons_of_mem _ hy) y' (List.mem_cons_of_mem _ hy'))

theorem zipWith3 {δ : Type} {f : β → γ → α → δ} {zs : List γ} {s : α → γ → Prop}
    {t : α → δ → Prop} (h : List.Forall₂ r xs ys) (h' : List.Forall₂ s xs zs)
    (hf : ∀ x ∈ xs, ∀ y z, r x y → s x z → t x (f y z x)) :
    List.Forall₂ t xs (List.zipWith3 f ys zs xs) := by
  induction h generalizing zs with
  | nil =>
      cases h'
      exact .nil
  | cons hhead _ ih =>
      cases h' with
      | cons hhead' htail' =>
          exact .cons (hf _ List.mem_cons_self _ _ hhead hhead')
            (ih htail' fun x hx => hf x (List.mem_cons_of_mem _ hx))

theorem zipWith3_map {δ ε : Type} {f : β → γ → ε → δ} {g : β → γ → α → δ} {k : α → ε}
    {zs : List γ} {s : α → γ → Prop} (h : List.Forall₂ r xs ys) (h' : List.Forall₂ s xs zs)
    (hf : ∀ x y z, r x y → s x z → f y z (k x) = g y z x) :
    List.zipWith3 f ys zs (xs.map k) = List.zipWith3 g ys zs xs := by
  induction h generalizing zs with
  | nil =>
      cases h'
      rfl
  | cons hhead _ ih =>
      cases h' with
      | cons hhead' htail' =>
          rw [List.map_cons, List.zipWith3, List.zipWith3, hf _ _ _ hhead hhead', ih htail']

theorem getElem? (h : List.Forall₂ r xs ys) (index : Nat) : Option.Rel r xs[index]? ys[index]? := by
  induction h generalizing index with
  | nil => exact .none
  | cons hhead _ ih =>
      cases index with
      | zero => exact .some hhead
      | succ index => exact ih index

theorem bind {α' β' : Type} {s : α' → β' → Prop} {x? : Option α} {y? : Option β}
    {f : α → Option α'} {g : β → Option β'} (h : Option.Rel r x? y?)
    (hfg : ∀ x y, r x y → Option.Rel s (f x) (g y)) : Option.Rel s (x?.bind f) (y?.bind g) := by
  cases h with
  | none => exact .none
  | some hxy => exact hfg _ _ hxy

end EntityContract.Pairing
