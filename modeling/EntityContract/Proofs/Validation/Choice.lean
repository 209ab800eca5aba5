import Mathlib.Data.Prod.Lex
import Mathlib.Order.Nat
import EntityContract.Proofs.Pairing
import EntityContract.Validation.Walk

/-!
The choice among the variants of a union. Of the variants that fit, the first of the most specific
ones is taken; if none fits, the first of those that come closest is told of.
-/

namespace EntityContract

section Best

variable {α α' β : Type} [LinearOrder β]

/-- At the position stands the first of the best among the elements that are eligible. -/
structure FirstBest (eligible : α → Prop) (rank : α → β) (xs : List α) (position : Nat) (best : α) :
    Prop where
  here : xs[position]? = some best
  eligible_best : eligible best
  le : ∀ {i : Nat} {x : α}, xs[i]? = some x → eligible x → rank x ≤ rank best
  lt : ∀ {i : Nat} {x : α}, i < position → xs[i]? = some x → eligible x → rank x < rank best

/-- The first of the best among the elements that are eligible, or none if no element is. -/
def Champion (eligible : α → Prop) (rank : α → β) (xs : List α) : Option α → Prop
  | some best => ∃ position, FirstBest eligible rank xs position best
  | none => ∀ x ∈ xs, ¬eligible x

variable {eligible : α → Prop} {rank : α → β} {xs : List α} {best x : α} {position : Nat}

theorem FirstBest.mem (h : FirstBest eligible rank xs position best) : best ∈ xs :=
  List.mem_of_getElem? h.here

/-- There is only one first of the best. -/
theorem FirstBest.position_eq (h : FirstBest eligible rank xs position best) {position' : Nat}
    {best' : α} (h' : FirstBest eligible rank xs position' best') : position = position' := by
  rcases lt_trichotomy position position' with hlt | heq | hgt
  · exact absurd (h.le h'.here h'.eligible_best) (not_le.mpr (h'.lt hlt h.here h.eligible_best))
  · exact heq
  · exact absurd (h'.le h.here h.eligible_best) (not_le.mpr (h.lt hgt h'.here h'.eligible_best))

theorem FirstBest.best_eq (h : FirstBest eligible rank xs position best) {position' : Nat}
    {best' : α} (h' : FirstBest eligible rank xs position' best') : best = best' := by
  have hhere := h.here
  rw [h.position_eq h', h'.here, Option.some.injEq] at hhere
  exact hhere.symm

/-- Ranks that compare alike have the same first of the best. -/
theorem FirstBest.rerank {β' : Type} [LinearOrder β'] {rank' : α → β'}
    (h : FirstBest eligible rank xs position best)
    (hrank : ∀ x y, eligible x → eligible y → (rank x < rank y ↔ rank' x < rank' y)) :
    FirstBest eligible rank' xs position best where
  here := h.here
  eligible_best := h.eligible_best
  le := fun hx heligible => not_lt.mp fun hlt =>
    not_lt.mpr (h.le hx heligible) ((hrank _ _ h.eligible_best heligible).mpr hlt)
  lt := fun hi hx heligible => (hrank _ _ heligible h.eligible_best).mp (h.lt hi hx heligible)

/-- Only what is eligible among the elements, and how they rank, matters. -/
theorem FirstBest.congr {eligible' : α → Prop} {rank' : α → β}
    (h : FirstBest eligible rank xs position best)
    (heligible : ∀ x ∈ xs, (eligible x ↔ eligible' x)) (hrank : ∀ x ∈ xs, rank x = rank' x) :
    FirstBest eligible' rank' xs position best where
  here := h.here
  eligible_best := (heligible best h.mem).mp h.eligible_best
  le := fun hx hother => by
    have hmem := List.mem_of_getElem? hx
    rw [← hrank _ hmem, ← hrank _ h.mem]
    exact h.le hx ((heligible _ hmem).mpr hother)
  lt := fun hi hx hother => by
    have hmem := List.mem_of_getElem? hx
    rw [← hrank _ hmem, ← hrank _ h.mem]
    exact h.lt hi hx ((heligible _ hmem).mpr hother)

theorem FirstBest.append (h : FirstBest eligible rank xs position best)
    (hx : eligible x → rank x ≤ rank best) :
    FirstBest eligible rank (xs ++ [x]) position best := by
  have hposition : position < xs.length := (List.getElem?_eq_some_iff.mp h.here).1
  refine ⟨?_, h.eligible_best, fun {i y} hy heligible => ?_, fun {i y} hi hy heligible => ?_⟩
  · rw [List.getElem?_append_left hposition]
    exact h.here
  · rcases List.mem_append.mp (List.mem_of_getElem? hy) with hy | hy
    · obtain ⟨j, hj⟩ := List.mem_iff_getElem?.mp hy
      exact h.le hj heligible
    · rw [List.mem_singleton.mp hy] at heligible ⊢
      exact hx heligible
  · rw [List.getElem?_append_left (by omega)] at hy
    exact h.lt hi hy heligible

theorem firstBest_append (hx : eligible x) (hlt : ∀ y ∈ xs, eligible y → rank y < rank x) :
    FirstBest eligible rank (xs ++ [x]) xs.length x := by
  refine ⟨List.getElem?_concat_length, hx, fun {i y} hy heligible => ?_,
    fun {i y} hi hy heligible => ?_⟩
  · rcases List.mem_append.mp (List.mem_of_getElem? hy) with hy | hy
    · exact (hlt y hy heligible).le
    · rw [List.mem_singleton.mp hy]
  · rw [List.getElem?_append_left hi] at hy
    exact hlt y (List.mem_of_getElem? hy) heligible

theorem Champion.taken {best? : Option α} (h : Champion eligible rank xs best?) (hx : eligible x)
    (hlt : ∀ best ∈ best?, rank best < rank x) : Champion eligible rank (xs ++ [x]) (some x) := by
  refine ⟨xs.length, firstBest_append hx fun y hy heligible => ?_⟩
  cases best? with
  | none => exact absurd heligible (h y hy)
  | some best =>
      obtain ⟨position, hbest⟩ := h
      obtain ⟨i, hi⟩ := List.mem_iff_getElem?.mp hy
      exact (hbest.le hi heligible).trans_lt (hlt best rfl)

theorem Champion.kept {best? : Option α} (h : Champion eligible rank xs best?)
    (hx : eligible x → ∃ best ∈ best?, rank x ≤ rank best) :
    Champion eligible rank (xs ++ [x]) best? := by
  cases best? with
  | none =>
      intro y hy heligible
      rcases List.mem_append.mp hy with hy | hy
      · exact h y hy heligible
      · rw [List.mem_singleton.mp hy] at heligible
        obtain ⟨best, hbest, -⟩ := hx heligible
        exact nomatch hbest
  | some best =>
      obtain ⟨position, hbest⟩ := h
      refine ⟨position, hbest.append fun heligible => ?_⟩
      obtain ⟨_, ⟨⟩, hle⟩ := hx heligible
      exact hle

/-- Lists whose elements are paired with eligible elements of the same rank have their first of the
best at the same position. -/
theorem FirstBest.exists_of_forall₂ {eligible' : α' → Prop} {rank' : α' → β} {xs' : List α'}
    {r : α → α' → Prop} (h : FirstBest eligible rank xs position best)
    (hpairs : List.Forall₂ r xs xs') (heligible : ∀ x x', r x x' → (eligible x ↔ eligible' x'))
    (hrank : ∀ x x', r x x' → rank x = rank' x') :
    ∃ best', r best best' ∧ FirstBest eligible' rank' xs' position best' := by
  have hpaired : ∀ {i : Nat} {x' : α'}, xs'[i]? = some x' → ∃ x, xs[i]? = some x ∧ r x x' := by
    intro i x' hx'
    have hget := Pairing.getElem? hpairs i
    rw [hx'] at hget
    generalize xs[i]? = x? at hget
    cases hget with
    | some hr => exact ⟨_, rfl, hr⟩
  have hbest := Pairing.getElem? hpairs position
  rw [h.here] at hbest
  generalize hhere : xs'[position]? = best'? at hbest
  cases hbest with
  | @some _ best' hr =>
      refine ⟨best', hr, hhere, (heligible _ _ hr).mp h.eligible_best, ?_, ?_⟩
      · intro i x' hx' hother
        obtain ⟨x, hx, hother'⟩ := hpaired hx'
        rw [← hrank _ _ hr, ← hrank _ _ hother']
        exact h.le hx ((heligible _ _ hother').mpr hother)
      · intro i x' hi hx' hother
        obtain ⟨x, hx, hother'⟩ := hpaired hx'
        rw [← hrank _ _ hr, ← hrank _ _ hother']
        exact h.lt hi hx ((heligible _ _ hother').mpr hother)

end Best

namespace Violation

/-- The length of the longest path among violations; zero without violations. -/
def depth (violations : List Violation) : Nat := (violations.map (·.path.length)).foldr max 0

/-- Of two lists of violations the one that goes deeper into the document is closer, and of two that
go equally deep the shorter one. -/
def closeness (violations : List Violation) : Nat ×ₗ Natᵒᵈ :=
  toLex (depth violations, OrderDual.toDual violations.length)

variable {violation : Violation} {violations others : List Violation} {segment : Segment}

theorem depth_cons :
    depth (violation :: violations) = max violation.path.length (depth violations) := rfl

theorem length_le_depth (h : violation ∈ violations) :
    violation.path.length ≤ depth violations := by
  induction violations with
  | nil => exact nomatch h
  | cons other violations ih =>
      rw [depth_cons]
      rcases List.mem_cons.mp h with rfl | h
      · exact le_max_left _ _
      · exact (ih h).trans (le_max_right _ _)

theorem exists_length_eq_depth (h : violations ≠ []) :
    ∃ violation ∈ violations, violation.path.length = depth violations := by
  induction violations with
  | nil => exact absurd rfl h
  | cons first violations ih =>
      rcases le_total (depth violations) first.path.length with hle | hle
      · exact ⟨first, List.mem_cons_self, (max_eq_left hle).symm⟩
      · rcases eq_or_ne violations [] with rfl | hne
        · exact ⟨first, List.mem_cons_self, (max_eq_left (Nat.zero_le _)).symm⟩
        · obtain ⟨violation, hmem, hdepth⟩ := ih hne
          exact ⟨violation, List.mem_cons_of_mem _ hmem, hdepth.trans (max_eq_right hle).symm⟩

theorem depth_under (h : violations ≠ []) :
    depth (violations.map (·.under segment)) = depth violations + 1 := by
  induction violations with
  | nil => exact absurd rfl h
  | cons violation violations ih =>
      rw [List.map_cons, depth_cons, depth_cons]
      rcases eq_or_ne violations [] with rfl | hne
      · simp [depth, Violation.under]
      · rw [ih hne]
        exact Nat.add_max_add_right _ _ 1

/-- Lists of violations at longer paths by the same segment are as close as they were. -/
theorem closeness_lt_closeness_under_iff (h : violations ≠ []) (h' : others ≠ []) :
    closeness (violations.map (·.under segment)) < closeness (others.map (·.under segment)) ↔
      closeness violations < closeness others := by
  rw [closeness, closeness, closeness, closeness, Prod.Lex.toLex_lt_toLex,
    Prod.Lex.toLex_lt_toLex, depth_under h, depth_under h', List.length_map, List.length_map]
  simp

end Violation

namespace Walk

open Violation

/-- What the walk compares first is the depth. -/
theorem deepest_eq {violations : List Violation} (h : violations ≠ []) :
    deepest violations = some (depth violations) := by
  refine List.max?_eq_some_iff.mpr ⟨?_, fun length hlength => ?_⟩
  · obtain ⟨violation, hmem, hdepth⟩ := exists_length_eq_depth h
    exact hdepth ▸ List.mem_map_of_mem hmem
  · obtain ⟨violation, hmem, rfl⟩ := List.mem_map.mp hlength
    exact length_le_depth hmem

theorem deepest_getD (violations : List Violation) :
    (deepest violations).getD 0 = depth violations := by
  rcases eq_or_ne violations [] with rfl | hne
  · rfl
  · rw [deepest_eq hne]
    rfl

theorem outranks_iff {candidate best : List Violation} :
    outranks candidate best = true ↔ closeness best < closeness candidate := by
  rw [outranks, deepest_getD, deepest_getD, closeness, closeness, Prod.Lex.toLex_lt_toLex,
    OrderDual.toDual_lt_toDual]
  cases hcompare : compare (depth candidate) (depth best) with
  | lt =>
      have hlt := Nat.compare_eq_lt.mp hcompare
      exact iff_of_false Bool.false_ne_true (by omega)
  | eq =>
      rw [Nat.compare_eq_eq.mp hcompare]
      simp
  | gt =>
      have hgt := Nat.compare_eq_gt.mp hcompare
      exact iff_of_true rfl (Or.inl hgt)

/-- The selection holds the first of the most specific variants that fit, and the first of those
that come closest. -/
def Selection.Decides (outcome : Variant → Outcome) (score : Variant → Nat) (selection : Selection)
    (tried : List Variant) : Prop :=
  ∃ fitting? failing? : Option Variant,
    Champion (fun variant => (outcome variant).violations = []) score tried fitting? ∧
    Champion (fun variant => (outcome variant).violations ≠ [])
      (fun variant => closeness (outcome variant).violations) tried failing? ∧
    selection = ⟨fitting?.map fun variant =>
        (score variant, variant.label, (outcome variant).output),
      failing?.map fun variant => (variant.label, (outcome variant).violations)⟩

variable {outcome : Variant → Outcome} {score : Variant → Nat} {selection : Selection}
  {tried : List Variant}

theorem Selection.decides_nil : Selection.Decides outcome score ⟨none, none⟩ [] :=
  ⟨none, none, by simp [Champion], by simp [Champion], rfl⟩

theorem Selection.Decides.add (h : selection.Decides outcome score tried) (variant : Variant) :
    (selection.add variant.label (score variant) (outcome variant)).Decides outcome score
      (tried ++ [variant]) := by
  obtain ⟨fitting?, failing?, hfitting, hfailing, rfl⟩ := h
  rw [Selection.add]
  dsimp only
  by_cases hfits : (outcome variant).violations = []
  · have hfailing' := hfailing.kept fun hfails => absurd hfits hfails
    rw [if_pos (List.isEmpty_iff.mpr hfits)]
    split
    · rename_i hlower
      refine ⟨some variant, failing?, hfitting.taken hfits ?_, hfailing', rfl⟩
      rintro best ⟨⟩
      simpa using hlower
    · rename_i hlower
      refine ⟨fitting?, failing?, hfitting.kept fun _ => ?_, hfailing', rfl⟩
      cases fitting? with
      | none => exact absurd rfl hlower
      | some best => exact ⟨best, rfl, by simpa using hlower⟩
  · have hfitting' := hfitting.kept fun hfits' => absurd hfits' hfits
    rw [if_neg (List.isEmpty_iff.not.mpr hfits)]
    split
    · rename_i hlower
      refine ⟨fitting?, some variant, hfitting', hfailing.taken hfits ?_, rfl⟩
      rintro best ⟨⟩
      exact outranks_iff.mp hlower
    · rename_i hlower
      refine ⟨fitting?, failing?, hfitting', hfailing.kept fun _ => ?_, rfl⟩
      cases failing? with
      | none => exact absurd rfl hlower
      | some best => exact ⟨best, rfl, not_lt.mp (outranks_iff.not.mp hlower)⟩

theorem Selection.Decides.foldl (h : selection.Decides outcome score tried)
    (variants : List Variant) :
    (variants.foldl (fun selection variant => selection.add variant.label (score variant)
      (outcome variant)) selection).Decides outcome score (tried ++ variants) := by
  induction variants generalizing selection tried with
  | nil => rwa [List.append_nil]
  | cons variant variants ih =>
      have hadd := ih (h.add variant)
      rwa [List.append_assoc] at hadd

/-- The selection among all variants of a union. -/
theorem decides_checkUnion (arena : Arena) (variants : List Variant) (path : Path) (value : Json)
    (check : Check) :
    ∃ selection : Selection, checkUnion arena variants path value check = selection.outcome value ∧
      selection.Decides (fun variant => check variant.node path)
        (fun variant => specificity arena variant.node value) variants := by
  have hnil : Selection.Decides (fun variant => check variant.node path)
      (fun variant => specificity arena variant.node value) ⟨none, none⟩ [] :=
    Selection.decides_nil
  exact ⟨_, rfl, hnil.foldl variants⟩

variable {arena : Arena} {variants : List Variant} {path : Path} {value : Json} {check : Check}

/-- A union that a variant fits has the outcome of the first of the most specific ones. -/
theorem checkUnion_of_fits (h : ∃ variant ∈ variants, (check variant.node path).violations = []) :
    ∃ position variant, FirstBest (fun variant => (check variant.node path).violations = [])
        (fun variant => specificity arena variant.node value) variants position variant ∧
      checkUnion arena variants path value check =
        ⟨(check variant.node path).output, [], some variant.label⟩ := by
  obtain ⟨_, hunion, fitting?, failing?, hfitting, -, rfl⟩ :=
    decides_checkUnion arena variants path value check
  cases fitting? with
  | none =>
      obtain ⟨variant, hvariant, hfits⟩ := h
      exact absurd hfits (hfitting variant hvariant)
  | some variant =>
      obtain ⟨position, hbest⟩ := hfitting
      exact ⟨position, variant, hbest, hunion⟩

/-- A union that no variant fits has the violations of the first of those that come closest. -/
theorem checkUnion_of_fails (hvariants : variants ≠ [])
    (h : ∀ variant ∈ variants, (check variant.node path).violations ≠ []) :
    ∃ position variant, FirstBest (fun variant => (check variant.node path).violations ≠ [])
        (fun variant => closeness (check variant.node path).violations) variants position variant ∧
      checkUnion arena variants path value check =
        ⟨value, (check variant.node path).violations.map (·.inVariant variant.label), none⟩ := by
  obtain ⟨_, hunion, fitting?, failing?, hfitting, hfailing, rfl⟩ :=
    decides_checkUnion arena variants path value check
  cases fitting? with
  | some fitting =>
      obtain ⟨position, hbest⟩ := hfitting
      exact absurd hbest.eligible_best (h fitting hbest.mem)
  | none =>
      cases failing? with
      | none =>
          obtain ⟨variant, hvariant⟩ := List.exists_mem_of_ne_nil variants hvariants
          exact absurd (h variant hvariant) (hfailing variant hvariant)
      | some variant =>
          obtain ⟨position, hbest⟩ := hfailing
          exact ⟨position, variant, hbest, hunion⟩

end Walk

end EntityContract
