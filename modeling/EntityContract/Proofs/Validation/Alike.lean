import EntityContract.Proofs.Validation.Faults
import EntityContract.Proofs.Validator

/-!
Outcomes that tell the same: violations of the same kinds at the same paths, and the same label.
Which values the violations show, and what is made of the checked ones, may differ. Unions choose
among alike variants alike, as they go by the depth and the number of the violations.
-/

namespace EntityContract

namespace Violation

/-- Where something is wrong, and what kind of thing. -/
def gist (violation : Violation) : Path × ConstraintKind := (violation.path, violation.fault.kind)

theorem map_gist_inVariant (label : String) (violations : List Violation) :
    (violations.map (·.inVariant label)).map gist = violations.map gist := by
  rw [List.map_map]
  rfl

/-- Violations are gathered from faults that tell the same into violations that do. -/
theorem map_gist_gather {faults others : List (Segment × List Violation)}
    (h : faults.map (fun fault => (fault.1, fault.2.map gist)) =
      others.map fun fault => (fault.1, fault.2.map gist)) :
    (gather faults).map gist = (gather others).map gist := by
  have hgather : ∀ faults : List (Segment × List Violation), (gather faults).map gist =
      (faults.map fun fault => (fault.1, fault.2.map gist)).flatMap fun fault =>
        fault.2.map fun told => (fault.1 :: told.1, told.2) := by
    intro faults
    simp only [gather, List.map_flatMap, List.flatMap_map, List.map_map]
    rfl
  rw [hgather, hgather, h]

/-- Violations that tell the same are equally close. -/
theorem closeness_eq_of_gists {violations others : List Violation}
    (h : violations.map gist = others.map gist) : closeness violations = closeness others := by
  have hlength : violations.length = others.length := by
    rw [← List.length_map (f := gist), h, List.length_map]
  have hdepth : depth violations = depth others := by
    have hpaths := congrArg (List.map fun told : Path × ConstraintKind => told.1.length) h
    rw [List.map_map, List.map_map] at hpaths
    exact congrArg (List.foldr max 0) hpaths
  rw [closeness, closeness, hlength, hdepth]

end Violation

/-- Outcomes that tell the same of the same places. -/
structure Outcome.Alike (outcome other : Outcome) : Prop where
  gists : outcome.violations.map (·.gist) = other.violations.map (·.gist)
  label_eq : outcome.label? = other.label?

namespace Outcome

variable {outcome other : Outcome}

theorem Alike.refl (outcome : Outcome) : outcome.Alike outcome := ⟨rfl, rfl⟩

theorem Alike.accepts_iff (h : outcome.Alike other) :
    outcome.violations = [] ↔ other.violations = [] := by
  rw [← List.map_eq_nil_iff (f := Violation.gist), h.gists, List.map_eq_nil_iff]

theorem alike_reject {path : Path} (value other : Json) {fault fault' : Fault}
    (h : fault.kind = fault'.kind) : (reject path value fault).Alike (reject path other fault') :=
  ⟨congrArg (fun kind => [(path, kind)]) h, rfl⟩

end Outcome

namespace Walk

variable {arena : Arena} {path : Path} {value other : Json}

section Union

variable {variants : List Variant} {check check' : Check}
  (halike : ∀ variant ∈ variants, (check variant.node path).Alike (check' variant.node path))

include halike

/-- Of variants that are alike for two values, the same one is the most specific that fits. -/
theorem exists_fitting_alike
    (hscore : ∀ variant ∈ variants,
      specificity arena variant.node value = specificity arena variant.node other)
    (hfits : ∃ variant ∈ variants, (check variant.node path).violations = []) :
    ∃ variant ∈ variants, (check variant.node path).violations = [] ∧
      checkUnion arena variants path value check =
        ⟨(check variant.node path).output, [], some variant.label⟩ ∧
      checkUnion arena variants path other check' =
        ⟨(check' variant.node path).output, [], some variant.label⟩ := by
  have hfits' : ∃ variant ∈ variants, (check' variant.node path).violations = [] :=
    hfits.imp fun variant h => ⟨h.1, (halike variant h.1).accepts_iff.mp h.2⟩
  obtain ⟨position, variant, hbest, hunion⟩ :=
    @checkUnion_of_fits arena variants path value check hfits
  obtain ⟨position', variant', hbest', hunion'⟩ :=
    @checkUnion_of_fits arena variants path other check' hfits'
  have htransferred : FirstBest (fun variant => (check' variant.node path).violations = [])
      (fun variant => specificity arena variant.node other) variants position variant :=
    hbest.congr (fun variant hvariant => (halike variant hvariant).accepts_iff) hscore
  obtain rfl := htransferred.best_eq hbest'
  exact ⟨variant, hbest.mem, hbest.eligible_best, hunion, hunion'⟩

/-- Of variants that are alike for two values, the same one comes closest. -/
theorem exists_failing_alike (hvariants : variants ≠ [])
    (hfails : ∀ variant ∈ variants, (check variant.node path).violations ≠ []) :
    ∃ variant ∈ variants,
      checkUnion arena variants path value check =
        ⟨value, (check variant.node path).violations.map (·.inVariant variant.label), none⟩ ∧
      checkUnion arena variants path other check' =
        ⟨other, (check' variant.node path).violations.map (·.inVariant variant.label), none⟩ := by
  have hfails' : ∀ variant ∈ variants, (check' variant.node path).violations ≠ [] :=
    fun variant hvariant => (halike variant hvariant).accepts_iff.not.mp (hfails variant hvariant)
  obtain ⟨position, variant, hbest, hunion⟩ :=
    @checkUnion_of_fails arena variants path value check hvariants hfails
  obtain ⟨position', variant', hbest', hunion'⟩ :=
    @checkUnion_of_fails arena variants path other check' hvariants hfails'
  have htransferred : FirstBest (fun variant => (check' variant.node path).violations ≠ [])
      (fun variant => Violation.closeness (check' variant.node path).violations) variants
      position variant :=
    hbest.congr (fun variant hvariant => (halike variant hvariant).accepts_iff.not)
      fun variant hvariant => Violation.closeness_eq_of_gists (halike variant hvariant).gists
  obtain rfl := htransferred.best_eq hbest'
  exact ⟨variant, hbest.mem, hunion, hunion'⟩

/-- Unions whose variants are alike and equally specific for two values are alike for these. -/
theorem checkUnion_alike (hvariants : variants ≠ [])
    (hscore : ∀ variant ∈ variants,
      specificity arena variant.node value = specificity arena variant.node other) :
    (checkUnion arena variants path value check).Alike
      (checkUnion arena variants path other check') := by
  by_cases hfits : ∃ variant ∈ variants, (check variant.node path).violations = []
  · obtain ⟨variant, -, -, hunion, hunion'⟩ := exists_fitting_alike halike hscore hfits
    rw [hunion, hunion']
    exact ⟨rfl, rfl⟩
  · have hfails : ∀ variant ∈ variants, (check variant.node path).violations ≠ [] :=
      fun variant hvariant hviolations => hfits ⟨variant, hvariant, hviolations⟩
    obtain ⟨variant, hvariant, hunion, hunion'⟩ :=
      @exists_failing_alike arena path value other variants check check' halike hvariants hfails
    rw [hunion, hunion']
    refine ⟨?_, rfl⟩
    dsimp only
    rw [Violation.map_gist_inVariant, Violation.map_gist_inVariant]
    exact (halike variant hvariant).gists

end Union

theorem checkIntersection_alike {left right left' right' : Outcome} (hleft : left.Alike left')
    (hright : right.Alike right') :
    (checkIntersection value left right).Alike (checkIntersection other left' right') := by
  refine ⟨?_, ?_⟩
  · simp only [checkIntersection, List.map_append]
    rw [hleft.gists, hright.gists]
  · simp only [checkIntersection]
    rw [hleft.label_eq, hright.label_eq]

end Walk

theorem Validator.validate_eq_valid_iff {validator : Validator} {value output : Json}
    {label? : Option String} : validator.validate value = .valid output label? ↔
      Walk.check validator.arena value validator.root [] = ⟨output, [], label?⟩ := by
  refine ⟨fun h => ?_, validate_of_accepts⟩
  have haccepts := accepts_of_validate h
  rw [validate] at h
  generalize Walk.check validator.arena value validator.root [] = outcome at h haccepts ⊢
  obtain ⟨_, _, _⟩ := outcome
  cases haccepts
  cases h
  rfl

/-- Where outcomes are alike, documents are accepted with the same labels. -/
theorem Outcome.Alike.exists_validate_iff {validator : Validator} {value other : Json}
    (h : (Walk.check validator.arena value validator.root []).Alike
      (Walk.check validator.arena other validator.root [])) (label? : Option String) :
    (∃ output, validator.validate other = .valid output label?) ↔
      ∃ output, validator.validate value = .valid output label? := by
  simp only [Validator.validate_eq_valid_iff]
  have haccepts := h.accepts_iff
  have hlabel := h.label_eq
  generalize Walk.check validator.arena value validator.root [] = outcome at haccepts hlabel ⊢
  generalize Walk.check validator.arena other validator.root [] = outcome' at haccepts hlabel ⊢
  obtain ⟨output, violations, label⟩ := outcome
  obtain ⟨output', violations', label'⟩ := outcome'
  simp only [Outcome.mk.injEq, exists_eq_left'] at haccepts hlabel ⊢
  rw [haccepts, hlabel]

end EntityContract
