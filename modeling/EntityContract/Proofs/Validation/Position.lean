import EntityContract.Proofs.Validation.Checking

/-!
A check does not depend on where in a document the value stands. One step deeper it brings the same
outcome, with each violation one step deeper; also the choice among the variants of a union is the
same, since all its violations go down together.
-/

namespace EntityContract

/-- The outcome in a document that has the checked value as a part. -/
def Outcome.under (segment : Segment) (outcome : Outcome) : Outcome :=
  { outcome with violations := outcome.violations.map (·.under segment) }

namespace Walk

variable {arena : Arena} {segment : Segment} {path : Path} {value : Json}

section Scalars

/-- The check looks at the value as a whole, and accepts or rejects it alike at all places. -/
def Scalar (check : Path → Json → Outcome) : Prop :=
  ∀ value, (∃ output, ∀ path, check path value = .accept output) ∨
    ∃ fault, ∀ path, check path value = .reject path value fault

theorem scalar_checkString (format : StringFormat) : Scalar (checkString format) := by
  intro value
  cases value with
  | str text =>
      cases hproblem : format.problem? text with
      | some problem => exact Or.inr ⟨_, fun path => by rw [checkString, hproblem]⟩
      | none => exact Or.inl ⟨_, fun path => by rw [checkString, hproblem]⟩
  | _ => exact Or.inr ⟨_, fun path => rfl⟩

theorem scalar_checkEnum (options : List String) : Scalar (checkEnum options) := by
  intro value
  cases value with
  | str text =>
      by_cases hoption : options.contains text = true
      · exact Or.inl ⟨_, fun path => by rw [checkEnum, if_pos hoption]⟩
      · exact Or.inr ⟨_, fun path => by rw [checkEnum, if_neg hoption]⟩
  | _ => exact Or.inr ⟨_, fun path => rfl⟩

theorem scalar_checkInteger : Scalar checkInteger := by
  intro value
  cases value with
  | num n =>
      by_cases hwhole : n.isWhole = true
      · exact Or.inl ⟨_, fun path => by rw [checkInteger, if_pos hwhole]⟩
      · exact Or.inr ⟨_, fun path => by rw [checkInteger, if_neg hwhole]⟩
  | _ => exact Or.inr ⟨_, fun path => rfl⟩

theorem scalar_checkNumber : Scalar checkNumber := by
  intro value
  cases value with
  | num n => exact Or.inl ⟨_, fun path => rfl⟩
  | _ => exact Or.inr ⟨_, fun path => rfl⟩

theorem scalar_checkBoolean : Scalar checkBoolean := by
  intro value
  cases value with
  | bool value => exact Or.inl ⟨_, fun path => rfl⟩
  | _ => exact Or.inr ⟨_, fun path => rfl⟩

theorem scalar_checkLiteral (expected : Json) : Scalar (checkLiteral expected) := by
  intro value
  by_cases hsame : value.same expected = true
  · exact Or.inl ⟨_, fun path => by rw [checkLiteral, if_pos hsame]⟩
  · exact Or.inr ⟨_, fun path => by rw [checkLiteral, if_neg hsame]⟩

theorem Scalar.cons {check : Path → Json → Outcome} (h : Scalar check) :
    check (segment :: path) value = (check path value).under segment := by
  rcases h value with ⟨output, haccept⟩ | ⟨fault, hreject⟩
  · rw [haccept, haccept]
    rfl
  · rw [hreject, hreject]
    rfl

end Scalars

section Parts

variable (hparts : ∀ part : Json, part.Part value → ∀ id path,
  check arena part id (segment :: path) = (check arena part id path).under segment)

include hparts

theorem checkArray_cons (node : NodeId) :
    checkArray node (segment :: path) value (parts arena value) =
      (checkArray node path value (parts arena value)).under segment := by
  cases value with
  | arr items =>
      have houtcomes : ∀ (items : List Json) (first : Nat),
          (∀ item ∈ items, ∀ path, check arena item node (segment :: path) =
            (check arena item node path).under segment) →
          itemOutcomes node (segment :: path) first (items.map (check arena)) =
            (itemOutcomes node path first (items.map (check arena))).map (·.under segment) := by
        intro items first hitems
        induction items generalizing first with
        | nil => rfl
        | cons item items ih =>
            rw [List.forall_mem_cons] at hitems
            rw [List.map_cons, itemOutcomes, itemOutcomes, List.map_cons, ih _ hitems.2,
              List.cons_append, hitems.1]
      rw [parts, checkArray, checkArray,
        houtcomes items 0 fun item hitem => hparts item (.item hitem) node]
      simp [Outcome.under, List.map_flatMap, List.flatMap_map, Function.comp_def]
  | _ => rfl

theorem checkRecord_cons (node : NodeId) :
    checkRecord node (segment :: path) value (parts arena value) =
      (checkRecord node path value (parts arena value)).under segment := by
  cases value with
  | obj members =>
      have houtcomes : (members.map fun member =>
            (member.1, check arena member.2 node (segment :: path ++ [.key member.1]))) =
          members.map fun member =>
            (member.1, (check arena member.2 node (path ++ [.key member.1])).under segment) :=
        List.map_congr_left fun member hmember => by
          rw [List.cons_append, hparts member.2 (.member hmember)]
      simp only [parts, checkRecord, List.map_map, Function.comp_def, houtcomes]
      simp [Outcome.under, List.map_flatMap, List.flatMap_map]
  | _ => rfl

theorem memberOutcome_cons (fields : List FieldNode) {members : Members}
    (hvalue : value = .obj members) {member : String × Json} (hmember : member ∈ members) :
    memberOutcome arena fields (segment :: path) member =
      (memberOutcome arena fields path member).under segment := by
  subst hvalue
  rw [memberOutcome, memberOutcome]
  cases FieldNode.find? fields member.1 with
  | none => rfl
  | some field => exact hparts member.2 (.member hmember) field.node (path ++ [.key member.1])

theorem checkObject_cons (fields : List FieldNode) (policy : UnknownFields) :
    checkObject fields policy (segment :: path) value (parts arena value) =
      (checkObject fields policy path value (parts arena value)).under segment := by
  cases value with
  | obj members =>
      have habsent : ∀ field, absentField (segment :: path) field =
          ((absentField path field).1, (absentField path field).2.map (·.under segment)) := by
        intro field
        unfold absentField
        split
        · rfl
        · split <;> rfl
      have houtcomes : ∀ kept : String × Json → Bool, ((members.filter kept).map fun member =>
            (member.1, memberOutcome arena fields (segment :: path) member)) =
          (members.filter kept).map fun member =>
            (member.1, (memberOutcome arena fields path member).under segment) :=
        fun kept => List.map_congr_left fun member hmember => by
          rw [memberOutcome_cons hparts fields rfl (List.mem_of_mem_filter hmember)]
      rw [parts, checkObject, checkObject, memberOutcomes_eq, memberOutcomes_eq, houtcomes,
        funext habsent]
      simp [Outcome.under, List.map_flatMap, List.flatMap_map, Function.comp_def]
  | _ => rfl

end Parts

section Union

theorem checkUnion_cons (variants : List Variant) {again : Check}
    (hagain : ∀ id path, again id (segment :: path) = (again id path).under segment) :
    checkUnion arena variants (segment :: path) value again =
      (checkUnion arena variants path value again).under segment := by
  have haccepts : ∀ variant : Variant, (again variant.node (segment :: path)).violations = [] ↔
      (again variant.node path).violations = [] := fun variant => by
    rw [hagain]
    exact List.map_eq_nil_iff
  rcases eq_or_ne variants [] with rfl | hvariants
  · rfl
  · by_cases hfits : ∃ variant ∈ variants, (again variant.node path).violations = []
    · obtain ⟨position, variant, hbest, hunion⟩ :=
        @checkUnion_of_fits arena variants path value again hfits
      obtain ⟨position', variant', hbest', hunion'⟩ :=
        @checkUnion_of_fits arena variants (segment :: path) value again
          (by simpa only [haccepts] using hfits)
      simp only [haccepts] at hbest'
      rw [hunion, hunion', hbest.best_eq hbest', hagain]
      rfl
    · have hfails : ∀ variant ∈ variants, (again variant.node path).violations ≠ [] :=
        fun variant hvariant haccepts => hfits ⟨variant, hvariant, haccepts⟩
      obtain ⟨position, variant, hbest, hunion⟩ :=
        @checkUnion_of_fails arena variants path value again hvariants hfails
      obtain ⟨position', variant', hbest', hunion'⟩ :=
        @checkUnion_of_fails arena variants (segment :: path) value again hvariants
          (by simpa only [ne_eq, haccepts] using hfails)
      simp only [ne_eq, haccepts] at hbest'
      have hcloseness : FirstBest (fun variant => (again variant.node path).violations ≠ [])
          (fun variant => Violation.closeness (again variant.node path).violations) variants
          position' variant' :=
        hbest'.rerank fun x y hx hy => by
          rw [hagain, hagain]
          exact Violation.closeness_lt_closeness_under_iff hx hy
      rw [hunion, hunion', hbest.best_eq hcloseness, hagain]
      simp only [Outcome.under, List.map_map]
      rfl

end Union

/-- One node after the other, whatever the arena. -/
theorem visit_cons
    (hparts : ∀ part : Json, part.Part value → ∀ id path,
      check arena part id (segment :: path) = (check arena part id path).under segment)
    {again : Check} (hagain : ∀ id path, again id (segment :: path) = (again id path).under segment)
    (id : NodeId) (path : Path) :
    visit arena value (parts arena value) again id (segment :: path) =
      (visit arena value (parts arena value) again id path).under segment := by
  unfold visit
  cases arena.node id with
  | pending => rfl
  | unknown => rfl
  | string format => exact (scalar_checkString format).cons
  | integer => exact scalar_checkInteger.cons
  | number => exact scalar_checkNumber.cons
  | boolean => exact scalar_checkBoolean.cons
  | literal expected => exact (scalar_checkLiteral expected).cons
  | enum options => exact (scalar_checkEnum options).cons
  | array item => exact checkArray_cons hparts item
  | record item => exact checkRecord_cons hparts item
  | object fields policy => exact checkObject_cons hparts fields policy
  | union variants => exact checkUnion_cons variants hagain
  | intersection left right =>
      dsimp only
      rw [hagain, hagain, checkIntersection, checkIntersection]
      simp [Outcome.under]
  | entity key target => exact hagain target path

/-- What a check brings of a part is what it brings of the same value as a document. -/
theorem check_cons (arena : Arena) (value : Json) (id : NodeId) (segment : Segment) (path : Path) :
    check arena value id (segment :: path) = (check arena value id path).under segment := by
  induction value using Json.induct_parts generalizing id path with
  | step value ih =>
      rw [check_eq_step]
      generalize arena.size + 1 = steps
      induction steps generalizing id path with
      | zero => rfl
      | succ steps ihSteps =>
          rw [step_succ]
          exact visit_cons ih ihSteps id path

section Place

variable (arena : Arena) (value : Json) (id : NodeId) (path : Path)

theorem output_check : (check arena value id path).output = (check arena value id []).output := by
  induction path with
  | nil => rfl
  | cons segment path ih =>
      rw [check_cons]
      exact ih

theorem violations_check_eq_nil_iff :
    (check arena value id path).violations = [] ↔ (check arena value id []).violations = [] := by
  induction path with
  | nil => rfl
  | cons segment path ih =>
      rw [check_cons]
      exact List.map_eq_nil_iff.trans ih

end Place

section Items

variable {arena : Arena} {path : Path} {node : NodeId}

theorem output_checkArray {items : List Json} :
    (checkArray node path (.arr items) (parts arena (.arr items))).output =
      .arr (items.map fun item => (check arena item node []).output) := by
  have houtcomes : List.Forall₂ (fun item outcome =>
      (check arena item node []).output = outcome.output) items
      (itemOutcomes node path 0 (items.map (check arena))) :=
    forall₂_itemOutcomes (fun item _ path => (output_check arena item node path).symm) 0
  rw [parts, checkArray]
  refine congrArg Json.arr (Eq.symm ?_)
  rwa [← List.forall₂_eq_eq_eq, List.forall₂_map_left_iff, List.forall₂_map_right_iff]

theorem violations_checkArray_eq_nil_iff {items : List Json} :
    (checkArray node path (.arr items) (parts arena (.arr items))).violations = [] ↔
      ∀ item ∈ items, (check arena item node []).violations = [] := by
  have houtcomes : List.Forall₂ (fun item outcome =>
      outcome.violations = [] ↔ (check arena item node []).violations = []) items
      (itemOutcomes node path 0 (items.map (check arena))) :=
    forall₂_itemOutcomes (fun item _ path => violations_check_eq_nil_iff arena item node path) 0
  rw [parts, checkArray]
  dsimp only
  rw [List.flatMap_eq_nil_iff]
  constructor
  · intro h item hitem
    obtain ⟨outcome, houtcome, hiff⟩ := Pairing.exists_of_mem_left houtcomes hitem
    exact hiff.mp (h outcome houtcome)
  · intro h outcome houtcome
    obtain ⟨item, hitem, hiff⟩ := Pairing.exists_of_mem_right houtcomes houtcome
    exact hiff.mpr (h item hitem)

theorem violations_checkRecord_eq_nil_iff {members : Members} :
    (checkRecord node path (.obj members) (parts arena (.obj members))).violations = [] ↔
      ∀ member ∈ members, (check arena member.2 node []).violations = [] := by
  rw [parts, checkRecord]
  simp only [List.flatMap_eq_nil_iff, List.forall_mem_map, violations_check_eq_nil_iff arena _ _
    (path ++ _)]

end Items

end Walk

end EntityContract
