import EntityContract.Proofs.Arena.Delegation
import EntityContract.Proofs.Validation.Choice

/-!
The equation of a check, without bounds: a node visits a value, with the checks of the nodes that it
delegates to. With it come the ways to look at the outcomes of arrays, objects and
unions, and an induction along which checks proceed.
-/

namespace EntityContract

/-- Induction over the parts of a value, and for each over the nodes that are delegated to. -/
theorem Arena.Settled.induct {arena : Arena} (h : arena.Settled) {motive : Json → NodeId → Prop}
    (step : ∀ value id, (∀ part : Json, part.Part value → ∀ id, motive part id) →
      (∀ other, arena.Delegates id other → motive value other) → motive value id) :
    ∀ value id, motive value id := by
  intro value
  induction value using Json.induct_parts with
  | step value hparts =>
      intro id
      induction (h id).acc with
      | intro id _ ih => exact step value id hparts ih

namespace Walk

variable {arena : Arena}

/-- The checks of the parts of a value. -/
def parts (arena : Arena) : Json → Parts
  | .arr items => .items (items.map (check arena))
  | .obj members => .members (members.map fun member => (member.1, check arena member.2))
  | _ => .none

theorem checkItems_eq_map (items : List Json) :
    checkItems arena items = items.map (check arena) := by
  induction items with
  | nil => rfl
  | cons item items ih => rw [checkItems, ih, List.map_cons]

theorem checkMembers_eq_map (members : Members) :
    checkMembers arena members = members.map fun member => (member.1, check arena member.2) := by
  induction members with
  | nil => rfl
  | cons member members ih => rw [checkMembers, ih, List.map_cons]

theorem check_eq_step (value : Json) :
    check arena value = step arena value (parts arena value) (arena.size + 1) := by
  cases value with
  | arr items => rw [check, checkItems_eq_map, parts]
  | obj members => rw [check, checkMembers_eq_map, parts]
  | _ => rfl

theorem step_succ (value : Json) (steps : Nat) :
    step arena value (parts arena value) (steps + 1) =
      visit arena value (parts arena value) (step arena value (parts arena value) steps) := rfl

theorem checkUnion_congr {variants : List Variant} {path : Path} {value : Json}
    {check check' : Check}
    (h : ∀ variant ∈ variants, check variant.node path = check' variant.node path) :
    checkUnion arena variants path value check = checkUnion arena variants path value check' := by
  rw [checkUnion, checkUnion]
  congr 1
  apply List.foldl_ext
  intro selection variant hvariant
  rw [h variant hvariant]

/-- Only the nodes that are delegated to are checked again. -/
theorem visit_congr {value : Json} {parts : Parts} {again again' : Check} {id : NodeId}
    {path : Path} (h : ∀ other, arena.Delegates id other → again other path = again' other path) :
    visit arena value parts again id path = visit arena value parts again' id path := by
  unfold visit
  cases hnode : arena.node id with
  | union variants => exact checkUnion_congr fun variant hvariant => h _ (.variant hnode hvariant)
  | intersection left right =>
      dsimp only
      rw [h left (.left hnode), h right (.right hnode)]
  | entity key target => exact h target (.entity hnode)
  | _ => rfl

/-- More steps than delegations may take make no difference. -/
theorem step_of_bounded {value : Json} {n m : Nat} {id : NodeId} {path : Path}
    (h : Chain.Bounded arena.Delegates n id) (hnm : n ≤ m) :
    step arena value (parts arena value) m id path =
      step arena value (parts arena value) n id path := by
  induction n generalizing m id with
  | zero => exact h.elim
  | succ n ih =>
      obtain ⟨m, rfl⟩ : ∃ k, m = k + 1 := Nat.exists_eq_succ_of_ne_zero (by omega)
      rw [step_succ, step_succ]
      exact visit_congr fun other hother => ih (h other hother) (by omega)

/-- A check does what its node does, and checks again where the node delegates. -/
theorem check_eq (harena : arena.Settled) (value : Json) (id : NodeId) (path : Path) :
    check arena value id path =
      visit arena value (parts arena value) (check arena value) id path := by
  rw [check_eq_step, step_succ]
  refine visit_congr fun other hother => ?_
  have hbounded : Chain.Bounded arena.Delegates arena.size other := harena id other hother
  exact (step_of_bounded hbounded (Nat.le_succ _)).symm

/-- The outcomes of the elements of an array are what the checks of the elements are. -/
theorem getElem?_itemOutcomes (node : NodeId) (path : Path) (items : List Json)
    (first position : Nat) :
    (itemOutcomes node path first (items.map (check arena)))[position]? =
      items[position]?.map fun item =>
        check arena item node (path ++ [.index (first + position)]) := by
  induction items generalizing first position with
  | nil => rfl
  | cons item items ih =>
      rw [List.map_cons, itemOutcomes]
      cases position with
      | zero => rfl
      | succ position =>
          rw [List.getElem?_cons_succ, List.getElem?_cons_succ, ih, Nat.add_right_comm,
            Nat.add_assoc]

theorem itemOutcomes_eq (node : NodeId) (path : Path) (items : List Json) (first : Nat) :
    itemOutcomes node path first (items.map (check arena)) =
      (items.zipIdx first).map fun item =>
        check arena item.1 node (path ++ [.index item.2]) := by
  induction items generalizing first with
  | nil => rfl
  | cons item items ih =>
      rw [List.map_cons, itemOutcomes, ih, List.zipIdx_cons, List.map_cons]

theorem forall₂_itemOutcomes {r : Json → Outcome → Prop} {node : NodeId} {path : Path}
    {items : List Json} (h : ∀ item ∈ items, ∀ path, r item (check arena item node path))
    (index : Nat) :
    List.Forall₂ r items (itemOutcomes node path index (items.map (check arena))) := by
  induction items generalizing index with
  | nil => exact .nil
  | cons item items ih =>
      rw [List.forall_mem_cons] at h
      exact .cons (h.1 _) (ih h.2 (index + 1))

theorem forall₂_itemOutcomes_pair {arena' : Arena} {r : Outcome → Outcome → Prop}
    {node node' : NodeId} {path path' : Path} {items : List Json}
    (h : ∀ item ∈ items, ∀ path path', r (check arena item node path)
      (check arena' item node' path')) (index index' : Nat) :
    List.Forall₂ r (itemOutcomes node path index (items.map (check arena)))
      (itemOutcomes node' path' index' (items.map (check arena'))) := by
  induction items generalizing index index' with
  | nil => exact .nil
  | cons item items ih =>
      rw [List.forall_mem_cons] at h
      exact .cons (h.1 _ _) (ih h.2 (index + 1) (index' + 1))

/-- What becomes of a member of an object that keeps it. -/
def memberOutcome (arena : Arena) (fields : List FieldNode) (path : Path)
    (member : String × Json) : Outcome :=
  match FieldNode.find? fields member.1 with
  | some field => check arena member.2 field.node (path ++ [.key member.1])
  | none => .accept member.2

theorem memberOutcomes_eq (fields : List FieldNode) (policy : UnknownFields) (path : Path)
    (members : Members) :
    memberOutcomes fields policy path members
        (members.map fun member => (member.1, check arena member.2)) =
      (members.filter fun member => policy = .passthrough ||
          (FieldNode.find? fields member.1).isSome).map
        fun member => (member.1, memberOutcome arena fields path member) := by
  induction members with
  | nil => rfl
  | cons member members ih =>
      rw [List.map_cons, memberOutcomes, ih, List.filter_cons]
      cases hfield : FieldNode.find? fields member.1 with
      | some field => simp [memberOutcome, hfield]
      | none => cases policy <;> simp [memberOutcome, hfield]

/-- Nothing is reported of the members that are stripped. -/
theorem flatMap_memberOutcomes (fields : List FieldNode) (policy : UnknownFields) (path : Path)
    (members : Members) :
    (memberOutcomes fields policy path members
        (members.map fun member => (member.1, check arena member.2))).flatMap (·.2.violations) =
      members.flatMap fun member => (memberOutcome arena fields path member).violations := by
  rw [memberOutcomes_eq]
  induction members with
  | nil => rfl
  | cons member members ih =>
      rw [List.flatMap_cons, ← ih, List.filter_cons]
      split
      · rfl
      · rename_i hstripped
        have hfield : FieldNode.find? fields member.1 = none := by
          simp only [Bool.or_eq_true, not_or, Option.not_isSome_iff_eq_none] at hstripped
          exact hstripped.2
        rw [memberOutcome, hfield]
        rfl

theorem specificity_eq {arena' : Arena} {id id' : NodeId}
    (h : arena.declared id = arena'.declared id') (value : Json) :
    specificity arena id value = specificity arena' id' value := by
  cases value with
  | obj members => rw [specificity, specificity, h]
  | _ => rfl

/-- A union has the output of the variant that it reports, or the value itself. -/
theorem checkUnion_reports (variants : List Variant) (path : Path) (value : Json) (check : Check) :
    (checkUnion arena variants path value check).output = value ∨
      ∃ variant ∈ variants, checkUnion arena variants path value check =
        ⟨(check variant.node path).output, [], some variant.label⟩ := by
  by_cases hfits : ∃ variant ∈ variants, (check variant.node path).violations = []
  · obtain ⟨position, variant, hbest, hunion⟩ := checkUnion_of_fits hfits
    exact Or.inr ⟨variant, hbest.mem, hunion⟩
  · left
    rcases eq_or_ne variants [] with rfl | hvariants
    · rfl
    · obtain ⟨position, variant, -, hunion⟩ := checkUnion_of_fails hvariants
        fun variant hvariant hviolations => hfits ⟨variant, hvariant, hviolations⟩
      rw [hunion]

/-- The output of a union is that of one of its variants, or the value itself. -/
theorem output_checkUnion (variants : List Variant) (path : Path) (value : Json) (check : Check) :
    (checkUnion arena variants path value check).output = value ∨
      ∃ variant ∈ variants,
        (checkUnion arena variants path value check).output = (check variant.node path).output := by
  rcases @checkUnion_reports arena variants path value check with houtput | ⟨variant, hmem, heq⟩
  · exact Or.inl houtput
  · exact Or.inr ⟨variant, hmem, by rw [heq]⟩

/-- A union with variants accepts a value that one of them accepts, with the outcome of one. -/
theorem checkUnion_eq {variants : List Variant} {path : Path} {value : Json} {check : Check}
    (hvariants : variants ≠ []) :
    (∃ variant ∈ variants, (check variant.node path).violations = [] ∧
        checkUnion arena variants path value check =
          ⟨(check variant.node path).output, [], some variant.label⟩) ∨
      ((∀ variant ∈ variants, (check variant.node path).violations ≠ []) ∧
        (checkUnion arena variants path value check).violations ≠ []) := by
  by_cases hfits : ∃ variant ∈ variants, (check variant.node path).violations = []
  · obtain ⟨position, variant, hbest, hunion⟩ := checkUnion_of_fits hfits
    exact Or.inl ⟨variant, hbest.mem, hbest.eligible_best, hunion⟩
  · have hfails : ∀ variant ∈ variants, (check variant.node path).violations ≠ [] :=
      fun variant hvariant hviolations => hfits ⟨variant, hvariant, hviolations⟩
    obtain ⟨position, variant, hbest, hunion⟩ := checkUnion_of_fails hvariants hfails
    refine Or.inr ⟨hfails, ?_⟩
    rw [hunion]
    exact List.map_eq_nil_iff.not.mpr hbest.eligible_best

end Walk

end EntityContract
