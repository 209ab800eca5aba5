import EntityContract.Proofs.Json.Extension

/-!
Values without the members of one name. What is made of a value, member by member and without that
name, is joined as if the value had no such members.
-/

namespace EntityContract.Json

mutual

/-- The value without its members of the name, at every depth. -/
def without (name : String) : Json → Json
  | .arr items => .arr (withoutItems name items)
  | .obj members => .obj (withoutMembers name members)
  | value => value

def withoutItems (name : String) : List Json → List Json
  | [] => []
  | item :: items => without name item :: withoutItems name items

def withoutMembers (name : String) : Members → Members
  | [] => []
  | (key, value) :: members =>
    if key = name then withoutMembers name members
    else (key, without name value) :: withoutMembers name members

end

variable {name : String}

theorem withoutItems_eq_map (name : String) (items : List Json) :
    withoutItems name items = items.map (without name) := by
  induction items with
  | nil => rfl
  | cons item items ih => rw [withoutItems, ih, List.map_cons]

theorem withoutMembers_eq_map (name : String) (members : Members) :
    withoutMembers name members =
      (Members.erase name members).map fun member => (member.1, without name member.2) := by
  induction members with
  | nil => rfl
  | cons member members ih =>
      obtain ⟨key, value⟩ := member
      rw [Members.erase] at ih
      rw [withoutMembers, Members.erase, List.filter_cons]
      by_cases hkey : key = name
      · simpa [hkey] using ih
      · simpa [hkey] using ih

@[simp] theorem without_arr (name : String) (items : List Json) :
    without name (.arr items) = .arr (items.map (without name)) := by
  rw [without, withoutItems_eq_map]

@[simp] theorem without_obj (name : String) (members : Members) :
    without name (.obj members) =
      .obj ((Members.erase name members).map fun member => (member.1, without name member.2)) := by
  rw [without, withoutMembers_eq_map]

theorem without_of_scalar {value : Json} (h : value.Scalar) : without name value = value := by
  cases value with
  | arr items => exact h.elim
  | obj members => exact h.elim
  | _ => rfl

theorem scalar_without_iff {value : Json} : (without name value).Scalar ↔ value.Scalar := by
  cases value with
  | arr items => rw [without_arr]; rfl
  | obj members => rw [without_obj]; rfl
  | _ => rfl

/-- Under other names nothing is missing. -/
theorem get?_without {key : String} (hkey : key ≠ name) (value : Json) :
    (without name value).get? key = (value.get? key).map (without name) := by
  cases value with
  | obj members =>
      rw [without_obj, get?, get?, Association.lookup_map, Members.lookup_erase_of_ne hkey]
  | arr items => rw [without_arr]; rfl
  | _ => rfl

theorem contains_without {key : String} (hkey : key ≠ name) (members : Members) :
    Members.contains key ((Members.erase name members).map fun member =>
      (member.1, without name member.2)) = Members.contains key members := by
  rw [Bool.eq_iff_iff, Members.contains_iff, Members.contains_iff, List.map_map, Members.erase]
  simp only [List.mem_map, List.mem_filter, Function.comp_apply, bne_iff_ne]
  constructor
  · rintro ⟨member, ⟨hmem, -⟩, heq⟩
    exact ⟨member, hmem, heq⟩
  · rintro ⟨member, hmem, rfl⟩
    exact ⟨member, ⟨hmem, hkey⟩, rfl⟩

/-- The output has the form of the value as far as both go, and none of its members that stand for
members of the value has the name. -/
inductive Follows (name : String) : Json → Json → Prop
  | scalar {value output : Json} : value.Scalar → Follows name value output
  | arr {items outputs : List Json} :
      items.length = outputs.length →
      (∀ pair ∈ items.zip outputs, Follows name pair.1 pair.2) →
        Follows name (.arr items) (.arr outputs)
  | obj {members outputs : Members} :
      name ∉ outputs.map (·.1) →
      (∀ output ∈ outputs, ∀ value, members.lookup output.1 = some value →
        Follows name value output.2) →
        Follows name (.obj members) (.obj outputs)

theorem follows_arr_iff {items : List Json} {output : Json} :
    Follows name (.arr items) output ↔
      ∃ outputs, output = .arr outputs ∧ List.Forall₂ (Follows name) items outputs := by
  constructor
  · intro h
    cases h with
    | scalar h => exact h.elim
    | arr hlength hitems =>
        exact ⟨_, rfl, List.forall₂_iff_zip.mpr ⟨hlength, fun hmem => hitems _ hmem⟩⟩
  · rintro ⟨outputs, rfl, h⟩
    obtain ⟨hlength, hitems⟩ := List.forall₂_iff_zip.mp h
    exact .arr hlength fun pair hmem => hitems hmem

/-- Outputs that follow a value are joined alike if the members of the name are left out of it. -/
theorem mergeOutputs_without {value left right : Json} (hleft : Follows name value left)
    (hright : Follows name value right) :
    mergeOutputs left right (some (without name value)) = mergeOutputs left right (some value) := by
  induction hleft generalizing right with
  | scalar h => rw [without_of_scalar h]
  | @arr items lefts hlength _ ih =>
      obtain ⟨rights, rfl, hrights⟩ := follows_arr_iff.mp hright
      have hlefts : List.Forall₂ (fun item left => ∀ right, Follows name item right →
          mergeOutputs left right (some (without name item)) =
            mergeOutputs left right (some item)) items lefts :=
        List.forall₂_iff_zip.mpr ⟨hlength, fun hmem _ => ih _ hmem⟩
      rw [without_arr, mergeOutputs_arr (by rwa [List.length_map])
        (by rw [List.length_map]; exact hrights.length_eq),
        mergeOutputs_arr hlength hrights.length_eq]
      exact congrArg _ (Pairing.zipWith3_map hlefts hrights fun _ _ _ hleft => hleft _)
  | @obj members lefts hname _ ih =>
      cases hright with
      | scalar h => exact h.elim
      | @obj _ rights _ hrights =>
          rw [mergeOutputs_obj, mergeOutputs_obj, mergeMembers_eq_map, mergeMembers_eq_map]
          congr 2
          refine List.map_congr_left fun left hmem => ?_
          have hkey : left.1 ≠ name := fun heq => hname (heq ▸ List.mem_map_of_mem hmem)
          cases hother : rights.lookup left.1 with
          | none => rfl
          | some other =>
              rw [Option.bind_some, Option.bind_some, get?_without hkey]
              cases hpart : (Json.obj members).get? left.1 with
              | none => rfl
              | some part =>
                  have hfollows := hrights _ (Association.mem_of_lookup hother) part hpart
                  exact congrArg (Prod.mk left.1) (ih left hmem part hpart hfollows)

/-- What two outputs that follow a value are joined to follows it. -/
theorem Follows.mergeOutputs {value left right : Json} (hleft : Follows name value left)
    (hright : Follows name value right) :
    Follows name value (Json.mergeOutputs left right (some value)) := by
  induction hleft generalizing right with
  | scalar h => exact .scalar h
  | @arr items lefts hlength _ ih =>
      obtain ⟨rights, rfl, hrights⟩ := follows_arr_iff.mp hright
      have hlefts : List.Forall₂ (fun item left => ∀ right, Follows name item right →
          Follows name item (Json.mergeOutputs left right (some item))) items lefts :=
        List.forall₂_iff_zip.mpr ⟨hlength, fun hmem _ => ih _ hmem⟩
      rw [mergeOutputs_arr hlength hrights.length_eq]
      exact follows_arr_iff.mpr ⟨_, rfl,
        Pairing.zipWith3 hlefts hrights fun _ _ _ _ hleft hright => hleft _ hright⟩
  | @obj members lefts hname hlefts ih =>
      cases hright with
      | scalar h => exact h.elim
      | @obj _ rights hname' hrights =>
          rw [mergeOutputs_obj]
          refine .obj ?_ fun output hmem value hvalue => ?_
          · rw [List.map_append, keys_mergeMembers, List.mem_append, not_or]
            exact ⟨hname, fun h => hname' ((List.filter_sublist.map _).subset h)⟩
          · rcases List.mem_append.mp hmem with hmem | hmem
            · rw [mergeMembers_eq_map] at hmem
              obtain ⟨left, hleft, rfl⟩ := List.mem_map.mp hmem
              dsimp only at hvalue ⊢
              cases hother : rights.lookup left.1 with
              | none => exact hlefts left hleft value hvalue
              | some other =>
                  have hinput : (some (Json.obj members)).bind (·.get? left.1) = some value :=
                    hvalue
                  rw [hinput]
                  exact ih left hleft value hvalue
                    (hrights _ (Association.mem_of_lookup hother) value hvalue)
            · exact hrights output (List.mem_filter.mp hmem).1 value hvalue

end EntityContract.Json
