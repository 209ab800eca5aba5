import EntityContract.Proofs.Json.Equality
import EntityContract.Validation.Walk

/-!
Joining two values that were made of one input: what is found under a key of the result, and why
equal values join to equal ones.
-/

namespace EntityContract.Json

/-- Objects are joined by key, and arrays of one length by index. -/
def Joinable : Json → Json → Prop
  | .obj _, .obj _ => True
  | .arr items, .arr others => items.length = others.length
  | _, _ => False

/-- Where the two sides cannot be joined part by part, the one that changed the input is taken. -/
def chosen (left right : Json) (input : Option Json) : Json :=
  if input.any (·.same left) && !input.any (·.same right) then right else left

theorem mergeOutputs_obj (left right : Members) (input : Option Json) :
    mergeOutputs (.obj left) (.obj right) input = .obj (mergeMembers left right input ++
      right.filter fun member => !Members.contains member.1 left) := by
  rw [mergeOutputs]

theorem mergeOutputs_items {left right : List Json} (h : left.length = right.length)
    (input : Option Json) :
    mergeOutputs (.arr left) (.arr right) input = .arr (mergeItems left right 0 input) := by
  rw [mergeOutputs, if_pos h]

theorem mergeMembers_eq_map (left right : Members) (input : Option Json) :
    mergeMembers left right input = left.map fun member =>
      (member.1, match right.lookup member.1 with
        | some value => mergeOutputs member.2 value (input.bind (·.get? member.1))
        | none => member.2) := by
  induction left with
  | nil => rfl
  | cons member left ih =>
      obtain ⟨key, value⟩ := member
      rw [mergeMembers]
      exact congrArg (List.cons _) ih

theorem keys_mergeMembers (left right : Members) (input : Option Json) :
    (mergeMembers left right input).map (·.1) = left.map (·.1) := by
  rw [mergeMembers_eq_map, List.map_map]
  rfl

/-- What is on one side only is kept, what is on both sides is joined. -/
def mergeFound (input : Option Json) : Option Json → Option Json → Option Json
  | some value, some other => some (mergeOutputs value other input)
  | some value, none => some value
  | none, other? => other?

theorem lookup_mergeOutputs (left right : Members) (input : Option Json) (key : String) :
    (mergeMembers left right input ++
        right.filter fun member => !Members.contains member.1 left).lookup key =
      mergeFound (input.bind (·.get? key)) (left.lookup key) (right.lookup key) := by
  rw [List.lookup_append, mergeMembers_eq_map, Association.lookup_map,
    Association.lookup_filter right (fun key => !Members.contains key left)]
  cases hleft : left.lookup key with
  | none =>
      have hkey := Members.contains_eq_false_iff.mpr (Association.lookup_eq_none_iff.mp hleft)
      simp [hkey, mergeFound]
  | some value => cases hright : right.lookup key <;> simp [hright, mergeFound]

theorem nodup_mergeOutputs {left right : Members} (hleft : (left.map (·.1)).Nodup)
    (hright : (right.map (·.1)).Nodup) (input : Option Json) :
    ((mergeMembers left right input ++
      right.filter fun member => !Members.contains member.1 left).map (·.1)).Nodup := by
  rw [List.map_append, keys_mergeMembers]
  refine hleft.append (hright.sublist ((List.filter_sublist).map _)) ?_
  intro key hkey hmem
  obtain ⟨member, hmember, rfl⟩ := List.mem_map.mp hmem
  have hnew := (List.mem_filter.mp hmember).2
  rw [Bool.not_eq_true', Members.contains_eq_false_iff] at hnew
  exact hnew hkey

theorem chosen_eq_or (left right : Json) (input : Option Json) :
    chosen left right input = left ∨ chosen left right input = right := by
  rw [chosen]
  split
  · exact Or.inr rfl
  · exact Or.inl rfl

theorem chosen_self (v : Json) (input : Option Json) : chosen v v input = v := by
  rcases chosen_eq_or v v input with heq | heq
  · exact heq
  · exact heq

theorem mem_mergeItems {lefts rights : List Json} {index : Nat} {input : Option Json} {item : Json}
    (h : item ∈ mergeItems lefts rights index input) :
    ∃ left ∈ lefts, ∃ right ∈ rights, ∃ input, item = mergeOutputs left right input := by
  induction lefts generalizing rights index with
  | nil =>
      rw [mergeItems] at h
      · exact nomatch h
      · simp
  | cons left lefts ih =>
      cases rights with
      | nil =>
          rw [mergeItems] at h
          · exact nomatch h
          · simp
      | cons right rights =>
          rw [mergeItems] at h
          rcases List.mem_cons.mp h with rfl | h
          · exact ⟨left, List.mem_cons_self, right, List.mem_cons_self, _, rfl⟩
          · obtain ⟨other, hother, another, hanother, heq⟩ := ih h
            exact ⟨other, List.mem_cons_of_mem _ hother, another, List.mem_cons_of_mem _ hanother,
              heq⟩

theorem mergeOutputs_eq_chosen {left right : Json} (h : ¬Joinable left right)
    (input : Option Json) : mergeOutputs left right input = chosen left right input := by
  cases left with
  | obj members =>
      cases right with
      | obj others => exact absurd trivial h
      | _ => rw [mergeOutputs, chosen] <;> simp
  | arr items =>
      cases right with
      | arr others =>
          have hlength : items.length ≠ others.length := h
          rw [mergeOutputs, if_neg hlength, chosen]
      | _ => rw [mergeOutputs, chosen] <;> simp
  | _ => rw [mergeOutputs, chosen] <;> simp

theorem joined_cases (left right : Json) :
    (∃ members others, left = .obj members ∧ right = .obj others) ∨
      (∃ items others, left = .arr items ∧ right = .arr others ∧ items.length = others.length) ∨
        ¬Joinable left right := by
  cases left with
  | obj members =>
      cases right with
      | obj others => exact Or.inl ⟨members, others, rfl, rfl⟩
      | _ => exact Or.inr (Or.inr not_false)
  | arr items =>
      cases right with
      | arr others =>
          by_cases hlength : items.length = others.length
          · exact Or.inr (Or.inl ⟨items, others, rfl, rfl, hlength⟩)
          · exact Or.inr (Or.inr hlength)
      | _ => exact Or.inr (Or.inr not_false)
  | _ => exact Or.inr (Or.inr not_false)

theorem joinable_of_same {left left' right right' : Json} (hl : left.same left' = true)
    (hr : right.same right' = true) (h : Joinable left right) : Joinable left' right' := by
  rcases joined_cases left right with ⟨members, others, rfl, rfl⟩ |
    ⟨items, others, rfl, rfl, hlength⟩ | hnot
  · obtain ⟨members', rfl, -⟩ := exists_of_same_obj hl
    obtain ⟨others', rfl, -⟩ := exists_of_same_obj hr
    trivial
  · obtain ⟨items', rfl, hitems⟩ := exists_of_same_arr hl
    obtain ⟨others', rfl, hothers⟩ := exists_of_same_arr hr
    exact hitems.length_eq.symm.trans (hlength.trans hothers.length_eq)
  · exact absurd h hnot

/-- Joining keeps no key twice. -/
theorem Proper.mergeOutputs {left right : Json} (hleft : left.Proper) (hright : right.Proper)
    (input : Option Json) : (Json.mergeOutputs left right input).Proper := by
  induction left using induct_parts generalizing right input with
  | step left ih =>
      rcases joined_cases left right with ⟨members, others, rfl, rfl⟩ |
        ⟨items, others, rfl, rfl, hlength⟩ | hnot
      · rw [mergeOutputs_obj, proper_obj]
        have hnodup := nodup_mergeOutputs hleft.nodup hright.nodup input
        refine ⟨hnodup, fun member hmem => ?_⟩
        have hlookup := Association.lookup_of_mem hnodup hmem
        rw [lookup_mergeOutputs] at hlookup
        cases hvalue : members.lookup member.1 with
        | none =>
            rw [hvalue] at hlookup
            exact hright.lookup hlookup
        | some value =>
            cases hother : others.lookup member.1 with
            | none =>
                rw [hvalue, hother, mergeFound, Option.some.injEq] at hlookup
                exact hlookup ▸ hleft.lookup hvalue
            | some other =>
                rw [hvalue, hother, mergeFound, Option.some.injEq] at hlookup
                rw [← hlookup]
                exact ih value (part_of_lookup hvalue) (hleft.lookup hvalue)
                  (hright.lookup hother) _
      · rw [mergeOutputs_items hlength, proper_arr]
        intro item hmem
        obtain ⟨left, hl, right, hr, input, rfl⟩ := mem_mergeItems hmem
        exact ih left (.item hl) (hleft.item hl) (hright.item hr) input
      · rw [mergeOutputs_eq_chosen hnot]
        rcases chosen_eq_or left right input with heq | heq
        · rwa [heq]
        · rwa [heq]

/-- Neither an array nor an object. -/
def Scalar : Json → Prop
  | .arr _ => False
  | .obj _ => False
  | _ => True

/-- Without an input the left side is taken, unless both sides have parts. -/
theorem mergeOutputs_none {left : Json} (h : left.Scalar) (right : Json) :
    mergeOutputs left right none = left := by
  have hnot : ¬Joinable left right := by
    rcases joined_cases left right with ⟨members, others, rfl, -⟩ |
      ⟨items, others, rfl, -⟩ | hnot
    · exact h.elim
    · exact h.elim
    · exact hnot
  rw [mergeOutputs_eq_chosen hnot]
  rfl

theorem mergeItems_self {items : List Json}
    (h : ∀ item ∈ items, ∀ input, mergeOutputs item item input = item) (index : Nat)
    (input : Option Json) : mergeItems items items index input = items := by
  induction items generalizing index with
  | nil => rfl
  | cons item items ih =>
      rw [List.forall_mem_cons] at h
      rw [mergeItems, h.1, ih h.2]

/-- Joining a value with itself changes nothing. -/
theorem mergeOutputs_self {v : Json} (hv : v.Proper) (input : Option Json) :
    mergeOutputs v v input = v := by
  induction v using induct_parts generalizing input with
  | step v ih =>
      rcases joined_cases v v with ⟨members, others, rfl, heq⟩ |
        ⟨items, others, rfl, heq, hlength⟩ | hnot
      · cases heq
        have hnone : (members.filter fun member => !Members.contains member.1 members) = [] := by
          rw [List.filter_eq_nil_iff]
          intro member hmem
          simp [Members.contains_iff.mpr (List.mem_map_of_mem (f := (·.1)) hmem)]
        rw [mergeOutputs_obj, hnone, List.append_nil, mergeMembers_eq_map]
        refine congrArg _ ((List.map_congr_left fun member hmem => ?_).trans (List.map_id _))
        rw [Association.lookup_of_mem hv.nodup hmem]
        dsimp only
        rw [ih member.2 (.member hmem) (hv.member hmem)]
        rfl
      · cases heq
        rw [mergeOutputs_items hlength]
        exact congrArg _ (mergeItems_self
          (fun item hmem input => ih item (.item hmem) (hv.item hmem) input) 0 input)
      · rw [mergeOutputs_eq_chosen hnot, chosen_self]

theorem chosen_same {left left' right right' : Json} (hleft : left.Proper) (hleft' : left'.Proper)
    (hright : right.Proper) (hright' : right'.Proper) (hl : left.same left' = true)
    (hr : right.same right' = true) (input : Option Json) :
    (chosen left right input).same (chosen left' right' input) = true := by
  have hinput : ∀ {value value' : Json}, value.Proper → value'.Proper → value.same value' = true →
      input.any (·.same value) = input.any (·.same value') := by
    intro value value' hvalue hvalue' hsame
    cases input with
    | none => rfl
    | some input =>
        rw [Option.any_some, Option.any_some, Bool.eq_iff_iff]
        exact ⟨fun h => same_trans h hsame, fun h => same_trans h (same_symm hvalue hvalue' hsame)⟩
  rw [chosen, chosen, hinput hleft hleft' hl, hinput hright hright' hr]
  split
  · exact hr
  · exact hl

theorem mergeItems_same {lefts lefts' rights rights' : List Json}
    (hlefts : List.Forall₂ (fun left left' => left.same left' = true) lefts lefts')
    (hrights : List.Forall₂ (fun right right' => right.same right' = true) rights rights')
    (h : ∀ left ∈ lefts, ∀ left' ∈ lefts', ∀ right ∈ rights, ∀ right' ∈ rights',
      left.same left' = true → right.same right' = true → ∀ input,
        (mergeOutputs left right input).same (mergeOutputs left' right' input) = true)
    (index : Nat) (input : Option Json) :
    List.Forall₂ (fun item item' => item.same item' = true)
      (mergeItems lefts rights index input) (mergeItems lefts' rights' index input) := by
  induction hlefts generalizing rights rights' index with
  | nil =>
      rw [mergeItems, mergeItems]
      · exact .nil
      all_goals simp
  | cons hl _ ih =>
      cases hrights with
      | nil =>
          rw [mergeItems, mergeItems]
          · exact .nil
          all_goals simp
      | cons hr hrights =>
          rw [mergeItems, mergeItems]
          refine .cons ?_ (ih hrights (fun left hleft left' hleft' right hright right' hright' =>
            h left (List.mem_cons_of_mem _ hleft) left' (List.mem_cons_of_mem _ hleft')
              right (List.mem_cons_of_mem _ hright) right' (List.mem_cons_of_mem _ hright')) _)
          exact h _ List.mem_cons_self _ List.mem_cons_self _ List.mem_cons_self _
            List.mem_cons_self hl hr _

theorem mergeFound_same {left? left'? right? right'? : Option Json} {input : Option Json}
    (hleft : Option.Rel (fun left left' => left.same left' = true) left? left'?)
    (hright : Option.Rel (fun right right' => right.same right' = true) right? right'?)
    (h : ∀ left, left? = some left → ∀ left', left'? = some left' → ∀ right, right? = some right →
      ∀ right', right'? = some right' → left.same left' = true → right.same right' = true →
        (mergeOutputs left right input).same (mergeOutputs left' right' input) = true) :
    Option.Rel (fun value value' => value.same value' = true) (mergeFound input left? right?)
      (mergeFound input left'? right'?) := by
  cases hleft with
  | none => exact hright
  | some hl =>
      cases hright with
      | none => exact .some hl
      | some hr => exact .some (h _ rfl _ rfl _ rfl _ rfl hl hr)

/-- Equal values join to equal ones. -/
theorem mergeOutputs_same {left left' right right' : Json} (hleft : left.Proper)
    (hleft' : left'.Proper) (hright : right.Proper) (hright' : right'.Proper)
    (hl : left.same left' = true) (hr : right.same right' = true) (input : Option Json) :
    (mergeOutputs left right input).same (mergeOutputs left' right' input) = true := by
  induction left using induct_parts generalizing left' right right' input with
  | step left ih =>
      rcases joined_cases left right with ⟨members, others, rfl, rfl⟩ |
        ⟨items, others, rfl, rfl, hlength⟩ | hnot
      · obtain ⟨members', rfl, -⟩ := exists_of_same_obj hl
        obtain ⟨others', rfl, -⟩ := exists_of_same_obj hr
        rw [same_obj_iff_lookup hleft.nodup hleft'.nodup] at hl
        rw [same_obj_iff_lookup hright.nodup hright'.nodup] at hr
        rw [mergeOutputs_obj, mergeOutputs_obj,
          same_obj_iff_lookup (nodup_mergeOutputs hleft.nodup hright.nodup input)
            (nodup_mergeOutputs hleft'.nodup hright'.nodup input)]
        intro key
        rw [lookup_mergeOutputs, lookup_mergeOutputs]
        refine mergeFound_same (hl key) (hr key) fun value hvalue value' hvalue' other hother other'
          hother' hsame hsame' => ?_
        exact ih value (part_of_lookup hvalue) (hleft.lookup hvalue) (hleft'.lookup hvalue')
          (hright.lookup hother) (hright'.lookup hother') hsame hsame' _
      · obtain ⟨items', rfl, hitems⟩ := exists_of_same_arr hl
        obtain ⟨others', rfl, hothers⟩ := exists_of_same_arr hr
        have hlength' : items'.length = others'.length := by
          rw [← hitems.length_eq, hlength, hothers.length_eq]
        rw [mergeOutputs_items hlength, mergeOutputs_items hlength', same_arr_iff]
        refine mergeItems_same hitems hothers (fun item hitem item' hitem' other hother other'
          hother' hsame hsame' input => ?_) 0 input
        exact ih item (.item hitem) (hleft.item hitem) (hleft'.item hitem') (hright.item hother)
          (hright'.item hother') hsame hsame' input
      · have hnot' : ¬Joinable left' right' := fun h =>
          hnot (joinable_of_same (same_symm hleft hleft' hl) (same_symm hright hright' hr) h)
        rw [mergeOutputs_eq_chosen hnot, mergeOutputs_eq_chosen hnot']
        exact chosen_same hleft hleft' hright hright' hl hr input

end EntityContract.Json
