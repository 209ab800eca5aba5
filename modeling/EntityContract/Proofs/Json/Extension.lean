import EntityContract.Proofs.Json.Joining

/-!
When a value extends another one, and why joining two extensions of one value gives an extension
again: below the value's own members the two sides agree on the form, and what they add is new.
-/

namespace EntityContract.Json

/-- The second value extends the first one at every depth. Members under a key that is fixed are
carried over unchanged. -/
inductive Extends (fixed : String → Prop) : Json → Json → Prop
  | null : Extends fixed .null .null
  | bool (value : Bool) : Extends fixed (.bool value) (.bool value)
  | str (value : String) : Extends fixed (.str value) (.str value)
  | num (value : Number) : Extends fixed (.num value) (.num value)
  | normalized (value : Number) : Extends fixed (.num value) (.num value.normalize)
  | arr {items outputs : List Json} :
      items.length = outputs.length →
      (∀ pair ∈ items.zip outputs, Extends fixed pair.1 pair.2) →
        Extends fixed (.arr items) (.arr outputs)
  /-- The keys of the first object come first and in their order, then new ones. -/
  | obj {members kept added : Members} :
      members.map (·.1) = kept.map (·.1) →
      (∀ pair ∈ members.zip kept, Extends fixed pair.1.2 pair.2.2) →
      (∀ pair ∈ members.zip kept, fixed pair.1.1 → pair.2.2 = pair.1.2) →
      (∀ key ∈ added.map (·.1), key ∉ members.map (·.1)) →
        Extends fixed (.obj members) (.obj (kept ++ added))

/-- A member of an object, and what an extension of the object has in its place. -/
structure KeptMember (fixed : String → Prop) (member kept : String × Json) : Prop where
  key_eq : member.1 = kept.1
  value : member.2.Extends fixed kept.2
  unchanged : fixed member.1 → kept.2 = member.2

variable {fixed : String → Prop}

theorem extends_arr_iff {items : List Json} {output : Json} :
    (arr items).Extends fixed output ↔
      ∃ outputs, output = .arr outputs ∧ List.Forall₂ (Extends fixed) items outputs := by
  constructor
  · intro h
    cases h with
    | arr hlength hitems =>
        exact ⟨_, rfl, List.forall₂_iff_zip.mpr ⟨hlength, fun hmem => hitems _ hmem⟩⟩
  · rintro ⟨outputs, rfl, h⟩
    obtain ⟨hlength, hitems⟩ := List.forall₂_iff_zip.mp h
    exact .arr hlength fun pair hmem => hitems hmem

theorem keys_eq_of_kept {members kept : Members}
    (h : List.Forall₂ (KeptMember fixed) members kept) :
    members.map (·.1) = kept.map (·.1) := by
  induction h with
  | nil => rfl
  | cons hmember _ ih => rw [List.map_cons, List.map_cons, hmember.key_eq, ih]

theorem forall₂_key_eq {members kept : Members} (h : members.map (·.1) = kept.map (·.1)) :
    List.Forall₂ (fun member kept => member.1 = kept.1) members kept := by
  rw [← List.forall₂_eq_eq_eq, List.forall₂_map_left_iff, List.forall₂_map_right_iff] at h
  exact h

theorem extends_obj_iff {members : Members} {output : Json} :
    (obj members).Extends fixed output ↔ ∃ kept added, output = .obj (kept ++ added) ∧
      List.Forall₂ (KeptMember fixed) members kept ∧
      ∀ key ∈ added.map (·.1), key ∉ members.map (·.1) := by
  constructor
  · intro h
    cases h with
    | obj hkeys hvalues hfixed hadded =>
        have hpairs := List.forall₂_iff_zip.mp (forall₂_key_eq hkeys)
        exact ⟨_, _, rfl, List.forall₂_iff_zip.mpr ⟨hpairs.1, fun hmem =>
          ⟨hpairs.2 hmem, hvalues _ hmem, hfixed _ hmem⟩⟩, hadded⟩
  · rintro ⟨kept, added, rfl, hkept, hadded⟩
    obtain ⟨-, hpairs⟩ := List.forall₂_iff_zip.mp hkept
    exact .obj (keys_eq_of_kept hkept) (fun pair hmem => (hpairs hmem).value)
      (fun pair hmem => (hpairs hmem).unchanged) hadded

theorem Extends.refl (v : Json) : v.Extends fixed v := by
  induction v with
  | null => exact .null
  | bool value => exact .bool value
  | num value => exact .num value
  | str value => exact .str value
  | arr items ih => exact extends_arr_iff.mpr ⟨items, rfl, List.forall₂_same.mpr ih⟩
  | obj members ih =>
      refine extends_obj_iff.mpr ⟨members, [], (by rw [List.append_nil]), ?_, by simp⟩
      exact List.forall₂_same.mpr fun member hmem => ⟨rfl, ih member hmem, fun _ => rfl⟩

theorem lookup_of_kept {members kept : Members}
    (h : List.Forall₂ (KeptMember fixed) members kept) (key : String) :
    Option.Rel (fun value output => KeptMember fixed (key, value) (key, output))
      (members.lookup key) (kept.lookup key) := by
  induction h with
  | nil => exact .none
  | @cons member output members kept hmember _ ih =>
      obtain ⟨name, value⟩ := member
      obtain ⟨name', value'⟩ := output
      obtain rfl : name = name' := hmember.key_eq
      rw [List.lookup_cons, List.lookup_cons]
      by_cases hkey : key = name
      · subst hkey
        rw [beq_self_eq_true]
        exact .some hmember
      · rw [beq_false_of_ne hkey]
        exact ih

/-- Elements are joined with the input of their index. -/
theorem mergeItems_eq_zipWith3 {items lefts rights : List Json}
    (hleft : items.length = lefts.length) (hright : items.length = rights.length)
    (before : List Json) :
    mergeItems lefts rights before.length (some (.arr (before ++ items))) =
      List.zipWith3 (fun left right item => mergeOutputs left right (some item))
        lefts rights items := by
  induction items generalizing lefts rights before with
  | nil =>
      rw [List.eq_nil_of_length_eq_zero hleft.symm, List.eq_nil_of_length_eq_zero hright.symm]
      rfl
  | cons item items ih =>
      obtain ⟨left, lefts, rfl⟩ := List.exists_cons_of_length_eq_add_one hleft.symm
      obtain ⟨right, rights, rfl⟩ := List.exists_cons_of_length_eq_add_one hright.symm
      have hitem :
          (some (arr (before ++ item :: items))).bind (·.at? before.length) = some item := by
        simp [at?]
      have hrest := ih (Nat.succ.inj hleft) (Nat.succ.inj hright) (before ++ [item])
      rw [List.length_append, List.append_assoc] at hrest
      rw [mergeItems, hitem, List.zipWith3]
      exact congrArg _ hrest

theorem mergeOutputs_arr {items lefts rights : List Json} (hleft : items.length = lefts.length)
    (hright : items.length = rights.length) :
    mergeOutputs (.arr lefts) (.arr rights) (some (.arr items)) =
      .arr (List.zipWith3 (fun left right item => mergeOutputs left right (some item))
        lefts rights items) := by
  rw [mergeOutputs_items (hleft.symm.trans hright)]
  exact congrArg _ (mergeItems_eq_zipWith3 hleft hright [])

/-- An extension holds, under each key of the value, what it has in place of that member. -/
theorem exists_lookup_of_kept {members kept : Members} (hnodup : (members.map (·.1)).Nodup)
    (h : List.Forall₂ (KeptMember fixed) members kept) (added : Members)
    {member : String × Json} (hmem : member ∈ members) :
    ∃ output, (kept ++ added).lookup member.1 = some output ∧
      KeptMember fixed member (member.1, output) := by
  have hkept := lookup_of_kept h member.1
  rw [Association.lookup_of_mem hnodup hmem] at hkept
  cases hlookup : kept.lookup member.1 with
  | none =>
      rw [hlookup] at hkept
      cases hkept
  | some output =>
      rw [hlookup] at hkept
      cases hkept with
      | some hkept =>
          refine ⟨output, ?_, hkept⟩
          rw [List.lookup_append, hlookup]
          rfl

theorem input_of_mem {members : Members} (hnodup : (members.map (·.1)).Nodup)
    {member : String × Json} (hmem : member ∈ members) :
    (some (obj members)).bind (·.get? member.1) = some member.2 := by
  rw [Option.bind_some, get?, Association.lookup_of_mem hnodup hmem]

/-- Joining an extension with the value itself changes nothing. -/
theorem mergeOutputs_input {v output : Json} (hv : v.Proper) (h : v.Extends fixed output) :
    mergeOutputs output v (some v) = output := by
  induction v generalizing output with
  | null =>
      cases h
      rfl
  | bool value =>
      cases h
      simp [mergeOutputs]
  | str value =>
      cases h
      simp [mergeOutputs]
  | num value =>
      have hsame : (num value).same (num value) = true := same_refl hv
      cases h with
      | num => simp [mergeOutputs]
      | normalized => simp [mergeOutputs, hsame]
  | arr items ih =>
      obtain ⟨outputs, rfl, houtputs⟩ := extends_arr_iff.mp h
      rw [mergeOutputs_arr houtputs.length_eq rfl]
      congr 1
      have hitems : List.Forall₂ (fun item output => mergeOutputs output item (some item) = output)
          items outputs :=
        Pairing.mono houtputs fun item hmem output _ hitem => ih item hmem (hv.item hmem) hitem
      clear houtputs ih h
      induction hitems with
      | nil => rfl
      | cons hhead _ ih =>
          have hrest := proper_arr.mpr fun item hmem => hv.item (List.mem_cons_of_mem _ hmem)
          rw [List.zipWith3, hhead, ih hrest]
  | obj members ih =>
      obtain ⟨kept, added, rfl, hkept, hadded⟩ := extends_obj_iff.mp h
      have hkeys : members.map (·.1) ⊆ (kept ++ added).map (·.1) := by
        rw [List.map_append, ← keys_eq_of_kept hkept]
        exact List.subset_append_left _ _
      have hnone :
          (members.filter fun member => !Members.contains member.1 (kept ++ added)) = [] := by
        rw [List.filter_eq_nil_iff]
        intro member hmem
        simp [Members.contains_iff.mpr (hkeys (List.mem_map_of_mem (f := (·.1)) hmem))]
      rw [mergeOutputs_obj, hnone, List.append_nil, mergeMembers_eq_map]
      refine congrArg _ ((List.map_congr_left fun output hmem => ?_).trans (List.map_id _))
      rcases List.mem_append.mp hmem with hmem | hmem
      · obtain ⟨member, hmember, hpair⟩ := Pairing.exists_of_mem_right hkept hmem
        rw [← hpair.key_eq, Association.lookup_of_mem hv.nodup hmember,
          input_of_mem hv.nodup hmember]
        dsimp only
        rw [ih member hmember (hv.member hmember) hpair.value, hpair.key_eq]
        rfl
      · have hkey := hadded output.1 (List.mem_map_of_mem (f := (·.1)) hmem)
        rw [Association.lookup_eq_none_iff.mpr hkey]
        rfl

/-- The value itself adds nothing to its extensions on the other side either. -/
theorem input_mergeOutputs {v output : Json} (hv : v.Proper) (houtput : output.Proper)
    (h : v.Extends fixed output) : (mergeOutputs v output (some v)).same output = true := by
  induction v generalizing output with
  | num value =>
      cases h with
      | num => rw [mergeOutputs_self hv]; exact same_refl hv
      | normalized =>
          have hnot : ¬Joinable (num value) (num value.normalize) := not_false
          rw [mergeOutputs_eq_chosen hnot, chosen, Option.any_some, Option.any_some,
            same_refl hv, Bool.true_and]
          cases hsame : (num value).same (num value.normalize) with
          | true => simpa using hsame
          | false => simpa using same_refl houtput
  | arr items ih =>
      obtain ⟨outputs, rfl, houtputs⟩ := extends_arr_iff.mp h
      rw [mergeOutputs_arr rfl houtputs.length_eq, same_arr_iff]
      have hitems : List.Forall₂ (fun item output =>
          (mergeOutputs item output (some item)).same output = true) items outputs :=
        Pairing.mono houtputs fun item hmem output hmem' hitem =>
          ih item hmem (hv.item hmem) (houtput.item hmem') hitem
      clear houtputs houtput ih h hv
      induction hitems with
      | nil => exact .nil
      | cons hhead _ ih => exact .cons hhead ih
  | obj members ih =>
      obtain ⟨kept, added, rfl, hkept, -⟩ := extends_obj_iff.mp h
      rw [mergeOutputs_obj, same_obj_iff_lookup (nodup_mergeOutputs hv.nodup houtput.nodup _)
        houtput.nodup]
      intro key
      rw [lookup_mergeOutputs, Option.bind_some, get?]
      have hkey := lookup_of_kept hkept key
      cases hvalue : members.lookup key with
      | none =>
          cases hadded : (kept ++ added).lookup key with
          | none => exact .none
          | some value => exact .some (same_refl (houtput.lookup hadded))
      | some value =>
          cases hother : kept.lookup key with
          | none => rw [hvalue, hother] at hkey; cases hkey
          | some other =>
              rw [hvalue, hother, Option.rel_some_some] at hkey
              have hlookup : (kept ++ added).lookup key = some other := by
                rw [List.lookup_append, hother, Option.some_or]
              rw [hlookup]
              exact .some (ih (key, value) (Association.mem_of_lookup hvalue) (hv.lookup hvalue)
                (houtput.lookup hlookup) hkey.value)
  | _ =>
      cases h
      rw [mergeOutputs_self hv]
      exact same_refl hv

/-- What the two sides of an intersection made of a value joins to an extension of the value. -/
theorem Extends.mergeOutputs {v left right : Json} (hv : v.Proper) (hleft : v.Extends fixed left)
    (hright : v.Extends fixed right) :
    v.Extends fixed (Json.mergeOutputs left right (some v)) := by
  induction v generalizing left right with
  | null =>
      cases hleft
      cases hright
      exact .null
  | bool value =>
      cases hleft
      cases hright
      rw [mergeOutputs_self hv]
      exact .bool value
  | str value =>
      cases hleft
      cases hright
      rw [mergeOutputs_self hv]
      exact .str value
  | num value =>
      have heither : Json.mergeOutputs left right (some (Json.num value)) = left ∨
          Json.mergeOutputs left right (some (Json.num value)) = right := by
        cases hleft <;> cases hright <;> simp only [Json.mergeOutputs] <;> split <;> simp
      rcases heither with heq | heq
      · rwa [heq]
      · rwa [heq]
  | arr items ih =>
      obtain ⟨lefts, rfl, hlefts⟩ := extends_arr_iff.mp hleft
      obtain ⟨rights, rfl, hrights⟩ := extends_arr_iff.mp hright
      rw [mergeOutputs_arr hlefts.length_eq hrights.length_eq]
      exact extends_arr_iff.mpr ⟨_, rfl, Pairing.zipWith3 hlefts hrights
        fun item hmem left right hl hr => ih item hmem (hv.item hmem) hl hr⟩
  | obj members ih =>
      obtain ⟨kept, added, rfl, hkept, hadded⟩ := extends_obj_iff.mp hleft
      obtain ⟨kept', added', rfl, hkept', hadded'⟩ := extends_obj_iff.mp hright
      rw [mergeOutputs_obj, mergeMembers_eq_map, List.map_append, List.append_assoc]
      refine extends_obj_iff.mpr ⟨_, _, rfl, ?_, ?_⟩
      · rw [List.forall₂_map_right_iff]
        refine Pairing.mono hkept fun member hmem output _ hpair => ?_
        obtain ⟨other, hlookup, hpair'⟩ := exists_lookup_of_kept hv.nodup hkept' added' hmem
        rw [← hpair.key_eq, hlookup, input_of_mem hv.nodup hmem]
        refine ⟨rfl, ih member hmem (hv.member hmem) hpair.value hpair'.value, fun hfixed => ?_⟩
        have hother : other = member.2 := hpair'.unchanged hfixed
        dsimp only
        rw [hpair.unchanged hfixed, hother, mergeOutputs_self (hv.member hmem)]
      · intro key hkey hmem
        rw [List.map_append, List.map_map] at hkey
        rcases List.mem_append.mp hkey with hkey | hkey
        · exact hadded key hkey hmem
        · obtain ⟨member, hmember, rfl⟩ := List.mem_map.mp hkey
          obtain ⟨-, hnew⟩ := List.mem_filter.mp hmember
          rw [Bool.not_eq_true', Members.contains_eq_false_iff, List.map_append,
            List.mem_append, not_or, ← keys_eq_of_kept hkept] at hnew
          exact hnew.1 hmem

end EntityContract.Json
