import EntityContract.Proofs.Json.Widening

/-!
What gathers all that several sides have made of an input: every scalar that a side has changed,
every member that a side has added, and nothing else. Input and sides determine it up to the order
of members, and it may be gathered in steps.
-/

namespace EntityContract.Json

/-- The output holds what the sides have made of the input, and the input where no side has changed
it. -/
structure Gathers (input : Json) (sides : List Json) (output : Json) : Prop where
  widens : input.WidensTo output
  keys : ∀ path key, output.HasKey path key ↔ ∃ side ∈ sides, side.HasKey path key
  changed : ∀ side ∈ sides, ∀ path value, input.Changed side path value →
    output.Holds path value
  added : ∀ side ∈ sides, ∀ path key value, input.Added side path key value →
    output.Holds (path ++ [.key key]) value
  kept : ∀ path value, input.follow? path = some value → value.Scalar →
    (∀ side ∈ sides, ∀ new, ¬input.Changed side path new) → output.Holds path value

variable {input side output value other part : Json} {sides others : List Json}
  {segment : Segment} {path : Path} {key : String}

theorem exists_hasKey_cons_iff : (∃ side ∈ sides, side.HasKey (segment :: path) key) ↔
    ∃ inner ∈ sides.filterMap (·.enter? segment), inner.HasKey path key := by
  simp only [List.mem_filterMap, hasKey_cons_iff]
  constructor
  · rintro ⟨side, hside, inner, hinner, hkey⟩
    exact ⟨inner, ⟨side, hside, hinner⟩, hkey⟩
  · rintro ⟨inner, ⟨side, hside, hinner⟩, hkey⟩
    exact ⟨side, hside, inner, hinner, hkey⟩

namespace Gathers

/-- Only which sides there are matters. -/
theorem congr (h : Gathers input sides output) (hsides : ∀ side, side ∈ sides ↔ side ∈ others) :
    Gathers input others output := by
  constructor
  · exact h.widens
  · intro path key
    simp only [h.keys, hsides]
  · intro side hside
    exact h.changed side ((hsides side).mpr hside)
  · intro side hside
    exact h.added side ((hsides side).mpr hside)
  · intro path value hvalue hscalar hnone
    exact h.kept path value hvalue hscalar fun side hside => hnone side ((hsides side).mp hside)

/-- Part by part, the output gathers the parts of the sides. -/
theorem enter {result : Json} (h : Gathers input sides output)
    (hpart : input.enter? segment = some part) (hresult : output.enter? segment = some result) :
    Gathers part (sides.filterMap (·.enter? segment)) result := by
  have hholds : ∀ {path value}, output.Holds (segment :: path) value → result.Holds path value := by
    intro path value hvalue
    obtain ⟨inner, hinner, hheld⟩ := holds_cons_iff.mp hvalue
    rw [hresult, Option.some.injEq] at hinner
    rwa [hinner]
  constructor
  · obtain ⟨inner, hinner, hwidens⟩ := h.widens.enter hpart
    rw [hresult, Option.some.injEq] at hinner
    rwa [hinner]
  · intro path key
    rw [← hasKey_cons_iff_of_enter? hresult, h.keys, exists_hasKey_cons_iff]
  · intro inner hmem path value hvalue
    obtain ⟨side, hside, hinner⟩ := List.mem_filterMap.mp hmem
    exact hholds (h.changed side hside _ value
      (changed_cons_iff.mpr ⟨part, hpart, inner, hinner, hvalue⟩))
  · intro inner hmem path key value hvalue
    obtain ⟨side, hside, hinner⟩ := List.mem_filterMap.mp hmem
    exact hholds (h.added side hside _ key value
      (added_cons_iff.mpr ⟨part, hpart, inner, hinner, hvalue⟩))
  · intro path value hvalue hscalar hnone
    apply hholds
    have hfollow := follow?_cons_eq_some_iff.mpr ⟨part, hpart, hvalue⟩
    apply h.kept (segment :: path) value hfollow hscalar
    intro side hside new hchanged
    obtain ⟨part', hpart', inner, hinner, hchanged⟩ := changed_cons_iff.mp hchanged
    rw [hpart, Option.some.injEq] at hpart'
    subst hpart'
    exact hnone inner (List.mem_filterMap.mpr ⟨side, hside, hinner⟩) new hchanged

/-- A scalar of the output is equal to that of the input unless a side has changed it. -/
theorem exists_changed {new : Json} (h : Gathers input sides output) (houtput : output.Proper)
    (hnew : input.Changed output path new) :
    ∃ side ∈ sides, ∃ value, input.Changed side path value := by
  obtain ⟨old, hold, hscalar, hfollow, hdiffers⟩ := hnew
  by_contra hnone
  obtain ⟨found, hfound, hsame⟩ := h.kept path old hold hscalar
    fun side hside value hvalue => hnone ⟨side, hside, value, hvalue⟩
  rw [hfollow, Option.some.injEq] at hfound
  subst hfound
  rw [same_symm (houtput.follow? hfollow) hscalar.proper hsame] at hdiffers
  exact nomatch hdiffers

/-- A member that is new in the output is new in a side. -/
theorem exists_added {new : Json} (h : Gathers input sides output)
    (hnew : input.Added output path key new) :
    ∃ side ∈ sides, ∃ value, input.Added side path key value := by
  obtain ⟨members, hmembers, hkey, hfollow⟩ := hnew
  obtain ⟨side, hside, hhas⟩ := (h.keys path key).mp (hasKey_iff.mpr ⟨new, hfollow⟩)
  obtain ⟨value, hvalue⟩ := hasKey_iff.mp hhas
  exact ⟨side, hside, value, members, hmembers, hkey, hvalue⟩

/-- What agrees with every side agrees with what gathers them. -/
theorem agrees (h : Gathers input sides output) (houtput : output.Proper)
    (hsides : ∀ side ∈ sides, input.Agrees side other) : input.Agrees output other := by
  constructor
  · intro path new value hnew hvalue
    obtain ⟨side, hside, changed, hchanged⟩ := h.exists_changed houtput hnew
    obtain ⟨found, hfound, hsame⟩ := h.changed side hside path changed hchanged
    obtain ⟨-, -, -, hfollow, -⟩ := hnew
    rw [hfollow, Option.some.injEq] at hfound
    subst hfound
    exact same_trans hsame ((hsides side hside).changed path changed value hchanged hvalue)
  · intro path key new value hnew hvalue
    obtain ⟨side, hside, added, hadded⟩ := h.exists_added hnew
    obtain ⟨found, hfound, hsame⟩ := h.added side hside path key added hadded
    obtain ⟨-, -, -, hfollow⟩ := hnew
    rw [hfollow, Option.some.injEq] at hfound
    subst hfound
    exact same_trans hsame ((hsides side hside).added path key added value hadded hvalue)

/-- What gathers some sides may stand for them among others. -/
theorem append {middle : Json} (h : Gathers input sides middle) (hmiddle : middle.Proper)
    (houtput : Gathers input (middle :: others) output) :
    Gathers input (sides ++ others) output := by
  have hholds : ∀ {path found value}, output.Holds path found → found.same value = true →
      output.Holds path value := by
    rintro path found value ⟨held, hheld, hsame⟩ hfound
    exact ⟨held, hheld, same_trans hsame hfound⟩
  constructor
  · exact houtput.widens
  · intro path key
    simp only [houtput.keys, List.mem_cons, List.mem_append, or_and_right, exists_or,
      exists_eq_left, h.keys]
  · intro side hside path value hvalue
    rcases List.mem_append.mp hside with hside | hside
    · obtain ⟨found, hfound, hsame⟩ := h.changed side hside path value hvalue
      obtain ⟨old, hold, hscalar, -, hdiffers⟩ := hvalue
      -- What is held in the middle is equal to what the side has, so it is a change as well.
      refine hholds (houtput.changed middle List.mem_cons_self path found
        ⟨old, hold, hscalar, hfound, ?_⟩) hsame
      cases hfoundOld : old.same found with
      | false => rfl
      | true =>
          rw [same_trans hfoundOld hsame] at hdiffers
          exact nomatch hdiffers
    · exact houtput.changed side (List.mem_cons_of_mem _ hside) path value hvalue
  · intro side hside path key value hvalue
    rcases List.mem_append.mp hside with hside | hside
    · obtain ⟨found, hfound, hsame⟩ := h.added side hside path key value hvalue
      obtain ⟨members, hmembers, hkey, -⟩ := hvalue
      exact hholds (houtput.added middle List.mem_cons_self path key found
        ⟨members, hmembers, hkey, hfound⟩) hsame
    · exact houtput.added side (List.mem_cons_of_mem _ hside) path key value hvalue
  · intro path value hvalue hscalar hnone
    apply houtput.kept path value hvalue hscalar
    intro side hside new hnew
    rcases List.mem_cons.mp hside with rfl | hside
    · obtain ⟨side, hside, changed, hchanged⟩ := h.exists_changed hmiddle hnew
      exact hnone side (List.mem_append_left _ hside) changed hchanged
    · exact hnone side (List.mem_append_right _ hside) new hnew

variable {result : Json}

/-- A new key has equal values in all that gathers the same sides. -/
theorem rel_enter?_of_not_mem {members : Members} (h : Gathers (.obj members) sides output)
    (hresult : Gathers (.obj members) sides result) (hproper : result.Proper)
    (hsides : ∀ side ∈ sides, side.Proper) (hkey : key ∉ members.map (·.1)) :
    Option.Rel (fun value value' => value.same value' = true) (output.enter? (.key key))
      (result.enter? (.key key)) := by
  by_cases hhas : ∃ side ∈ sides, side.HasKey [] key
  · obtain ⟨side, hside, hhas⟩ := hhas
    obtain ⟨value, hvalue⟩ := hasKey_iff.mp hhas
    have hadded : (obj members).Added side [] key value := ⟨members, rfl, hkey, hvalue⟩
    obtain ⟨found, hfound, hsame⟩ := h.added side hside [] key value hadded
    obtain ⟨found', hfound', hsame'⟩ := hresult.added side hside [] key value hadded
    rw [List.nil_append, follow?_singleton] at hfound hfound'
    rw [hfound, hfound', Option.rel_some_some]
    exact same_trans hsame (same_symm (hproper.part (part_of_enter? hfound'))
      ((hsides side hside).follow? hvalue) hsame')
  · have hnone : ∀ {value}, Gathers (.obj members) sides value →
        value.enter? (.key key) = none := by
      intro value hvalue
      cases hpart : value.enter? (.key key) with
      | none => rfl
      | some part =>
          exact absurd ((hvalue.keys [] key).mp (hasKey_nil_iff.mpr ⟨part, hpart⟩)) hhas
    rw [hnone h, hnone hresult]
    exact .none

/-- Input and sides determine what gathers them, up to the order of members. -/
theorem same (h : Gathers input sides output) (hresult : Gathers input sides result)
    (houtput : output.Proper) (hproper : result.Proper) (hsides : ∀ side ∈ sides, side.Proper) :
    output.same result = true := by
  induction input using induct_parts generalizing sides output result with
  | step input ih =>
      have hpart : ∀ {segment part inner inner'}, input.enter? segment = some part →
          output.enter? segment = some inner → result.enter? segment = some inner' →
            inner.same inner' = true := by
        intro segment part inner inner' hpart hinner hinner'
        apply ih part (part_of_enter? hpart) (h.enter hpart hinner) (hresult.enter hpart hinner')
          (houtput.part (part_of_enter? hinner)) (hproper.part (part_of_enter? hinner'))
        intro side hside
        obtain ⟨whole, hwhole, henter⟩ := List.mem_filterMap.mp hside
        exact (hsides whole hwhole).part (part_of_enter? henter)
      rcases scalar_or_parts input with hscalar | ⟨items, rfl⟩ | ⟨members, rfl⟩
      · have hboth : ∀ {value}, value.Proper → output.Holds [] value → result.Holds [] value →
            output.same result = true := by
          intro value hvalue hheld hheld'
          rw [holds_nil_iff] at hheld hheld'
          exact same_trans hheld (same_symm hproper hvalue hheld')
        by_cases hchanged : ∃ side ∈ sides, ∃ new, input.Changed side [] new
        · obtain ⟨side, hside, new, hnew⟩ := hchanged
          have hvalue : new.Proper := by
            obtain ⟨-, -, -, hfollow, -⟩ := hnew
            exact (hsides side hside).follow? hfollow
          exact hboth hvalue (h.changed side hside [] new hnew)
            (hresult.changed side hside [] new hnew)
        · have hnone : ∀ side ∈ sides, ∀ new, ¬input.Changed side [] new :=
            fun side hside new hnew => hchanged ⟨side, hside, new, hnew⟩
          exact hboth hscalar.proper (h.kept [] input rfl hscalar hnone)
            (hresult.kept [] input rfl hscalar hnone)
      · obtain ⟨outputs, rfl, houtputs⟩ := arr_widensTo_iff.mp h.widens
        obtain ⟨results, rfl, hresults⟩ := arr_widensTo_iff.mp hresult.widens
        have hlength := houtputs.length_eq
        refine same_arr_iff.mpr (List.forall₂_iff_get.mpr
          ⟨hlength.symm.trans hresults.length_eq, fun i hi hi' => ?_⟩)
        exact @hpart (.index i) _ _ _ (List.getElem?_eq_getElem (hlength ▸ hi))
          (List.getElem?_eq_getElem hi) (List.getElem?_eq_getElem hi')
      · obtain ⟨others, rfl, hothers⟩ := obj_widensTo_iff.mp h.widens
        obtain ⟨results, rfl, hresults⟩ := obj_widensTo_iff.mp hresult.widens
        rw [same_obj_iff_lookup houtput.nodup hproper.nodup]
        intro key
        cases hlookup : members.lookup key with
        | none =>
            exact h.rel_enter?_of_not_mem hresult hproper hsides
              (Association.lookup_eq_none_iff.mp hlookup)
        | some part =>
            obtain ⟨inner, hinner, -⟩ := hothers key part hlookup
            obtain ⟨inner', hinner', -⟩ := hresults key part hlookup
            rw [hinner, hinner']
            exact .some (@hpart (.key key) _ _ _ hlookup hinner hinner')

end Gathers

/-- At a place where the input has nothing, the output has what the sides have there. -/
structure Collects (sides : List Json) (output : Json) (segment : Segment) : Prop where
  held : ∀ side ∈ sides, ∀ value, side.enter? segment = some value →
    ∃ result, output.enter? segment = some result ∧ result.same value = true
  found : ∀ result, output.enter? segment = some result →
    ∃ side ∈ sides, ∃ value, side.enter? segment = some value

theorem Collects.hasKey_iff (h : Collects sides output segment) (houtput : output.Proper)
    (hsides : ∀ side ∈ sides, side.Proper) : output.HasKey (segment :: path) key ↔
      ∃ side ∈ sides, side.HasKey (segment :: path) key := by
  constructor
  · intro hkey
    obtain ⟨result, hresult, hkey⟩ := hasKey_cons_iff.mp hkey
    obtain ⟨side, hside, value, hvalue⟩ := h.found result hresult
    obtain ⟨result', hresult', hsame⟩ := h.held side hside value hvalue
    rw [hresult, Option.some.injEq] at hresult'
    subst hresult'
    exact ⟨side, hside, hasKey_cons_iff.mpr ⟨value, hvalue,
      hkey.of_same (houtput.part (part_of_enter? hresult))
        ((hsides side hside).part (part_of_enter? hvalue)) hsame⟩⟩
  · rintro ⟨side, hside, hkey⟩
    obtain ⟨value, hvalue, hkey⟩ := hasKey_cons_iff.mp hkey
    obtain ⟨result, hresult, hsame⟩ := h.held side hside value hvalue
    have hproper := houtput.part (part_of_enter? hresult)
    have hproper' := (hsides side hside).part (part_of_enter? hvalue)
    exact hasKey_cons_iff.mpr ⟨result, hresult,
      hkey.of_same hproper' hproper (same_symm hproper hproper' hsame)⟩

theorem same_of_not_changed (hnone : ∀ side ∈ sides, ∀ new, ¬input.Changed side [] new)
    (hscalar : input.Scalar) : ∀ side ∈ sides, input.same side = true := by
  intro side hside
  cases hsame : input.same side with
  | true => rfl
  | false => exact absurd (changed_nil_iff.mpr ⟨hscalar, rfl, hsame⟩) (hnone side hside side)

section Parts

variable (hwidens : ∀ side ∈ sides, input.WidensTo side) (hsides : ∀ side ∈ sides, side.Proper)
  (houtput : output.Proper) (hsome : sides ≠ [])
  (hparts : ∀ segment part, input.enter? segment = some part → ∃ result,
    output.enter? segment = some result ∧
      Gathers part (sides.filterMap (·.enter? segment)) result)
  (hnew : ∀ segment, input.enter? segment = none → Collects sides output segment)

include hwidens hsome hparts hnew in
theorem hasKey_nil_iff_of_enter :
    output.HasKey [] key ↔ ∃ side ∈ sides, side.HasKey [] key := by
  simp only [hasKey_nil_iff]
  cases hpart : input.enter? (.key key) with
  | none =>
      have hcollects := hnew _ hpart
      constructor
      · rintro ⟨result, hresult⟩
        exact hcollects.found result hresult
      · rintro ⟨side, hside, value, hvalue⟩
        obtain ⟨result, hresult, -⟩ := hcollects.held side hside value hvalue
        exact ⟨result, hresult⟩
  | some part =>
      obtain ⟨result, hresult, -⟩ := hparts _ part hpart
      obtain ⟨side, hside⟩ := List.exists_mem_of_ne_nil sides hsome
      obtain ⟨value, hvalue, -⟩ := (hwidens side hside).enter hpart
      exact ⟨fun _ => ⟨side, hside, value, hvalue⟩, fun _ => ⟨result, hresult⟩⟩

include hsides houtput hparts hnew in
theorem hasKey_cons_iff_of_enter :
    output.HasKey (segment :: path) key ↔ ∃ side ∈ sides, side.HasKey (segment :: path) key := by
  cases hpart : input.enter? segment with
  | none => exact (hnew segment hpart).hasKey_iff houtput hsides
  | some part =>
      obtain ⟨result, hresult, hgathers⟩ := hparts segment part hpart
      rw [hasKey_cons_iff_of_enter? hresult, hgathers.keys, exists_hasKey_cons_iff]

include hwidens hsides houtput hsome hparts hnew in
/-- An output gathers the sides if it does so at the root, in each part of the input, and where the
input has nothing. -/
theorem Gathers.of_enter (hroot : input.WidensTo output)
    (hchanged : input.Scalar → ∀ side ∈ sides, input.same side = false → output.same side = true)
    (hkept : input.Scalar → (∀ side ∈ sides, input.same side = true) →
      output.same input = true) : Gathers input sides output := by
  constructor
  -- Below a part of the input what gathers its parts answers; a new member is settled at its key.
  · exact hroot
  · intro path key
    cases path with
    | nil => exact hasKey_nil_iff_of_enter hwidens hsome hparts hnew
    | cons segment path => exact hasKey_cons_iff_of_enter hsides houtput hparts hnew
  · intro side hside path value hvalue
    cases path with
    | nil =>
        obtain ⟨hscalar, rfl, hdiffers⟩ := changed_nil_iff.mp hvalue
        exact holds_nil_iff.mpr (hchanged hscalar side hside hdiffers)
    | cons segment path =>
        obtain ⟨part, hpart, inner, hinner, hvalue⟩ := changed_cons_iff.mp hvalue
        obtain ⟨result, hresult, hgathers⟩ := hparts segment part hpart
        have hmem : inner ∈ sides.filterMap (·.enter? segment) :=
          List.mem_filterMap.mpr ⟨side, hside, hinner⟩
        exact holds_cons_iff.mpr ⟨result, hresult, hgathers.changed inner hmem path value hvalue⟩
  · intro side hside path key value hvalue
    cases path with
    | nil =>
        obtain ⟨result, hresult, hsame⟩ :=
          (hnew _ hvalue.enter?_eq_none).held side hside value hvalue.enter?_eq_some
        exact holds_cons_iff.mpr ⟨result, hresult, holds_nil_iff.mpr hsame⟩
    | cons segment path =>
        obtain ⟨part, hpart, inner, hinner, hvalue⟩ := added_cons_iff.mp hvalue
        obtain ⟨result, hresult, hgathers⟩ := hparts segment part hpart
        have hmem : inner ∈ sides.filterMap (·.enter? segment) :=
          List.mem_filterMap.mpr ⟨side, hside, hinner⟩
        exact holds_cons_iff.mpr ⟨result, hresult, hgathers.added inner hmem path key value hvalue⟩
  · intro path value hvalue hscalar hnone
    cases path with
    | nil =>
        cases hvalue
        exact holds_nil_iff.mpr (hkept hscalar (same_of_not_changed hnone hscalar))
    | cons segment path =>
        obtain ⟨part, hpart, hvalue⟩ := follow?_cons_eq_some_iff.mp hvalue
        obtain ⟨result, hresult, hgathers⟩ := hparts segment part hpart
        refine holds_cons_iff.mpr ⟨result, hresult, hgathers.kept path value hvalue hscalar ?_⟩
        intro inner hmem new hnew
        obtain ⟨side, hside, hinner⟩ := List.mem_filterMap.mp hmem
        exact hnone side hside new (changed_cons_iff.mpr ⟨part, hpart, inner, hinner, hnew⟩)

end Parts

end EntityContract.Json
