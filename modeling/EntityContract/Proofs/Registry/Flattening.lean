import EntityContract.Proofs.Registry.Guard
import EntityContract.Proofs.Shape.Congruence
import EntityContract.Registry.Flatten

/-!
The object that a shape comes down to, as a relation. In an indexed registry the function finds
it: neither the bound on its rounds nor the keys on the way ever decide.
-/

namespace EntityContract.Registry

open Relation

/-- The shape comes down to the object through references and intersections. -/
inductive Flattens (registry : Registry) : Shape → ObjectShape → Prop
  | object (fields : Fields) (policy : UnknownFields) :
      Flattens registry (.object fields policy) ⟨fields, policy⟩
  | ref {key : String} {shape : Shape} {object : ObjectShape} :
      registry.shape? key = some shape → Flattens registry shape object →
        Flattens registry (.ref key) object
  | intersection {left right : Shape} {leftObject rightObject : ObjectShape} :
      Flattens registry left leftObject → Flattens registry right rightObject →
        Flattens registry (.intersection left right) (leftObject.merge rightObject)

variable {registry : Registry}

theorem flattens_of_flattenWith {follow : String → Option ObjectShape}
    (hfollow : ∀ key object, follow key = some object → registry.Flattens (.ref key) object)
    {shape : Shape} {object : ObjectShape} (h : shape.flattenWith follow = some object) :
    registry.Flattens shape object := by
  induction shape generalizing object with
  | object fields policy ih =>
      rw [Shape.flattenWith] at h
      cases h
      exact .object fields policy
  | ref key => exact hfollow key object h
  | intersection left right ihLeft ihRight =>
      rw [Shape.flattenWith] at h
      obtain ⟨leftObject, hleft, h⟩ := Option.bind_eq_some_iff.mp h
      obtain ⟨rightObject, hright, h⟩ := Option.bind_eq_some_iff.mp h
      cases h
      exact .intersection (ihLeft hleft) (ihRight hright)
  | _ => exact nomatch h

theorem flattens_of_follow {rounds : Nat} {onTheWay : List String} {key : String}
    {object : ObjectShape} (h : registry.follow onTheWay rounds key = some object) :
    registry.Flattens (.ref key) object := by
  induction rounds generalizing onTheWay key object with
  | zero => exact nomatch h
  | succ rounds ih =>
      rw [follow] at h
      split at h
      · exact nomatch h
      · obtain ⟨shape, hshape, h⟩ := Option.bind_eq_some_iff.mp h
        exact .ref hshape (flattens_of_flattenWith (fun _ _ hfollow => ih hfollow) h)

/-- The keys on the way are distinct entities that lead to every key that the shape refers to, so
none of these is on the way, and a round is left for it. -/
theorem flattenWith_of_flattens (hregistry : registry.Indexed) {shape : Shape}
    {object : ObjectShape} (h : registry.Flattens shape object) {onTheWay : List String}
    {rounds : Nat} (hnodup : onTheWay.Nodup)
    (hway : ∀ key ∈ onTheWay, key ∈ registry.names ∧
      ∀ other ∈ shape.unguarded, TransGen registry.Refers key other)
    (hrounds : registry.size ≤ onTheWay.length + rounds) :
    shape.flattenWith (registry.follow onTheWay rounds) = some object := by
  induction h generalizing onTheWay rounds with
  | object fields policy => rfl
  | @intersection left right leftObject rightObject _ _ ihLeft ihRight =>
      have hleft := ihLeft hnodup (fun key hkey => ⟨(hway key hkey).1, fun other hother =>
        (hway key hkey).2 other (List.mem_append_left _ hother)⟩) hrounds
      have hright := ihRight hnodup (fun key hkey => ⟨(hway key hkey).1, fun other hother =>
        (hway key hkey).2 other (List.mem_append_right _ hother)⟩) hrounds
      rw [Shape.flattenWith, hleft, hright]
      rfl
  | @ref key shape object hshape _ ih =>
      have hreach : ∀ other ∈ onTheWay, TransGen registry.Refers other key :=
        fun other hother => (hway other hother).2 key (List.mem_singleton.mpr rfl)
      have hnew : key ∉ onTheWay := fun hkey => hregistry.acyclic key (hreach key hkey)
      have hname := mem_names_of_shape? hshape
      have hlength : onTheWay.length < registry.size := by
        have hsubset : key :: onTheWay ⊆ registry.names :=
          List.cons_subset.mpr ⟨hname, fun other hother => (hway other hother).1⟩
        have hle := ((List.nodup_cons.mpr ⟨hnew, hnodup⟩).subperm hsubset).length_le
        rw [List.length_cons, names, List.length_map] at hle
        exact hle
      obtain ⟨rounds, rfl⟩ : ∃ fewer, rounds = fewer + 1 :=
        Nat.exists_eq_succ_of_ne_zero (by omega)
      rw [Shape.flattenWith, follow, if_neg (by simpa using hnew), hshape]
      apply ih (List.nodup_cons.mpr ⟨hnew, hnodup⟩)
      · intro other hother
        refine ⟨?_, fun target htarget => ?_⟩
        · rcases List.mem_cons.mp hother with rfl | hother
          · exact hname
          · exact (hway other hother).1
        · have hstep : registry.Refers key target := refers_iff.mpr ⟨shape, hshape, htarget⟩
          rcases List.mem_cons.mp hother with rfl | hother
          · exact .single hstep
          · exact (hreach other hother).tail hstep
      · rw [List.length_cons]
        omega

theorem flattens_of_flatten {shape : Shape} {object : ObjectShape}
    (h : registry.flatten shape = some object) : registry.Flattens shape object :=
  flattens_of_flattenWith (fun _ _ => flattens_of_follow) h

theorem flatten_eq_some_iff (hregistry : registry.Indexed) {shape : Shape}
    {object : ObjectShape} :
    registry.flatten shape = some object ↔ registry.Flattens shape object :=
  ⟨flattens_of_flatten,
    fun h => flattenWith_of_flattens hregistry h List.nodup_nil (by simp) (by simp)⟩

/-- The fields of the object are made of shapes of the registry, as far as they are referred to. -/
theorem Flattens.everywhere {p : Shape → Prop} (hp : Shape.Mergeable p)
    (hregistry : ∀ key shape, p (.ref key) → registry.shape? key = some shape →
      shape.Everywhere p)
    {shape : Shape} {object : ObjectShape} (h : registry.Flattens shape object)
    (hshape : shape.Everywhere p) : ∀ field ∈ object.fields, field.2.Everywhere p := by
  induction h with
  | object fields policy => exact (Shape.Everywhere.object_iff.mp hshape).2
  | ref hfound _ ih => exact ih (hregistry _ _ hshape.self hfound)
  | intersection _ _ ihLeft ihRight =>
      obtain ⟨-, hleft, hright⟩ := Shape.Everywhere.intersection_iff.mp hshape
      exact Shape.Everywhere.mergeFields hp (ihLeft hleft) (ihRight hright)

/-- No intersection merges two objects that declare the same name. -/
def MergesApart (registry : Registry) : Prop :=
  ∀ left right, Shape.intersection left right ∈ registry.shapes →
    ∀ leftObject rightObject, registry.flatten left = some leftObject →
      registry.flatten right = some rightObject →
        ∀ name ∈ leftObject.fields.map (·.1), name ∉ rightObject.fields.map (·.1)

theorem Flattens.nodup (hregistry : registry.Indexed) {shape : Shape} {object : ObjectShape}
    (h : registry.Flattens shape object) (hshape : shape.WellFormed) :
    (object.fields.map (·.1)).Nodup := by
  induction h with
  | object fields policy => exact hshape.self
  | ref hfound _ ih => exact ih (hregistry.wellFormed hfound)
  | intersection _ _ ihLeft ihRight =>
      obtain ⟨-, hleft, -⟩ := Shape.Everywhere.intersection_iff.mp hshape
      exact Shape.nodup_mergeFields (ihLeft hleft)

/-- Where objects merge apart, merged fields are fields of the registry. -/
theorem Flattens.mem_shapes (hregistry : registry.Indexed) (hapart : registry.MergesApart)
    {shape : Shape} {object : ObjectShape} (h : registry.Flattens shape object)
    (hshape : shape ∈ registry.shapes) : ∀ field ∈ object.fields, field.2 ∈ registry.shapes := by
  induction h with
  | object fields policy =>
      intro field hfield
      apply mem_shapes_of_mem_subshapes hshape
      rw [Shape.subshapes]
      exact List.mem_cons_of_mem _
        (Shape.mem_subshapesOfFields.mpr ⟨field, hfield, field.2.mem_subshapes_self⟩)
  | ref hfound _ ih => exact ih (mem_shapes_of_shape? hfound)
  | @intersection left right leftObject rightObject hleft hright ihLeft ihRight =>
      have hsubshapes : left ∈ registry.shapes ∧ right ∈ registry.shapes := by
        refine ⟨mem_shapes_of_mem_subshapes hshape ?_, mem_shapes_of_mem_subshapes hshape ?_⟩
        · simp [Shape.subshapes, Shape.mem_subshapes_self]
        · simp [Shape.subshapes, Shape.mem_subshapes_self]
      have hwell : right.WellFormed := hregistry.wellFormed_of_mem_shapes hsubshapes.2
      have hdisjoint := hapart left right hshape leftObject rightObject
        ((flatten_eq_some_iff hregistry).mpr hleft) ((flatten_eq_some_iff hregistry).mpr hright)
      intro field hfield
      rw [ObjectShape.merge] at hfield
      dsimp only at hfield
      rw [Shape.mergeFields_eq_append (hright.nodup hregistry hwell) hdisjoint] at hfield
      rcases List.mem_append.mp hfield with hfield | hfield
      · exact ihLeft hsubshapes.1 field hfield
      · exact ihRight hsubshapes.2 field hfield

theorem Flattens.wellFormed (hregistry : registry.Indexed) {shape : Shape}
    {object : ObjectShape} (h : registry.Flattens shape object) (hshape : shape.WellFormed) :
    object.toShape.WellFormed :=
  Shape.Everywhere.object_iff.mpr ⟨h.nodup hregistry hshape,
    h.everywhere Shape.mergeable_local (fun _ _ _ => hregistry.wellFormed) hshape⟩

/-- Equal shapes come down to equal objects. -/
theorem Flattens.of_same (hregistry : registry.Indexed) {shape other : Shape}
    {object : ObjectShape} (h : registry.Flattens shape object) (hshape : shape.WellFormed)
    (hother : other.WellFormed) (hsame : shape.same other = true) :
    ∃ object', registry.Flattens other object' ∧ object.Same object' := by
  induction h generalizing other with
  | object fields policy =>
      obtain ⟨fields', rfl, hfields⟩ := Shape.exists_of_same_object hsame
      exact ⟨_, .object fields' policy, rfl, hfields⟩
  | ref hfound hinner ih =>
      rw [Shape.eq_of_same_ref hsame]
      exact ⟨_, .ref hfound hinner,
        ObjectShape.same_refl (hinner.wellFormed hregistry (hregistry.wellFormed hfound))⟩
  | intersection hleft hright ihLeft ihRight =>
      obtain ⟨left', right', rfl, hl, hr⟩ := Shape.exists_of_same_intersection hsame
      obtain ⟨-, hleftWell, hrightWell⟩ := Shape.Everywhere.intersection_iff.mp hshape
      obtain ⟨-, hleftWell', hrightWell'⟩ := Shape.Everywhere.intersection_iff.mp hother
      obtain ⟨leftObject', hleft', hlObject⟩ := ihLeft hleftWell hleftWell' hl
      obtain ⟨rightObject', hright', hrObject⟩ := ihRight hrightWell hrightWell' hr
      exact ⟨_, .intersection hleft' hright', hlObject.merge hrObject
        (hleft.wellFormed hregistry hleftWell) (hleft'.wellFormed hregistry hleftWell')
        (hright.wellFormed hregistry hrightWell) (hright'.wellFormed hregistry hrightWell')⟩

theorem flatten_same (hregistry : registry.Indexed) {shape other : Shape}
    (hshape : shape.WellFormed) (hother : other.WellFormed) (hsame : shape.same other = true) :
    Option.Rel ObjectShape.Same (registry.flatten shape) (registry.flatten other) := by
  cases hflatten : registry.flatten shape with
  | some object =>
      have hflattens := (flatten_eq_some_iff hregistry).mp hflatten
      obtain ⟨object', hflattens', hobject⟩ := hflattens.of_same hregistry hshape hother hsame
      rw [(flatten_eq_some_iff hregistry).mpr hflattens']
      exact .some hobject
  | none =>
      cases hflatten' : registry.flatten other with
      | none => exact .none
      | some object' =>
          have hflattens' := (flatten_eq_some_iff hregistry).mp hflatten'
          obtain ⟨object, hflattens, -⟩ := hflattens'.of_same hregistry hother hshape
            (Shape.same_symm hshape hother hsame)
          rw [(flatten_eq_some_iff hregistry).mpr hflattens] at hflatten
          exact nomatch hflatten

end EntityContract.Registry
