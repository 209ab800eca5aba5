import EntityContract.Proofs.Shape.Lowering

/-!
The objects in the shape of a definition: each is lowered from the keywords of an object, and its
required fields are the names that are listed as required and whose property has no default.
-/

namespace EntityContract.Shape

variable {members : Members} {required : List String} {fields : Fields} {name : String}
  {shape : Shape}

/-- The keywords of an object require the name: it is listed, and its property, if there is one, has
no default. -/
structure Requires (members : Members) (name : String) : Prop where
  listed : ∃ names, members.lookup "required" = some (.arr names) ∧ .str name ∈ names
  no_default : ∀ definition, (properties members).lookup name = some definition →
    definition.get? "default" = none

theorem mem_required_iff (h : requiredNames members = .ok required) :
    name ∈ required ↔
      ∃ names, members.lookup "required" = some (.arr names) ∧ .str name ∈ names := by
  rw [requiredNames] at h
  split at h
  · rename_i hnone
    cases h
    simp [hnone]
  · rename_i names hnames
    split at h
    · rename_i texts htexts
      cases h
      rw [hnames, Json.texts_of_mapM htexts]
      simp
    · exact nomatch h
  · exact nomatch h

theorem isOptional_asField_iff {definition : Json} (h : shape.isOptional = false) :
    (asField required name definition shape).isOptional = false ↔
      definition.get? "default" = none ∧ name ∈ required := by
  rw [asField_eq h]
  cases definition.get? "default" with
  | some value => simp [isOptional]
  | none =>
      rw [← List.contains_iff_mem]
      cases required.contains name with
      | true => simpa using h
      | false => simp [isOptional]

/-- A field is required as the keywords say. -/
theorem isOptional_eq_false_iff_requires (hproper : (Json.obj members).Proper)
    {policy : UnknownFields} (h : ofKeywords members = .ok (.object fields policy)) :
    ∀ field ∈ fields, field.2.isOptional = false ↔ Requires members field.1 := by
  obtain ⟨required, declared, _, hrequired, hdeclared, heq⟩ :
      ∃ required declared policy', requiredNames members = .ok required ∧
        fieldsAt required members = .ok declared ∧
          Shape.object fields policy = .object (withMissing required declared) policy' :=
    (ofObjectDefinition_ok h).resolve_right (by simp)
  cases heq
  have hforall := ofProperties_ok (fieldsAt_ok hdeclared)
  intro field hfield
  rcases List.mem_append.mp hfield with hfield | hfield
  · obtain ⟨property, hproperty, shape, hok, rfl⟩ := Pairing.exists_of_mem_right hforall hfield
    have hlookup := Association.lookup_of_mem (nodup_properties hproper) hproperty
    have hinside := inside_of_mem_properties hproperty
    rw [isOptional_asField_iff (sound_ofDefinition (hinside.proper hproper) hok).isOptional_eq,
      mem_required_iff hrequired]
    constructor
    · rintro ⟨hdefault, hlisted⟩
      refine ⟨hlisted, fun definition hdefinition => ?_⟩
      rw [hlookup, Option.some.injEq] at hdefinition
      rwa [← hdefinition]
    · exact fun hrequires => ⟨hrequires.no_default _ hlookup, hrequires.listed⟩
  · obtain ⟨name, hname, rfl⟩ := List.mem_map.mp hfield
    rw [List.mem_filter, List.mem_eraseDups] at hname
    refine iff_of_true rfl ⟨(mem_required_iff hrequired).mp hname.1, fun definition hlookup => ?_⟩
    have hkey : name ∈ declared.map (·.1) := by
      rw [keys_of_properties hforall]
      exact List.mem_map_of_mem (f := (·.1)) (Association.mem_of_lookup hlookup)
    obtain ⟨field, hmem, hfieldName⟩ := List.mem_map.mp hkey
    simp only [Bool.not_eq_true', List.any_eq_false, beq_iff_eq] at hname
    exact absurd hfieldName (hname.2 field hmem)

theorem mem_subshapes_foldl_intersection {first inner : Shape} {rest : List Shape}
    (h : inner ∈ (rest.foldl .intersection first).subshapes) :
    (∃ left right, inner = .intersection left right) ∨
      ∃ shape ∈ first :: rest, inner ∈ shape.subshapes := by
  induction rest generalizing first with
  | nil => exact Or.inr ⟨first, List.mem_cons_self, h⟩
  | cons shape rest ih =>
      rcases ih h with hintersection | ⟨other, hother, hinner⟩
      · exact Or.inl hintersection
      · rcases List.mem_cons.mp hother with rfl | hother
        · rw [subshapes, List.mem_cons, List.mem_append] at hinner
          rcases hinner with rfl | hinner | hinner
          · exact Or.inl ⟨_, _, rfl⟩
          · exact Or.inr ⟨first, List.mem_cons_self, hinner⟩
          · exact Or.inr ⟨shape, by simp, hinner⟩
        · exact Or.inr ⟨other, by simp [hother], hinner⟩

/-- A wrapper around a field hides no object. -/
theorem mem_subshapes_of_asField {definition : Json} {policy : UnknownFields}
    (h : shape.isOptional = false)
    (hmem : .object fields policy ∈ (asField required name definition shape).subshapes) :
    .object fields policy ∈ shape.subshapes := by
  have hwrapped : ∀ default?, .object fields policy ∈ (Shape.optional shape default?).subshapes →
      .object fields policy ∈ shape.subshapes := by
    intro default? hmem
    rw [subshapes, List.mem_cons] at hmem
    exact hmem.resolve_left (by simp)
  rw [asField_eq h] at hmem
  split at hmem
  · exact hwrapped _ hmem
  · split at hmem
    · exact hmem
    · exact hwrapped _ hmem

/-- An object in a shape is lowered from the keywords of the definition, or inside the
definition. -/
theorem Describes.exists_keywords {definition : Json} {policy : UnknownFields}
    (h : Describes definition shape) (hproper : definition.Proper)
    (hmem : .object fields policy ∈ shape.subshapes) :
    (∃ members, definition = .obj members ∧ ofKeywords members = .ok (.object fields policy)) ∨
      ∃ inner, DescribedIn definition inner ∧ .object fields policy ∈ inner.subshapes := by
  cases h with
  | literals _ _ =>
      rw [subshapes, List.mem_cons, mem_subshapesOfVariants] at hmem
      obtain ⟨variant, hvariant, hmem⟩ := hmem.resolve_left (by simp)
      obtain ⟨value, -, rfl⟩ := List.mem_map.mp hvariant
      simp [subshapes] at hmem
  | array hitem =>
      rw [subshapes, List.mem_cons] at hmem
      exact Or.inr ⟨_, hitem, hmem.resolve_left (by simp)⟩
  | record hvalue =>
      rw [subshapes, List.mem_cons] at hmem
      exact Or.inr ⟨_, hvalue, hmem.resolve_left (by simp)⟩
  | union _ hvariants =>
      rw [subshapes, List.mem_cons, mem_subshapesOfVariants] at hmem
      obtain ⟨variant, hvariant, hmem⟩ := hmem.resolve_left (by simp)
      exact Or.inr ⟨variant, hvariants variant hvariant, hmem⟩
  | intersection hshapes =>
      rcases mem_subshapes_foldl_intersection hmem with ⟨_, _, heq⟩ | ⟨inner, hinner, hmem⟩
      · exact nomatch heq
      · exact Or.inr ⟨inner, hshapes inner hinner, hmem⟩
  | @object members required declared _ hdefinition hkeywords _ hfields =>
      subst hdefinition
      rw [subshapes, List.mem_cons, mem_subshapesOfFields] at hmem
      rcases hmem with heq | ⟨field, hfield, hmem⟩
      · exact Or.inl ⟨members, rfl, heq ▸ hkeywords⟩
      · rcases List.mem_append.mp hfield with hfield | hfield
        · obtain ⟨property, hproperty, inner, hok, rfl⟩ :=
            Pairing.exists_of_mem_right (ofProperties_ok hfields) hfield
          have hinside := inside_of_mem_properties hproperty
          have hoptional := (sound_ofDefinition (hinside.proper hproper) hok).isOptional_eq
          exact Or.inr ⟨inner, Or.inr ⟨_, hinside, hok⟩, mem_subshapes_of_asField hoptional hmem⟩
        · obtain ⟨name, -, rfl⟩ := List.mem_map.mp hfield
          simp [subshapes] at hmem
  | _ => simp [subshapes] at hmem

/-- Every object in a shape is lowered from the keywords of an object in the definition. By
induction on the definitions in it. -/
theorem exists_keywords {definition : Json} {policy : UnknownFields} (hproper : definition.Proper)
    (h : ofDefinition definition = .ok shape)
    (hmem : .object fields policy ∈ shape.subshapes) :
    ∃ members, Relation.ReflTransGen Json.Part (.obj members) definition ∧
      ofKeywords members = .ok (.object fields policy) := by
  induction definition using Json.induct_inside generalizing shape with
  | step definition ih =>
      rcases (describes_of_ofDefinition h).exists_keywords hproper hmem with
        ⟨members, rfl, hkeywords⟩ | ⟨inner, rfl | ⟨other, hinside, hok⟩, hmem⟩
      · exact ⟨members, .refl, hkeywords⟩
      · simp [subshapes] at hmem
      · obtain ⟨members, hpart, hkeywords⟩ := ih other hinside (hinside.proper hproper) hok hmem
        exact ⟨members, hpart.trans hinside.to_reflTransGen, hkeywords⟩

end EntityContract.Shape
