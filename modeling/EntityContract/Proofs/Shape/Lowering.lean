import Mathlib.Logic.Relation
import EntityContract.Proofs.Pairing
import EntityContract.Proofs.Shape.Orderly
import EntityContract.Shape.Definition

/-!
What a definition describes, told one level at a time by `Describes`: the form of the shape, and
that its parts are described inside the definition. It follows that the shape is orderly and well
formed, where the definition is a value, and that every object in it is lowered from the keywords of
an object.
-/

namespace EntityContract

theorem bind_eq_ok_iff {ε α β : Type} {x : Except ε α} {f : α → Except ε β} {b : β} :
    (x >>= f) = .ok b ↔ ∃ a, x = .ok a ∧ f a = .ok b := by
  cases x with
  | ok a => exact ⟨fun h => ⟨a, rfl, h⟩, by rintro ⟨a', ha, h⟩; cases ha; exact h⟩
  | error e => exact ⟨fun h => (nomatch h), by rintro ⟨a', ha, -⟩; cases ha⟩

theorem nodup_eraseDups (names : List String) : names.eraseDups.Nodup := by
  induction hn : names.length using Nat.strongRecOn generalizing names with
  | ind n ih =>
      cases names with
      | nil => simp
      | cons name names =>
          rw [List.eraseDups_cons, List.nodup_cons]
          constructor
          · simp [List.mem_eraseDups]
          · apply ih _ _ _ rfl
            have hle := List.length_filter_le (fun other => !other == name) names
            rw [List.length_cons] at hn
            omega

namespace Json

open Relation

/-- The first value stands in the second one, at some depth. -/
def Inside : Json → Json → Prop := TransGen Part

theorem Inside.proper {inner value : Json} (h : inner.Inside value) (hvalue : value.Proper) :
    inner.Proper := by
  induction h using TransGen.head_induction_on with
  | single hpart => exact hvalue.part hpart
  | head hpart _ ih => exact ih.part hpart

theorem inside_of_lookup {members : Members} {key : String} {value : Json}
    (h : members.lookup key = some value) : value.Inside (.obj members) :=
  .single (part_of_lookup h)

theorem induct_inside {motive : Json → Prop}
    (step : ∀ value, (∀ inner : Json, inner.Inside value → motive inner) → motive value) :
    ∀ value, motive value := by
  have hparts : WellFounded Part :=
    ⟨induct_parts fun value ih => Acc.intro value ih⟩
  exact fun value => hparts.transGen.induction value step

theorem texts_of_mapM {values : List Json} {options : List String}
    (h : values.mapM text? = some options) : values = options.map .str := by
  induction values generalizing options with
  | nil =>
      cases h
      rfl
  | cons value values ih =>
      rw [List.mapM_cons] at h
      obtain ⟨text, htext, h⟩ := Option.bind_eq_some_iff.mp h
      obtain ⟨texts, htexts, h⟩ := Option.bind_eq_some_iff.mp h
      cases h
      cases value with
      | str other =>
          cases htext
          rw [List.map_cons, ih htexts]
      | _ => exact nomatch htext

end Json

namespace Shape

theorem ofDefinitions_ok {definitions : List Json} {shapes : List Shape}
    (h : ofDefinitions definitions = .ok shapes) :
    List.Forall₂ (fun definition shape => ofDefinition definition = .ok shape)
      definitions shapes := by
  induction definitions generalizing shapes with
  | nil =>
      rw [ofDefinitions] at h
      cases h
      exact .nil
  | cons definition definitions ih =>
      rw [ofDefinitions, bind_eq_ok_iff] at h
      obtain ⟨shape, hshape, h⟩ := h
      obtain ⟨rest, hrest, h⟩ := bind_eq_ok_iff.mp h
      cases h
      exact .cons hshape (ih hrest)

theorem ofProperties_ok {required : List String} {properties : Members} {fields : Fields}
    (h : ofProperties required properties = .ok fields) :
    List.Forall₂ (fun property field => ∃ shape, ofDefinition property.2 = .ok shape ∧
      field = (property.1, asField required property.1 property.2 shape)) properties fields := by
  induction properties generalizing fields with
  | nil =>
      rw [ofProperties] at h
      cases h
      exact .nil
  | cons property properties ih =>
      obtain ⟨name, definition⟩ := property
      rw [ofProperties, bind_eq_ok_iff] at h
      obtain ⟨shape, hshape, h⟩ := h
      obtain ⟨rest, hrest, h⟩ := bind_eq_ok_iff.mp h
      cases h
      refine .cons ⟨shape, ?_, rfl⟩ (ih hrest)
      cases hdefinition : ofDefinition definition with
      | ok other =>
          rw [hdefinition] at hshape
          exact hshape
      | error cause =>
          rw [hdefinition] at hshape
          cases hshape

theorem shapeAt_ok {key : String} {members : Members} {shape : Shape}
    (h : shapeAt key members = .ok shape) :
    shape = .unknown ∨ ∃ definition, (key, definition) ∈ members ∧
      ofDefinition definition = .ok shape := by
  induction members with
  | nil =>
      rw [shapeAt] at h
      cases h
      exact Or.inl rfl
  | cons member members ih =>
      obtain ⟨other, definition⟩ := member
      rw [shapeAt] at h
      split at h
      · rename_i hother
        exact Or.inr ⟨definition, by simp [hother], h⟩
      · refine (ih h).imp_right ?_
        rintro ⟨definition, hmem, hshape⟩
        exact ⟨definition, List.mem_cons_of_mem _ hmem, hshape⟩

theorem shapesAt_ok {key keyword : String} {members : Members} {shapes : List Shape}
    (h : shapesAt key keyword members = some (.ok shapes)) :
    ∃ definitions, (key, Json.arr definitions) ∈ members ∧
      ofDefinitions definitions = .ok shapes := by
  induction members with
  | nil =>
      rw [shapesAt] at h
      cases h
  | cons member members ih =>
      have hrest : shapesAt key keyword members = some (.ok shapes) →
          ∃ definitions, (key, Json.arr definitions) ∈ member :: members ∧
            ofDefinitions definitions = .ok shapes := by
        intro h
        obtain ⟨definitions, hmem, hshapes⟩ := ih h
        exact ⟨definitions, List.mem_cons_of_mem _ hmem, hshapes⟩
      obtain ⟨other, definition⟩ := member
      cases definition with
      | arr definitions =>
          rw [shapesAt] at h
          split at h
          · rename_i hother
            exact ⟨definitions, by simp [hother], Option.some.inj h⟩
          · exact hrest h
      | _ =>
          rw [shapesAt] at h
          · split at h
            · exact nomatch Option.some.inj h
            · exact hrest h
          · exact fun _ heq => nomatch heq

/-- The properties that the keywords of an object declare. -/
def properties (members : Members) : Members :=
  ((members.lookup "properties").bind Json.members?).getD []

theorem fieldsAt_ok {required : List String} {members : Members} {fields : Fields}
    (h : fieldsAt required members = .ok fields) :
    ofProperties required (properties members) = .ok fields := by
  induction members with
  | nil =>
      rw [fieldsAt] at h
      cases h
      rfl
  | cons member members ih =>
      obtain ⟨other, definition⟩ := member
      by_cases hother : other = "properties"
      · have hlookup :
            List.lookup "properties" ((other, definition) :: members) = some definition := by
          rw [hother, List.lookup_cons_self]
        rw [properties, hlookup]
        cases definition with
        | obj properties =>
            rw [fieldsAt, if_pos hother] at h
            exact h
        | _ =>
            rw [fieldsAt, if_pos hother] at h
            · exact nomatch h
            · exact fun _ heq => nomatch heq
      · have hlookup : List.lookup "properties" ((other, definition) :: members) =
            members.lookup "properties" := by
          rw [List.lookup_cons, beq_false_of_ne (Ne.symm hother)]
        rw [properties, hlookup]
        refine ih ?_
        cases definition with
        | obj properties => rwa [fieldsAt, if_neg hother] at h
        | _ =>
            rw [fieldsAt, if_neg hother] at h
            · exact h
            · exact fun _ heq => nomatch heq

theorem inside_of_mem_properties {members : Members} {property : String × Json}
    (h : property ∈ properties members) : property.2.Inside (.obj members) := by
  rw [properties] at h
  cases hlookup : members.lookup "properties" with
  | none =>
      rw [hlookup] at h
      exact absurd h List.not_mem_nil
  | some definition =>
      rw [hlookup] at h
      cases definition with
      | obj properties =>
          exact Relation.TransGen.head (.member h) (.single (Json.part_of_lookup hlookup))
      | _ => exact absurd h List.not_mem_nil

theorem nodup_properties {members : Members} (h : (Json.obj members).Proper) :
    ((properties members).map (·.1)).Nodup := by
  rw [properties]
  cases hlookup : members.lookup "properties" with
  | none => exact List.nodup_nil
  | some definition =>
      cases definition with
      | obj properties => exact (h.lookup hlookup).nodup
      | _ => exact List.nodup_nil

/-- The keywords of an object give an object of the properties, or a record. -/
theorem ofObjectDefinition_ok {members : Members}
    {fields : List String → Except DefinitionError Fields} {value : Except DefinitionError Shape}
    {shape : Shape} (h : ofObjectDefinition members fields value = .ok shape) :
    (∃ required declared policy, requiredNames members = .ok required ∧
      fields required = .ok declared ∧ shape = .object (withMissing required declared) policy) ∨
    ∃ inner, value = .ok inner ∧ shape = .record inner := by
  rw [ofObjectDefinition, bind_eq_ok_iff] at h
  obtain ⟨required, hrequired, h⟩ := h
  have hobject : ∀ policy,
      (fields required >>= fun declared => pure (.object (withMissing required declared) policy)) =
        Except.ok shape →
      ∃ required declared policy, requiredNames members = .ok required ∧
        fields required = .ok declared ∧
          shape = .object (withMissing required declared) policy := by
    intro policy h
    obtain ⟨declared, hdeclared, h⟩ := bind_eq_ok_iff.mp h
    cases h
    exact ⟨required, declared, policy, hrequired, hdeclared, rfl⟩
  split at h
  · exact nomatch h
  · split at h
    · exact Or.inl (hobject _ h)
    · exact Or.inl (hobject _ h)
    · exact Or.inl (hobject _ h)
    · split at h
      · exact nomatch h
      · obtain ⟨inner, hinner, h⟩ := bind_eq_ok_iff.mp h
        cases h
        exact Or.inr ⟨inner, hinner, rfl⟩
    · exact nomatch h

theorem nodup_withMissing {fields : Fields} (required : List String)
    (h : (fields.map (·.1)).Nodup) : ((withMissing required fields).map (·.1)).Nodup := by
  rw [withMissing, List.map_append, List.map_map]
  refine h.append ?_ ?_
  · have hid : (Prod.fst ∘ fun name : String => (name, Shape.unknown)) = id := rfl
    rw [hid, List.map_id]
    exact (nodup_eraseDups required).filter _
  · intro name hfield hmissing
    simp only [List.mem_map, List.mem_filter, Function.comp_apply, Bool.not_eq_true',
      List.any_eq_false, beq_iff_eq] at hfield hmissing
    obtain ⟨field, hmem, rfl⟩ := hfield
    obtain ⟨name, ⟨-, hname⟩, heq⟩ := hmissing
    exact hname field hmem heq.symm

theorem keys_of_properties {required : List String} {properties : Members} {fields : Fields}
    (h : List.Forall₂ (fun property field => ∃ shape, ofDefinition property.2 = .ok shape ∧
      field = (property.1, asField required property.1 property.2 shape)) properties fields) :
    fields.map (·.1) = properties.map (·.1) := by
  induction h with
  | nil => rfl
  | cons hfield _ ih =>
      obtain ⟨shape, -, rfl⟩ := hfield
      rw [List.map_cons, List.map_cons, ih]

theorem ofPointer_ok {pointer : Json} {shape : Shape} (h : ofPointer pointer = .ok shape) :
    ∃ key, shape = .ref key ∧ key ≠ "" := by
  unfold ofPointer at h
  split at h
  · split at h
    · split at h
      · exact nomatch h
      · rename_i hempty
        cases h
        refine ⟨_, rfl, fun hkey => hempty ?_⟩
        rw [← String.Slice.isEmpty_copy, ← String.Slice.toString, hkey]
        rfl
    · exact nomatch h
  · exact nomatch h

/-- What the keywords of an object describe. -/
def ofKeywords (members : Members) : Except DefinitionError Shape :=
  ofObjectDefinition members (fieldsAt · members) (shapeAt "additionalProperties" members)

/-- A part of the definition describes the shape, or there is none and it may be anything. -/
def DescribedIn (definition : Json) (shape : Shape) : Prop :=
  shape = .unknown ∨ ∃ inner : Json, inner.Inside definition ∧ ofDefinition inner = .ok shape

/-- What a definition describes: the forms that the shape may have, with parts that are described in
the definition. -/
inductive Describes (definition : Json) : Shape → Prop
  | string (format : StringFormat) : Describes definition (.string format)
  | integer : Describes definition .integer
  | number : Describes definition .number
  | boolean : Describes definition .boolean
  | unknown : Describes definition .unknown
  | literal {value : Json} :
      value = .null ∨ value.Inside definition → Describes definition (.literal value)
  | enum {options : List String} : options ≠ [] → Describes definition (.enum options)
  | literals {values : List Json} : values ≠ [] → (∀ value ∈ values, value.Inside definition) →
      Describes definition (.union (values.map .literal))
  | ref {key : String} : key ≠ "" → Describes definition (.ref key)
  | array {item : Shape} : DescribedIn definition item → Describes definition (.array item)
  | record {value : Shape} : DescribedIn definition value → Describes definition (.record value)
  | union {variants : List Shape} :
      variants ≠ [] → (∀ variant ∈ variants, DescribedIn definition variant) →
        Describes definition (.union variants)
  | intersection {first : Shape} {rest : List Shape} :
      (∀ shape ∈ first :: rest, DescribedIn definition shape) →
        Describes definition (rest.foldl .intersection first)
  /-- Properties and required names, as the keywords of an object give them. -/
  | object {members : Members} {required : List String} {fields : Fields}
      {policy : UnknownFields} : definition = .obj members →
        ofKeywords members = .ok (.object (withMissing required fields) policy) →
        requiredNames members = .ok required →
        ofProperties required (properties members) = .ok fields →
        Describes definition (.object (withMissing required fields) policy)

section Describing

variable {members : Members} {shape : Shape}

theorem describedIn_of_shapeAt {key : String} (h : shapeAt key members = .ok shape) :
    DescribedIn (.obj members) shape := by
  refine (shapeAt_ok h).imp_right ?_
  rintro ⟨definition, hmem, hshape⟩
  exact ⟨definition, .single (.member hmem), hshape⟩

theorem describedIn_of_shapesAt {key keyword : String} {shapes : List Shape}
    (h : shapesAt key keyword members = some (.ok shapes)) :
    ∀ shape ∈ shapes, DescribedIn (.obj members) shape := by
  obtain ⟨definitions, hmem, hshapes⟩ := shapesAt_ok h
  intro shape hshape
  obtain ⟨inner, hinner, hok⟩ := Pairing.exists_of_mem_right (ofDefinitions_ok hshapes) hshape
  exact Or.inr ⟨inner, .head (.item hinner) (.single (.member hmem)), hok⟩

theorem describes_of_ofKeywords (h : ofKeywords members = .ok shape) :
    Describes (.obj members) shape := by
  rcases ofObjectDefinition_ok h with ⟨required, fields, policy, hrequired, hfields, rfl⟩ |
    ⟨inner, hinner, rfl⟩
  · exact .object rfl h hrequired (fieldsAt_ok hfields)
  · exact .record (describedIn_of_shapeAt hinner)

theorem describes_of_ofEnum {definition values : Json} (hinside : values.Inside definition)
    (h : ofEnum values = .ok shape) : Describes definition shape := by
  unfold ofEnum at h
  split at h
  · exact nomatch h
  · rename_i values hne
    have hvalues : values ≠ [] := fun hnil => hne (by rw [hnil])
    split at h
    · rename_i options hoptions
      cases h
      refine .enum fun hnil => hvalues ?_
      rw [Json.texts_of_mapM hoptions, hnil, List.map_nil]
    · cases h
      exact .literals hvalues fun value hvalue => .head (.item hvalue) hinside
  · exact nomatch h

theorem describes_obj (h : ofDefinition (.obj members) = .ok shape) :
    Describes (.obj members) shape := by
  rw [ofDefinition] at h
  split at h
  · obtain ⟨key, rfl, hkey⟩ := ofPointer_ok h
    exact .ref hkey
  split at h
  · rename_i parts hparts
    rw [bind_eq_ok_iff] at h
    obtain ⟨shapes, hok, h⟩ := h
    subst hok
    have hshapes := describedIn_of_shapesAt hparts
    split at h
    · exact nomatch h
    · cases h
      exact .intersection hshapes
  split at h
  · rename_i variants hvariants
    rw [bind_eq_ok_iff] at h
    obtain ⟨shapes, hok, h⟩ := h
    subst hok
    have hshapes : ∀ shape ∈ shapes, DescribedIn (.obj members) shape := by
      rcases Option.or_eq_some_iff.mp hvariants with hvariants | ⟨-, hvariants⟩
      · exact describedIn_of_shapesAt hvariants
      · exact describedIn_of_shapesAt hvariants
    split at h
    · exact nomatch h
    · rename_i hne
      cases h
      exact .union hne hshapes
  split at h
  · rename_i value hvalue
    cases h
    exact .literal (Or.inr (Json.inside_of_lookup hvalue))
  split at h
  · rename_i values hvalues
    exact describes_of_ofEnum (Json.inside_of_lookup hvalues) h
  split at h
  · cases h
    rw [ofStringFormat]
    split
    · exact .string _
    · exact .string _
  · cases h
    exact .integer
  · cases h
    exact .number
  · cases h
    exact .boolean
  · cases h
    exact .literal (Or.inl rfl)
  · obtain ⟨item, hitem, h⟩ := bind_eq_ok_iff.mp h
    cases h
    exact .array (describedIn_of_shapeAt hitem)
  · exact describes_of_ofKeywords h
  · exact nomatch h
  · exact nomatch h
  · split at h
    · exact describes_of_ofKeywords h
    · cases h
      exact .unknown

theorem describes_of_ofDefinition {definition : Json} (h : ofDefinition definition = .ok shape) :
    Describes definition shape := by
  cases definition with
  | obj members => exact describes_obj h
  | bool value =>
      cases value with
      | true =>
          rw [ofDefinition] at h
          cases h
          exact .unknown
      | false => exact nomatch h
  | _ => exact nomatch h

end Describing

/-- Both orderly and well formed. -/
structure Sound (shape : Shape) : Prop where
  isOptional_eq : shape.isOptional = false
  everywhere : shape.Everywhere fun inner => inner.Tidy ∧ inner.Local

theorem sound_of_subshapes_eq {shape : Shape} (htidy : shape.Tidy) (hlocal : shape.Local)
    (hoptional : shape.isOptional = false) (h : shape.subshapes = [shape]) : shape.Sound := by
  refine ⟨hoptional, fun inner hinner => ?_⟩
  rw [h, List.mem_singleton] at hinner
  exact hinner ▸ ⟨htidy, hlocal⟩

theorem sound_literal {value : Json} (h : value.Proper) : (literal value).Sound :=
  sound_of_subshapes_eq trivial h rfl rfl

theorem sound_unknown : unknown.Sound := sound_of_subshapes_eq trivial trivial rfl rfl

/-- A property brings its shape or, if it may be absent, the shape in one wrapper. -/
theorem asField_eq {required : List String} {name : String} {definition : Json} {shape : Shape}
    (h : shape.isOptional = false) : asField required name definition shape =
      match definition.get? "default" with
      | some value => .optional shape (some value)
      | none => if required.contains name then shape else .optional shape none := by
  have hpresent := present_of_isOptional_eq_false h
  rw [asField, orAbsent_of_present hpresent]
  cases definition.get? "default" with
  | none => rfl
  | some value => exact withDefault_of_present hpresent value

theorem sound_asField {required : List String} {name : String} {definition : Json} {shape : Shape}
    (hdefinition : definition.Proper) (h : shape.Sound) :
    (asField required name definition shape).Everywhere fun inner => inner.Tidy ∧ inner.Local := by
  rw [asField_eq h.isOptional_eq]
  split
  · rename_i value hvalue
    have hproper : value.Proper := by
      cases definition with
      | obj members => exact hdefinition.lookup hvalue
      | _ => simp [Json.get?] at hvalue
    exact Everywhere.optional_iff.mpr ⟨⟨h.isOptional_eq, hproper⟩, h.everywhere⟩
  · split
    · exact h.everywhere
    · exact Everywhere.optional_iff.mpr ⟨⟨h.isOptional_eq, trivial⟩, h.everywhere⟩

theorem sound_foldl_intersection {first : Shape} {rest : List Shape} (hfirst : first.Sound)
    (hrest : ∀ shape ∈ rest, shape.Sound) : (rest.foldl .intersection first).Sound := by
  induction rest generalizing first with
  | nil => exact hfirst
  | cons shape rest ih =>
      rw [List.forall_mem_cons] at hrest
      exact ih ⟨rfl, Everywhere.intersection_iff.mpr
        ⟨⟨⟨hfirst.isOptional_eq, hrest.1.isOptional_eq⟩, trivial⟩, hfirst.everywhere,
          hrest.1.everywhere⟩⟩ hrest.2

/-- A definition that is a value describes a sound shape, if the definitions in it do. -/
theorem Describes.sound {definition : Json} {shape : Shape} (h : Describes definition shape)
    (hproper : definition.Proper)
    (hinner : ∀ {shape}, DescribedIn definition shape → shape.Sound) : shape.Sound := by
  cases h with
  | literal hvalue =>
      rcases hvalue with rfl | hinside
      · exact sound_literal Json.proper_null
      · exact sound_literal (hinside.proper hproper)
  | enum hoptions => exact sound_of_subshapes_eq hoptions hoptions rfl rfl
  | @literals values hvalues hinside =>
      have hne : values.map Shape.literal ≠ [] := fun hnil => hvalues (List.map_eq_nil_iff.mp hnil)
      refine ⟨rfl, Everywhere.union_iff.mpr ⟨⟨⟨hne, ?_⟩, hne⟩, ?_⟩⟩
      · exact List.forall_mem_map.mpr fun _ _ => rfl
      · exact List.forall_mem_map.mpr fun value hvalue =>
          (sound_literal ((hinside value hvalue).proper hproper)).everywhere
  | ref hkey => exact sound_of_subshapes_eq hkey trivial rfl rfl
  | array hitem =>
      have hsound := hinner hitem
      exact ⟨rfl, Everywhere.array_iff.mpr ⟨⟨hsound.isOptional_eq, trivial⟩, hsound.everywhere⟩⟩
  | record hvalue =>
      have hsound := hinner hvalue
      exact ⟨rfl, Everywhere.record_iff.mpr ⟨⟨hsound.isOptional_eq, trivial⟩, hsound.everywhere⟩⟩
  | union hne hvariants =>
      have hsound := fun variant hvariant => hinner (hvariants variant hvariant)
      exact ⟨rfl, Everywhere.union_iff.mpr ⟨⟨⟨hne, fun variant hvariant =>
        (hsound variant hvariant).isOptional_eq⟩, hne⟩, fun variant hvariant =>
          (hsound variant hvariant).everywhere⟩⟩
  | intersection hshapes =>
      rw [List.forall_mem_cons] at hshapes
      exact sound_foldl_intersection (hinner hshapes.1) fun shape hshape =>
        hinner (hshapes.2 shape hshape)
  | @object members required fields policy hdefinition _ _ hfields =>
      subst hdefinition
      have hforall := ofProperties_ok hfields
      have hnodup : (fields.map (·.1)).Nodup :=
        keys_of_properties hforall ▸ nodup_properties hproper
      have hnames := nodup_withMissing required hnodup
      refine ⟨rfl, Everywhere.object_iff.mpr ⟨⟨hnames, hnames⟩, fun field hfield => ?_⟩⟩
      rcases List.mem_append.mp hfield with hfield | hfield
      · obtain ⟨property, hproperty, inner, hok, rfl⟩ := Pairing.exists_of_mem_right hforall hfield
        have hinside := inside_of_mem_properties hproperty
        exact sound_asField (hinside.proper hproper) (hinner (Or.inr ⟨_, hinside, hok⟩))
      · obtain ⟨name, -, rfl⟩ := List.mem_map.mp hfield
        exact sound_unknown.everywhere
  | _ => exact sound_of_subshapes_eq trivial trivial rfl rfl

/-- A definition that is a value describes a sound shape. By induction on the definitions in it. -/
theorem sound_ofDefinition {definition : Json} {shape : Shape} (hproper : definition.Proper)
    (h : ofDefinition definition = .ok shape) : shape.Sound := by
  induction definition using Json.induct_inside generalizing shape with
  | step definition ih =>
      refine (describes_of_ofDefinition h).sound hproper fun {shape} hdescribed => ?_
      rcases hdescribed with rfl | ⟨inner, hinside, hok⟩
      · exact sound_unknown
      · exact ih inner hinside (hinside.proper hproper) hok

theorem wellFormed_ofDefinition {definition : Json} {shape : Shape} (hproper : definition.Proper)
    (h : ofDefinition definition = .ok shape) : shape.WellFormed :=
  fun inner hinner => ((sound_ofDefinition hproper h).everywhere inner hinner).2

theorem orderly_ofDefinition {definition : Json} {shape : Shape} (hproper : definition.Proper)
    (h : ofDefinition definition = .ok shape) : shape.Orderly :=
  ⟨(sound_ofDefinition hproper h).isOptional_eq,
    fun inner hinner => ((sound_ofDefinition hproper h).everywhere inner hinner).1⟩

end Shape

end EntityContract
