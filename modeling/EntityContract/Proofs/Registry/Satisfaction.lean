import EntityContract.Proofs.Registry.Flattening
import EntityContract.Proofs.Shape.Equality
import EntityContract.Validation.Violation

/-!
What it means for a value to satisfy a shape, read off the shape: nothing is compiled, merged or
remembered. A merged object asks for neither more nor less than the shapes that it is made of.
-/

namespace EntityContract.Registry

/-- The value satisfies the shape, with references to the entities of the registry. -/
inductive Satisfies (registry : Registry) : Shape → Json → Prop
  | string {format : StringFormat} {text : String} :
      format.problem? text = none → Satisfies registry (.string format) (.str text)
  | integer {n : Number} : n.isWhole = true → Satisfies registry .integer (.num n)
  | number (n : Number) : Satisfies registry .number (.num n)
  | boolean (value : Bool) : Satisfies registry .boolean (.bool value)
  | unknown (value : Json) : Satisfies registry .unknown value
  | literal {expected value : Json} :
      value.same expected = true → Satisfies registry (.literal expected) value
  | enum {options : List String} {text : String} :
      text ∈ options → Satisfies registry (.enum options) (.str text)
  | array {item : Shape} {items : List Json} :
      (∀ value ∈ items, Satisfies registry item value) →
        Satisfies registry (.array item) (.arr items)
  | record {shape : Shape} {members : Members} :
      (∀ member ∈ members, Satisfies registry shape member.2) →
        Satisfies registry (.record shape) (.obj members)
  /-- Fields that are not optional are present; present fields satisfy their shape without
  wrappers; members that are not declared may be anything. -/
  | object {fields : Fields} {policy : UnknownFields} {members : Members} :
      (∀ field ∈ fields, field.2.isOptional = false → field.1 ∈ members.map (·.1)) →
      (∀ field ∈ fields, ∀ member ∈ members, member.1 = field.1 →
        Satisfies registry field.2.present member.2) →
        Satisfies registry (.object fields policy) (.obj members)
  | optional {inner : Shape} {default? : Option Json} {value : Json} :
      Satisfies registry inner value → Satisfies registry (.optional inner default?) value
  | union {variants : List Shape} {variant : Shape} {value : Json} :
      variant ∈ variants → Satisfies registry variant value →
        Satisfies registry (.union variants) value
  | intersection {left right : Shape} {value : Json} :
      Satisfies registry left value → Satisfies registry right value →
        Satisfies registry (.intersection left right) value
  | ref {key : String} {shape : Shape} {value : Json} :
      registry.shape? key = some shape → Satisfies registry shape value →
        Satisfies registry (.ref key) value

variable {registry : Registry}

section Inversion

variable {value : Json}

theorem satisfies_array_iff {item : Shape} :
    registry.Satisfies (.array item) value ↔
      ∃ items, value = .arr items ∧ ∀ inner ∈ items, registry.Satisfies item inner :=
  ⟨fun h => by cases h with | array hitems => exact ⟨_, rfl, hitems⟩,
    fun ⟨_, hvalue, hitems⟩ => hvalue ▸ .array hitems⟩

theorem satisfies_record_iff {shape : Shape} :
    registry.Satisfies (.record shape) value ↔
      ∃ members, value = .obj members ∧ ∀ member ∈ members, registry.Satisfies shape member.2 :=
  ⟨fun h => by cases h with | record hmembers => exact ⟨_, rfl, hmembers⟩,
    fun ⟨_, hvalue, hmembers⟩ => hvalue ▸ .record hmembers⟩

theorem satisfies_optional_iff {inner : Shape} {default? : Option Json} :
    registry.Satisfies (.optional inner default?) value ↔ registry.Satisfies inner value :=
  ⟨fun h => by cases h with | optional hinner => exact hinner, .optional⟩

theorem satisfies_union_iff {variants : List Shape} :
    registry.Satisfies (.union variants) value ↔
      ∃ variant ∈ variants, registry.Satisfies variant value :=
  ⟨fun h => by cases h with | union hvariant hvalue => exact ⟨_, hvariant, hvalue⟩,
    fun ⟨_, hvariant, hvalue⟩ => .union hvariant hvalue⟩

theorem satisfies_intersection_iff {left right : Shape} :
    registry.Satisfies (.intersection left right) value ↔
      registry.Satisfies left value ∧ registry.Satisfies right value :=
  ⟨fun h => by cases h with | intersection hleft hright => exact ⟨hleft, hright⟩,
    fun ⟨hleft, hright⟩ => .intersection hleft hright⟩

theorem satisfies_ref_iff {key : String} {shape : Shape}
    (hshape : registry.shape? key = some shape) :
    registry.Satisfies (.ref key) value ↔ registry.Satisfies shape value := by
  refine ⟨fun h => ?_, .ref hshape⟩
  cases h with
  | ref hfound hvalue =>
      rw [hshape, Option.some.injEq] at hfound
      exact hfound ▸ hvalue

theorem satisfies_present_iff {shape : Shape} :
    registry.Satisfies shape.present value ↔ registry.Satisfies shape value := by
  induction shape with
  | optional inner default? ih => exact ih.trans satisfies_optional_iff.symm
  | _ => exact Iff.rfl

/-- An object asks something of each name that it declares. -/
theorem satisfies_object_iff {object : ObjectShape} (hnodup : (object.fields.map (·.1)).Nodup) :
    registry.Satisfies object.toShape value ↔ ∃ members, value = .obj members ∧
      ∀ name shape, object.fields.lookup name = some shape →
        (shape.isOptional = false → name ∈ members.map (·.1)) ∧
        ∀ member ∈ members, member.1 = name → registry.Satisfies shape.present member.2 := by
  constructor
  · intro h
    cases h with
    | object hrequired hpresent =>
        refine ⟨_, rfl, fun name shape hlookup => ?_⟩
        have hfield := Association.mem_of_lookup hlookup
        exact ⟨hrequired _ hfield, hpresent _ hfield⟩
  · rintro ⟨members, rfl, h⟩
    refine .object (fun field hfield => ?_) fun field hfield => ?_
    · exact (h field.1 field.2 (Association.lookup_of_mem hnodup hfield)).1
    · exact (h field.1 field.2 (Association.lookup_of_mem hnodup hfield)).2

end Inversion

/-- Equal shapes are satisfied by the same values. -/
theorem Satisfies.of_same {s t : Shape} {value : Json} (hvalue : registry.Satisfies s value)
    (h : s.same t = true) : registry.Satisfies t value := by
  induction hvalue generalizing t with
  | string hformat => exact Shape.eq_of_same_string h ▸ .string hformat
  | integer hwhole => exact Shape.eq_of_same_integer h ▸ .integer hwhole
  | number n => exact Shape.eq_of_same_number h ▸ .number n
  | boolean value => exact Shape.eq_of_same_boolean h ▸ .boolean value
  | unknown value => exact Shape.eq_of_same_unknown h ▸ .unknown value
  | enum htext => exact Shape.eq_of_same_enum h ▸ .enum htext
  | ref hshape hvalue => exact Shape.eq_of_same_ref h ▸ .ref hshape hvalue
  | literal hvalue =>
      obtain ⟨other, rfl, hother⟩ := Shape.exists_of_same_literal h
      exact .literal (Json.same_trans hvalue hother)
  | array _ ih =>
      obtain ⟨y, rfl, hy⟩ := Shape.exists_of_same_array h
      exact .array fun item hitem => ih item hitem hy
  | record _ ih =>
      obtain ⟨y, rfl, hy⟩ := Shape.exists_of_same_record h
      exact .record fun member hmember => ih member hmember hy
  | object hrequired _ ih =>
      obtain ⟨ys, rfl, hys⟩ := Shape.exists_of_same_object h
      refine .object (fun field hfield hoptional => ?_) fun field hfield member hmember hname => ?_
      · obtain ⟨other, hother, hname, hsame⟩ := Pairing.exists_of_mem_right hys hfield
        rw [← hname]
        exact hrequired other hother ((Shape.isOptional_eq_of_same hsame).trans hoptional)
      · obtain ⟨other, hother, hname', hsame⟩ := Pairing.exists_of_mem_right hys hfield
        exact ih other hother member hmember (hname.trans hname'.symm)
          (Shape.presence_same hsame).1
  | optional _ ih =>
      obtain ⟨y, other?, rfl, hy, -⟩ := Shape.exists_of_same_optional h
      exact .optional (ih hy)
  | union hvariant _ ih =>
      obtain ⟨ys, rfl, hys⟩ := Shape.exists_of_same_union h
      obtain ⟨y, hy, hsame⟩ := Pairing.exists_of_mem_left hys hvariant
      exact .union hy (ih hsame)
  | intersection _ _ ihLeft ihRight =>
      obtain ⟨left', right', rfl, hleft, hright⟩ := Shape.exists_of_same_intersection h
      exact .intersection (ihLeft hleft) (ihRight hright)

/-- Equal values satisfy the same shapes. -/
theorem Satisfies.of_same_value {shape : Shape} {value other : Json}
    (h : registry.Satisfies shape value) (hvalue : value.Proper) (hother : other.Proper)
    (hsame : value.same other = true) : registry.Satisfies shape other := by
  induction h generalizing other with
  | string hformat => exact Json.same_str_iff.mp hsame ▸ .string hformat
  | integer hwhole =>
      obtain ⟨n, rfl, hn⟩ := Json.same_num_iff.mp hsame
      exact .integer (Number.isWhole_of_same hn ▸ hwhole)
  | number m =>
      obtain ⟨n, rfl, -⟩ := Json.same_num_iff.mp hsame
      exact .number n
  | boolean value => exact Json.same_bool_iff.mp hsame ▸ .boolean value
  | unknown value => exact .unknown other
  | literal hliteral =>
      exact .literal (Json.same_trans (Json.same_symm hvalue hother hsame) hliteral)
  | enum htext => exact Json.same_str_iff.mp hsame ▸ .enum htext
  | array _ ih =>
      obtain ⟨others, rfl, hitems⟩ := Json.exists_of_same_arr hsame
      refine .array fun item hitem => ?_
      obtain ⟨source, hsource, hsame⟩ := Pairing.exists_of_mem_right hitems hitem
      exact ih source hsource (hvalue.item hsource) (hother.item hitem) hsame
  | record _ ih =>
      obtain ⟨others, rfl, -⟩ := Json.exists_of_same_obj hsame
      refine .record fun member hmember => ?_
      obtain ⟨source, hsource, hsame⟩ :=
        Json.exists_member_of_same_obj hvalue.nodup hsame hother.nodup hmember
      exact ih _ hsource (hvalue.member hsource) (hother.member hmember) hsame
  | object hrequired _ ih =>
      obtain ⟨others, rfl, -, hfound⟩ := Json.exists_of_same_obj hsame
      refine .object (fun field hfield hoptional => ?_) fun field hfield member hmember hname => ?_
      · obtain ⟨source, hsource, hkey⟩ := List.mem_map.mp (hrequired field hfield hoptional)
        obtain ⟨y, hy, -⟩ := hfound source hsource
        rw [← hkey]
        exact List.mem_map_of_mem (f := (·.1)) (Association.mem_of_lookup hy)
      · obtain ⟨source, hsource, hsame⟩ :=
          Json.exists_member_of_same_obj hvalue.nodup hsame hother.nodup hmember
        exact ih field hfield _ hsource hname (hvalue.member hsource) (hother.member hmember) hsame
  | optional _ ih => exact .optional (ih hvalue hother hsame)
  | union hvariant _ ih => exact .union hvariant (ih hvalue hother hsame)
  | intersection _ _ ihLeft ihRight =>
      exact .intersection (ihLeft hvalue hother hsame) (ihRight hvalue hother hsame)
  | ref hshape _ ih => exact .ref hshape (ih hvalue hother hsame)

theorem satisfies_both_iff {ours theirs : Shape} {value : Json} :
    registry.Satisfies (Shape.both ours theirs) value ↔
      registry.Satisfies ours value ∧ registry.Satisfies theirs value := by
  rw [Shape.both]
  split
  · rename_i hsame
    exact ⟨fun h => ⟨h, h.of_same hsame⟩, And.left⟩
  · exact satisfies_intersection_iff

/-- A merged object is satisfied by the values that satisfy both objects. -/
theorem satisfies_merge_iff {left right : ObjectShape} {value : Json}
    (hleft : (left.fields.map (·.1)).Nodup) (hright : (right.fields.map (·.1)).Nodup) :
    registry.Satisfies (left.merge right).toShape value ↔
      registry.Satisfies left.toShape value ∧ registry.Satisfies right.toShape value := by
  have hmerged : ((left.merge right).fields.map (·.1)).Nodup := Shape.nodup_mergeFields hleft
  rw [satisfies_object_iff hmerged, satisfies_object_iff hleft, satisfies_object_iff hright]
  have hfield : ∀ (members : Members) (name : String),
      (∀ shape, (left.merge right).fields.lookup name = some shape →
        (shape.isOptional = false → name ∈ members.map (·.1)) ∧
        ∀ member ∈ members, member.1 = name → registry.Satisfies shape.present member.2) ↔
      (∀ shape, left.fields.lookup name = some shape →
        (shape.isOptional = false → name ∈ members.map (·.1)) ∧
        ∀ member ∈ members, member.1 = name → registry.Satisfies shape.present member.2) ∧
      (∀ shape, right.fields.lookup name = some shape →
        (shape.isOptional = false → name ∈ members.map (·.1)) ∧
        ∀ member ∈ members, member.1 = name → registry.Satisfies shape.present member.2) := by
    intro members name
    rw [ObjectShape.merge]
    dsimp only
    rw [Shape.lookup_mergeFields hright]
    cases hours : left.fields.lookup name with
    | none => simp
    | some ours =>
        cases htheirs : right.fields.lookup name with
        | none => simp
        | some theirs =>
            simp only [Option.some.injEq, forall_eq', Shape.present_mergeField,
              Shape.isOptional_mergeField, satisfies_both_iff]
            cases ours.isOptional <;> cases theirs.isOptional <;> grind
  constructor
  · rintro ⟨members, rfl, h⟩
    exact ⟨⟨members, rfl, fun name => ((hfield members name).mp (h name)).1⟩,
      ⟨members, rfl, fun name => ((hfield members name).mp (h name)).2⟩⟩
  · rintro ⟨⟨members, rfl, hours⟩, ⟨members', heq, htheirs⟩⟩
    cases heq
    exact ⟨members, rfl, fun name => (hfield members name).mpr ⟨hours name, htheirs name⟩⟩

/-- A shape is satisfied by the values that satisfy the object that it comes down to. -/
theorem Flattens.satisfies_iff (hregistry : registry.Indexed) {shape : Shape}
    {object : ObjectShape} (h : registry.Flattens shape object) (hshape : shape.WellFormed)
    {value : Json} : registry.Satisfies object.toShape value ↔ registry.Satisfies shape value := by
  induction h with
  | object fields policy => exact Iff.rfl
  | ref hfound _ ih =>
      exact (ih (hregistry.wellFormed hfound)).trans (satisfies_ref_iff hfound).symm
  | intersection hleft hright ihLeft ihRight =>
      obtain ⟨-, hleftWell, hrightWell⟩ := Shape.Everywhere.intersection_iff.mp hshape
      rw [satisfies_merge_iff (hleft.nodup hregistry hleftWell)
        (hright.nodup hregistry hrightWell), ihLeft hleftWell, ihRight hrightWell]
      exact satisfies_intersection_iff.symm

end EntityContract.Registry
