import EntityContract.Proofs.Registry.Satisfaction
import EntityContract.Validation.Walk

/-!
What validation makes of a value, read off the shape: as satisfaction tells which values are
accepted, normalization tells what becomes of them. Nothing is compiled, and intersections of
objects are the objects that they come down to.
-/

namespace EntityContract

namespace ObjectShape

/-- How many members of a value the object declares. -/
def coverage (object : ObjectShape) : Json → Nat
  | .obj members => members.countP fun member => (object.fields.map (·.1)).contains member.1
  | _ => 0

/-- Declaring a member more is declaring more members. -/
theorem coverage_lt {fields further : Fields} {policy policy' : UnknownFields} {members : Members}
    {key : String} (hkey : key ∈ members.map (·.1)) (hfurther : key ∈ further.map (·.1))
    (hnew : key ∉ fields.map (·.1)) :
    coverage ⟨fields, policy⟩ (.obj members) <
      coverage ⟨fields ++ further, policy'⟩ (.obj members) := by
  have hmono : ∀ members : Members,
      (members.countP fun member => (fields.map (·.1)).contains member.1) ≤
        members.countP fun member => ((fields ++ further).map (·.1)).contains member.1 := by
    intro members
    refine List.countP_mono_left fun member _ hmember => ?_
    rw [List.contains_iff_mem] at hmember ⊢
    rw [List.map_append]
    exact List.mem_append_left _ hmember
  obtain ⟨member, hmember, rfl⟩ := List.mem_map.mp hkey
  obtain ⟨before, after, rfl⟩ := List.append_of_mem hmember
  have hours : (fields.map (·.1)).contains member.1 = false := by simpa using hnew
  have htheirs : ((fields ++ further).map (·.1)).contains member.1 = true := by
    rw [List.contains_iff_mem, List.map_append]
    exact List.mem_append_right _ hfurther
  have hbefore := hmono before
  have hafter := hmono after
  rw [coverage, coverage, List.countP_append, List.countP_append, List.countP_cons,
    List.countP_cons, hours, htheirs]
  simp only [Bool.false_eq_true, if_false, if_true]
  omega

end ObjectShape

namespace Registry

/-- What becomes of a member, given the shape of the field if it is declared. -/
inductive MemberNormalizes (normalizes : Shape → Json → Json → Prop) :
    UnknownFields → Option Shape → Option Json → Option Json → Prop
  | kept (value? : Option Json) : MemberNormalizes normalizes .passthrough none value? value?
  | stripped (value? : Option Json) : MemberNormalizes normalizes .strip none value? none
  | present {policy : UnknownFields} {shape : Shape} {value output : Json} :
      normalizes shape.present value output →
        MemberNormalizes normalizes policy (some shape) (some value) (some output)
  | absent {policy : UnknownFields} {shape : Shape} : shape.isOptional = true →
      MemberNormalizes normalizes policy (some shape) none shape.default?

/-- The value satisfies the shape, and the output is what validation may make of it. -/
inductive Normalizes (registry : Registry) : Shape → Json → Json → Prop
  | string {format : StringFormat} {text : String} : format.problem? text = none →
      Normalizes registry (.string format) (.str text) (.str text)
  | integer {n : Number} : n.isWhole = true →
      Normalizes registry .integer (.num n) (.num n.normalize)
  | number (n : Number) : Normalizes registry .number (.num n) (.num n)
  | boolean (value : Bool) : Normalizes registry .boolean (.bool value) (.bool value)
  | unknown (value : Json) : Normalizes registry .unknown value value
  | literal {expected value : Json} : value.same expected = true →
      Normalizes registry (.literal expected) value value
  | enum {options : List String} {text : String} : text ∈ options →
      Normalizes registry (.enum options) (.str text) (.str text)
  | array {item : Shape} {items outputs : List Json} : items.length = outputs.length →
      (∀ pair ∈ items.zip outputs, Normalizes registry item.present pair.1 pair.2) →
        Normalizes registry (.array item) (.arr items) (.arr outputs)
  | record {shape : Shape} {members outputs : Members} : members.map (·.1) = outputs.map (·.1) →
      (∀ pair ∈ members.zip outputs, Normalizes registry shape.present pair.1.2 pair.2.2) →
        Normalizes registry (.record shape) (.obj members) (.obj outputs)
  | object {shape : Shape} {object : ObjectShape} {members outputs : Members} :
      (∀ key, shape ≠ .ref key) → registry.Flattens shape object →
      (∀ key, MemberNormalizes (Normalizes registry) object.policy (object.fields.lookup key)
        (members.lookup key) (outputs.lookup key)) →
        Normalizes registry shape (.obj members) (.obj outputs)
  /-- None of the variants that fit declares more members than the one that is taken. -/
  | union {variants : List Shape} {variant : Shape} {value output : Json} : variant ∈ variants →
      registry.Satisfies variant value → Normalizes registry variant.present value output →
      (∀ other ∈ variants, registry.Satisfies other value → ∀ ours theirs,
        registry.Flattens variant ours → registry.Flattens other theirs →
          theirs.coverage value ≤ ours.coverage value) →
        Normalizes registry (.union variants) value output
  | intersection {left right : Shape} {value leftOutput rightOutput : Json} :
      registry.flatten (.intersection left right) = none →
      Normalizes registry left.present value leftOutput →
      Normalizes registry right.present value rightOutput →
        Normalizes registry (.intersection left right) value
          (Json.mergeOutputs leftOutput rightOutput (some value))
  | ref {key : String} {shape : Shape} {value output : Json} :
      registry.shape? key = some shape → Normalizes registry shape.present value output →
        Normalizes registry (.ref key) value output

variable {registry : Registry}

theorem Flattens.present_eq {shape : Shape} {object : ObjectShape}
    (h : registry.Flattens shape object) : shape.present = shape := by
  cases h with
  | object fields policy => rfl
  | ref hshape hinner => rfl
  | intersection hleft hright => rfl

theorem Flattens.unique (hregistry : registry.Indexed) {shape : Shape}
    {object object' : ObjectShape} (h : registry.Flattens shape object)
    (h' : registry.Flattens shape object') : object = object' := by
  have hflatten := (flatten_eq_some_iff hregistry).mpr h
  rw [(flatten_eq_some_iff hregistry).mpr h', Option.some.injEq] at hflatten
  exact hflatten.symm

section Inversion

variable {value output : Json}

theorem normalizes_array_iff {item : Shape} :
    registry.Normalizes (.array item) value output ↔ ∃ items outputs, value = .arr items ∧
      output = .arr outputs ∧ List.Forall₂ (registry.Normalizes item.present) items outputs := by
  constructor
  · intro h
    cases h with
    | array hlength hitems =>
        refine ⟨_, _, rfl, rfl, List.forall₂_iff_zip.mpr ⟨hlength, fun {x y} hmem => ?_⟩⟩
        exact hitems (x, y) hmem
    | object hshape hflattens => cases hflattens
  · rintro ⟨items, outputs, rfl, rfl, h⟩
    obtain ⟨hlength, hitems⟩ := List.forall₂_iff_zip.mp h
    exact .array hlength fun pair hpair => hitems hpair

theorem normalizes_record_iff {shape : Shape} :
    registry.Normalizes (.record shape) value output ↔ ∃ members outputs, value = .obj members ∧
      output = .obj outputs ∧ List.Forall₂ (fun member output => member.1 = output.1 ∧
        registry.Normalizes shape.present member.2 output.2) members outputs := by
  constructor
  · intro h
    cases h with
    | @record _ members outputs hkeys hmembers =>
        refine ⟨members, outputs, rfl, rfl, List.forall₂_iff_zip.mpr ⟨?_, fun {x y} hmem => ?_⟩⟩
        · simpa using congrArg List.length hkeys
        · refine ⟨?_, hmembers (x, y) hmem⟩
          have hpairs : List.Forall₂ (fun x y => x.1 = y.1) members outputs := by
            rw [← List.forall₂_eq_eq_eq, List.forall₂_map_left_iff,
              List.forall₂_map_right_iff] at hkeys
            exact hkeys
          exact (List.forall₂_iff_zip.mp hpairs).2 hmem
    | object hshape hflattens => cases hflattens
  · rintro ⟨members, outputs, rfl, rfl, h⟩
    refine .record ?_ fun pair hpair => ((List.forall₂_iff_zip.mp h).2 hpair).2
    rw [← List.forall₂_eq_eq_eq, List.forall₂_map_left_iff, List.forall₂_map_right_iff]
    exact h.imp fun _ _ hpair => hpair.1

/-- Members by the fields of an object. -/
def NormalizesMembers (registry : Registry) (object : ObjectShape) (members outputs : Members) :
    Prop :=
  ∀ key, MemberNormalizes registry.Normalizes object.policy (object.fields.lookup key)
    (members.lookup key) (outputs.lookup key)

/-- A declared member is what its shape makes of it; an absent one is optional and has its
default. -/
theorem NormalizesMembers.declared {object : ObjectShape} {members outputs : Members}
    (h : registry.NormalizesMembers object members outputs) {name : String} {shape : Shape}
    (hfield : object.fields.lookup name = some shape) :
    (∃ value output, members.lookup name = some value ∧ outputs.lookup name = some output ∧
        registry.Normalizes shape.present value output) ∨
      (members.lookup name = none ∧ shape.isOptional = true ∧
        outputs.lookup name = shape.default?) := by
  have hmember := h name
  rw [hfield] at hmember
  generalize object.policy = policy at hmember
  generalize members.lookup name = value? at hmember ⊢
  generalize outputs.lookup name = output? at hmember ⊢
  cases hmember with
  | present hvalue => exact Or.inl ⟨_, _, rfl, rfl, hvalue⟩
  | absent hoptional => exact Or.inr ⟨rfl, hoptional, rfl⟩

/-- Objects that pass undeclared members through leave them as they are. -/
theorem NormalizesMembers.undeclared {fields : Fields} {members outputs : Members}
    (h : registry.NormalizesMembers ⟨fields, .passthrough⟩ members outputs) {name : String}
    (hfield : fields.lookup name = none) : outputs.lookup name = members.lookup name := by
  have hmember := h name
  dsimp only at hmember
  rw [hfield] at hmember
  generalize members.lookup name = value? at hmember ⊢
  generalize outputs.lookup name = output? at hmember ⊢
  cases hmember
  rfl

/-- A shape that comes down to an object does to values what the object does. -/
theorem Normalizes.of_flattens (hregistry : registry.Indexed) {shape : Shape}
    {object : ObjectShape} (h : registry.Normalizes shape value output)
    (hflattens : registry.Flattens shape object) :
    ∃ members outputs, value = .obj members ∧ output = .obj outputs ∧
      registry.NormalizesMembers object members outputs := by
  induction hflattens with
  | object fields policy =>
      cases h with
      | object hshape hother hmembers =>
          cases hother
          exact ⟨_, _, rfl, rfl, hmembers⟩
  | ref hfound hinner ih =>
      cases h with
      | object hshape => exact absurd rfl (hshape _)
      | ref hshape h =>
          rw [hfound, Option.some.injEq] at hshape
          subst hshape
          rw [hinner.present_eq] at h
          exact ih h
  | intersection hleft hright =>
      have hflattens := Flattens.intersection hleft hright
      cases h with
      | object hshape hother hmembers =>
          cases hother.unique hregistry hflattens
          exact ⟨_, _, rfl, rfl, hmembers⟩
      | intersection hnone =>
          rw [(flatten_eq_some_iff hregistry).mpr hflattens] at hnone
          exact nomatch hnone

end Inversion

end Registry

end EntityContract
