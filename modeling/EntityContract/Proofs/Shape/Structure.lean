import EntityContract.Arena.Compile
import EntityContract.Proofs.Json.Value

/-!
The shapes in a shape, and the conditions on them that every shape of a registry meets: objects
name their fields once, unions have a variant and closed lists an option, literals and defaults are
values.
-/

namespace EntityContract.Shape

/-- Induction over the shapes in a shape; references are not followed. -/
@[induction_eliminator]
theorem induct {motive : Shape → Prop} (string : ∀ format, motive (.string format))
    (integer : motive .integer) (number : motive .number) (boolean : motive .boolean)
    (unknown : motive .unknown) (literal : ∀ value, motive (.literal value))
    (enum : ∀ options, motive (.enum options))
    (array : ∀ item, motive item → motive (.array item))
    (record : ∀ value, motive value → motive (.record value))
    (object : ∀ fields policy, (∀ field ∈ fields, motive field.2) → motive (.object fields policy))
    (optional : ∀ inner default?, motive inner → motive (.optional inner default?))
    (union : ∀ variants, (∀ variant ∈ variants, motive variant) → motive (.union variants))
    (intersection : ∀ left right, motive left → motive right → motive (.intersection left right))
    (ref : ∀ key, motive (.ref key)) : ∀ shape, motive shape := by
  intro shape
  refine @Shape.rec motive (fun fields => ∀ field ∈ fields, motive field.2)
    (fun variants => ∀ variant ∈ variants, motive variant) (fun field => motive field.2)
    string integer number boolean unknown literal enum array record object
    optional union intersection ref ?_ ?_ ?_ ?_ ?_ shape
  · simp
  · intro field fields hfield hfields
    exact List.forall_mem_cons.mpr ⟨hfield, hfields⟩
  · simp
  · intro variant variants hvariant hvariants
    exact List.forall_mem_cons.mpr ⟨hvariant, hvariants⟩
  · exact fun _ _ h => h

mutual

/-- The shape and all shapes in it. -/
def subshapes : Shape → List Shape
  | .array item => .array item :: item.subshapes
  | .record value => .record value :: value.subshapes
  | .object fields policy => .object fields policy :: subshapesOfFields fields
  | .optional inner default? => .optional inner default? :: inner.subshapes
  | .union variants => .union variants :: subshapesOfVariants variants
  | .intersection left right => .intersection left right :: (left.subshapes ++ right.subshapes)
  | shape => [shape]

def subshapesOfFields : Fields → List Shape
  | [] => []
  | (_, shape) :: fields => shape.subshapes ++ subshapesOfFields fields

def subshapesOfVariants : List Shape → List Shape
  | [] => []
  | shape :: shapes => shape.subshapes ++ subshapesOfVariants shapes

end

attribute [local simp] subshapes subshapesOfFields subshapesOfVariants weight weightFields
  weightVariants

theorem mem_subshapes_self (shape : Shape) : shape ∈ shape.subshapes := by
  cases shape <;> simp

theorem mem_subshapesOfFields {shape : Shape} {fields : Fields} :
    shape ∈ subshapesOfFields fields ↔ ∃ field ∈ fields, shape ∈ field.2.subshapes := by
  induction fields with
  | nil => simp
  | cons field fields ih => simp [ih]

theorem mem_subshapesOfVariants {shape : Shape} {variants : List Shape} :
    shape ∈ subshapesOfVariants variants ↔ ∃ variant ∈ variants, shape ∈ variant.subshapes := by
  induction variants with
  | nil => simp
  | cons variant variants ih => simp [ih]

/-- There are as many shapes in a shape as constructors. -/
theorem length_subshapes (shape : Shape) : shape.subshapes.length = shape.weight := by
  have hfields : ∀ fields : Fields, (∀ field ∈ fields, field.2.subshapes.length = field.2.weight) →
      (subshapesOfFields fields).length = weightFields fields := by
    intro fields h
    induction fields with
    | nil => rfl
    | cons field fields ih =>
        rw [List.forall_mem_cons] at h
        simp [h.1, ih h.2]
  have hvariants : ∀ variants : List Shape,
      (∀ variant ∈ variants, variant.subshapes.length = variant.weight) →
      (subshapesOfVariants variants).length = weightVariants variants := by
    intro variants h
    induction variants with
    | nil => rfl
    | cons variant variants ih =>
        rw [List.forall_mem_cons] at h
        simp [h.1, ih h.2]
  induction shape with
  | array item ih => simp [ih]
  | record value ih => simp [ih]
  | object fields policy ih => simp [hfields fields ih]
  | optional inner default? ih => simp [ih]
  | union variants ih => simp [hvariants variants ih]
  | intersection left right ihLeft ihRight => simp [ihLeft, ihRight]
  | _ => simp

@[simp] theorem present_optional (inner : Shape) (default? : Option Json) :
    (optional inner default?).present = inner.present := rfl

theorem default?_optional (inner : Shape) (default? : Option Json) :
    (optional inner default?).default? = default?.or inner.default? := rfl

theorem present_of_isOptional_eq_false {shape : Shape} (h : shape.isOptional = false) :
    shape.present = shape := by
  cases shape <;> first | rfl | simp [isOptional] at h

theorem isOptional_present (shape : Shape) : shape.present.isOptional = false := by
  induction shape with
  | optional inner default? ih => exact ih
  | _ => rfl

@[simp] theorem present_present (shape : Shape) : shape.present.present = shape.present :=
  present_of_isOptional_eq_false shape.isOptional_present

theorem default?_of_isOptional_eq_false {shape : Shape} (h : shape.isOptional = false) :
    shape.default? = none := by
  cases shape <;> first | rfl | simp [isOptional] at h

theorem present_mem_subshapes (shape : Shape) : shape.present ∈ shape.subshapes := by
  induction shape with
  | optional inner default? ih =>
      rw [present_optional, subshapes]
      exact List.mem_cons_of_mem _ ih
  | _ => exact mem_subshapes_self _

theorem mem_subshapes_trans {shape inner innermost : Shape} (hinner : inner ∈ shape.subshapes)
    (hinnermost : innermost ∈ inner.subshapes) : innermost ∈ shape.subshapes := by
  induction shape with
  | array item ih =>
      rw [subshapes, List.mem_cons] at hinner ⊢
      rcases hinner with rfl | hinner
      · rwa [subshapes, List.mem_cons] at hinnermost
      · exact Or.inr (ih hinner)
  | record value ih =>
      rw [subshapes, List.mem_cons] at hinner ⊢
      rcases hinner with rfl | hinner
      · rwa [subshapes, List.mem_cons] at hinnermost
      · exact Or.inr (ih hinner)
  | optional inner default? ih =>
      rw [subshapes, List.mem_cons] at hinner ⊢
      rcases hinner with rfl | hinner
      · rwa [subshapes, List.mem_cons] at hinnermost
      · exact Or.inr (ih hinner)
  | object fields policy ih =>
      rw [subshapes, List.mem_cons] at hinner ⊢
      rcases hinner with rfl | hinner
      · rwa [subshapes, List.mem_cons] at hinnermost
      · obtain ⟨field, hfield, hinner⟩ := mem_subshapesOfFields.mp hinner
        exact Or.inr (mem_subshapesOfFields.mpr ⟨field, hfield, ih field hfield hinner⟩)
  | union variants ih =>
      rw [subshapes, List.mem_cons] at hinner ⊢
      rcases hinner with rfl | hinner
      · rwa [subshapes, List.mem_cons] at hinnermost
      · obtain ⟨variant, hvariant, hinner⟩ := mem_subshapesOfVariants.mp hinner
        exact Or.inr (mem_subshapesOfVariants.mpr ⟨variant, hvariant, ih variant hvariant hinner⟩)
  | intersection left right ihLeft ihRight =>
      rw [subshapes, List.mem_cons, List.mem_append] at hinner ⊢
      rcases hinner with rfl | hinner | hinner
      · rwa [subshapes, List.mem_cons, List.mem_append] at hinnermost
      · exact Or.inr (Or.inl (ihLeft hinner))
      · exact Or.inr (Or.inr (ihRight hinner))
  | _ =>
      rw [subshapes, List.mem_singleton] at hinner
      · rwa [hinner] at hinnermost
      all_goals simp

/-- The condition holds of the shape and of every shape in it. -/
def Everywhere (p : Shape → Prop) (shape : Shape) : Prop := ∀ inner ∈ shape.subshapes, p inner

namespace Everywhere

variable {p : Shape → Prop}

theorem self {shape : Shape} (h : shape.Everywhere p) : p shape :=
  h shape shape.mem_subshapes_self

theorem array_iff {item : Shape} :
    (array item).Everywhere p ↔ p (array item) ∧ item.Everywhere p := by
  simp [Everywhere]

theorem record_iff {value : Shape} :
    (record value).Everywhere p ↔ p (record value) ∧ value.Everywhere p := by
  simp [Everywhere]

theorem optional_iff {inner : Shape} {default? : Option Json} :
    (optional inner default?).Everywhere p ↔ p (optional inner default?) ∧ inner.Everywhere p := by
  simp [Everywhere]

theorem intersection_iff {left right : Shape} :
    (intersection left right).Everywhere p ↔
      p (intersection left right) ∧ left.Everywhere p ∧ right.Everywhere p := by
  simp only [Everywhere, subshapes, List.forall_mem_cons, List.forall_mem_append]

theorem object_iff {fields : Fields} {policy : UnknownFields} :
    (object fields policy).Everywhere p ↔
      p (object fields policy) ∧ ∀ field ∈ fields, field.2.Everywhere p := by
  simp only [Everywhere, subshapes, List.forall_mem_cons, mem_subshapesOfFields]
  exact and_congr_right fun _ =>
    ⟨fun h field hfield inner hinner => h inner ⟨field, hfield, hinner⟩,
      fun h inner ⟨field, hfield, hinner⟩ => h field hfield inner hinner⟩

theorem union_iff {variants : List Shape} :
    (union variants).Everywhere p ↔
      p (union variants) ∧ ∀ variant ∈ variants, variant.Everywhere p := by
  simp only [Everywhere, subshapes, List.forall_mem_cons, mem_subshapesOfVariants]
  exact and_congr_right fun _ =>
    ⟨fun h variant hvariant inner hinner => h inner ⟨variant, hvariant, hinner⟩,
      fun h inner ⟨variant, hvariant, hinner⟩ => h variant hvariant inner hinner⟩

theorem present {shape : Shape} (h : shape.Everywhere p) : shape.present.Everywhere p := by
  induction shape with
  | optional inner default? ih => exact ih (optional_iff.mp h).2
  | _ => exact h

/-- The default of a shape is declared by a wrapper in it. -/
theorem default? {shape : Shape} (h : shape.Everywhere p) {value : Json}
    (hdefault : shape.default? = some value) : ∃ inner, p (.optional inner (some value)) := by
  induction shape with
  | optional inner outer? ih =>
      rw [optional_iff] at h
      cases outer? with
      | some outer =>
          have heq : outer = value := Option.some.inj hdefault
          exact ⟨inner, heq ▸ h.1⟩
      | none => exact ih h.2 hdefault
  | _ => exact absurd hdefault (by simp [Shape.default?, presence])

end Everywhere

/-- A condition on a single shape, as opposed to the shapes in it. -/
def Local : Shape → Prop
  | .object fields _ => (fields.map (·.1)).Nodup
  | .union variants => variants ≠ []
  | .enum options => options ≠ []
  | .literal value => value.Proper
  | .optional _ (some value) => value.Proper
  | _ => True

/-- The shape and all shapes in it meet their conditions. -/
abbrev WellFormed (shape : Shape) : Prop := shape.Everywhere Local

end EntityContract.Shape
