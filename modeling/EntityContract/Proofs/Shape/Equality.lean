import EntityContract.Proofs.Json.Equality
import EntityContract.Proofs.Shape.Structure

/-!
Equality of shapes is an equivalence: equal shapes have the same form, and equal parts.
-/

namespace EntityContract.Shape

attribute [local simp] same sameFields sameVariants

/-- Fields of equal shapes under one name. -/
def SameField (field other : String × Shape) : Prop :=
  field.1 = other.1 ∧ field.2.same other.2 = true

/-- Equal defaults, or none on both sides. -/
def SameDefault (default? other? : Option Json) : Prop :=
  Option.Rel (fun value other => value.same other = true) default? other?

theorem SameDefault.or {x? x'? y? y'? : Option Json} (hx : SameDefault x? x'?)
    (hy : SameDefault y? y'?) : SameDefault (x?.or y?) (x'?.or y'?) := by
  cases hx with
  | none => exact hy
  | some hsame => exact .some hsame

theorem sameFields_iff {xs ys : Fields} :
    sameFields xs ys = true ↔ List.Forall₂ SameField xs ys := by
  induction xs generalizing ys with
  | nil => cases ys <;> simp
  | cons x xs ih => cases ys <;> simp [SameField, ih, and_assoc]

theorem sameVariants_iff {xs ys : List Shape} :
    sameVariants xs ys = true ↔ List.Forall₂ (fun x y => x.same y = true) xs ys := by
  induction xs generalizing ys with
  | nil => cases ys <;> simp
  | cons x xs ih => cases ys <;> simp [ih]

theorem exists_of_same_literal {value : Json} {t : Shape} (h : (literal value).same t = true) :
    ∃ other, t = literal other ∧ value.same other = true := by
  cases t with
  | literal other => exact ⟨other, rfl, by rwa [same] at h⟩
  | _ => simp at h

theorem exists_of_same_array {x t : Shape} (h : (array x).same t = true) :
    ∃ y, t = array y ∧ x.same y = true := by
  cases t with
  | array y => exact ⟨y, rfl, by rwa [same] at h⟩
  | _ => simp at h

theorem exists_of_same_record {x t : Shape} (h : (record x).same t = true) :
    ∃ y, t = record y ∧ x.same y = true := by
  cases t with
  | record y => exact ⟨y, rfl, by rwa [same] at h⟩
  | _ => simp at h

theorem exists_of_same_object {xs : Fields} {policy : UnknownFields} {t : Shape}
    (h : (object xs policy).same t = true) :
    ∃ ys, t = object ys policy ∧ List.Forall₂ SameField xs ys := by
  cases t with
  | object ys other =>
      rw [same, Bool.and_eq_true, beq_iff_eq, sameFields_iff] at h
      exact ⟨ys, by rw [h.1], h.2⟩
  | _ => simp at h

theorem same_optional_iff {x y : Shape} {default? other? : Option Json} :
    (optional x default?).same (optional y other?) = true ↔
      x.same y = true ∧ SameDefault default? other? := by
  cases default? <;> cases other? <;> simp [SameDefault]

theorem exists_of_same_optional {x t : Shape} {default? : Option Json}
    (h : (optional x default?).same t = true) :
    ∃ y other?, t = optional y other? ∧ x.same y = true ∧ SameDefault default? other? := by
  cases t with
  | optional y other? => exact ⟨y, other?, rfl, same_optional_iff.mp h⟩
  | _ => simp at h

theorem exists_of_same_union {xs : List Shape} {t : Shape} (h : (union xs).same t = true) :
    ∃ ys, t = union ys ∧ List.Forall₂ (fun x y => x.same y = true) xs ys := by
  cases t with
  | union ys => exact ⟨ys, rfl, by rwa [same, sameVariants_iff] at h⟩
  | _ => simp at h

theorem exists_of_same_intersection {left right t : Shape}
    (h : (intersection left right).same t = true) :
    ∃ left' right', t = intersection left' right' ∧ left.same left' = true ∧
      right.same right' = true := by
  cases t with
  | intersection left' right' =>
      rw [same, Bool.and_eq_true] at h
      exact ⟨left', right', rfl, h⟩
  | _ => simp at h

/-- Shapes without parts are equal to themselves only; literals are told apart by value. -/
theorem eq_of_same_string {format : StringFormat} {t : Shape}
    (h : (string format).same t = true) : t = string format := by
  cases t with
  | string other =>
      rw [same, beq_iff_eq] at h
      rw [h]
  | _ => simp at h

theorem eq_of_same_enum {options : List String} {t : Shape} (h : (enum options).same t = true) :
    t = enum options := by
  cases t with
  | enum other =>
      rw [same, beq_iff_eq] at h
      rw [h]
  | _ => simp at h

theorem eq_of_same_ref {key : String} {t : Shape} (h : (ref key).same t = true) : t = ref key := by
  cases t with
  | ref other =>
      rw [same, beq_iff_eq] at h
      rw [h]
  | _ => simp at h

theorem eq_of_same_integer {t : Shape} (h : integer.same t = true) : t = integer := by
  cases t <;> first | rfl | simp at h

theorem eq_of_same_number {t : Shape} (h : number.same t = true) : t = number := by
  cases t <;> first | rfl | simp at h

theorem eq_of_same_boolean {t : Shape} (h : boolean.same t = true) : t = boolean := by
  cases t <;> first | rfl | simp at h

theorem eq_of_same_unknown {t : Shape} (h : unknown.same t = true) : t = unknown := by
  cases t <;> first | rfl | simp at h

theorem wellFormed_default {inner : Shape} {value : Json}
    (h : (optional inner (some value)).WellFormed) : value.Proper := h.self

theorem same_refl {s : Shape} (hs : s.WellFormed) : s.same s = true := by
  induction s with
  | string format => simp
  | literal value => exact Json.same_refl hs.self
  | enum options => simp
  | array item ih => exact ih (Everywhere.array_iff.mp hs).2
  | record value ih => exact ih (Everywhere.record_iff.mp hs).2
  | object fields policy ih =>
      have hfields := (Everywhere.object_iff.mp hs).2
      have hsame : List.Forall₂ SameField fields fields :=
        List.forall₂_same.mpr fun field hmem => ⟨rfl, ih field hmem (hfields field hmem)⟩
      rw [same, sameFields_iff.mpr hsame, beq_self_eq_true, Bool.and_self]
  | optional inner default? ih =>
      refine same_optional_iff.mpr ⟨ih (Everywhere.optional_iff.mp hs).2, ?_⟩
      cases default? with
      | none => exact .none
      | some value => exact .some (Json.same_refl (wellFormed_default hs))
  | union variants ih =>
      have hvariants := (Everywhere.union_iff.mp hs).2
      rw [same, sameVariants_iff]
      exact List.forall₂_same.mpr fun variant hmem => ih variant hmem (hvariants variant hmem)
  | intersection left right ihLeft ihRight =>
      obtain ⟨-, hleft, hright⟩ := Everywhere.intersection_iff.mp hs
      rw [same, ihLeft hleft, ihRight hright, Bool.and_self]
  | ref key => simp
  | _ => rfl

theorem same_trans {s t u : Shape} (hst : s.same t = true) (htu : t.same u = true) :
    s.same u = true := by
  induction s generalizing t u with
  | string format => rwa [eq_of_same_string hst] at htu
  | integer => rwa [eq_of_same_integer hst] at htu
  | number => rwa [eq_of_same_number hst] at htu
  | boolean => rwa [eq_of_same_boolean hst] at htu
  | unknown => rwa [eq_of_same_unknown hst] at htu
  | enum options => rwa [eq_of_same_enum hst] at htu
  | ref key => rwa [eq_of_same_ref hst] at htu
  | literal value =>
      obtain ⟨other, rfl, hother⟩ := exists_of_same_literal hst
      obtain ⟨third, rfl, hthird⟩ := exists_of_same_literal htu
      exact Json.same_trans hother hthird
  | array x ih =>
      obtain ⟨y, rfl, hy⟩ := exists_of_same_array hst
      obtain ⟨z, rfl, hz⟩ := exists_of_same_array htu
      exact ih hy hz
  | record x ih =>
      obtain ⟨y, rfl, hy⟩ := exists_of_same_record hst
      obtain ⟨z, rfl, hz⟩ := exists_of_same_record htu
      exact ih hy hz
  | object xs policy ih =>
      obtain ⟨ys, rfl, hys⟩ := exists_of_same_object hst
      obtain ⟨zs, rfl, hzs⟩ := exists_of_same_object htu
      have hsame : List.Forall₂ SameField xs zs := Pairing.trans hys hzs
        fun x hx y z hy hz => ⟨hy.1.trans hz.1, ih x hx hy.2 hz.2⟩
      rw [same, sameFields_iff.mpr hsame, beq_self_eq_true, Bool.and_self]
  | optional x default? ih =>
      obtain ⟨y, other?, rfl, hy, hother⟩ := exists_of_same_optional hst
      obtain ⟨z, third?, rfl, hz, hthird⟩ := exists_of_same_optional htu
      refine same_optional_iff.mpr ⟨ih hy hz, ?_⟩
      cases hother with
      | none => exact hthird
      | some hother =>
          cases hthird with
          | some hthird => exact .some (Json.same_trans hother hthird)
  | union xs ih =>
      obtain ⟨ys, rfl, hys⟩ := exists_of_same_union hst
      obtain ⟨zs, rfl, hzs⟩ := exists_of_same_union htu
      rw [same, sameVariants_iff]
      exact Pairing.trans hys hzs fun x hx y z hy hz => ih x hx hy hz
  | intersection left right ihLeft ihRight =>
      obtain ⟨left', right', rfl, hleft, hright⟩ := exists_of_same_intersection hst
      obtain ⟨left'', right'', rfl, hleft', hright'⟩ := exists_of_same_intersection htu
      rw [same, ihLeft hleft hleft', ihRight hright hright', Bool.and_self]

theorem same_symm {s t : Shape} (hs : s.WellFormed) (ht : t.WellFormed) (h : s.same t = true) :
    t.same s = true := by
  induction s generalizing t with
  | string format => rw [eq_of_same_string h]; simp
  | integer => rw [eq_of_same_integer h]; rfl
  | number => rw [eq_of_same_number h]; rfl
  | boolean => rw [eq_of_same_boolean h]; rfl
  | unknown => rw [eq_of_same_unknown h]; rfl
  | enum options => rw [eq_of_same_enum h]; simp
  | ref key => rw [eq_of_same_ref h]; simp
  | literal value =>
      obtain ⟨other, rfl, hother⟩ := exists_of_same_literal h
      exact Json.same_symm hs.self ht.self hother
  | array x ih =>
      obtain ⟨y, rfl, hy⟩ := exists_of_same_array h
      exact ih (Everywhere.array_iff.mp hs).2 (Everywhere.array_iff.mp ht).2 hy
  | record x ih =>
      obtain ⟨y, rfl, hy⟩ := exists_of_same_record h
      exact ih (Everywhere.record_iff.mp hs).2 (Everywhere.record_iff.mp ht).2 hy
  | object xs policy ih =>
      obtain ⟨ys, rfl, hys⟩ := exists_of_same_object h
      have hxs := (Everywhere.object_iff.mp hs).2
      have hwell := (Everywhere.object_iff.mp ht).2
      have hsame : List.Forall₂ SameField ys xs := Pairing.symm hys
        fun x hx y hy hxy => ⟨hxy.1.symm, ih x hx (hxs x hx) (hwell y hy) hxy.2⟩
      rw [same, sameFields_iff.mpr hsame, beq_self_eq_true, Bool.and_self]
  | optional x default? ih =>
      obtain ⟨y, other?, rfl, hy, hother⟩ := exists_of_same_optional h
      refine same_optional_iff.mpr
        ⟨ih (Everywhere.optional_iff.mp hs).2 (Everywhere.optional_iff.mp ht).2 hy, ?_⟩
      cases hother with
      | none => exact .none
      | some hother =>
          exact .some (Json.same_symm (wellFormed_default hs) (wellFormed_default ht) hother)
  | union xs ih =>
      obtain ⟨ys, rfl, hys⟩ := exists_of_same_union h
      have hxs := (Everywhere.union_iff.mp hs).2
      have hwell := (Everywhere.union_iff.mp ht).2
      rw [same, sameVariants_iff]
      exact Pairing.symm hys fun x hx y hy hxy => ih x hx (hxs x hx) (hwell y hy) hxy
  | intersection left right ihLeft ihRight =>
      obtain ⟨left', right', rfl, hleft, hright⟩ := exists_of_same_intersection h
      obtain ⟨-, hsLeft, hsRight⟩ := Everywhere.intersection_iff.mp hs
      obtain ⟨-, htLeft, htRight⟩ := Everywhere.intersection_iff.mp ht
      rw [same, ihLeft hsLeft htLeft hleft, ihRight hsRight htRight hright, Bool.and_self]

theorem isOptional_eq_of_same {s t : Shape} (h : s.same t = true) :
    s.isOptional = t.isOptional := by
  cases hs : s.isOptional with
  | true =>
      cases s with
      | optional x default? =>
          obtain ⟨y, other?, rfl, -⟩ := exists_of_same_optional h
          rfl
      | _ => exact nomatch hs
  | false =>
      cases t with
      | optional y other? =>
          cases s with
          | optional x default? => exact nomatch hs
          | _ => cases other? <;> exact nomatch h
      | _ => rfl

/-- What equal shapes ask of a present value is equal, and so are their defaults. -/
theorem presence_same {s t : Shape} (h : s.same t = true) :
    s.present.same t.present = true ∧ SameDefault s.default? t.default? := by
  induction s generalizing t with
  | optional x default? ih =>
      obtain ⟨y, other?, rfl, hy, hother⟩ := exists_of_same_optional h
      refine ⟨(ih hy).1, ?_⟩
      rw [default?_optional, default?_optional]
      cases hother with
      | none => exact (ih hy).2
      | some hother => exact .some hother
  | _ =>
      have hs : t.isOptional = false := (isOptional_eq_of_same h).symm
      rw [present_of_isOptional_eq_false hs, default?_of_isOptional_eq_false hs]
      exact ⟨h, .none⟩

end EntityContract.Shape
