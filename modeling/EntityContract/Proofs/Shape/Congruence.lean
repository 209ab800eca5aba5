import EntityContract.Proofs.Shape.Equality
import EntityContract.Proofs.Shape.Merging

/-!
Merging does not tell equal shapes apart: equal objects merge to equal objects.
-/

namespace EntityContract

namespace Shape

variable {ours ours' theirs theirs' : Shape}

theorem both_same (hours : ours.WellFormed) (hours' : ours'.WellFormed)
    (htheirs : theirs.WellFormed) (htheirs' : theirs'.WellFormed) (ho : ours.same ours' = true)
    (ht : theirs.same theirs' = true) : (both ours theirs).same (both ours' theirs') = true := by
  have hcollapse : ours.same theirs = ours'.same theirs' := by
    rw [Bool.eq_iff_iff]
    constructor
    · intro h
      exact same_trans (same_symm hours hours' ho) (same_trans h ht)
    · intro h
      exact same_trans ho (same_trans h (same_symm htheirs htheirs' ht))
  rw [both, both, hcollapse]
  split
  · exact ho
  · rw [same, ho, ht, Bool.and_self]

theorem mergeField_same (hours : ours.WellFormed) (hours' : ours'.WellFormed)
    (htheirs : theirs.WellFormed) (htheirs' : theirs'.WellFormed) (ho : ours.same ours' = true)
    (ht : theirs.same theirs' = true) :
    (mergeField ours theirs).same (mergeField ours' theirs') = true := by
  obtain ⟨hoPresent, hoDefault⟩ := presence_same ho
  obtain ⟨htPresent, htDefault⟩ := presence_same ht
  have hboth := both_same hours.present hours'.present htheirs.present htheirs'.present
    hoPresent htPresent
  rw [mergeField_eq, mergeField_eq, isOptional_eq_of_same ho, isOptional_eq_of_same ht]
  split
  · exact same_optional_iff.mpr ⟨hboth, hoDefault.or htDefault⟩
  · exact hboth

theorem mergeInto_same {name : String} {fields fields' : Fields}
    (hfields : ∀ field ∈ fields, field.2.WellFormed)
    (hfields' : ∀ field ∈ fields', field.2.WellFormed) (htheirs : theirs.WellFormed)
    (htheirs' : theirs'.WellFormed) (h : List.Forall₂ SameField fields fields')
    (ht : theirs.same theirs' = true) :
    List.Forall₂ SameField (mergeInto name theirs fields) (mergeInto name theirs' fields') := by
  induction h with
  | nil => exact .cons ⟨rfl, ht⟩ .nil
  | @cons field field' fields fields' hfield htail ih =>
      obtain ⟨other, ours⟩ := field
      obtain ⟨other', ours'⟩ := field'
      obtain ⟨rfl, ho⟩ : other = other' ∧ ours.same ours' = true := hfield
      rw [List.forall_mem_cons] at hfields hfields'
      rw [mergeInto, mergeInto]
      split
      · exact .cons ⟨rfl, mergeField_same hfields.1 hfields'.1 htheirs htheirs' ho ht⟩ htail
      · exact .cons ⟨rfl, ho⟩ (ih hfields.2 hfields'.2)

theorem mergeFields_same {base base' overlay overlay' : Fields}
    (hbase : ∀ field ∈ base, field.2.WellFormed) (hbase' : ∀ field ∈ base', field.2.WellFormed)
    (hoverlay : ∀ field ∈ overlay, field.2.WellFormed)
    (hoverlay' : ∀ field ∈ overlay', field.2.WellFormed)
    (h : List.Forall₂ SameField base base') (h' : List.Forall₂ SameField overlay overlay') :
    List.Forall₂ SameField (mergeFields base overlay) (mergeFields base' overlay') := by
  rw [mergeFields, mergeFields]
  induction h' generalizing base base' with
  | nil => exact h
  | @cons field field' overlay overlay' hfield _ ih =>
      obtain ⟨name, theirs⟩ := field
      obtain ⟨name', theirs'⟩ := field'
      obtain ⟨rfl, ht⟩ : name = name' ∧ theirs.same theirs' = true := hfield
      rw [List.forall_mem_cons] at hoverlay hoverlay'
      exact ih (Everywhere.mergeInto mergeable_local hbase hoverlay.1)
        (Everywhere.mergeInto mergeable_local hbase' hoverlay'.1) hoverlay.2 hoverlay'.2
        (mergeInto_same hbase hbase' hoverlay.1 hoverlay'.1 h ht)

end Shape

namespace ObjectShape

/-- Objects of one policy with equal fields under the same names, in the same order. -/
structure Same (object other : ObjectShape) : Prop where
  policy_eq : object.policy = other.policy
  fields : List.Forall₂ Shape.SameField object.fields other.fields

theorem same_refl {object : ObjectShape} (h : object.toShape.WellFormed) : object.Same object where
  policy_eq := rfl
  fields := List.forall₂_same.mpr fun field hfield =>
    ⟨rfl, Shape.same_refl ((Shape.Everywhere.object_iff.mp h).2 field hfield)⟩

theorem Same.merge {left left' right right' : ObjectShape} (hl : left.Same left')
    (hr : right.Same right') (hleft : left.toShape.WellFormed) (hleft' : left'.toShape.WellFormed)
    (hright : right.toShape.WellFormed) (hright' : right'.toShape.WellFormed) :
    (left.merge right).Same (left'.merge right') where
  policy_eq := by rw [ObjectShape.merge, ObjectShape.merge, hl.policy_eq, hr.policy_eq]
  fields := Shape.mergeFields_same (Shape.Everywhere.object_iff.mp hleft).2
    (Shape.Everywhere.object_iff.mp hleft').2 (Shape.Everywhere.object_iff.mp hright).2
    (Shape.Everywhere.object_iff.mp hright').2 hl.fields hr.fields

end ObjectShape

end EntityContract
