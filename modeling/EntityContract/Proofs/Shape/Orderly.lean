import EntityContract.Proofs.Shape.Merging

/-!
Shapes as they are meant to be written: wrappers stand around fields only and never around one
another, names of fields are distinct, and unions, closed lists and keys are not empty. Merging two
such objects gives another one.
-/

namespace EntityContract.Shape

/-- A condition on a single shape: only its fields, if it is an object, may be optional. -/
def Tidy : Shape → Prop
  | .array inner | .record inner | .optional inner _ => inner.isOptional = false
  | .object fields _ => (fields.map (·.1)).Nodup
  | .union variants => variants ≠ [] ∧ ∀ variant ∈ variants, variant.isOptional = false
  | .intersection left right => left.isOptional = false ∧ right.isOptional = false
  | .enum options => options ≠ []
  | .ref key => key ≠ ""
  | _ => True

/-- The shape is not optional, and all shapes in it are tidy. -/
structure Orderly (shape : Shape) : Prop where
  isOptional_eq : shape.isOptional = false
  everywhere : shape.Everywhere Tidy

variable {shape ours theirs : Shape}

theorem orderly_present (h : shape.Everywhere Tidy) : shape.present.Orderly :=
  ⟨shape.isOptional_present, h.present⟩

theorem Orderly.optional (h : shape.Orderly) (default? : Option Json) :
    (Shape.optional shape default?).Everywhere Tidy :=
  Everywhere.optional_iff.mpr ⟨h.isOptional_eq, h.everywhere⟩

theorem Orderly.both (hours : ours.Orderly) (htheirs : theirs.Orderly) :
    (Shape.both ours theirs).Orderly := by
  rw [Shape.both]
  split
  · exact hours
  · exact ⟨rfl, Everywhere.intersection_iff.mpr
      ⟨⟨hours.isOptional_eq, htheirs.isOptional_eq⟩, hours.everywhere, htheirs.everywhere⟩⟩

/-- A merged field is wrapped once at most. -/
theorem tidy_mergeField (hours : ours.Everywhere Tidy) (htheirs : theirs.Everywhere Tidy) :
    (mergeField ours theirs).Everywhere Tidy := by
  have hboth := (orderly_present hours).both (orderly_present htheirs)
  rw [mergeField_eq]
  split
  · exact hboth.optional _
  · exact hboth.everywhere

theorem Orderly.merge {ours theirs : ObjectShape} (hours : ours.toShape.Orderly)
    (htheirs : theirs.toShape.Orderly) : (ours.merge theirs).toShape.Orderly := by
  obtain ⟨hnodup, hbase⟩ := Everywhere.object_iff.mp hours.everywhere
  obtain ⟨-, hoverlay⟩ := Everywhere.object_iff.mp htheirs.everywhere
  exact ⟨rfl, Everywhere.object_iff.mpr
    ⟨nodup_mergeFields hnodup, forall_mergeFields tidy_mergeField hbase hoverlay⟩⟩

end EntityContract.Shape
