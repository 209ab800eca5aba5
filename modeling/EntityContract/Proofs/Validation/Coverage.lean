import EntityContract.Proofs.Arena.Declaration
import EntityContract.Proofs.Shape.Merging

/-!
The names that a shape declares, read off the shape. A node declares the names of the shape that it
is labelled with, so the specificity of a variant is known without compiling it.
-/

namespace EntityContract

namespace Registry

/-- An object behind the shape has a field of that name: the object that a reference comes to, or
the one on either side of an intersection. -/
inductive Declares (registry : Registry) (name : String) : Shape → Prop
  | object {fields : Fields} {policy : UnknownFields} :
      name ∈ fields.map (·.1) → Declares registry name (.object fields policy)
  | optional {inner : Shape} {default? : Option Json} :
      Declares registry name inner → Declares registry name (.optional inner default?)
  | left {left right : Shape} :
      Declares registry name left → Declares registry name (.intersection left right)
  | right {left right : Shape} :
      Declares registry name right → Declares registry name (.intersection left right)
  | ref {key : String} {shape : Shape} :
      registry.shape? key = some shape → Declares registry name shape →
        Declares registry name (.ref key)

variable {registry : Registry} {name : String}

theorem declares_object_iff {fields : Fields} {policy : UnknownFields} :
    registry.Declares name (.object fields policy) ↔ name ∈ fields.map (·.1) :=
  ⟨fun h => by cases h with | object hname => exact hname, .object⟩

theorem declares_intersection_iff {left right : Shape} :
    registry.Declares name (.intersection left right) ↔
      registry.Declares name left ∨ registry.Declares name right := by
  constructor
  · intro h
    cases h with
    | left hleft => exact Or.inl hleft
    | right hright => exact Or.inr hright
  · exact fun h => h.elim .left .right

theorem declares_ref_iff {key : String} {shape : Shape}
    (hshape : registry.shape? key = some shape) :
    registry.Declares name (.ref key) ↔ registry.Declares name shape := by
  refine ⟨fun h => ?_, .ref hshape⟩
  cases h with
  | ref hfound hdeclares =>
      rw [hshape, Option.some.injEq] at hfound
      exact hfound ▸ hdeclares

theorem declares_present_iff {shape : Shape} :
    registry.Declares name shape.present ↔ registry.Declares name shape := by
  induction shape with
  | optional inner default? ih =>
      rw [Shape.present_optional, ih]
      exact ⟨.optional, fun h => by cases h with | optional hinner => exact hinner⟩
  | _ => rfl

/-- Merged objects declare what the shapes that they are made of declare. -/
theorem Flattens.mem_names_iff {shape : Shape} {object : ObjectShape}
    (h : registry.Flattens shape object) :
    name ∈ object.fields.map (·.1) ↔ registry.Declares name shape := by
  induction h with
  | object fields policy => exact declares_object_iff.symm
  | ref hshape _ ih => exact ih.trans (declares_ref_iff hshape).symm
  | intersection _ _ ihLeft ihRight =>
      rw [declares_intersection_iff, ← ihLeft, ← ihRight]
      exact Shape.mem_keys_mergeFields_iff

open Classical in
/-- How many members of a value the shape declares; none of a value that is no object. -/
noncomputable def coverage (registry : Registry) (shape : Shape) : Json → Nat
  | .obj members => members.countP fun member => registry.Declares member.1 shape
  | _ => 0

end Registry

variable {registry : Registry} {arena : Arena} {labels : List Shape}

/-- A node declares the names that its label does. -/
theorem Arena.Labelled.mem_declared_iff (harena : arena.Labelled registry labels)
    (hregistry : registry.Indexed) {id : NodeId} {shape : Shape} (hid : labels[id]? = some shape)
    (name : String) : name ∈ arena.declared id ↔ registry.Declares name shape := by
  have hsettled := harena.settled hregistry
  induction (hsettled id).acc generalizing shape with
  | intro id _ ih =>
      have hfits := harena.fits hid
      rw [Arena.declared_eq hsettled]
      generalize hnode : arena.node id = node at hfits
      cases hfits with
      | object _ hflatten hfields =>
          dsimp only
          rw [names_eq_of_fits hfields]
          exact ((Registry.flatten_eq_some_iff hregistry).mp hflatten).mem_names_iff
      | intersection _ hleft hright =>
          have hleftIff := (ih _ (.left hnode) hleft).trans Registry.declares_present_iff
          have hrightIff := (ih _ (.right hnode) hright).trans Registry.declares_present_iff
          exact List.mem_append.trans
            ((or_congr hleftIff hrightIff).trans Registry.declares_intersection_iff.symm)
      | entity hfound htarget =>
          rw [Registry.declares_ref_iff hfound, ← Registry.declares_present_iff]
          exact ih _ (.entity hnode) htarget
      | _ => exact iff_of_false List.not_mem_nil fun h => nomatch h

/-- A node is as specific as its label covers the value. -/
theorem Walk.specificity_eq_coverage_label (harena : arena.Labelled registry labels)
    (hregistry : registry.Indexed) {id : NodeId} {shape : Shape}
    (hid : labels[id]? = some shape.present) (value : Json) :
    specificity arena id value = registry.coverage shape value := by
  classical
  cases value with
  | obj members =>
      refine List.countP_congr fun member _ => ?_
      rw [List.contains_iff_mem, decide_eq_true_eq, harena.mem_declared_iff hregistry hid,
        Registry.declares_present_iff]
  | _ => rfl

end EntityContract
