import EntityContract.Proofs.Arena.Declaration

/-!
Nodes of different arenas that were compiled from equal shapes have the same form, and refer to
nodes that were compiled from equal shapes again.
-/

namespace EntityContract

/-- Fields of one name and one meaning of absence, whose nodes are related. -/
structure FieldNode.Like (related : NodeId → NodeId → Prop) (field other : FieldNode) : Prop where
  name_eq : field.name = other.name
  node : related field.node other.node
  required_eq : field.required = other.required
  default : Shape.SameDefault field.default? other.default?

/-- Nodes of one form. -/
inductive Node.Like (related : NodeId → NodeId → Prop) : Node → Node → Prop
  | string (format : StringFormat) : Like related (.string format) (.string format)
  | integer : Like related .integer .integer
  | number : Like related .number .number
  | boolean : Like related .boolean .boolean
  | unknown : Like related .unknown .unknown
  | literal (value other : Json) : Like related (.literal value) (.literal other)
  | enum (options : List String) : Like related (.enum options) (.enum options)
  | array {item item' : NodeId} (hitem : related item item') :
      Like related (.array item) (.array item')
  | record {item item' : NodeId} (hitem : related item item') :
      Like related (.record item) (.record item')
  | object {fields fields' : List FieldNode} (policy : UnknownFields)
      (hnodup : (fields.map (·.name)).Nodup)
      (hfields : List.Forall₂ (FieldNode.Like related) fields fields') :
      Like related (.object fields policy) (.object fields' policy)
  | union {variants variants' : List Variant}
      (hvariants : List.Forall₂ (fun variant variant' => related variant.node variant'.node)
        variants variants') : Like related (.union variants) (.union variants')
  | intersection {left left' right right' : NodeId} (hleft : related left left')
      (hright : related right right') :
      Like related (.intersection left right) (.intersection left' right')
  | entity {key key' : String} {target target' : NodeId} (htarget : related target target') :
      Like related (.entity key target) (.entity key' target')

/-- The nodes were compiled from equal shapes. -/
def Arena.Resemble (labels labels' : List Shape) (id id' : NodeId) : Prop :=
  ∃ shape shape', labels[id]? = some shape ∧ labels'[id']? = some shape' ∧ shape.WellFormed ∧
    shape'.WellFormed ∧ shape.same shape' = true

section Fields

variable {related : NodeId → NodeId → Prop} {fields fields' : List FieldNode}

theorem names_eq_of_like (h : List.Forall₂ (FieldNode.Like related) fields fields') :
    fields.map (·.name) = fields'.map (·.name) := by
  induction h with
  | nil => rfl
  | cons hfield _ ih => rw [List.map_cons, List.map_cons, hfield.name_eq, ih]

theorem find?_like (h : List.Forall₂ (FieldNode.Like related) fields fields') (name : String) :
    Option.Rel (FieldNode.Like related) (FieldNode.find? fields name)
      (FieldNode.find? fields' name) :=
  find?_rel FieldNode.Like.name_eq h name

end Fields

namespace Arena

variable {registry : Registry} {labels labels' : List Shape}

/-- The parts of equal shapes are equal, and wrappers make no difference. -/
theorem Resemble.present {id id' : NodeId} {shape shape' : Shape}
    (hid : labels[id]? = some shape.present) (hid' : labels'[id']? = some shape'.present)
    (hshape : shape.WellFormed) (hshape' : shape'.WellFormed) (h : shape.same shape' = true) :
    Resemble labels labels' id id' :=
  ⟨shape.present, shape'.present, hid, hid', hshape.present, hshape'.present,
    (Shape.presence_same h).1⟩

theorem like_of_fits {nodes nodes' : List FieldNode} {fields fields' : Fields}
    (h : List.Forall₂ (FieldNode.Fits labels) nodes fields)
    (h' : List.Forall₂ (FieldNode.Fits labels') nodes' fields')
    (hfields : ∀ field ∈ fields, field.2.WellFormed)
    (hfields' : ∀ field ∈ fields', field.2.WellFormed)
    (hsame : List.Forall₂ Shape.SameField fields fields') :
    List.Forall₂ (FieldNode.Like (Resemble labels labels')) nodes nodes' := by
  refine Pairing.square h h' hsame fun node node' field hfield field' hfield' hfit hfit' heq => ?_
  refine ⟨?_, ?_, ?_, ?_⟩
  · rw [hfit.name_eq, hfit'.name_eq, heq.1]
  · exact .present hfit.label hfit'.label (hfields field hfield) (hfields' field' hfield') heq.2
  · rw [hfit.required_eq, hfit'.required_eq, Shape.isOptional_eq_of_same heq.2]
  · rw [hfit.default_eq, hfit'.default_eq]
    exact (Shape.presence_same heq.2).2

/-- Nodes that fit equal shapes have the same form. -/
theorem like_of_same (hregistry : registry.Indexed) {node node' : Node} {shape shape' : Shape}
    (h : node.Fits registry labels shape) (h' : node'.Fits registry labels' shape')
    (hshape : shape.WellFormed) (hshape' : shape'.WellFormed) (hsame : shape.same shape' = true) :
    node.Like (Resemble labels labels') node' := by
  have hflattenSame := Registry.flatten_same hregistry hshape hshape' hsame
  cases h with
  | string format =>
      rw [Shape.eq_of_same_string hsame] at h'
      cases h' with
      | string => exact .string format
      | object _ hflatten => exact nomatch hflatten
  | integer =>
      rw [Shape.eq_of_same_integer hsame] at h'
      cases h' with
      | integer => exact .integer
      | object _ hflatten => exact nomatch hflatten
  | number =>
      rw [Shape.eq_of_same_number hsame] at h'
      cases h' with
      | number => exact .number
      | object _ hflatten => exact nomatch hflatten
  | boolean =>
      rw [Shape.eq_of_same_boolean hsame] at h'
      cases h' with
      | boolean => exact .boolean
      | object _ hflatten => exact nomatch hflatten
  | unknown =>
      rw [Shape.eq_of_same_unknown hsame] at h'
      cases h' with
      | unknown => exact .unknown
      | object _ hflatten => exact nomatch hflatten
  | literal value =>
      obtain ⟨other, rfl, -⟩ := Shape.exists_of_same_literal hsame
      cases h' with
      | literal => exact .literal value other
      | object _ hflatten => exact nomatch hflatten
  | enum options =>
      rw [Shape.eq_of_same_enum hsame] at h'
      cases h' with
      | enum => exact .enum options
      | object _ hflatten => exact nomatch hflatten
  | array hitem =>
      obtain ⟨item', rfl, hitems⟩ := Shape.exists_of_same_array hsame
      cases h' with
      | array hitem' =>
          exact .array (.present hitem hitem' (Shape.Everywhere.array_iff.mp hshape).2
            (Shape.Everywhere.array_iff.mp hshape').2 hitems)
      | object _ hflatten => exact nomatch hflatten
  | record hitem =>
      obtain ⟨item', rfl, hitems⟩ := Shape.exists_of_same_record hsame
      cases h' with
      | record hitem' =>
          exact .record (.present hitem hitem' (Shape.Everywhere.record_iff.mp hshape).2
            (Shape.Everywhere.record_iff.mp hshape').2 hitems)
      | object _ hflatten => exact nomatch hflatten
  | object href hflatten hfields =>
      rw [hflatten] at hflattenSame
      cases hflatten' : registry.flatten shape' with
      | none =>
          rw [hflatten'] at hflattenSame
          cases hflattenSame
      | some object' =>
          rw [hflatten', Option.rel_some_some] at hflattenSame
          have hflattens := (Registry.flatten_eq_some_iff hregistry).mp hflatten
          have hflattens' := (Registry.flatten_eq_some_iff hregistry).mp hflatten'
          obtain ⟨hnodup, hwell⟩ :=
            Shape.Everywhere.object_iff.mp (hflattens.wellFormed hregistry hshape)
          obtain ⟨-, hwell'⟩ :=
            Shape.Everywhere.object_iff.mp (hflattens'.wellFormed hregistry hshape')
          cases h' with
          | object _ hflatten'' hfields' =>
              rw [hflatten', Option.some.injEq] at hflatten''
              subst hflatten''
              rw [← hflattenSame.policy_eq]
              refine .object _ ?_ (like_of_fits hfields hfields' hwell hwell' hflattenSame.fields)
              rw [names_eq_of_fits hfields]
              exact hnodup
          | intersection hnone => exact nomatch hnone.symm.trans hflatten'
          | entity =>
              have href' := Shape.eq_of_same_ref (Shape.same_symm hshape hshape' hsame)
              exact absurd href' (href _)
          | _ => exact nomatch hflatten'
  | union hvariants =>
      obtain ⟨shapes', rfl, hshapes⟩ := Shape.exists_of_same_union hsame
      cases h' with
      | union hvariants' =>
          refine .union (Pairing.square (labels_of_variants hvariants)
            (labels_of_variants hvariants') hshapes ?_)
          exact fun variant variant' inner hinner inner' hinner' hlabel hlabel' heq =>
            .present hlabel hlabel' ((Shape.Everywhere.union_iff.mp hshape).2 inner hinner)
              ((Shape.Everywhere.union_iff.mp hshape').2 inner' hinner') heq
      | object _ hflatten => exact nomatch hflatten
  | intersection hflatten hleft hright =>
      obtain ⟨left', right', rfl, hl, hr⟩ := Shape.exists_of_same_intersection hsame
      obtain ⟨-, hleftWell, hrightWell⟩ := Shape.Everywhere.intersection_iff.mp hshape
      obtain ⟨-, hleftWell', hrightWell'⟩ := Shape.Everywhere.intersection_iff.mp hshape'
      cases h' with
      | intersection _ hleft' hright' =>
          exact .intersection (.present hleft hleft' hleftWell hleftWell' hl)
            (.present hright hright' hrightWell hrightWell' hr)
      | object _ hflatten' =>
          rw [hflatten, hflatten'] at hflattenSame
          cases hflattenSame
  | entity hfound htarget =>
      rw [Shape.eq_of_same_ref hsame] at h'
      cases h' with
      | entity hfound' htarget' =>
          rw [hfound, Option.some.injEq] at hfound'
          subst hfound'
          have hwell := hregistry.wellFormed hfound
          exact .entity (.present htarget htarget' hwell hwell (Shape.same_refl hwell))
      | object href => exact absurd rfl (href _)

/-- Compiled nodes of equal shapes have the same form. -/
theorem Labelled.like {arena arena' : Arena} (h : arena.Labelled registry labels)
    (h' : arena'.Labelled registry labels') (hregistry : registry.Indexed) {id id' : NodeId}
    (hids : Resemble labels labels' id id') :
    (arena.node id).Like (Resemble labels labels') (arena'.node id') := by
  obtain ⟨shape, shape', hid, hid', hshape, hshape', hsame⟩ := hids
  exact like_of_same hregistry (h.fits hid) (h'.fits hid') hshape hshape' hsame

/-- Nodes of the same form declare the same names. -/
theorem declared_eq_of_like {arena arena' : Arena} {related : NodeId → NodeId → Prop}
    (harena : arena.Settled) (harena' : arena'.Settled)
    (hlike : ∀ {id id'}, related id id' → (arena.node id).Like related (arena'.node id'))
    {id id' : NodeId} (h : related id id') : arena.declared id = arena'.declared id' := by
  induction (harena id).acc generalizing id' with
  | intro id _ ih =>
      have hnodes := hlike h
      rw [declared_eq harena, declared_eq harena']
      generalize hnode : arena.node id = node at hnodes
      generalize arena'.node id' = node' at hnodes
      cases hnodes with
      | object _ _ hfields => exact names_eq_of_like hfields
      | intersection hleft hright =>
          dsimp only
          rw [ih _ (.left hnode) hleft, ih _ (.right hnode) hright]
      | entity htarget => exact ih _ (.entity hnode) htarget
      | _ => rfl

end Arena

end EntityContract
