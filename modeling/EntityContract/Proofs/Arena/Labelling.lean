import EntityContract.Proofs.Pairing
import EntityContract.Proofs.Registry.Flattening
import EntityContract.Validator

/-!
What compilation leaves behind: every node is labelled with the shape that it checks, and the
nodes that it refers to are labelled with the parts of that shape. While an entity is being
compiled its place is pending, but labelled already, so that references to it can be labelled too.
-/

namespace EntityContract

/-- The node of a field checks the field, and knows what its absence means. -/
structure FieldNode.Fits (labels : List Shape) (node : FieldNode) (field : String × Shape) :
    Prop where
  name_eq : node.name = field.1
  label : labels[node.node]? = some field.2.present
  required_eq : node.required = !field.2.isOptional
  default_eq : node.default? = field.2.default?

/-- The node of a variant checks the shape of that number, and is called after it. -/
structure Variant.Fits (labels : List Shape) (variant : Variant) (shape : Shape × Nat) :
    Prop where
  name_eq : variant.label = Build.variantLabel shape.2 shape.1
  label : labels[variant.node]? = some shape.1.present

/-- The node has the form of the shape, and the nodes that it refers to are labelled with the
parts of the shape. -/
inductive Node.Fits (registry : Registry) (labels : List Shape) : Node → Shape → Prop
  | string (format : StringFormat) : Fits registry labels (.string format) (.string format)
  | integer : Fits registry labels .integer .integer
  | number : Fits registry labels .number .number
  | boolean : Fits registry labels .boolean .boolean
  | unknown : Fits registry labels .unknown .unknown
  | literal (value : Json) : Fits registry labels (.literal value) (.literal value)
  | enum (options : List String) : Fits registry labels (.enum options) (.enum options)
  | array {node : NodeId} {item : Shape} (hitem : labels[node]? = some item.present) :
      Fits registry labels (.array node) (.array item)
  | record {node : NodeId} {value : Shape} (hvalue : labels[node]? = some value.present) :
      Fits registry labels (.record node) (.record value)
  | object {nodes : List FieldNode} {shape : Shape} {object : ObjectShape}
      (hshape : ∀ key, shape ≠ .ref key) (hflatten : registry.flatten shape = some object)
      (hfields : List.Forall₂ (FieldNode.Fits labels) nodes object.fields) :
      Fits registry labels (.object nodes object.policy) shape
  | union {variants : List Variant} {shapes : List Shape}
      (hvariants : List.Forall₂ (Variant.Fits labels) variants (shapes.zipIdx 1)) :
      Fits registry labels (.union variants) (.union shapes)
  | intersection {leftNode rightNode : NodeId} {left right : Shape}
      (hflatten : registry.flatten (.intersection left right) = none)
      (hleft : labels[leftNode]? = some left.present)
      (hright : labels[rightNode]? = some right.present) :
      Fits registry labels (.intersection leftNode rightNode) (.intersection left right)
  | entity {key : String} {target : NodeId} {shape : Shape}
      (hshape : registry.shape? key = some shape) (htarget : labels[target]? = some shape.present) :
      Fits registry labels (.entity key target) (.ref key)

/-- Labels are never optional. -/
theorem Node.Fits.present_eq {registry : Registry} {labels : List Shape} {node : Node}
    {shape : Shape} (h : node.Fits registry labels shape) : shape.present = shape := by
  cases h with
  | object hshape hflatten hfields =>
      cases shape with
      | optional inner default? => exact nomatch hflatten
      | _ => rfl
  | _ => rfl

theorem names_eq_of_fits {labels : List Shape} {nodes : List FieldNode} {fields : Fields}
    (h : List.Forall₂ (FieldNode.Fits labels) nodes fields) :
    nodes.map (·.name) = fields.map (·.1) := by
  induction h with
  | nil => rfl
  | cons hfield _ ih => rw [List.map_cons, List.map_cons, hfield.name_eq, ih]

/-- Related fields of the same names are found by the same names. -/
theorem find?_rel {r : FieldNode → FieldNode → Prop} (hname : ∀ {x y}, r x y → x.name = y.name)
    {fields fields' : List FieldNode} (h : List.Forall₂ r fields fields') (name : String) :
    Option.Rel r (FieldNode.find? fields name) (FieldNode.find? fields' name) := by
  induction h with
  | nil => exact .none
  | @cons field field' fields fields' hfield _ ih =>
      rw [FieldNode.find?, FieldNode.find?, List.find?_cons, List.find?_cons, ← hname hfield]
      cases field.name == name with
      | true => exact .some hfield
      | false => exact ih

/-- The node found for a name fits the field found for it. -/
theorem find?_fits {labels : List Shape} {nodes : List FieldNode} {fields : Fields}
    (h : List.Forall₂ (FieldNode.Fits labels) nodes fields) (name : String) :
    Option.Rel (fun node shape => FieldNode.Fits labels node (name, shape))
      (FieldNode.find? nodes name) (fields.lookup name) := by
  induction h with
  | nil => exact .none
  | @cons node field nodes fields hfield _ ih =>
      obtain ⟨other, shape⟩ := field
      rw [FieldNode.find?, List.find?_cons, List.lookup_cons]
      by_cases hname : name = other
      · subst hname
        rw [hfield.name_eq, beq_self_eq_true]
        exact .some hfield
      · rw [hfield.name_eq, beq_false_of_ne hname, beq_false_of_ne (Ne.symm hname)]
        exact ih

/-- The nodes of variants are labelled with the shapes, whatever their numbers. -/
theorem labels_of_variants {labels : List Shape} {variants : List Variant} {shapes : List Shape}
    {number : Nat} (h : List.Forall₂ (Variant.Fits labels) variants (shapes.zipIdx number)) :
    List.Forall₂ (fun variant shape => labels[variant.node]? = some shape.present)
      variants shapes := by
  rw [← List.zipIdx_map_fst number shapes, List.forall₂_map_right_iff]
  exact h.imp fun _ _ hfit => hfit.label

theorem ne_nil_of_variants {labels : List Shape} {variants : List Variant} {shapes : List Shape}
    {number : Nat} (h : List.Forall₂ (Variant.Fits labels) variants (shapes.zipIdx number))
    (hshapes : shapes ≠ []) : variants ≠ [] := by
  rintro rfl
  rw [List.forall₂_nil_left_iff, List.zipIdx_eq_nil_iff] at h
  exact hshapes h

theorem getElem?_of_isPrefix {labels labels' : List Shape} (h : labels <+: labels') {id : NodeId}
    {shape : Shape} (hid : labels[id]? = some shape) : labels'[id]? = some shape := by
  obtain ⟨more, rfl⟩ := h
  obtain ⟨hlt, -⟩ := List.getElem?_eq_some_iff.mp hid
  rw [List.getElem?_append_left hlt]
  exact hid

section Mono

variable {registry : Registry} {labels labels' : List Shape} (hlabels : labels <+: labels')

include hlabels

theorem FieldNode.Fits.mono {node : FieldNode} {field : String × Shape}
    (h : node.Fits labels field) : node.Fits labels' field :=
  { h with label := getElem?_of_isPrefix hlabels h.label }

theorem Variant.Fits.mono {variant : Variant} {shape : Shape × Nat}
    (h : variant.Fits labels shape) : variant.Fits labels' shape :=
  { h with label := getElem?_of_isPrefix hlabels h.label }

theorem Node.Fits.mono {node : Node} {shape : Shape} (h : node.Fits registry labels shape) :
    node.Fits registry labels' shape := by
  cases h with
  | string format => exact .string format
  | integer => exact .integer
  | number => exact .number
  | boolean => exact .boolean
  | unknown => exact .unknown
  | literal value => exact .literal value
  | enum options => exact .enum options
  | array hitem => exact .array (getElem?_of_isPrefix hlabels hitem)
  | record hvalue => exact .record (getElem?_of_isPrefix hlabels hvalue)
  | object hshape hflatten hfields =>
      exact .object hshape hflatten (hfields.imp fun _ _ => FieldNode.Fits.mono hlabels)
  | union hvariants => exact .union (hvariants.imp fun _ _ => Variant.Fits.mono hlabels)
  | intersection hflatten hleft hright =>
      exact .intersection hflatten (getElem?_of_isPrefix hlabels hleft)
        (getElem?_of_isPrefix hlabels hright)
  | entity hshape htarget => exact .entity hshape (getElem?_of_isPrefix hlabels htarget)

end Mono

/-- The nodes that a node refers to. -/
def Node.children : Node → List NodeId
  | .array item | .record item => [item]
  | .object fields _ => fields.map (·.node)
  | .union variants => variants.map (·.node)
  | .intersection left right => [left, right]
  | .entity _ target => [target]
  | _ => []

/-- A node refers to labelled nodes only. -/
theorem Node.Fits.lt_length {registry : Registry} {labels : List Shape} {node : Node}
    {shape : Shape} (h : node.Fits registry labels shape) {child : NodeId}
    (hchild : child ∈ node.children) : child < labels.length := by
  have hlabel : ∃ shape, labels[child]? = some shape := by
    cases h with
    | array hitem => exact ⟨_, List.mem_singleton.mp hchild ▸ hitem⟩
    | record hvalue => exact ⟨_, List.mem_singleton.mp hchild ▸ hvalue⟩
    | object hshape hflatten hfields =>
        obtain ⟨field, hfield, rfl⟩ := List.mem_map.mp hchild
        obtain ⟨declared, -, hfits⟩ := Pairing.exists_of_mem_left hfields hfield
        exact ⟨_, hfits.label⟩
    | union hvariants =>
        obtain ⟨variant, hvariant, rfl⟩ := List.mem_map.mp hchild
        obtain ⟨shape, -, hfits⟩ := Pairing.exists_of_mem_left hvariants hvariant
        exact ⟨_, hfits.label⟩
    | intersection hflatten hleft hright =>
        rcases List.mem_cons.mp hchild with rfl | hchild
        · exact ⟨_, hleft⟩
        · exact ⟨_, List.mem_singleton.mp hchild ▸ hright⟩
    | entity hshape htarget => exact ⟨_, List.mem_singleton.mp hchild ▸ htarget⟩
    | _ => exact nomatch hchild
  obtain ⟨shape, hshape⟩ := hlabel
  exact (List.getElem?_eq_some_iff.mp hshape).1

namespace Builder

/-- Every node of the builder has a label that it fits, unless it is pending; and the places of
entities are the nodes labelled with references. Nodes refer to earlier ones, except that the
target of an entity comes after it. -/
structure Labelled (registry : Registry) (builder : Builder) (labels : List Shape) : Prop where
  length_eq : labels.length = builder.nodes.size
  fits : ∀ {id : NodeId} {node : Node}, builder.nodes[id]? = some node → node ≠ .pending →
    ∃ shape, labels[id]? = some shape ∧ node.Fits registry labels shape
  entities : ∀ {key : String} {slot : NodeId}, builder.entities.lookup key = some slot ↔
    labels[slot]? = some (.ref key)
  child_lt : ∀ {id : NodeId} {node : Node}, builder.nodes[id]? = some node →
    (∀ key target, node ≠ .entity key target) → ∀ child ∈ node.children, child < id

/-- The builder became the other one by adding nodes, none of which is pending. -/
structure Grown (registry : Registry) (before : Builder) (labels : List Shape)
    (after : Builder) (labels' : List Shape) : Prop where
  labelled : after.Labelled registry labels'
  labels : labels <+: labels'
  kept : ∀ {id : NodeId} {node : Node}, before.nodes[id]? = some node → after.nodes[id]? = some node
  filled : ∀ {id : NodeId}, before.nodes.size ≤ id → after.nodes[id]? ≠ some .pending

variable {registry : Registry} {before middle after : Builder}
  {labels labels' labels'' : List Shape}

theorem Labelled.refl (h : before.Labelled registry labels) :
    before.Grown registry labels before labels where
  labelled := h
  labels := List.prefix_rfl
  kept := fun h => h
  filled := fun {id} hid => by simp [Array.getElem?_eq_none hid]

theorem Grown.trans (h : before.Grown registry labels middle labels')
    (h' : middle.Grown registry labels' after labels'') :
    before.Grown registry labels after labels'' where
  labelled := h'.labelled
  labels := h.labels.trans h'.labels
  kept := fun hid => h'.kept (h.kept hid)
  filled := by
    intro id hid hpending
    by_cases hlt : id < middle.nodes.size
    · have hmiddle := Array.getElem?_eq_getElem hlt
      rw [h'.kept hmiddle, Option.some.injEq] at hpending
      exact h.filled hid (hmiddle.trans (by rw [hpending]))
    · exact h'.filled (Nat.le_of_not_lt hlt) hpending

/-- Adding a node that fits its label; only `reserve` adds nodes for references. -/
theorem Labelled.push (h : before.Labelled registry labels) {node : Node} {shape : Shape}
    (hnode : node ≠ .pending) (hfits : node.Fits registry labels shape)
    (hshape : ∀ key, shape ≠ .ref key) :
    before.Grown registry labels { before with nodes := before.nodes.push node }
      (labels ++ [shape]) ∧ (labels ++ [shape])[before.nodes.size]? = some shape := by
  have hprefix : labels <+: labels ++ [shape] := List.prefix_append _ _
  have hlast : (labels ++ [shape])[before.nodes.size]? = some shape := by
    rw [← h.length_eq]
    exact List.getElem?_concat_length
  refine ⟨⟨⟨?_, ?_, ?_, ?_⟩, hprefix, ?_, ?_⟩, hlast⟩
  · simp [h.length_eq]
  · intro id other hid hother
    rw [Array.getElem?_push] at hid
    split at hid
    · rename_i heq
      rw [Option.some.injEq] at hid
      exact ⟨shape, heq ▸ hlast, hid ▸ hfits.mono hprefix⟩
    · obtain ⟨label, hlabel, hother⟩ := h.fits hid hother
      exact ⟨label, getElem?_of_isPrefix hprefix hlabel, hother.mono hprefix⟩
  · intro key slot
    rw [h.entities, List.getElem?_append]
    split
    · rfl
    · rename_i hge
      rw [List.getElem?_eq_none (Nat.le_of_not_lt hge)]
      cases hsub : slot - labels.length with
      | zero => simpa using hshape key
      | succ n => simp
  · intro id other hid hother child hchild
    rw [Array.getElem?_push] at hid
    split at hid
    · rename_i heq
      rw [Option.some.injEq] at hid
      subst hid
      rw [heq, ← h.length_eq]
      exact hfits.lt_length hchild
    · exact h.child_lt hid hother child hchild
  · intro id other hid
    obtain ⟨hlt, -⟩ := Array.getElem?_eq_some_iff.mp hid
    rw [Array.getElem?_push_lt hlt, ← Array.getElem?_eq_getElem hlt]
    exact hid
  · intro id hid hpending
    rw [Array.getElem?_push] at hpending
    split at hpending
    · exact hnode (Option.some.inj hpending)
    · rw [Array.getElem?_eq_none hid] at hpending
      exact nomatch hpending

end Builder

end EntityContract
