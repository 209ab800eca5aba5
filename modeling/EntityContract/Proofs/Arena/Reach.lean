import EntityContract.Proofs.Arena.Building
import EntityContract.Proofs.Registry.Flattening

/-!
The nodes that a walk can come to from a node, and what compilation promises of them.
-/

namespace EntityContract

/-- A condition on a single node, as opposed to the nodes it refers to. -/
def Node.WellFormed : Node → Prop
  | .pending => False
  | .object fields _ => (fields.map (·.name)).Nodup
  | .union variants => variants ≠ []
  | .enum options => options ≠ []
  | .literal value => value.Proper
  | _ => True

theorem Node.Fits.wellFormed {registry : Registry} {labels : List Shape} {node : Node}
    {shape : Shape} (h : node.Fits registry labels shape) (hregistry : registry.Indexed)
    (hshape : shape.WellFormed) : node.WellFormed := by
  cases h with
  | object _ hflatten hfields =>
      have hflattens := (Registry.flatten_eq_some_iff hregistry).mp hflatten
      rw [WellFormed, names_eq_of_fits hfields]
      exact hflattens.nodup hregistry hshape
  | union hvariants => exact ne_nil_of_variants hvariants (Shape.Everywhere.union_iff.mp hshape).1
  | literal value => exact hshape.self
  | enum options => exact hshape.self
  | _ => trivial

namespace Arena

open Relation

/-- The first node refers to the second one, directly or through others. -/
def Reaches (arena : Arena) : NodeId → NodeId → Prop :=
  ReflTransGen fun id child => child ∈ (arena.node id).children

variable {registry : Registry} {arena : Arena} {labels : List Shape} {root id child : NodeId}

theorem Reaches.refl (arena : Arena) (id : NodeId) : arena.Reaches id id := ReflTransGen.refl

theorem Reaches.tail (h : arena.Reaches root id) (hchild : child ∈ (arena.node id).children) :
    arena.Reaches root child := ReflTransGen.tail h hchild

/-- What is said of a shape, of its parts and of all that they refer to, is said of the labels of
the nodes that a node refers to. -/
theorem Labelled.everywhere_child (harena : arena.Labelled registry labels)
    (hregistry : registry.Indexed) {p : Shape → Prop} (hp : Shape.Mergeable p)
    (hrefers : ∀ key shape, p (.ref key) → registry.shape? key = some shape → shape.Everywhere p)
    {shape : Shape} (hid : labels[id]? = some shape) (hshape : shape.Everywhere p)
    (hchild : child ∈ (arena.node id).children) :
    ∃ other, labels[child]? = some other ∧ other.Everywhere p := by
  have hfits := harena.fits hid
  generalize arena.node id = node at hfits hchild
  cases hfits with
  | array hitem =>
      rw [List.mem_singleton.mp hchild]
      exact ⟨_, hitem, (Shape.Everywhere.array_iff.mp hshape).2.present⟩
  | record hitem =>
      rw [List.mem_singleton.mp hchild]
      exact ⟨_, hitem, (Shape.Everywhere.record_iff.mp hshape).2.present⟩
  | object _ hflatten hfields =>
      have hflattens := (Registry.flatten_eq_some_iff hregistry).mp hflatten
      obtain ⟨field, hfield, rfl⟩ := List.mem_map.mp hchild
      obtain ⟨declared, hdeclared, hfits⟩ := Pairing.exists_of_mem_left hfields hfield
      exact ⟨_, hfits.label, (hflattens.everywhere hp hrefers hshape declared hdeclared).present⟩
  | union hvariants =>
      obtain ⟨variant, hvariant, rfl⟩ := List.mem_map.mp hchild
      obtain ⟨other, hother, hlabel⟩ :=
        Pairing.exists_of_mem_left (labels_of_variants hvariants) hvariant
      exact ⟨_, hlabel, ((Shape.Everywhere.union_iff.mp hshape).2 other hother).present⟩
  | intersection _ hleft hright =>
      obtain ⟨-, hleftShape, hrightShape⟩ := Shape.Everywhere.intersection_iff.mp hshape
      rcases List.mem_cons.mp hchild with rfl | hchild
      · exact ⟨_, hleft, hleftShape.present⟩
      · rw [List.mem_singleton.mp hchild]
        exact ⟨_, hright, hrightShape.present⟩
  | entity hfound htarget =>
      rw [List.mem_singleton.mp hchild]
      exact ⟨_, htarget, (hrefers _ _ hshape.self hfound).present⟩
  | _ => exact nomatch hchild

theorem Reaches.everywhere (h : arena.Reaches root id) (harena : arena.Labelled registry labels)
    (hregistry : registry.Indexed) {p : Shape → Prop} (hp : Shape.Mergeable p)
    (hrefers : ∀ key shape, p (.ref key) → registry.shape? key = some shape → shape.Everywhere p)
    {source : Shape} (hroot : labels[root]? = some source) (hsource : source.Everywhere p) :
    ∃ shape, labels[id]? = some shape ∧ shape.Everywhere p := by
  induction h with
  | refl => exact ⟨source, hroot, hsource⟩
  | tail _ hchild ih =>
      obtain ⟨shape, hid, hshape⟩ := ih
      exact harena.everywhere_child hregistry hp hrefers hid hshape hchild

/-- The nodes that are reached are well-formed. -/
theorem Reaches.node_wellFormed (h : arena.Reaches root id)
    (harena : arena.Labelled registry labels) (hregistry : registry.Indexed) {source : Shape}
    (hroot : labels[root]? = some source) (hsource : source.WellFormed) :
    (arena.node id).WellFormed := by
  obtain ⟨shape, hid, hshape⟩ := h.everywhere harena hregistry Shape.mergeable_local
    (fun _ _ _ => hregistry.wellFormed) hroot hsource
  exact (harena.fits hid).wellFormed hregistry hshape

/-- The objects that are reached declare every name once. -/
theorem Reaches.nodup (h : arena.Reaches root id) (harena : arena.Labelled registry labels)
    (hregistry : registry.Indexed) {source : Shape} (hroot : labels[root]? = some source)
    (hsource : source.WellFormed) {fields : List FieldNode} {policy : UnknownFields}
    (hnode : arena.node id = .object fields policy) : (fields.map (·.name)).Nodup := by
  have hwell := h.node_wellFormed harena hregistry hroot hsource
  rwa [hnode] at hwell

/-- Neither a union nor an intersection is reached, so at each place of a document one node looks
at the value. -/
structure Straight (arena : Arena) (root : NodeId) : Prop where
  not_union : ∀ {id : NodeId} {variants : List Variant}, arena.Reaches root id →
    arena.node id ≠ .union variants
  not_intersection : ∀ {id left right : NodeId}, arena.Reaches root id →
    arena.node id ≠ .intersection left right

/-- What is said of all nodes, and of a place without one, is said of every place. -/
theorem forall_node {p : Node → Prop} (h : ∀ node ∈ arena.nodes.toList, p node)
    (hpending : p .pending) (id : NodeId) : p (arena.node id) := by
  rw [node]
  cases hget : arena.nodes[id]? with
  | none => exact hpending
  | some node => exact h node (Array.mem_toList_iff.mpr (Array.mem_of_getElem? hget))

theorem straight_of_nodes (h : ∀ node ∈ arena.nodes.toList,
    (∀ variants, node ≠ .union variants) ∧ ∀ left right, node ≠ .intersection left right) :
    arena.Straight root := by
  have hnode := forall_node h ⟨fun _ => nofun, fun _ _ => nofun⟩
  exact ⟨fun _ => (hnode _).1 _, fun _ => (hnode _).2 _ _⟩

end Arena

end EntityContract
