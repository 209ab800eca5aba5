import EntityContract.Proofs.Arena.Building

/-!
Some nodes leave a value to other nodes: entities to their targets, unions to their variants, and
intersections to their sides. In a compiled arena this comes to an end, since the shapes that are
behind the nodes follow the unguarded references of a registry.
-/

namespace EntityContract

open Relation

/-- A value of the first shape is checked against the second one as a whole. -/
inductive Registry.Delegates (registry : Registry) : Shape → Shape → Prop
  | ref {key : String} {shape : Shape} :
      registry.shape? key = some shape → Delegates registry (.ref key) shape.present
  | variant {variants : List Shape} {variant : Shape} :
      variant ∈ variants → Delegates registry (.union variants) variant.present
  | left (left right : Shape) : Delegates registry (.intersection left right) left.present
  | right (left right : Shape) : Delegates registry (.intersection left right) right.present

/-- The first node leaves its values to the second one as a whole. -/
inductive Arena.Delegates (arena : Arena) (id : NodeId) : NodeId → Prop
  | entity {key : String} {target : NodeId} :
      arena.node id = .entity key target → Delegates arena id target
  | variant {variants : List Variant} {variant : Variant} :
      arena.node id = .union variants → variant ∈ variants → Delegates arena id variant.node
  | left {left right : NodeId} : arena.node id = .intersection left right → Delegates arena id left
  | right {left right : NodeId} :
      arena.node id = .intersection left right → Delegates arena id right

namespace Shape

theorem mem_unguardedVariants {key : String} {variants : List Shape} :
    key ∈ unguardedVariants variants ↔ ∃ variant ∈ variants, key ∈ variant.unguarded := by
  induction variants with
  | nil => simp [unguardedVariants]
  | cons variant variants ih => simp [unguardedVariants, ih]

/-- A shape delegates to smaller shapes until it comes to its unguarded references. -/
theorem acc_delegates_of_unguarded {registry : Registry} (shape : Shape)
    (hkeys : ∀ key ∈ shape.unguarded,
      Acc (fun other shape => registry.Delegates shape other) (.ref key)) :
    Acc (fun other shape => registry.Delegates shape other) shape.present := by
  induction shape with
  | ref key => exact hkeys key (List.mem_singleton.mpr rfl)
  | optional inner default? ih => exact ih hkeys
  | union variants ih =>
      refine Acc.intro _ fun other hother => ?_
      cases hother with
      | variant hvariant =>
          exact ih _ hvariant fun key hkey =>
            hkeys key (mem_unguardedVariants.mpr ⟨_, hvariant, hkey⟩)
  | intersection left right ihLeft ihRight =>
      refine Acc.intro _ fun other hother => ?_
      cases hother with
      | left => exact ihLeft fun key hkey => hkeys key (List.mem_append_left _ hkey)
      | right => exact ihRight fun key hkey => hkeys key (List.mem_append_right _ hkey)
  | _ => exact Acc.intro _ fun other hother => nomatch hother

end Shape

theorem Registry.Indexed.acc_delegates_ref {registry : Registry} (hregistry : registry.Indexed)
    (key : String) : Acc (fun other shape => registry.Delegates shape other) (.ref key) := by
  induction hregistry.acc_refers key with
  | intro key _ ih =>
      refine Acc.intro _ fun other hother => ?_
      cases hother with
      | ref hshape =>
          exact Shape.acc_delegates_of_unguarded _ fun next hnext =>
            ih next (Registry.refers_iff.mpr ⟨_, hshape, hnext⟩)

/-- Delegation between shapes ends. -/
theorem Registry.Indexed.acc_delegates {registry : Registry} (hregistry : registry.Indexed)
    (shape : Shape) : Acc (fun other shape => registry.Delegates shape other) shape.present :=
  shape.acc_delegates_of_unguarded fun key _ => hregistry.acc_delegates_ref key

namespace Arena

variable {registry : Registry} {arena : Arena} {labels : List Shape}

theorem node_eq_pending_of_size_le {id : NodeId} (h : arena.size ≤ id) :
    arena.node id = .pending := by
  rw [node, Array.getElem?_eq_none h, Option.getD_none]

theorem lt_size_of_delegates {id other : NodeId} (h : arena.Delegates id other) :
    id < arena.size := by
  by_contra hge
  have hpending := node_eq_pending_of_size_le (Nat.le_of_not_lt hge)
  cases h with
  | entity hnode => simp [hpending] at hnode
  | variant hnode => simp [hpending] at hnode
  | left hnode => simp [hpending] at hnode
  | right hnode => simp [hpending] at hnode

theorem Delegates.mem_children {id other : NodeId} (h : arena.Delegates id other) :
    other ∈ (arena.node id).children := by
  cases h with
  | entity hnode => simp [hnode, Node.children]
  | variant hnode hvariant =>
      rw [hnode]
      exact List.mem_map_of_mem hvariant
  | left hnode => simp [hnode, Node.children]
  | right hnode => simp [hnode, Node.children]

theorem Labelled.exists_label (h : arena.Labelled registry labels) {id : NodeId}
    (hid : id < arena.size) : ∃ shape, labels[id]? = some shape := by
  rw [← h.length_eq] at hid
  exact ⟨labels[id], List.getElem?_eq_getElem hid⟩

/-- Nodes delegate as their labels do. -/
theorem Labelled.delegates (h : arena.Labelled registry labels) {id other : NodeId}
    {shape : Shape} (hid : labels[id]? = some shape) (hother : arena.Delegates id other) :
    ∃ next, labels[other]? = some next ∧ registry.Delegates shape next := by
  have hfits := h.fits hid
  cases hother with
  | entity hnode =>
      rw [hnode] at hfits
      cases hfits with
      | entity hshape htarget => exact ⟨_, htarget, .ref hshape⟩
  | variant hnode hvariant =>
      rw [hnode] at hfits
      cases hfits with
      | union hvariants =>
          obtain ⟨shape, hshape, hlabel⟩ :=
            Pairing.exists_of_mem_left (labels_of_variants hvariants) hvariant
          exact ⟨_, hlabel, .variant hshape⟩
  | left hnode =>
      rw [hnode] at hfits
      cases hfits with
      | intersection hflatten hleft hright => exact ⟨_, hleft, .left _ _⟩
  | right hnode =>
      rw [hnode] at hfits
      cases hfits with
      | intersection hflatten hleft hright => exact ⟨_, hright, .right _ _⟩

theorem Labelled.acc_delegates (h : arena.Labelled registry labels) (hregistry : registry.Indexed)
    (id : NodeId) : Acc (fun other id => arena.Delegates id other) id := by
  have hacc : ∀ shape, Acc (fun other shape => registry.Delegates shape other) shape →
      ∀ id, labels[id]? = some shape → Acc (fun other id => arena.Delegates id other) id := by
    intro shape hshape
    induction hshape with
    | intro shape _ ih =>
        intro id hid
        refine Acc.intro _ fun other hother => ?_
        obtain ⟨next, hnext, hdelegates⟩ := h.delegates hid hother
        exact ih next hdelegates other hnext
  by_cases hid : id < arena.size
  · obtain ⟨shape, hshape⟩ := h.exists_label hid
    apply hacc shape _ id hshape
    rw [← (h.fits hshape).present_eq]
    exact hregistry.acc_delegates shape
  · exact Acc.intro _ fun other hother => absurd (lt_size_of_delegates hother) hid

/-- No chain of delegations is longer than there are nodes. -/
def Settled (arena : Arena) : Prop := ∀ id, Chain.Bounded arena.Delegates (arena.size + 1) id

theorem Labelled.settled (h : arena.Labelled registry labels) (hregistry : registry.Indexed) :
    arena.Settled := by
  intro id
  have hbounded := Chain.bounded_of_acyclic
    (fun id other hother => List.mem_range.mpr (lt_size_of_delegates hother))
    (fun id => Chain.not_transGen_self_of_acc (h.acc_delegates hregistry id)) id
  rw [List.length_range] at hbounded
  exact hbounded

end Arena

end EntityContract
