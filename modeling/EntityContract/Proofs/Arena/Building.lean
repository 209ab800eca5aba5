import EntityContract.Proofs.Arena.Labelling

/-!
Compilation keeps labels: compiling a shape gives a node labelled with it, whatever was compiled
before. So a finished arena is labelled throughout.
-/

namespace EntityContract

namespace Build

variable {registry : Registry} {before after : Builder} {labels : List Shape}

theorem bind_eq_ok_iff {α β : Type} {x : Build α} {f : α → Build β} {result : β} :
    (x >>= f) before = .ok (result, after) ↔
      ∃ value middle, x before = .ok (value, middle) ∧ f value middle = .ok (result, after) := by
  have hbind : (x >>= f) before = (x before >>= fun value => f value.1 value.2) := rfl
  rw [hbind, EntityContract.bind_eq_ok_iff]
  exact ⟨fun ⟨value, hx, hf⟩ => ⟨value.1, value.2, hx, hf⟩,
    fun ⟨value, middle, hx, hf⟩ => ⟨(value, middle), hx, hf⟩⟩

theorem pure_eq_ok_iff {α : Type} {value result : α} :
    (pure value : Build α) before = .ok (result, after) ↔ value = result ∧ before = after := by
  have hpure : (pure value : Build α) before = .ok (value, before) := rfl
  rw [hpure, Except.ok.injEq, Prod.mk.injEq]

theorem push_eq_ok_iff {node : Node} {id : NodeId} :
    push node before = .ok (id, after) ↔
      before.nodes.size = id ∧ { before with nodes := before.nodes.push node } = after := by
  rw [push, Except.ok.injEq, Prod.mk.injEq]

/-- Compiling a shape adds nodes, and gives one that is labelled with the shape. -/
def Labels (registry : Registry) (compile : Shape → Build NodeId) : Prop :=
  ∀ {source : Shape} {before after : Builder} {labels : List Shape} {id : NodeId},
    before.Labelled registry labels → compile source before = .ok (id, after) →
      ∃ labels', before.Grown registry labels after labels' ∧ labels'[id]? = some source.present

variable {compile : Shape → Build NodeId}

theorem labels_fields (hcompile : Labels registry compile) {fields : Fields}
    {nodes : List FieldNode} (hbefore : before.Labelled registry labels)
    (h : fields.mapM (field compile) before = .ok (nodes, after)) :
    ∃ labels', before.Grown registry labels after labels' ∧
      List.Forall₂ (FieldNode.Fits labels') nodes fields := by
  induction fields generalizing before labels nodes with
  | nil =>
      rw [List.mapM_nil, pure_eq_ok_iff] at h
      obtain ⟨rfl, rfl⟩ := h
      exact ⟨labels, hbefore.refl, .nil⟩
  | cons field fields ih =>
      rw [List.mapM_cons, bind_eq_ok_iff] at h
      obtain ⟨node, middle, hnode, h⟩ := h
      obtain ⟨nodes, last, hnodes, h⟩ := bind_eq_ok_iff.mp h
      rw [pure_eq_ok_iff] at h
      obtain ⟨rfl, rfl⟩ := h
      rw [Build.field, bind_eq_ok_iff] at hnode
      obtain ⟨id, middle', hid, hnode⟩ := hnode
      rw [pure_eq_ok_iff] at hnode
      obtain ⟨rfl, rfl⟩ := hnode
      obtain ⟨labels', hgrown, hlabel⟩ := hcompile hbefore hid
      obtain ⟨labels'', hgrown', hfits⟩ := ih hgrown.labelled hnodes
      refine ⟨labels'', hgrown.trans hgrown', .cons ⟨rfl, ?_, rfl, rfl⟩ hfits⟩
      rw [← Shape.present_present]
      exact getElem?_of_isPrefix hgrown'.labels hlabel

theorem labels_variants (hcompile : Labels registry compile) {shapes : List Shape} {number : Nat}
    {variants : List Variant} (hbefore : before.Labelled registry labels)
    (h : Build.variants compile number shapes before = .ok (variants, after)) :
    ∃ labels', before.Grown registry labels after labels' ∧
      List.Forall₂ (Variant.Fits labels') variants (shapes.zipIdx number) := by
  induction shapes generalizing before labels number variants with
  | nil =>
      rw [Build.variants, pure_eq_ok_iff] at h
      obtain ⟨rfl, rfl⟩ := h
      exact ⟨labels, hbefore.refl, .nil⟩
  | cons shape shapes ih =>
      rw [Build.variants, bind_eq_ok_iff] at h
      obtain ⟨id, middle, hid, h⟩ := h
      obtain ⟨rest, last, hrest, h⟩ := bind_eq_ok_iff.mp h
      rw [pure_eq_ok_iff] at h
      obtain ⟨rfl, rfl⟩ := h
      obtain ⟨labels', hgrown, hlabel⟩ := hcompile hbefore hid
      obtain ⟨labels'', hgrown', hfits⟩ := ih hgrown.labelled hrest
      rw [List.zipIdx_cons]
      exact ⟨labels'', hgrown.trans hgrown',
        .cons ⟨rfl, getElem?_of_isPrefix hgrown'.labels hlabel⟩ hfits⟩

/-- An object node for a shape that comes down to the object. -/
theorem labels_object (source : Shape) (hcompile : Labels registry compile)
    {merged : ObjectShape} {id : NodeId} (hsource : ∀ key, source ≠ .ref key)
    (hflatten : registry.flatten source = some merged)
    (hbefore : before.Labelled registry labels)
    (h : Build.object compile merged before = .ok (id, after)) :
    ∃ labels', before.Grown registry labels after labels' ∧ labels'[id]? = some source := by
  rw [Build.object, bind_eq_ok_iff] at h
  obtain ⟨nodes, middle, hnodes, h⟩ := h
  rw [push_eq_ok_iff] at h
  obtain ⟨rfl, rfl⟩ := h
  obtain ⟨labels', hgrown, hfits⟩ := labels_fields hcompile hbefore hnodes
  have hnode : Node.object nodes merged.policy ≠ .pending := by simp
  obtain ⟨hgrown', hlabel⟩ :=
    hgrown.labelled.push hnode (.object hsource hflatten hfits) hsource
  exact ⟨_, hgrown.trans hgrown', hlabel⟩

/-- The builder in which an entity got the next place, still pending. -/
def reserved (key : String) (builder : Builder) : Builder :=
  ⟨builder.nodes.push .pending, (key, builder.nodes.size) :: builder.entities⟩

@[simp] theorem nodes_reserved (key : String) (builder : Builder) :
    (reserved key builder).nodes = builder.nodes.push .pending := rfl

@[simp] theorem entities_reserved (key : String) (builder : Builder) :
    (reserved key builder).entities = (key, builder.nodes.size) :: builder.entities := rfl

theorem labelled_reserve {key : String} (hbefore : before.Labelled registry labels)
    (hnew : before.entities.lookup key = none) :
    Builder.Labelled registry (reserved key before) (labels ++ [.ref key]) := by
  have hprefix : labels <+: labels ++ [.ref key] := List.prefix_append _ _
  refine ⟨by simp [hbefore.length_eq], ?_, ?_, ?_⟩
  · intro id node hid hnode
    rw [nodes_reserved, Array.getElem?_push] at hid
    split at hid
    · exact absurd (Option.some.inj hid).symm hnode
    · obtain ⟨shape, hshape, hfits⟩ := hbefore.fits hid hnode
      exact ⟨shape, getElem?_of_isPrefix hprefix hshape, hfits.mono hprefix⟩
  · intro other (slot : Nat)
    have hother : ∀ slot : NodeId, labels[slot]? ≠ some (Shape.ref key) := by
      intro slot hslot
      rw [← hbefore.entities, hnew] at hslot
      exact nomatch hslot
    rw [List.getElem?_append, entities_reserved, List.lookup_cons, ← hbefore.length_eq]
    by_cases heq : other = key
    · subst heq
      rw [beq_self_eq_true]
      dsimp only
      split
      · rename_i hlt
        constructor
        · intro h
          have hslot : labels.length = slot := Option.some.inj h
          omega
        · exact fun h => absurd h (hother slot)
      · rename_i hge
        rw [Option.some.injEq]
        cases hsub : slot - labels.length with
        | zero =>
            simp only [List.getElem?_cons_zero, iff_true]
            change labels.length = slot
            omega
        | succ n =>
            simp only [List.getElem?_cons_succ, List.getElem?_nil, reduceCtorEq, iff_false]
            change ¬labels.length = slot
            omega
    · rw [beq_false_of_ne heq]
      dsimp only
      rw [hbefore.entities]
      split
      · rfl
      · rename_i hge
        rw [List.getElem?_eq_none (Nat.le_of_not_lt hge)]
        cases hsub : slot - labels.length with
        | zero => simpa using Ne.symm heq
        | succ n => simp
  · intro id node hid hnode child hchild
    rw [nodes_reserved, Array.getElem?_push] at hid
    split at hid
    · rw [← Option.some.inj hid] at hchild
      exact nomatch hchild
    · exact hbefore.child_lt hid hnode child hchild

/-- Filling the place of an entity, which is pending, with the entity. -/
theorem grown_fill {key : String} {shape : Shape} {target : NodeId} {labels' : List Shape}
    {middle : Builder} (hbefore : before.Labelled registry labels)
    (hshape : registry.shape? key = some shape)
    (hgrown : Builder.Grown registry (reserved key before) (labels ++ [.ref key]) middle labels')
    (htarget : labels'[target]? = some shape.present) :
    before.Grown registry labels
      { middle with nodes := middle.nodes.setIfInBounds before.nodes.size (.entity key target) }
      labels' ∧ labels'[before.nodes.size]? = some (.ref key) := by
  have hslot : labels'[before.nodes.size]? = some (.ref key) := by
    apply getElem?_of_isPrefix hgrown.labels
    rw [← hbefore.length_eq]
    exact List.getElem?_concat_length
  have hprefix : labels <+: labels' := (List.prefix_append _ _).trans hgrown.labels
  refine ⟨⟨⟨?_, ?_, hgrown.labelled.entities, ?_⟩, hprefix, ?_, ?_⟩, hslot⟩
  · simp [hgrown.labelled.length_eq]
  · intro id node hid hnode
    rw [Array.getElem?_setIfInBounds] at hid
    split at hid
    · rename_i heq
      subst heq
      split at hid
      · rw [Option.some.injEq] at hid
        exact ⟨.ref key, hslot, hid ▸ .entity hshape htarget⟩
      · exact nomatch hid
    · exact hgrown.labelled.fits hid hnode
  · intro id node hid hnode child hchild
    rw [Array.getElem?_setIfInBounds] at hid
    split at hid
    · split at hid
      · exact absurd (Option.some.inj hid).symm (hnode key target)
      · exact nomatch hid
    · exact hgrown.labelled.child_lt hid hnode child hchild
  · intro id node hid
    obtain ⟨hlt, -⟩ := Array.getElem?_eq_some_iff.mp hid
    rw [Array.getElem?_setIfInBounds_ne (Nat.ne_of_gt hlt)]
    apply hgrown.kept
    rw [nodes_reserved, Array.getElem?_push_lt hlt, ← Array.getElem?_eq_getElem hlt]
    exact hid
  · intro id hid hpending
    rw [Array.getElem?_setIfInBounds] at hpending
    split at hpending
    · split at hpending
      · exact nomatch hpending
      · exact nomatch hpending
    · rename_i hne
      refine hgrown.filled ?_ hpending
      rw [nodes_reserved, Array.size_push]
      omega

/-- The place of an entity: the one it has, or the next one, which is filled when the shape of the
entity is compiled. -/
theorem entity_apply (registry : Registry) (compile : Shape → Build NodeId) (key : String)
    (builder : Builder) :
    entity registry compile key builder =
      match builder.entities.lookup key with
      | some slot => .ok (slot, builder)
      | none =>
        match registry.shape? key with
        | none => .error (.unknownReference ⟨key⟩)
        | some shape => (compile shape (reserved key builder)).map fun result =>
          (builder.nodes.size, { result.2 with
            nodes := result.2.nodes.setIfInBounds builder.nodes.size (.entity key result.1) }) := by
  have hget : entity registry compile key builder =
      (match builder.entities.lookup key with
      | some slot => (pure slot : Build NodeId)
      | none =>
        match registry.shape? key with
        | none => throw (CompileError.unknownReference ⟨key⟩)
        | some shape => do
          let slot ← reserve key
          let target ← compile shape
          fill slot (.entity key target)
          return slot) builder := rfl
  rw [hget]
  cases builder.entities.lookup key with
  | some slot => rfl
  | none =>
      cases registry.shape? key with
      | none => rfl
      | some shape =>
          have hcompile : (do
              let slot ← reserve key
              let target ← compile shape
              fill slot (.entity key target)
              return slot : Build NodeId) builder =
              (compile shape (reserved key builder) >>= fun result =>
                .ok (builder.nodes.size, { result.2 with
                  nodes := result.2.nodes.setIfInBounds builder.nodes.size
                    (.entity key result.1) })) := rfl
          dsimp only
          rw [hcompile]
          cases compile shape (reserved key builder) <;> rfl

/-- The place of an entity is labelled before its shape is compiled, and filled afterwards. -/
theorem labels_entity (hcompile : Labels registry compile) {key : String} {id : NodeId}
    (hbefore : before.Labelled registry labels)
    (h : Build.entity registry compile key before = .ok (id, after)) :
    ∃ labels', before.Grown registry labels after labels' ∧ labels'[id]? = some (.ref key) := by
  rw [entity_apply] at h
  cases hlookup : before.entities.lookup key with
  | some slot =>
      rw [hlookup] at h
      cases h
      exact ⟨labels, hbefore.refl, hbefore.entities.mp hlookup⟩
  | none =>
      rw [hlookup] at h
      cases hshape : registry.shape? key with
      | none =>
          rw [hshape] at h
          exact nomatch h
      | some shape =>
          rw [hshape] at h
          dsimp only at h
          cases hrun : compile shape (reserved key before) with
          | error error =>
              rw [hrun] at h
              exact nomatch h
          | ok result =>
              rw [hrun] at h
              cases h
              obtain ⟨labels', hgrown, hlabel⟩ := hcompile (labelled_reserve hbefore hlookup) hrun
              obtain ⟨hgrown', hslot⟩ := grown_fill hbefore hshape hgrown hlabel
              exact ⟨labels', hgrown', hslot⟩

theorem labels_push {node : Node} (shape : Shape) {id : NodeId}
    (hbefore : before.Labelled registry labels) (hnode : node ≠ .pending)
    (hfits : node.Fits registry labels shape) (hshape : ∀ key, shape ≠ .ref key)
    (h : push node before = .ok (id, after)) :
    ∃ labels', before.Grown registry labels after labels' ∧ labels'[id]? = some shape := by
  rw [push_eq_ok_iff] at h
  obtain ⟨rfl, rfl⟩ := h
  obtain ⟨hgrown, hlabel⟩ := hbefore.push hnode hfits hshape
  exact ⟨_, hgrown, hlabel⟩

/-- One constructor of a shape after the other. -/
theorem labels_shapeWith {enter : Shape → Build NodeId} (henter : Labels registry enter)
    (fuel : Nat) : Labels registry (shapeWith registry enter fuel) := by
  induction fuel with
  | zero => exact fun _ h => nomatch h
  | succ fuel ih =>
      intro source before after labels id hbefore h
      cases source with
      | string format =>
          exact labels_push (.string format) hbefore (by simp) (.string format) (by simp) h
      | integer => exact labels_push .integer hbefore (by simp) .integer (by simp) h
      | number => exact labels_push .number hbefore (by simp) .number (by simp) h
      | boolean => exact labels_push .boolean hbefore (by simp) .boolean (by simp) h
      | unknown => exact labels_push .unknown hbefore (by simp) .unknown (by simp) h
      | literal value =>
          exact labels_push (.literal value) hbefore (by simp) (.literal value) (by simp) h
      | enum options =>
          exact labels_push (.enum options) hbefore (by simp) (.enum options) (by simp) h
      | array item =>
          obtain ⟨node, middle, hnode, h⟩ := bind_eq_ok_iff.mp h
          obtain ⟨labels', hgrown, hlabel⟩ := ih hbefore hnode
          obtain ⟨labels'', hgrown', hlabel'⟩ :=
            labels_push (.array item) hgrown.labelled (by simp) (.array hlabel) (by simp) h
          exact ⟨labels'', hgrown.trans hgrown', hlabel'⟩
      | record value =>
          obtain ⟨node, middle, hnode, h⟩ := bind_eq_ok_iff.mp h
          obtain ⟨labels', hgrown, hlabel⟩ := ih hbefore hnode
          obtain ⟨labels'', hgrown', hlabel'⟩ :=
            labels_push (.record value) hgrown.labelled (by simp) (.record hlabel) (by simp) h
          exact ⟨labels'', hgrown.trans hgrown', hlabel'⟩
      | object fields policy =>
          exact labels_object (.object fields policy) ih (by simp) rfl hbefore h
      | optional inner default? =>
          have hinner : shapeWith registry enter fuel inner before = .ok (id, after) := h
          obtain ⟨labels', hgrown, hlabel⟩ := ih hbefore hinner
          exact ⟨labels', hgrown, hlabel⟩
      | union shapes =>
          obtain ⟨variants, middle, hvariants, h⟩ := bind_eq_ok_iff.mp h
          obtain ⟨labels', hgrown, hfits⟩ := labels_variants ih hbefore hvariants
          obtain ⟨labels'', hgrown', hlabel'⟩ :=
            labels_push (.union shapes) hgrown.labelled (by simp) (.union hfits) (by simp) h
          exact ⟨labels'', hgrown.trans hgrown', hlabel'⟩
      | intersection left right =>
          rw [shapeWith] at h
          cases hflatten : registry.flatten (.intersection left right) with
          | some merged =>
              rw [hflatten] at h
              exact labels_object (.intersection left right) ih (by simp) hflatten hbefore h
          | none =>
              rw [hflatten] at h
              obtain ⟨leftNode, middle, hleft, h⟩ := bind_eq_ok_iff.mp h
              obtain ⟨rightNode, last, hright, h⟩ := bind_eq_ok_iff.mp h
              obtain ⟨labels', hgrown, hlabel⟩ := ih hbefore hleft
              obtain ⟨labels'', hgrown', hlabel'⟩ := ih hgrown.labelled hright
              have hlabel := getElem?_of_isPrefix hgrown'.labels hlabel
              obtain ⟨final, hgrown'', hlabel''⟩ := labels_push (.intersection left right)
                hgrown'.labelled (by simp) (.intersection hflatten hlabel hlabel') (by simp) h
              exact ⟨final, (hgrown.trans hgrown').trans hgrown'', hlabel''⟩
      | ref key => exact labels_entity henter hbefore h

theorem labels_shapeWithin (registry : Registry) (depth entities : Nat) :
    Labels registry (shapeWithin registry depth entities) := by
  induction entities with
  | zero => exact fun _ h => nomatch h
  | succ entities ih => exact labels_shapeWith ih depth

theorem labels_shape (registry : Registry) (depth : Nat) :
    Labels registry (shape registry depth) :=
  labels_shapeWithin registry depth (registry.size + 1)

/-- Compiling one entity after the other gives a node for each, labelled with a reference to it. -/
theorem labels_roots {keys : List String} {roots : List (String × NodeId)}
    (hbefore : before.Labelled registry labels)
    (h : Build.roots registry keys before = .ok (roots, after)) :
    ∃ labels', before.Grown registry labels after labels' ∧
      List.Forall₂ (fun key root => root.1 = key ∧ labels'[root.2]? = some (.ref key))
        keys roots := by
  rw [Build.roots] at h
  induction keys generalizing before labels roots with
  | nil =>
      rw [List.mapM_nil, pure_eq_ok_iff] at h
      obtain ⟨rfl, rfl⟩ := h
      exact ⟨labels, hbefore.refl, .nil⟩
  | cons key keys ih =>
      rw [List.mapM_cons, bind_eq_ok_iff] at h
      obtain ⟨root, middle, hroot, h⟩ := h
      obtain ⟨roots, last, hroots, h⟩ := bind_eq_ok_iff.mp h
      rw [pure_eq_ok_iff] at h
      obtain ⟨rfl, rfl⟩ := h
      obtain ⟨id, middle', hid, hroot⟩ := bind_eq_ok_iff.mp hroot
      rw [pure_eq_ok_iff] at hroot
      obtain ⟨rfl, rfl⟩ := hroot
      obtain ⟨labels', hgrown, hlabel⟩ := labels_shape registry _ hbefore hid
      obtain ⟨labels'', hgrown', hfits⟩ := ih hgrown.labelled hroots
      exact ⟨labels'', hgrown.trans hgrown',
        .cons ⟨rfl, getElem?_of_isPrefix hgrown'.labels hlabel⟩ hfits⟩

theorem labelled_empty (registry : Registry) : Builder.empty.Labelled registry [] := by
  refine ⟨rfl, fun {id node} h => ?_, fun {key slot} => ?_, fun {id node} h => ?_⟩
  · simp [Builder.empty] at h
  · simp [Builder.empty]
  · simp [Builder.empty] at h

end Build

/-- Every node of the arena has a label that it fits, and no two are labelled with one reference.
Nodes that are not entities refer to earlier ones. -/
structure Arena.Labelled (registry : Registry) (arena : Arena) (labels : List Shape) : Prop where
  length_eq : labels.length = arena.size
  fits : ∀ {id : NodeId} {shape : Shape}, labels[id]? = some shape →
    (arena.node id).Fits registry labels shape
  entity_unique : ∀ {id other : NodeId} {key : String}, labels[id]? = some (.ref key) →
    labels[other]? = some (.ref key) → id = other
  child_lt : ∀ {id : NodeId}, (∀ key target, arena.node id ≠ .entity key target) →
    ∀ child ∈ (arena.node id).children, child < id

/-- The node of the arena checks the shape: it is labelled with it, and so is every node that it
leads to with its shape. -/
def Arena.Checks (registry : Registry) (arena : Arena) (id : NodeId) (shape : Shape) : Prop :=
  ∃ labels, arena.Labelled registry labels ∧ labels[id]? = some shape

theorem labelled_of_grown_empty {registry : Registry} {builder : Builder} {labels : List Shape}
    (h : Builder.empty.Grown registry [] builder labels) :
    Arena.Labelled registry ⟨builder.nodes⟩ labels where
  length_eq := h.labelled.length_eq
  fits := by
    intro id shape hlabel
    obtain ⟨hlt, -⟩ := List.getElem?_eq_some_iff.mp hlabel
    rw [h.labelled.length_eq] at hlt
    have hnode := Array.getElem?_eq_getElem hlt
    have hfilled : builder.nodes[id] ≠ .pending := by
      intro hpending
      rw [hpending] at hnode
      exact h.filled (Nat.zero_le id) hnode
    obtain ⟨shape', hlabel', hfits⟩ := h.labelled.fits hnode hfilled
    rw [hlabel, Option.some.injEq] at hlabel'
    rw [Arena.node, hnode, Option.getD_some, hlabel']
    exact hfits
  entity_unique := by
    intro id other key hid hother
    rw [← h.labelled.entities] at hid hother
    rw [hid] at hother
    exact Option.some.inj hother
  child_lt := by
    intro id hnode child hchild
    rw [Arena.node] at hnode hchild
    cases hget : builder.nodes[id]? with
    | none =>
        rw [hget] at hchild
        exact nomatch hchild
    | some node =>
        rw [hget] at hnode hchild
        exact h.labelled.child_lt hget hnode child hchild

theorem Build.finish_eq_ok_iff {α : Type} {build : Build α} {result : α} {arena : Arena} :
    Build.finish build = .ok (result, arena) ↔
      ∃ builder, build Builder.empty = .ok (result, builder) ∧ ⟨builder.nodes⟩ = arena := by
  have hfinish : Build.finish build =
      (build .empty).map fun last => (last.1, ⟨last.2.nodes⟩) := rfl
  rw [hfinish]
  cases build .empty with
  | error error => simp [Except.map]
  | ok last => simp [Except.map, Prod.ext_iff]

/-- However deep the calls may be nested: what compilation ends with checks the shape. -/
theorem Build.checks_of_finish {registry : Registry} {fuel : Nat} {source : Shape} {root : NodeId}
    {arena : Arena} (h : Build.finish (Build.shape registry fuel source) = .ok (root, arena)) :
    arena.Checks registry root source.present := by
  obtain ⟨builder, hrun, rfl⟩ := Build.finish_eq_ok_iff.mp h
  obtain ⟨labels, hgrown, hlabel⟩ :=
    Build.labels_shape registry fuel (Build.labelled_empty registry) hrun
  exact ⟨labels, labelled_of_grown_empty hgrown, hlabel⟩

namespace Registry

variable {registry : Registry} {validator : Validator}

theorem checks_of_compile {key : String} (h : registry.compile key = .ok validator) :
    validator.arena.Checks registry validator.root (.ref key) := by
  obtain ⟨⟨root, arena⟩, hfinish, h⟩ := bind_eq_ok_iff.mp h
  cases h
  exact Build.checks_of_finish hfinish

theorem checks_of_compileShape {shape : Shape} (h : registry.compileShape shape = .ok validator) :
    validator.arena.Checks registry validator.root shape.present := by
  obtain ⟨⟨root, arena⟩, hfinish, h⟩ := bind_eq_ok_iff.mp h
  cases h
  exact Build.checks_of_finish hfinish

/-- The roots of entities are labelled with them, in the arena that they share. -/
theorem labelled_of_roots {keys : List String} {roots : List (String × NodeId)} {arena : Arena}
    (h : (Build.roots registry keys).finish = .ok (roots, arena)) :
    ∃ labels, arena.Labelled registry labels ∧ roots.map (·.1) = keys ∧
      ∀ root ∈ roots, labels[root.2]? = some (.ref root.1) := by
  obtain ⟨builder, hrun, rfl⟩ := Build.finish_eq_ok_iff.mp h
  obtain ⟨labels, hgrown, hroots⟩ := Build.labels_roots (Build.labelled_empty registry) hrun
  refine ⟨labels, labelled_of_grown_empty hgrown, ?_, fun root hroot => ?_⟩
  · have hkeys : List.Forall₂ (· = ·) (roots.map (·.1)) keys :=
      List.forall₂_map_left_iff.mpr (hroots.flip.imp fun _ _ hroot => hroot.1)
    rwa [List.forall₂_eq_eq_eq] at hkeys
  · obtain ⟨key, -, rfl, hlabel⟩ := Pairing.exists_of_mem_right hroots hroot
    exact hlabel

theorem compileAll_eq_ok_iff {set : ValidatorSet} :
    registry.compileAll = .ok set ↔
      (Build.roots registry registry.names).finish = .ok (set.roots, set.arena) := by
  rw [compileAll, bind_eq_ok_iff]
  constructor
  · rintro ⟨⟨roots, arena⟩, hfinish, h⟩
    cases h
    exact hfinish
  · exact fun hfinish => ⟨(set.roots, set.arena), hfinish, rfl⟩

end Registry

end EntityContract
