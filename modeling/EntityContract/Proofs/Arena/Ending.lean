import EntityContract.Proofs.Arena.Building

/-!
When compilation ends. A call that compiles a shape is nested in others until an entity remembers
it; between two entities the calls follow the parts of a shape, where merged fields count as
parts. So compilation ends unless some shape on the way is a part of itself in this sense.
-/

namespace EntityContract

open Relation

namespace Registry

/-- Compiling the first shape calls for the second one. -/
inductive Calls (registry : Registry) : Shape → Shape → Prop
  | item (item : Shape) : Calls registry (.array item) item
  | value (value : Shape) : Calls registry (.record value) value
  | field {fields : Fields} {field : String × Shape} (policy : UnknownFields) :
      field ∈ fields → Calls registry (.object fields policy) field.2.present
  | inner (inner : Shape) (default? : Option Json) :
      Calls registry (.optional inner default?) inner
  | variant {variants : List Shape} {variant : Shape} :
      variant ∈ variants → Calls registry (.union variants) variant
  | merged {left right : Shape} {object : ObjectShape} {field : String × Shape} :
      registry.flatten (.intersection left right) = some object → field ∈ object.fields →
        Calls registry (.intersection left right) field.2.present
  | left {left right : Shape} :
      registry.flatten (.intersection left right) = none →
        Calls registry (.intersection left right) left
  | right {left right : Shape} :
      registry.flatten (.intersection left right) = none →
        Calls registry (.intersection left right) right

/-- Compiling the first shape leads to the second one, by a call or by entering an entity. -/
inductive Leads (registry : Registry) : Shape → Shape → Prop
  | call {shape other : Shape} : registry.Calls shape other → Leads registry shape other
  | entity {key : String} {shape : Shape} :
      registry.shape? key = some shape → Leads registry (.ref key) shape

/-- The shape leads to one that calls for itself before an entity remembers it. -/
def Endless (registry : Registry) (source : Shape) : Prop :=
  ∃ shape, ReflTransGen registry.Leads source shape ∧ TransGen registry.Calls shape shape

/-- The calls from a shape are nested at most so deep, and come to no other entities than these. -/
structure Covered (registry : Registry) (keys : List String) (n : Nat) (shape : Shape) : Prop where
  bounded : Chain.Bounded registry.Calls n shape
  entities : ∀ key, ReflTransGen registry.Calls shape (.ref key) → key ∈ keys

/-- The calls on the way from a shape. -/
def CallsFrom (registry : Registry) (source shape other : Shape) : Prop :=
  ReflTransGen registry.Leads source shape ∧ registry.Calls shape other

variable {registry : Registry} {source : Shape}

theorem Covered.mono {keys keys' : List String} (hkeys : keys ⊆ keys') {n : Nat} {shape : Shape}
    (h : registry.Covered keys n shape) : registry.Covered keys' n shape :=
  ⟨h.bounded, fun key hkey => hkeys (h.entities key hkey)⟩

theorem Covered.call {keys : List String} {n : Nat} {shape other : Shape}
    (h : registry.Covered keys (n + 1) shape) (hcall : registry.Calls shape other) :
    registry.Covered keys n other :=
  ⟨h.bounded other hcall, fun key hkey => h.entities key (hkey.head hcall)⟩

theorem covered_of_calls {keys : List String} {n : Nat} {shape : Shape}
    (hshape : ∀ key, shape ≠ .ref key)
    (h : ∀ other, registry.Calls shape other → registry.Covered keys n other) :
    registry.Covered keys (n + 1) shape := by
  refine ⟨fun other hother => (h other hother).bounded, fun key hkey => ?_⟩
  rcases ReflTransGen.cases_head hkey with heq | ⟨other, hcall, hother⟩
  · exact absurd heq (hshape key)
  · exact (h other hcall).entities key hother

theorem covered_ref {keys : List String} {key : String} (n : Nat) (hkey : key ∈ keys) :
    registry.Covered keys (n + 1) (.ref key) := by
  refine ⟨fun other hother => (nomatch hother), fun other hother => ?_⟩
  rcases ReflTransGen.cases_head hother with heq | ⟨_, hcall, -⟩
  · cases heq
    exact hkey
  · exact nomatch hcall

/-- Where objects merge apart, the calls stay among the shapes of the registry. -/
theorem Calls.mem_shapes (hregistry : registry.Indexed) (hapart : registry.MergesApart)
    {shape other : Shape} (h : registry.Calls shape other) (hshape : shape ∈ registry.shapes) :
    other ∈ registry.shapes := by
  cases h with
  | item =>
      apply mem_shapes_of_mem_subshapes hshape
      simp [Shape.subshapes, Shape.mem_subshapes_self]
  | value =>
      apply mem_shapes_of_mem_subshapes hshape
      simp [Shape.subshapes, Shape.mem_subshapes_self]
  | field policy hfield =>
      apply mem_shapes_of_mem_subshapes hshape
      rw [Shape.subshapes]
      exact List.mem_cons_of_mem _
        (Shape.mem_subshapesOfFields.mpr ⟨_, hfield, Shape.present_mem_subshapes _⟩)
  | inner =>
      apply mem_shapes_of_mem_subshapes hshape
      simp [Shape.subshapes, Shape.mem_subshapes_self]
  | variant hvariant =>
      apply mem_shapes_of_mem_subshapes hshape
      rw [Shape.subshapes]
      exact List.mem_cons_of_mem _
        (Shape.mem_subshapesOfVariants.mpr ⟨_, hvariant, Shape.mem_subshapes_self _⟩)
  | merged hflatten hfield =>
      have hflattens := (flatten_eq_some_iff hregistry).mp hflatten
      exact mem_shapes_of_mem_subshapes (hflattens.mem_shapes hregistry hapart hshape _ hfield)
        (Shape.present_mem_subshapes _)
  | left =>
      apply mem_shapes_of_mem_subshapes hshape
      simp [Shape.subshapes, Shape.mem_subshapes_self]
  | right =>
      apply mem_shapes_of_mem_subshapes hshape
      simp [Shape.subshapes, Shape.mem_subshapes_self]

theorem mem_shapes_of_leads (hregistry : registry.Indexed) (hapart : registry.MergesApart)
    {key : String} {shape : Shape} (h : ReflTransGen registry.Leads (.ref key) shape) :
    shape = .ref key ∨ shape ∈ registry.shapes := by
  induction h with
  | refl => exact Or.inl rfl
  | tail _ hstep ih =>
      refine Or.inr ?_
      cases hstep with
      | entity hfound => exact mem_shapes_of_shape? hfound
      | call hcall =>
          rcases ih with rfl | ih
          · cases hcall
          · exact hcall.mem_shapes hregistry hapart ih

/-- Without a shape that calls for itself, no more calls are nested than there are shapes. -/
theorem bounded_of_not_endless (hregistry : registry.Indexed) (hapart : registry.MergesApart)
    {key : String} (hends : ¬registry.Endless (.ref key)) (shape : Shape) :
    Chain.Bounded (registry.CallsFrom (.ref key)) (registry.shapes.length + 1) shape := by
  apply Chain.bounded_of_acyclic
  · rintro shape other ⟨hreached, hcall⟩
    rcases mem_shapes_of_leads hregistry hapart hreached with rfl | hmem
    · cases hcall
    · exact hmem
  · intro shape hcycle
    have hmono : registry.CallsFrom (.ref key) ≤ registry.Calls := fun _ _ h => h.2
    apply hends
    obtain ⟨first, ⟨hreached, -⟩, -⟩ := TransGen.head'_iff.mp hcycle
    exact ⟨shape, hreached, TransGen.mono hmono shape shape hcycle⟩

theorem length_shapes_le : registry.shapes.length ≤ registry.weight := by
  rw [shapes, weight]
  induction registry.entities with
  | nil => exact Nat.le_refl 0
  | cons entity entities ih =>
      rw [List.flatMap_cons, List.length_append, Shape.length_subshapes, List.foldr_cons]
      omega

end Registry

/-- The entities that have no place yet. -/
def Builder.missing (registry : Registry) (builder : Builder) : List String :=
  registry.names.filter fun name => (builder.entities.lookup name).isNone

theorem Builder.length_missing_reserved {registry : Registry} {builder : Builder} {key : String}
    (hkey : key ∈ registry.names) (hnew : builder.entities.lookup key = none) :
    ((Build.reserved key builder).missing registry).length <
      (builder.missing registry).length := by
  have heq : (Build.reserved key builder).missing registry =
      (builder.missing registry).filter fun name => name != key := by
    rw [missing, missing, List.filter_filter]
    congr 1
    funext name
    rw [Build.entities_reserved, List.lookup_cons]
    by_cases hname : name = key
    · simp [hname]
    · simp [hname, beq_false_of_ne hname]
  rw [heq, List.length_filter_lt_length_iff_exists]
  exact ⟨key, List.mem_filter.mpr ⟨hkey, by rw [hnew]; rfl⟩, by simp⟩

namespace Build

variable {registry : Registry} {α β : Type} {p : CompileError → Prop} {m : Nat}

/-- From a builder without a place for at most so many entities, the compilation fails only as it
may, and when it is done no more entities are without a place. -/
def Ends (registry : Registry) (p : CompileError → Prop) (m : Nat) (build : Build α) : Prop :=
  ∀ before : Builder, (before.missing registry).length ≤ m →
    (∀ error, build before = .error error → p error) ∧
      ∀ result after, build before = .ok (result, after) → (after.missing registry).length ≤ m

theorem ends_pure (value : α) : Ends registry p m (pure value) := by
  intro before hbefore
  refine ⟨nofun, fun result after h => ?_⟩
  obtain ⟨-, rfl⟩ := pure_eq_ok_iff.mp h
  exact hbefore

theorem ends_push (node : Node) : Ends registry p m (push node) := by
  intro before hbefore
  refine ⟨nofun, fun result after h => ?_⟩
  obtain ⟨-, rfl⟩ := push_eq_ok_iff.mp h
  exact hbefore

theorem Ends.bind {build : Build α} {next : α → Build β} (hbuild : Ends registry p m build)
    (hnext : ∀ value, Ends registry p m (next value)) : Ends registry p m (build >>= next) := by
  intro before hbefore
  obtain ⟨hfails, hmissing⟩ := hbuild before hbefore
  have hbind : (build >>= next) before = (build before >>= fun value => next value.1 value.2) := rfl
  rw [hbind]
  cases hrun : build before with
  | error error =>
      refine ⟨fun _ h => ?_, nofun⟩
      cases h
      exact hfails error hrun
  | ok result =>
      obtain ⟨value, middle⟩ := result
      exact hnext value middle (hmissing value middle hrun)

variable {compile : Shape → Build NodeId}

theorem ends_object {object : ObjectShape}
    (h : ∀ field ∈ object.fields, Ends registry p m (compile field.2.present)) :
    Ends registry p m (Build.object compile object) := by
  have hfields : ∀ fields : Fields,
      (∀ field ∈ fields, Ends registry p m (compile field.2.present)) →
        Ends registry p m (fields.mapM (Build.field compile)) := by
    intro fields hfields
    induction fields with
    | nil => exact ends_pure []
    | cons field fields ih =>
        rw [List.forall_mem_cons] at hfields
        rw [List.mapM_cons]
        have hfield : Ends registry p m (Build.field compile field) :=
          hfields.1.bind fun node => ends_pure _
        exact hfield.bind fun node => (ih hfields.2).bind fun nodes => ends_pure _
  exact (hfields object.fields h).bind fun nodes => ends_push _

theorem ends_variants {shapes : List Shape} (number : Nat)
    (h : ∀ shape ∈ shapes, Ends registry p m (compile shape)) :
    Ends registry p m (Build.variants compile number shapes) := by
  induction shapes generalizing number with
  | nil => exact ends_pure []
  | cons shape shapes ih =>
      rw [List.forall_mem_cons] at h
      rw [Build.variants]
      exact h.1.bind fun node => (ih (number + 1) h.2).bind fun variants => ends_pure _

/-- Entering an entity leaves one entity less without a place. -/
theorem ends_entity {key : String} (hkey : registry.shape? key = none → p (.unknownReference ⟨key⟩))
    (h : ∀ shape, registry.shape? key = some shape → ∀ fewer, fewer < m →
      Ends registry p fewer (compile shape)) :
    Ends registry p m (Build.entity registry compile key) := by
  intro before hbefore
  rw [entity_apply]
  cases hlookup : before.entities.lookup key with
  | some slot =>
      refine ⟨nofun, fun result after h => ?_⟩
      cases h
      exact hbefore
  | none =>
      cases hshape : registry.shape? key with
      | none =>
          refine ⟨fun error h => ?_, nofun⟩
          cases h
          exact hkey hshape
      | some shape =>
          have hlength := Builder.length_missing_reserved
            (Registry.mem_names_of_shape? hshape) hlookup
          obtain ⟨hfails, hmissing⟩ := h shape hshape _ (Nat.lt_of_lt_of_le hlength hbefore)
            (reserved key before) (Nat.le_refl _)
          dsimp only
          cases hrun : compile shape (reserved key before) with
          | error error =>
              refine ⟨fun _ h => ?_, nofun⟩
              cases h
              exact hfails error hrun
          | ok result =>
              refine ⟨nofun, fun _ after h => ?_⟩
              cases h
              have hle := hmissing result.1 result.2 hrun
              exact Nat.le_trans hle (Nat.le_of_lt (Nat.lt_of_lt_of_le hlength hbefore))

variable {depth : Nat} {enter : Shape → Build NodeId}

/-- One call compiles a shape if the calls for its parts do, and entities are entered. -/
theorem ends_shapeWith_succ {fuel : Nat} {source : Shape}
    (hcall : ∀ other, registry.Calls source other →
      Ends registry p m (shapeWith registry enter fuel other))
    (hkey : ∀ key, source = .ref key → registry.shape? key = none → p (.unknownReference ⟨key⟩))
    (hentity : ∀ key shape, source = .ref key → registry.shape? key = some shape →
      ∀ fewer, fewer < m → Ends registry p fewer (enter shape)) :
    Ends registry p m (shapeWith registry enter (fuel + 1) source) := by
  cases source with
  | array item => exact (hcall item (.item item)).bind fun node => ends_push _
  | record value => exact (hcall value (.value value)).bind fun node => ends_push _
  | object fields policy => exact ends_object fun field hfield => hcall _ (.field policy hfield)
  | optional inner default? => exact hcall inner (.inner inner default?)
  | union shapes =>
      have hvariants := ends_variants 1 fun shape hshape => hcall shape (.variant hshape)
      exact hvariants.bind fun variants => ends_push _
  | intersection left right =>
      rw [shapeWith]
      cases hflatten : registry.flatten (.intersection left right) with
      | some merged => exact ends_object fun field hfield => hcall _ (.merged hflatten hfield)
      | none =>
          exact (hcall left (.left hflatten)).bind fun leftNode =>
            (hcall right (.right hflatten)).bind fun rightNode => ends_push _
  | ref key => exact ends_entity (hkey key rfl) fun shape hshape => hentity key shape rfl hshape
  | _ => exact ends_push _

/-- A set of shapes, with the fuel that is left for them, that compilation does not leave: it only
fails as it may, and entering an entity restores the fuel. -/
structure Prepared (registry : Registry) (p : CompileError → Prop) (depth : Nat)
    (ready : Nat → Shape → Prop) : Prop where
  unfinished : ∀ {source : Shape}, ready 0 source → p .unfinished
  call : ∀ {n : Nat} {source other : Shape}, ready (n + 1) source → registry.Calls source other →
    ready n other
  unknown : ∀ {n : Nat} {key : String}, ready n (.ref key) → registry.shape? key = none →
    p (.unknownReference ⟨key⟩)
  entity : ∀ {n : Nat} {key : String} {shape : Shape}, ready n (.ref key) →
    registry.shape? key = some shape → ready depth shape

variable {ready : Nat → Shape → Prop}

theorem Prepared.ends_shapeWith (h : Prepared registry p depth ready)
    (henter : ∀ shape fewer, ready depth shape → fewer < m → Ends registry p fewer (enter shape))
    {fuel : Nat} {source : Shape} (hsource : ready fuel source) :
    Ends registry p m (shapeWith registry enter fuel source) := by
  induction fuel generalizing source with
  | zero =>
      refine fun before hbefore => ⟨fun error herror => ?_, nofun⟩
      cases herror
      exact h.unfinished hsource
  | succ fuel ih =>
      apply ends_shapeWith_succ
      · exact fun other hother => ih (h.call hsource hother)
      · rintro key rfl hkey
        exact h.unknown hsource hkey
      · rintro key shape rfl hshape fewer hfewer
        exact henter shape fewer (h.entity hsource hshape) hfewer

/-- Each entity that is entered leaves one less without a place, so they are never too many. -/
theorem Prepared.ends_shapeWithin (h : Prepared registry p depth ready) {entities : Nat}
    (hentities : m < entities) {source : Shape} (hsource : ready depth source) :
    Ends registry p m (shapeWithin registry depth entities source) := by
  induction entities generalizing m source with
  | zero => exact absurd hentities (Nat.not_lt_zero m)
  | succ entities ih =>
      exact h.ends_shapeWith (fun shape fewer hshape hfewer => ih (by omega) hshape) hsource

theorem length_missing_le (registry : Registry) (builder : Builder) :
    (builder.missing registry).length ≤ registry.size := by
  have hle := List.length_filter_le (fun name => (builder.entities.lookup name).isNone)
    registry.names
  rwa [Registry.names, List.length_map] at hle

theorem Prepared.ends_shape (h : Prepared registry p depth ready) {source : Shape}
    (hsource : ready depth source) :
    Ends registry p registry.size (shape registry depth source) :=
  h.ends_shapeWithin (Nat.lt_succ_self _) hsource

/-- Between two entities no more calls are nested than the chains of calls are long. -/
theorem prepared_of_bounded {key : String}
    (hbound : ∀ shape, Chain.Bounded (registry.CallsFrom (.ref key)) depth shape) :
    Prepared registry (· ≠ .unfinished) depth fun n shape =>
      ReflTransGen registry.Leads (.ref key) shape ∧
        Chain.Bounded (registry.CallsFrom (.ref key)) n shape where
  unfinished := fun h => h.2.elim
  call := fun h hcall => ⟨h.1.tail (.call hcall), h.2 _ ⟨h.1, hcall⟩⟩
  unknown := fun _ _ => by simp
  entity := fun h hshape => ⟨h.1.tail (.entity hshape), hbound _⟩

/-- A key that compilation reports is one that it comes to, and is not registered. -/
theorem prepared_leads (registry : Registry) (depth : Nat) (root : Shape) :
    Prepared registry (fun error => ∀ key, error = .unknownReference ⟨key⟩ →
      registry.shape? key = none ∧ ReflTransGen registry.Leads root (.ref key)) depth
      fun _ shape => ReflTransGen registry.Leads root shape where
  unfinished := fun _ => nofun
  call := fun h hcall => h.tail (.call hcall)
  unknown := by
    rintro _ key hkey hnone other heq
    cases heq
    exact ⟨hnone, hkey⟩
  entity := fun h hshape => h.tail (.entity hshape)

end Build

namespace Builder

variable {registry : Registry} {before middle after : Builder} {depth : Nat}

def keys (builder : Builder) : List String := builder.entities.map (·.1)

/-- Entities were entered on the way from the one builder to the other, and what their shapes come
to was compiled. -/
structure Explored (registry : Registry) (depth : Nat) (before after : Builder) : Prop where
  keys : before.keys ⊆ after.keys
  entered : ∀ key ∈ after.keys, key ∈ before.keys ∨
    ∀ shape, registry.shape? key = some shape → registry.Covered after.keys depth shape

theorem explored_of_entities_eq (h : before.entities = after.entities) :
    before.Explored registry depth after := by
  have hkeys : before.keys = after.keys := by
    rw [keys, keys, h]
  exact ⟨hkeys ▸ List.Subset.refl _, fun key hkey => Or.inl (hkeys ▸ hkey)⟩

theorem Explored.trans (h : before.Explored registry depth middle)
    (h' : middle.Explored registry depth after) : before.Explored registry depth after := by
  refine ⟨List.Subset.trans h.keys h'.keys, fun key hkey => ?_⟩
  rcases h'.entered key hkey with hmiddle | hentered
  · exact (h.entered key hmiddle).imp_right fun hcovered shape hshape =>
      (hcovered shape hshape).mono h'.keys
  · exact Or.inr hentered

end Builder

namespace Build

variable {registry : Registry} {before after : Builder} {compile : Shape → Build NodeId}
  {depth n : Nat}

/-- When compiling a shape succeeds, everything that it comes to is compiled. -/
def Explores (registry : Registry) (depth n : Nat) (compile : Shape → Build NodeId) : Prop :=
  ∀ {source : Shape} {before after : Builder} {id : NodeId},
    compile source before = .ok (id, after) →
      before.Explored registry depth after ∧ registry.Covered after.keys n source

theorem explored_push {node : Node} {id : NodeId} (h : push node before = .ok (id, after)) :
    before.Explored registry depth after := by
  obtain ⟨-, rfl⟩ := push_eq_ok_iff.mp h
  exact Builder.explored_of_entities_eq rfl

theorem explored_fields (hcompile : Explores registry depth n compile) {fields : Fields}
    {nodes : List FieldNode} (h : fields.mapM (field compile) before = .ok (nodes, after)) :
    before.Explored registry depth after ∧
      ∀ field ∈ fields, registry.Covered after.keys n field.2.present := by
  induction fields generalizing before nodes with
  | nil =>
      rw [List.mapM_nil, pure_eq_ok_iff] at h
      obtain ⟨-, rfl⟩ := h
      exact ⟨Builder.explored_of_entities_eq rfl, by simp⟩
  | cons field fields ih =>
      rw [List.mapM_cons, bind_eq_ok_iff] at h
      obtain ⟨node, middle, hnode, h⟩ := h
      obtain ⟨nodes, last, hnodes, h⟩ := bind_eq_ok_iff.mp h
      obtain ⟨-, rfl⟩ := pure_eq_ok_iff.mp h
      obtain ⟨id, middle', hid, hnode⟩ := bind_eq_ok_iff.mp hnode
      obtain ⟨-, rfl⟩ := pure_eq_ok_iff.mp hnode
      obtain ⟨hexplored, hcovered⟩ := hcompile hid
      obtain ⟨hexplored', hcovered'⟩ := ih hnodes
      exact ⟨hexplored.trans hexplored',
        List.forall_mem_cons.mpr ⟨hcovered.mono hexplored'.keys, hcovered'⟩⟩

theorem explored_object (hcompile : Explores registry depth n compile) {object : ObjectShape}
    {id : NodeId} (h : Build.object compile object before = .ok (id, after)) :
    before.Explored registry depth after ∧
      ∀ field ∈ object.fields, registry.Covered after.keys n field.2.present := by
  obtain ⟨nodes, middle, hnodes, h⟩ := bind_eq_ok_iff.mp h
  obtain ⟨hexplored, hcovered⟩ := explored_fields hcompile hnodes
  have hpush : middle.Explored registry depth after := explored_push h
  exact ⟨hexplored.trans hpush, fun field hfield => (hcovered field hfield).mono hpush.keys⟩

theorem explored_variants (hcompile : Explores registry depth n compile) {shapes : List Shape}
    {number : Nat} {variants : List Variant}
    (h : Build.variants compile number shapes before = .ok (variants, after)) :
    before.Explored registry depth after ∧
      ∀ shape ∈ shapes, registry.Covered after.keys n shape := by
  induction shapes generalizing before number variants with
  | nil =>
      rw [Build.variants, pure_eq_ok_iff] at h
      obtain ⟨-, rfl⟩ := h
      exact ⟨Builder.explored_of_entities_eq rfl, by simp⟩
  | cons shape shapes ih =>
      rw [Build.variants, bind_eq_ok_iff] at h
      obtain ⟨id, middle, hid, h⟩ := h
      obtain ⟨rest, last, hrest, h⟩ := bind_eq_ok_iff.mp h
      obtain ⟨-, rfl⟩ := pure_eq_ok_iff.mp h
      obtain ⟨hexplored, hcovered⟩ := hcompile hid
      obtain ⟨hexplored', hcovered'⟩ := ih hrest
      exact ⟨hexplored.trans hexplored',
        List.forall_mem_cons.mpr ⟨hcovered.mono hexplored'.keys, hcovered'⟩⟩

theorem explored_entity (hcompile : Explores registry depth depth compile) {key : String}
    {id : NodeId} (h : entity registry compile key before = .ok (id, after)) :
    before.Explored registry depth after ∧ key ∈ after.keys := by
  rw [entity_apply] at h
  cases hlookup : before.entities.lookup key with
  | some slot =>
      rw [hlookup] at h
      cases h
      exact ⟨Builder.explored_of_entities_eq rfl,
        List.mem_map_of_mem (f := (·.1)) (Association.mem_of_lookup hlookup)⟩
  | none =>
      rw [hlookup] at h
      cases hshape : registry.shape? key with
      | none =>
          rw [hshape] at h
          exact nomatch h
      | some shape =>
          rw [hshape] at h
          dsimp only at h
          cases hrun : compile shape (reserved key before) with
          | error error =>
              rw [hrun] at h
              exact nomatch h
          | ok result =>
              obtain ⟨target, compiled⟩ := result
              rw [hrun] at h
              cases h
              obtain ⟨hexplored, hcovered⟩ := hcompile hrun
              have hkeys : (reserved key before).keys = key :: before.keys := rfl
              have hsubset := hexplored.keys
              rw [hkeys, List.cons_subset] at hsubset
              refine ⟨⟨hsubset.2, fun other hother => ?_⟩, hsubset.1⟩
              rcases hexplored.entered other hother with hreserved | hentered
              · rw [hkeys] at hreserved
                rcases List.mem_cons.mp hreserved with rfl | hbefore
                · refine Or.inr fun found hfound => ?_
                  rw [hshape, Option.some.injEq] at hfound
                  exact hfound ▸ hcovered
                · exact Or.inl hbefore
              · exact Or.inr hentered

/-- Whatever the depth is: a compilation that succeeds has gone through all that it comes to. -/
theorem explores_shapeWith {enter : Shape → Build NodeId}
    (henter : Explores registry depth depth enter) (fuel : Nat) :
    Explores registry depth fuel (shapeWith registry enter fuel) := by
  induction fuel with
  | zero => exact fun h => nomatch h
  | succ fuel ih =>
      intro source before after id h
      cases source with
      | array item =>
          obtain ⟨node, middle, hnode, h⟩ := bind_eq_ok_iff.mp h
          obtain ⟨hexplored, hcovered⟩ := ih hnode
          have hpush : middle.Explored registry depth after := explored_push h
          refine ⟨hexplored.trans hpush, Registry.covered_of_calls (by simp) fun other hother => ?_⟩
          cases hother
          exact hcovered.mono hpush.keys
      | record value =>
          obtain ⟨node, middle, hnode, h⟩ := bind_eq_ok_iff.mp h
          obtain ⟨hexplored, hcovered⟩ := ih hnode
          have hpush : middle.Explored registry depth after := explored_push h
          refine ⟨hexplored.trans hpush, Registry.covered_of_calls (by simp) fun other hother => ?_⟩
          cases hother
          exact hcovered.mono hpush.keys
      | object fields policy =>
          obtain ⟨hexplored, hcovered⟩ := explored_object ih h
          refine ⟨hexplored, Registry.covered_of_calls (by simp) fun other hother => ?_⟩
          cases hother with
          | field _ hfield => exact hcovered _ hfield
      | optional inner default? =>
          have hinner : shapeWith registry enter fuel inner before = .ok (id, after) := h
          obtain ⟨hexplored, hcovered⟩ := ih hinner
          refine ⟨hexplored, Registry.covered_of_calls (by simp) fun other hother => ?_⟩
          cases hother
          exact hcovered
      | union shapes =>
          obtain ⟨variants, middle, hvariants, h⟩ := bind_eq_ok_iff.mp h
          obtain ⟨hexplored, hcovered⟩ := explored_variants ih hvariants
          have hpush : middle.Explored registry depth after := explored_push h
          refine ⟨hexplored.trans hpush, Registry.covered_of_calls (by simp) fun other hother => ?_⟩
          cases hother with
          | variant hvariant => exact (hcovered _ hvariant).mono hpush.keys
      | intersection left right =>
          rw [shapeWith] at h
          cases hflatten : registry.flatten (.intersection left right) with
          | some merged =>
              rw [hflatten] at h
              obtain ⟨hexplored, hcovered⟩ := explored_object ih h
              refine ⟨hexplored, Registry.covered_of_calls (by simp) fun other hother => ?_⟩
              cases hother with
              | merged hmerged hfield =>
                  rw [hflatten, Option.some.injEq] at hmerged
                  exact hcovered _ (hmerged ▸ hfield)
              | left hnone => simp [hflatten] at hnone
              | right hnone => simp [hflatten] at hnone
          | none =>
              rw [hflatten] at h
              obtain ⟨leftNode, middle, hleft, h⟩ := bind_eq_ok_iff.mp h
              obtain ⟨rightNode, last, hright, h⟩ := bind_eq_ok_iff.mp h
              obtain ⟨hexplored, hcovered⟩ := ih hleft
              obtain ⟨hexplored', hcovered'⟩ := ih hright
              have hpush : last.Explored registry depth after := explored_push h
              refine ⟨(hexplored.trans hexplored').trans hpush,
                Registry.covered_of_calls (by simp) fun other hother => ?_⟩
              cases hother with
              | merged hmerged => simp [hflatten] at hmerged
              | left => exact (hcovered.mono hexplored'.keys).mono hpush.keys
              | right => exact hcovered'.mono hpush.keys
      | ref key =>
          obtain ⟨hexplored, hkey⟩ := explored_entity henter h
          exact ⟨hexplored, Registry.covered_ref fuel hkey⟩
      | _ =>
          refine ⟨explored_push h, Registry.covered_of_calls (by simp) fun other hother => ?_⟩
          cases hother

theorem explores_shapeWithin (registry : Registry) (depth entities : Nat) :
    Explores registry depth depth (shapeWithin registry depth entities) := by
  induction entities with
  | zero => exact fun h => nomatch h
  | succ entities ih => exact explores_shapeWith ih depth

theorem explores_shape (registry : Registry) (depth : Nat) :
    Explores registry depth depth (shape registry depth) :=
  explores_shapeWithin registry depth (registry.size + 1)

end Build

namespace Registry

variable {registry : Registry}

/-- A compilation that succeeds covers everything that it leads to. -/
theorem covered_of_leads {source shape : Shape} {depth : Nat} {id : NodeId} {after : Builder}
    (h : Build.shape registry depth source .empty = .ok (id, after))
    (hshape : ReflTransGen registry.Leads source shape) :
    registry.Covered after.keys depth shape := by
  obtain ⟨hexplored, hcovered⟩ := Build.explores_shape registry depth h
  induction hshape with
  | refl => exact hcovered
  | tail _ hstep ih =>
      cases hstep with
      | call hcall =>
          cases depth with
          | zero => exact ih.bounded.elim
          | succ depth =>
              have hother := ih.call hcall
              exact ⟨hother.bounded.mono (Nat.le_succ depth), hother.entities⟩
      | entity hfound =>
          have hentered := (hexplored.entered _ (ih.entities _ .refl)).resolve_left
            (by simp [Builder.keys, Builder.empty])
          exact hentered _ hfound

theorem not_endless_of_ok {source : Shape} {depth : Nat} {id : NodeId} {after : Builder}
    (h : Build.shape registry depth source .empty = .ok (id, after)) :
    ¬registry.Endless source := by
  rintro ⟨shape, hshape, hcycle⟩
  exact Chain.not_transGen_self_of_acc (covered_of_leads h hshape).bounded.acc hcycle

theorem four_pow_bound (n : Nat) : n + 2 ≤ Nat.pow 4 (n + 1) := by
  induction n with
  | zero => decide
  | succ n ih =>
      have hpow : Nat.pow 4 (n + 1 + 1) = Nat.pow 4 (n + 1) * 4 := rfl
      omega

/-- The depth that compilation allows is enough. -/
theorem finishes_of_not_endless (hregistry : registry.Indexed) (hapart : registry.MergesApart)
    {key : String} (hends : ¬registry.Endless (.ref key)) :
    Build.complete registry (.ref key) .empty ≠ .error .unfinished := by
  have hdepth : registry.shapes.length + 1 ≤ registry.compileDepth (.ref key) := by
    have hpow := four_pow_bound (registry.weight + 1)
    have hlength := registry.length_shapes_le
    have hweight : (Shape.ref key).weight = 1 := rfl
    rw [compileDepth, hweight]
    omega
  have hbound : ∀ shape, Chain.Bounded (registry.CallsFrom (.ref key))
      (registry.compileDepth (.ref key)) shape :=
    fun shape => (bounded_of_not_endless hregistry hapart hends shape).mono hdepth
  have hends := (Build.prepared_of_bounded hbound).ends_shape ⟨.refl, hbound _⟩
  exact fun hunfinished =>
    (hends .empty (Build.length_missing_le registry .empty)).1 _ hunfinished rfl

/-- A compilation that does not end returns no node: it exceeds every depth, unless it comes to a
key that is not registered before. -/
theorem shape_of_endless {source : Shape} (hendless : registry.Endless source) (depth : Nat) :
    Build.shape registry depth source .empty = .error .unfinished ∨
      ∃ key, registry.shape? key = none ∧ ReflTransGen registry.Leads source (.ref key) ∧
        Build.shape registry depth source .empty = .error (.unknownReference ⟨key⟩) := by
  cases hrun : Build.shape registry depth source .empty with
  | ok result => exact absurd hendless (not_endless_of_ok hrun)
  | error error =>
      cases error with
      | unfinished => exact Or.inl rfl
      | unknownReference unknown =>
          have hends := (Build.prepared_leads registry depth source).ends_shape .refl
          have hblames := (hends .empty (Build.length_missing_le registry .empty)).1 _ hrun
          obtain ⟨hkey, hreached⟩ := hblames unknown.key rfl
          exact Or.inr ⟨unknown.key, hkey, hreached, rfl⟩

end Registry

end EntityContract
