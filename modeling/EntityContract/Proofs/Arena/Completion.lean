import EntityContract.Proofs.Arena.Ending

/-!
If all entities can be compiled in one arena, each can be compiled by itself, and all can in any
other order: the calls for one entity are nested no deeper, and come to no other keys.
-/

namespace EntityContract

namespace Registry

/-- How deep the calls that compile an entity may be nested until the next one is entered. -/
def entityDepth (registry : Registry) : Nat := registry.compileDepth (.ref "")

theorem complete_ref (registry : Registry) (key : String) :
    Build.complete registry (.ref key) = Build.shape registry registry.entityDepth (.ref key) := rfl

end Registry

namespace Build

variable {registry : Registry} {before after : Builder} {keys : List String}
  {roots : List (String × NodeId)}

theorem explored_roots (h : Build.roots registry keys before = .ok (roots, after)) :
    before.Explored registry registry.entityDepth after ∧ keys ⊆ after.keys := by
  rw [Build.roots] at h
  induction keys generalizing before roots with
  | nil =>
      rw [List.mapM_nil, pure_eq_ok_iff] at h
      obtain ⟨-, rfl⟩ := h
      exact ⟨Builder.explored_of_entities_eq rfl, List.nil_subset _⟩
  | cons key keys ih =>
      rw [List.mapM_cons, bind_eq_ok_iff] at h
      obtain ⟨root, middle, hroot, h⟩ := h
      obtain ⟨roots, last, hroots, h⟩ := bind_eq_ok_iff.mp h
      obtain ⟨-, rfl⟩ := pure_eq_ok_iff.mp h
      obtain ⟨id, middle', hid, hroot⟩ := bind_eq_ok_iff.mp hroot
      obtain ⟨-, rfl⟩ := pure_eq_ok_iff.mp hroot
      rw [Registry.complete_ref] at hid
      obtain ⟨hexplored, hcovered⟩ := explores_shape registry registry.entityDepth hid
      obtain ⟨hexplored', hkeys⟩ := ih hroots
      have hkey : key ∈ middle'.keys := hcovered.entities key .refl
      exact ⟨hexplored.trans hexplored', List.cons_subset.mpr ⟨hexplored'.keys hkey, hkeys⟩⟩

/-- The entities of a finished arena are registered. -/
theorem keys_subset_names {labels : List Shape}
    (hgrown : Builder.empty.Grown registry [] after labels) : after.keys ⊆ registry.names := by
  intro key hkey
  obtain ⟨slot, hslot⟩ := Association.exists_lookup_of_mem_keys hkey
  have hfits := (labelled_of_grown_empty hgrown).fits (hgrown.labelled.entities.mp hslot)
  generalize Arena.node _ slot = node at hfits
  cases hfits with
  | object href => exact absurd rfl (href key)
  | entity hshape => exact Registry.mem_names_of_shape? hshape

/-- Once entities were compiled, no call for them fails. -/
theorem prepared_of_entered {depth : Nat} (hnames : keys ⊆ registry.names)
    (hentered : ∀ key ∈ keys, ∀ shape, registry.shape? key = some shape →
      registry.Covered keys depth shape) :
    Prepared registry (fun _ => False) depth (registry.Covered keys) := by
  refine ⟨fun hsource => hsource.bounded, fun hsource hcall => hsource.call hcall, ?_,
    fun hkey hshape => hentered _ (hkey.entities _ .refl) _ hshape⟩
  intro n key hkey hnone
  obtain ⟨entity, hentity, hname⟩ := List.mem_map.mp (hnames (hkey.entities key .refl))
  have hfound := List.find?_eq_none.mp (Option.map_eq_none_iff.mp hnone) entity hentity
  exact hfound (beq_iff_eq.mpr hname)

theorem prepared_of_roots (h : Build.roots registry registry.names .empty = .ok (roots, after)) :
    Prepared registry (fun _ => False) registry.entityDepth (registry.Covered registry.names) := by
  obtain ⟨hexplored, hkeys⟩ := explored_roots h
  obtain ⟨labels, hgrown, -⟩ := labels_roots (labelled_empty registry) h
  refine prepared_of_entered (List.Subset.refl _) fun key hkey shape hshape => ?_
  have hentered := (hexplored.entered key (hkeys hkey)).resolve_left
    (by simp [Builder.keys, Builder.empty])
  exact (hentered shape hshape).mono (keys_subset_names hgrown)

theorem prepared_of_shape {depth : Nat} {source : Shape} {id : NodeId}
    (h : Build.shape registry depth source .empty = .ok (id, after)) :
    Prepared registry (fun _ => False) depth (registry.Covered after.keys) := by
  obtain ⟨hexplored, -⟩ := explores_shape registry depth h
  obtain ⟨labels, hgrown, -⟩ := labels_shape registry depth (labelled_empty registry) h
  refine prepared_of_entered (keys_subset_names hgrown) fun key hkey shape hshape => ?_
  exact ((hexplored.entered key hkey).resolve_left (by simp [Builder.keys, Builder.empty]))
    shape hshape

theorem ends_roots {p : CompileError → Prop} {m : Nat}
    (h : ∀ key ∈ keys, Ends registry p m (Build.complete registry (.ref key))) :
    Ends registry p m (Build.roots registry keys) := by
  rw [Build.roots]
  induction keys with
  | nil => exact ends_pure []
  | cons key keys ih =>
      rw [List.forall_mem_cons] at h
      rw [List.mapM_cons]
      have hroot : Ends registry p m (do return (key, ← Build.complete registry (.ref key))) :=
        h.1.bind fun id => ends_pure _
      exact hroot.bind fun root => (ih h.2).bind fun roots => ends_pure _

theorem exists_finish_of_ends {α : Type} {build : Build α}
    (h : Ends registry (fun _ => False) registry.size build) :
    ∃ result, build.finish = .ok result := by
  obtain ⟨hfails, -⟩ := h .empty (length_missing_le registry .empty)
  cases hrun : build .empty with
  | error error => exact (hfails error hrun).elim
  | ok result => exact ⟨(result.1, ⟨result.2.nodes⟩), finish_eq_ok_iff.mpr ⟨result.2, hrun, rfl⟩⟩

/-- If a shape can be compiled, so can everything that it leads to. -/
theorem exists_finish_of_leads {depth : Nat} {source other : Shape} {result : NodeId × Arena}
    (h : (Build.shape registry depth source).finish = .ok result)
    (hother : Relation.ReflTransGen registry.Leads source other) :
    ∃ result, (Build.shape registry depth other).finish = .ok result := by
  obtain ⟨builder, hrun, -⟩ := finish_eq_ok_iff.mp h
  exact exists_finish_of_ends
    ((prepared_of_shape hrun).ends_shape (Registry.covered_of_leads hrun hother))

end Build

namespace Registry

variable {registry : Registry} {set : ValidatorSet}

theorem ends_complete_of_compileAll (h : registry.compileAll = .ok set) {key : String}
    (hkey : key ∈ registry.names) :
    Build.Ends registry (fun _ => False) registry.size (Build.complete registry (.ref key)) := by
  obtain ⟨builder, hrun, -⟩ := Build.finish_eq_ok_iff.mp (compileAll_eq_ok_iff.mp h)
  have hprepared := Build.prepared_of_roots hrun
  rw [complete_ref]
  apply hprepared.ends_shape
  have hdepth : ∃ n, registry.entityDepth = n + 1 :=
    Nat.exists_eq_succ_of_ne_zero (Nat.ne_of_gt (Nat.pow_pos (by decide)))
  obtain ⟨n, hn⟩ := hdepth
  rw [hn]
  exact covered_ref n hkey

/-- If all entities can be compiled, so can each. -/
theorem exists_complete_of_compileAll (h : registry.compileAll = .ok set) {key : String}
    (hkey : key ∈ registry.names) :
    ∃ result, (Build.complete registry (.ref key)).finish = .ok result :=
  Build.exists_finish_of_ends (ends_complete_of_compileAll h hkey)

/-- If all entities can be compiled, so can they be in another order. -/
theorem exists_roots_of_compileAll (h : registry.compileAll = .ok set) {keys : List String}
    (hkeys : keys ⊆ registry.names) : ∃ result, (Build.roots registry keys).finish = .ok result :=
  Build.exists_finish_of_ends
    (Build.ends_roots fun _ hkey => ends_complete_of_compileAll h (hkeys hkey))

/-- However deep the calls may be nested: compiling the shape ends with this validator. -/
def CompilesTo (registry : Registry) (shape : Shape) (validator : Validator) : Prop :=
  ∃ depth, (Build.shape registry depth shape).finish = .ok (validator.root, validator.arena)

section CompilesTo

variable {shape other : Shape} {validator : Validator}

theorem compilesTo_of_compileShape (h : registry.compileShape shape = .ok validator) :
    registry.CompilesTo shape validator := by
  obtain ⟨⟨root, arena⟩, hfinish, h⟩ := bind_eq_ok_iff.mp h
  cases h
  exact ⟨_, hfinish⟩

theorem compilesTo_of_compile {key : String} (h : registry.compile key = .ok validator) :
    registry.CompilesTo (.ref key) validator := by
  obtain ⟨⟨root, arena⟩, hfinish, h⟩ := bind_eq_ok_iff.mp h
  cases h
  exact ⟨_, hfinish⟩

theorem CompilesTo.checks (h : registry.CompilesTo shape validator) :
    validator.arena.Checks registry validator.root shape.present :=
  h.elim fun _ hfinish => Build.checks_of_finish hfinish

/-- Everything that the shape leads to has a validator, too. -/
theorem CompilesTo.exists_of_leads (h : registry.CompilesTo shape validator)
    (hother : Relation.ReflTransGen registry.Leads shape other) :
    ∃ own, registry.CompilesTo other own := by
  obtain ⟨depth, hfinish⟩ := h
  obtain ⟨⟨root, arena⟩, hown⟩ := Build.exists_finish_of_leads hfinish hother
  exact ⟨⟨arena, root, none⟩, depth, hown⟩

end CompilesTo

end Registry

end EntityContract
