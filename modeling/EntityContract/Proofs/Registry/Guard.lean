import EntityContract.Proofs.Chain
import EntityContract.Proofs.Shape.Lowering
import EntityContract.Registry.Basic

/-!
The search for unguarded recursion is complete: it looks as far as there are entities. Hence in a
registry that is indexed no chain of unguarded references comes back.
-/

namespace EntityContract.Registry

open Relation

variable {registry : Registry}

/-- The entity of the one key refers to the other unguarded. -/
def Refers (registry : Registry) (key other : String) : Prop := other ∈ registry.unguarded key

/-- Every shape that occurs in an entity. -/
def shapes (registry : Registry) : List Shape :=
  registry.entities.flatMap fun entity => entity.shape.subshapes

theorem mem_shapes_of_shape? {key : String} {shape : Shape}
    (h : registry.shape? key = some shape) : shape ∈ registry.shapes := by
  obtain ⟨entity, hentity, rfl⟩ := Option.map_eq_some_iff.mp h
  exact List.mem_flatMap.mpr
    ⟨entity, List.mem_of_find?_eq_some hentity, entity.shape.mem_subshapes_self⟩

theorem mem_shapes_of_mem_subshapes {shape inner : Shape} (hshape : shape ∈ registry.shapes)
    (hinner : inner ∈ shape.subshapes) : inner ∈ registry.shapes := by
  obtain ⟨entity, hentity, hshape⟩ := List.mem_flatMap.mp hshape
  exact List.mem_flatMap.mpr ⟨entity, hentity, Shape.mem_subshapes_trans hshape hinner⟩

theorem everywhere_of_mem_shapes {p : Shape → Prop} (h : ∀ shape ∈ registry.shapes, p shape)
    {key : String} {shape : Shape} (hshape : registry.shape? key = some shape) :
    shape.Everywhere p :=
  fun _ hinner => h _ (mem_shapes_of_mem_subshapes (mem_shapes_of_shape? hshape) hinner)

theorem mem_names_of_shape? {key : String} {shape : Shape}
    (h : registry.shape? key = some shape) : key ∈ registry.names := by
  obtain ⟨entity, hentity, -⟩ := Option.map_eq_some_iff.mp h
  have hkey := List.find?_some hentity
  rw [beq_iff_eq] at hkey
  exact List.mem_map.mpr ⟨entity, List.mem_of_find?_eq_some hentity, hkey⟩

theorem refers_iff {key other : String} :
    registry.Refers key other ↔
      ∃ shape, registry.shape? key = some shape ∧ other ∈ shape.unguarded := by
  rw [Refers, unguarded]
  cases registry.shape? key <;> simp

theorem mem_names_of_refers {key other : String} (h : registry.Refers key other) :
    key ∈ registry.names := by
  obtain ⟨shape, hshape, -⟩ := refers_iff.mp h
  exact mem_names_of_shape? hshape

/-- Nothing is referred to that is not among the keys. -/
def Closed (registry : Registry) (keys : List String) : Prop :=
  ∀ key ∈ keys, ∀ other, registry.Refers key other → other ∈ keys

theorem mem_further_iff {keys : List String} {other : String} :
    other ∈ (keys.flatMap registry.unguarded).filter (fun key => !keys.contains key) ↔
      (∃ key ∈ keys, registry.Refers key other) ∧ other ∉ keys := by
  simp [Refers, List.mem_flatMap]

theorem closed_iff_further_eq_nil {keys : List String} :
    registry.Closed keys ↔
      (keys.flatMap registry.unguarded).filter (fun key => !keys.contains key) = [] := by
  rw [List.eq_nil_iff_forall_not_mem]
  simp only [mem_further_iff, not_and, not_not]
  exact ⟨fun h other ⟨key, hkey, hrefers⟩ => h key hkey other hrefers,
    fun h key hkey other hrefers => h other ⟨key, hkey, hrefers⟩⟩

theorem reach_of_closed {keys : List String} (h : registry.Closed keys) (steps : Nat) :
    registry.reach keys steps = keys := by
  cases steps with
  | zero => rfl
  | succ steps =>
      rw [reach]
      simp only [closed_iff_further_eq_nil.mp h, if_pos]

/-- The entities that are not among the keys. -/
def unseen (registry : Registry) (keys : List String) : List String :=
  registry.names.filter fun name => !keys.contains name

theorem mem_unseen_iff {keys : List String} {name : String} :
    name ∈ registry.unseen keys ↔ name ∈ registry.names ∧ name ∉ keys := by
  simp [unseen]

theorem length_unseen_append_lt {keys more : List String} {name : String}
    (hname : name ∈ registry.unseen keys) (hmore : name ∈ more) :
    (registry.unseen (keys ++ more)).length < (registry.unseen keys).length := by
  have heq : registry.unseen (keys ++ more) =
      (registry.unseen keys).filter fun name => !more.contains name := by
    rw [unseen, unseen, List.filter_filter]
    congr 1
    funext other
    simp [Bool.and_comm]
  rw [heq, List.length_filter_lt_length_iff_exists]
  exact ⟨name, hname, by simpa using hmore⟩

/-- A round of the search finds an entity, or the next one finds nothing. -/
theorem closed_or_length_unseen_reach (steps : Nat) (keys : List String) :
    registry.Closed (registry.reach keys steps) ∨
      (registry.unseen (registry.reach keys steps)).length + steps ≤
        (registry.unseen keys).length + 1 := by
  induction steps generalizing keys with
  | zero => exact Or.inr (by rw [reach]; omega)
  | succ steps ih =>
      by_cases hclosed : registry.Closed keys
      · exact Or.inl (by rwa [reach_of_closed hclosed])
      rw [reach]
      simp only [if_neg (closed_iff_further_eq_nil.not.mp hclosed)]
      generalize hfurther : ((keys.flatMap registry.unguarded).filter
        fun key => !keys.contains key).eraseDups = further
      have hmem : ∀ other, other ∈ further ↔
          (∃ key ∈ keys, registry.Refers key other) ∧ other ∉ keys := by
        intro other
        rw [← hfurther, List.mem_eraseDups, mem_further_iff]
      by_cases hnew : ∃ name ∈ further, name ∈ registry.names
      · obtain ⟨name, hname, hregistered⟩ := hnew
        have hunseen : name ∈ registry.unseen keys :=
          mem_unseen_iff.mpr ⟨hregistered, ((hmem name).mp hname).2⟩
        have hlt := length_unseen_append_lt hunseen hname
        exact (ih (keys ++ further)).imp_right fun hle => by omega
      · -- Keys that are not registered refer to nothing.
        have hclosed' : registry.Closed (keys ++ further) := by
          intro key hkey other hrefers
          rcases List.mem_append.mp hkey with hkey | hkey
          · by_cases hother : other ∈ keys
            · exact List.mem_append_left _ hother
            · exact List.mem_append_right _ ((hmem other).mpr ⟨⟨key, hkey, hrefers⟩, hother⟩)
          · exact absurd ⟨key, hkey, mem_names_of_refers hrefers⟩ hnew
        exact Or.inl (by rwa [reach_of_closed hclosed'])

theorem subset_reach (steps : Nat) (keys : List String) : keys ⊆ registry.reach keys steps := by
  induction steps generalizing keys with
  | zero => exact List.Subset.refl keys
  | succ steps ih =>
      rw [reach]
      split
      · exact List.Subset.refl keys
      · exact List.Subset.trans (List.subset_append_left _ _) (ih _)

theorem mem_of_closed {keys : List String} (h : registry.Closed keys) {key other : String}
    (hkey : key ∈ keys) (hpath : ReflTransGen registry.Refers key other) : other ∈ keys := by
  induction hpath with
  | refl => exact hkey
  | tail _ hrefers ih => exact h _ ih _ hrefers

/-- An entity on a cycle of unguarded references is found. -/
theorem isUnguarded_of_transGen {key : String} (h : TransGen registry.Refers key key) :
    registry.isUnguarded key = true := by
  obtain ⟨first, hfirst, hpath⟩ := TransGen.head'_iff.mp h
  have hname := mem_names_of_refers hfirst
  rw [isUnguarded, List.contains_iff_mem]
  generalize hstart : (registry.unguarded key).eraseDups = start
  have hmem : first ∈ start := by
    rw [← hstart, List.mem_eraseDups]
    exact hfirst
  by_cases hclosed : registry.Closed (registry.reach start registry.size)
  · exact mem_of_closed hclosed (subset_reach _ _ hmem) hpath
  -- The search ran to its last round, so it has seen every entity.
  have hlength := (closed_or_length_unseen_reach registry.size start).resolve_left hclosed
  obtain ⟨seen, hseen, hregistered⟩ : ∃ name ∈ start, name ∈ registry.names := by
    by_contra hnone
    have hstartClosed : registry.Closed start := fun name hname' other hrefers =>
      absurd ⟨name, hname', mem_names_of_refers hrefers⟩ hnone
    exact hclosed (by rwa [reach_of_closed hstartClosed])
  have hlt : (registry.unseen start).length < registry.size := by
    have hsize : registry.size = registry.names.length := by simp [size, names]
    rw [hsize, unseen, List.length_filter_lt_length_iff_exists]
    exact ⟨seen, hregistered, by simpa using hseen⟩
  have hnil : registry.unseen (registry.reach start registry.size) = [] :=
    List.eq_nil_of_length_eq_zero (by omega)
  by_contra hnot
  have hunseen := mem_unseen_iff.mpr ⟨hname, hnot⟩
  rw [hnil] at hunseen
  exact nomatch hunseen

/-- What indexing promises: one entity for a name, well-formed shapes, and no chain of unguarded
references that comes back. -/
structure Indexed (registry : Registry) : Prop where
  nodup_names : registry.names.Nodup
  wellFormed_entity : ∀ entity ∈ registry.entities, entity.shape.WellFormed
  acyclic : ∀ key, ¬TransGen registry.Refers key key

theorem Indexed.acc_refers (h : registry.Indexed) (key : String) :
    Acc (fun other key => registry.Refers key other) key :=
  (Chain.bounded_of_acyclic (fun _ _ => mem_names_of_refers) h.acyclic key).acc

theorem Indexed.wellFormed_of_mem_shapes (h : registry.Indexed) {shape : Shape}
    (hshape : shape ∈ registry.shapes) : shape.WellFormed := by
  obtain ⟨entity, hentity, hinner⟩ := List.mem_flatMap.mp hshape
  exact fun _ hinnermost =>
    h.wellFormed_entity entity hentity _ (Shape.mem_subshapes_trans hinner hinnermost)

theorem Indexed.wellFormed (h : registry.Indexed) {key : String} {shape : Shape}
    (hshape : registry.shape? key = some shape) : shape.WellFormed :=
  h.wellFormed_of_mem_shapes (mem_shapes_of_shape? hshape)

theorem readEntries_ok {entities result : List Entity} {entries : List (String × Json)}
    (hproper : ∀ entry ∈ entries, entry.2.Proper) (hnodup : (entities.map (·.name)).Nodup)
    (hwell : ∀ entity ∈ entities, entity.shape.WellFormed)
    (h : readEntries entities entries = .ok result) :
    (result.map (·.name)).Nodup ∧ ∀ entity ∈ result, entity.shape.WellFormed := by
  induction entries generalizing entities with
  | nil =>
      rw [readEntries] at h
      cases h
      exact ⟨hnodup, hwell⟩
  | cons entry entries ih =>
      obtain ⟨name, definition⟩ := entry
      rw [List.forall_mem_cons] at hproper
      rw [readEntries] at h
      split at h
      · exact nomatch h
      split at h
      · exact nomatch h
      rename_i hnew
      split at h
      · rename_i shape hshape
        apply ih hproper.2 _ _ h
        · rw [List.map_append]
          refine hnodup.append (List.nodup_singleton name) ?_
          simpa using hnew
        · intro entity hentity
          rcases List.mem_append.mp hentity with hentity | hentity
          · exact hwell entity hentity
          · rw [List.mem_singleton.mp hentity]
            exact Shape.wellFormed_ofDefinition hproper.1 hshape
      · exact nomatch h

/-- A registry that is indexed from definitions keeps the promises. -/
theorem indexed_of_ofEntries {entries : List (String × Json)}
    (hproper : ∀ entry ∈ entries, entry.2.Proper) (h : ofEntries entries = .ok registry) :
    registry.Indexed := by
  obtain ⟨entities, hentities, h⟩ := bind_eq_ok_iff.mp h
  obtain ⟨hnodup, hwell⟩ := readEntries_ok hproper (by simp) (by simp) hentities
  dsimp only at h
  split at h
  · exact nomatch h
  rename_i hguarded
  cases h
  refine ⟨hnodup, hwell, fun key hcycle => ?_⟩
  obtain ⟨first, hfirst, -⟩ := TransGen.head'_iff.mp hcycle
  obtain ⟨entity, hmem, rfl⟩ := List.mem_map.mp (mem_names_of_refers hfirst)
  exact List.find?_eq_none.mp hguarded entity hmem (isUnguarded_of_transGen hcycle)

end EntityContract.Registry
