import Mathlib.Algebra.BigOperators.Group.List.Basic
import EntityContract.Proofs.Arena.Building

/-!
The order of the definitions does not matter: definitions that are indexed in one order are indexed
in every other, and what is compiled of a shape is the same.
-/

namespace EntityContract

open Relation

namespace Registry

variable {registry registry' : Registry}

/-- The entity is what the entry is read as. -/
structure Reads (entry : String × Json) (entity : Entity) : Prop where
  name_eq : entity.name = entry.1
  definition_eq : entity.definition = entry.2
  not_blank : isBlankText entry.1 = false
  shape : Shape.ofDefinition entry.2 = .ok entity.shape

theorem readEntries_eq_ok_iff {entities result : List Entity} {entries : List (String × Json)}
    (hnodup : (entities.map (·.name)).Nodup) :
    readEntries entities entries = .ok result ↔
      ∃ added, result = entities ++ added ∧ List.Forall₂ Reads entries added ∧
        (result.map (·.name)).Nodup := by
  induction entries generalizing entities with
  | nil =>
      rw [readEntries, Except.ok.injEq]
      constructor
      · rintro rfl
        exact ⟨[], (List.append_nil _).symm, .nil, hnodup⟩
      · rintro ⟨_, rfl, hadded, -⟩
        cases hadded
        exact (List.append_nil _).symm
  | cons entry entries ih =>
      obtain ⟨name, definition⟩ := entry
      rw [readEntries]
      constructor
      · intro h
        split at h
        · cases h
        rename_i hblank
        split at h
        · cases h
        rename_i hnew
        split at h
        · rename_i shape hshape
          have hnodup' :
              ((entities ++ [(⟨name, definition, shape⟩ : Entity)]).map (·.name)).Nodup := by
            rw [List.map_append]
            refine hnodup.append (List.nodup_singleton name) ?_
            simpa using hnew
          obtain ⟨added, rfl, hadded, hresult⟩ := (ih hnodup').mp h
          refine ⟨⟨name, definition, shape⟩ :: added, List.append_assoc _ _ _, .cons ?_ hadded,
            hresult⟩
          exact ⟨rfl, rfl, Bool.not_eq_true _ ▸ hblank, hshape⟩
        · cases h
      · rintro ⟨_, rfl, hadded, hresult⟩
        cases hadded with
        | @cons _ entity _ added hread hadded =>
            obtain ⟨name', definition', shape⟩ := entity
            obtain ⟨rfl, rfl, hblank, hshape⟩ := hread
            have hnodup' :
                ((entities ++ [(⟨name', definition', shape⟩ : Entity)]).map (·.name)).Nodup := by
              rw [List.append_cons, List.map_append] at hresult
              exact (List.nodup_append.mp hresult).1
            have hnew : ¬(entities.any (·.name == name')) = true := by
              rw [List.map_append, List.nodup_append] at hnodup'
              rw [List.any_eq_true]
              rintro ⟨entity, hmem, heq⟩
              exact hnodup'.2.2 name' (List.mem_map.mpr ⟨entity, hmem, beq_iff_eq.mp heq⟩) name'
                (by simp) rfl
            rw [if_neg (Bool.not_eq_true _ ▸ hblank), if_neg hnew, hshape]
            refine (ih hnodup').mpr ⟨added, List.append_cons _ _ _, hadded, hresult⟩

/-- What the search finds can be reached. -/
theorem exists_of_mem_reach {steps : Nat} {keys : List String} {other : String}
    (h : other ∈ registry.reach keys steps) :
    ∃ key ∈ keys, ReflTransGen registry.Refers key other := by
  induction steps generalizing keys with
  | zero => exact ⟨other, h, .refl⟩
  | succ steps ih =>
      rw [reach] at h
      split at h
      · exact ⟨other, h, .refl⟩
      · obtain ⟨key, hkey, hpath⟩ := ih h
        rcases List.mem_append.mp hkey with hkey | hkey
        · exact ⟨key, hkey, hpath⟩
        · rw [List.mem_eraseDups, mem_further_iff] at hkey
          obtain ⟨⟨first, hfirst, hrefers⟩, -⟩ := hkey
          exact ⟨first, hfirst, hpath.head hrefers⟩

theorem isUnguarded_iff {key : String} :
    registry.isUnguarded key = true ↔ TransGen registry.Refers key key := by
  refine ⟨fun h => ?_, isUnguarded_of_transGen⟩
  rw [isUnguarded, List.contains_iff_mem] at h
  obtain ⟨first, hfirst, hpath⟩ := exists_of_mem_reach h
  exact TransGen.head' (List.mem_eraseDups.mp hfirst) hpath

theorem find?_isUnguarded_eq_none_iff :
    registry.entities.find? (fun entity => registry.isUnguarded entity.name) = none ↔
      ∀ key, ¬TransGen registry.Refers key key := by
  simp only [List.find?_eq_none, isUnguarded_iff]
  refine ⟨fun h key hcycle => ?_, fun h entity _ => h entity.name⟩
  obtain ⟨first, hfirst, -⟩ := TransGen.head'_iff.mp hcycle
  obtain ⟨entity, hmem, rfl⟩ := List.mem_map.mp (mem_names_of_refers hfirst)
  exact h entity hmem hcycle

/-- What is indexed, without reference to the order in which it is. -/
theorem ofEntries_eq_ok_iff {entries : List (String × Json)} :
    ofEntries entries = .ok registry ↔ List.Forall₂ Reads entries registry.entities ∧
      registry.names.Nodup ∧ ∀ key, ¬TransGen registry.Refers key key := by
  have hread : ∀ entities, readEntries [] entries = .ok entities ↔
      List.Forall₂ Reads entries entities ∧ (entities.map (·.name)).Nodup := by
    intro entities
    have hempty : (([] : List Entity).map (·.name)).Nodup := List.nodup_nil
    rw [readEntries_eq_ok_iff hempty]
    constructor
    · rintro ⟨added, rfl, hadded, hnodup⟩
      exact ⟨hadded, hnodup⟩
    · exact fun ⟨hentities, hnodup⟩ => ⟨entities, rfl, hentities, hnodup⟩
  rw [ofEntries, bind_eq_ok_iff]
  constructor
  · rintro ⟨entities, hentities, h⟩
    dsimp only at h
    split at h
    · exact nomatch h
    · rename_i hnone
      cases h
      obtain ⟨hreads, hnodup⟩ := (hread _).mp hentities
      exact ⟨hreads, hnodup, find?_isUnguarded_eq_none_iff.mp hnone⟩
  · rintro ⟨hentities, hnodup, hacyclic⟩
    refine ⟨registry.entities, (hread _).mpr ⟨hentities, hnodup⟩, ?_⟩
    dsimp only
    split
    · rename_i entity hfound
      rw [find?_isUnguarded_eq_none_iff.mpr hacyclic] at hfound
      exact nomatch hfound
    · rfl

/-- It is enough to read each definition by itself. -/
theorem ofEntries_of_reads {entries : List (String × Json)}
    (hreads : List.Forall₂ Reads entries registry.entities) (hnodup : registry.names.Nodup)
    (hguarded : registry.entities.find? (fun entity => registry.isUnguarded entity.name) = none) :
    ofEntries entries = .ok registry :=
  ofEntries_eq_ok_iff.mpr ⟨hreads, hnodup, find?_isUnguarded_eq_none_iff.mp hguarded⟩

theorem get?_eq_some_iff (hnodup : registry.names.Nodup) {key : String} {entity : Entity} :
    registry.get? key = some entity ↔ entity ∈ registry.entities ∧ entity.name = key := by
  rw [get?]
  constructor
  · intro h
    have hname := List.find?_some h
    exact ⟨List.mem_of_find?_eq_some h, beq_iff_eq.mp hname⟩
  rintro ⟨hmem, rfl⟩
  rw [names] at hnodup
  generalize registry.entities = entities at hnodup hmem ⊢
  induction entities with
  | nil => cases hmem
  | cons head entities ih =>
      rw [List.map_cons, List.nodup_cons] at hnodup
      rw [List.find?_cons]
      rcases List.mem_cons.mp hmem with rfl | hmem
      · rw [beq_self_eq_true]
      · have hne : head.name ≠ entity.name :=
          fun heq => hnodup.1 (List.mem_map.mpr ⟨entity, hmem, heq.symm⟩)
        rw [beq_false_of_ne hne]
        exact ih hnodup.2 hmem

section Perm

variable (hnodup : registry.names.Nodup) (hperm : registry.entities.Perm registry'.entities)

include hperm

theorem names_perm : registry.names.Perm registry'.names := hperm.map _

theorem size_eq_of_perm : registry.size = registry'.size := hperm.length_eq

theorem weight_eq_of_perm : registry.weight = registry'.weight := by
  have hsum : ∀ registry : Registry, registry.weight =
      (registry.entities.map fun entity => entity.shape.weight + 1).sum := by
    intro registry
    rw [weight]
    induction registry.entities with
    | nil => rfl
    | cons entity entities ih => rw [List.foldr_cons, List.map_cons, List.sum_cons, ih]
  rw [hsum, hsum, (hperm.map _).sum_eq]

include hnodup

theorem shape?_eq_of_perm : registry.shape? = registry'.shape? := by
  funext key
  have hnodup' : registry'.names.Nodup := (names_perm hperm).nodup_iff.mp hnodup
  have hget : registry.get? key = registry'.get? key := by
    ext entity
    rw [get?_eq_some_iff hnodup, get?_eq_some_iff hnodup', hperm.mem_iff]
  rw [shape?, shape?, hget]

theorem refers_eq_of_perm : registry.Refers = registry'.Refers := by
  funext key other
  rw [Refers, Refers, unguarded, unguarded, shape?_eq_of_perm hnodup hperm]

theorem flatten_eq_of_perm : registry.flatten = registry'.flatten := by
  have hfollow : ∀ rounds onTheWay,
      registry.follow onTheWay rounds = registry'.follow onTheWay rounds := by
    intro rounds
    induction rounds with
    | zero => exact fun _ => rfl
    | succ rounds ih =>
        intro onTheWay
        funext key
        rw [follow, follow, shape?_eq_of_perm hnodup hperm, ih]
  funext shape
  rw [flatten, flatten, size_eq_of_perm hperm, hfollow]

theorem shapeWith_eq_of_perm (enter : Shape → Build NodeId) (fuel : Nat) :
    Build.shapeWith registry enter fuel = Build.shapeWith registry' enter fuel := by
  have hentity : Build.entity registry enter = Build.entity registry' enter := by
    funext key builder
    rw [Build.entity_apply, Build.entity_apply, shape?_eq_of_perm hnodup hperm]
  have hflatten := flatten_eq_of_perm hnodup hperm
  induction fuel with
  | zero => rfl
  | succ fuel ih =>
      funext source
      cases source <;> simp only [Build.shapeWith, ih, hentity, hflatten]

theorem complete_eq_of_perm : Build.complete registry = Build.complete registry' := by
  have hwithin : ∀ depth entities,
      Build.shapeWithin registry depth entities = Build.shapeWithin registry' depth entities := by
    intro depth entities
    induction entities with
    | zero => rfl
    | succ entities ih =>
        funext source
        rw [Build.shapeWithin, Build.shapeWithin, ih, shapeWith_eq_of_perm hnodup hperm]
  funext source
  rw [Build.complete, Build.complete, Build.shape, Build.shape, compileDepth, compileDepth,
    weight_eq_of_perm hperm, size_eq_of_perm hperm, hwithin]

end Perm

/-- Definitions are indexed in every order if they are in one. -/
theorem exists_ofEntries_of_perm {entries entries' : List (String × Json)}
    (h : ofEntries entries = .ok registry) (hperm : entries.Perm entries') :
    ∃ registry', ofEntries entries' = .ok registry' ∧
      registry.entities.Perm registry'.entities := by
  obtain ⟨hentities, hnodup, hacyclic⟩ := ofEntries_eq_ok_iff.mp h
  obtain ⟨entities', hentities', hperm'⟩ := List.perm_comp_forall₂ hperm.symm hentities
  have hentities : registry.entities.Perm (Registry.mk entities').entities := hperm'.symm
  refine ⟨⟨entities'⟩, ofEntries_eq_ok_iff.mpr ⟨hentities', ?_, ?_⟩, hentities⟩
  · exact (names_perm hentities).nodup_iff.mp hnodup
  · rwa [← refers_eq_of_perm hnodup hentities]

end Registry

end EntityContract
