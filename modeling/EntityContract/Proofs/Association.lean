import Mathlib.Data.List.Nodup

/-!
Association lists without a repeated key: looking a key up and being a member are the same.
-/

namespace EntityContract.Association

variable {α : Type}

theorem mem_of_lookup {entries : List (String × α)} {key : String} {value : α}
    (h : entries.lookup key = some value) : (key, value) ∈ entries := by
  obtain ⟨before, after, rfl, -⟩ := List.lookup_eq_some_iff.mp h
  simp

theorem lookup_of_mem {entries : List (String × α)} {key : String} {value : α}
    (hnodup : (entries.map (·.1)).Nodup) (h : (key, value) ∈ entries) :
    entries.lookup key = some value := by
  induction entries with
  | nil => simp at h
  | cons entry entries ih =>
      rw [List.map_cons, List.nodup_cons] at hnodup
      rcases List.mem_cons.mp h with rfl | h
      · simp
      · have hne : key ≠ entry.1 := by
          rintro rfl
          exact hnodup.1 (List.mem_map_of_mem (f := (·.1)) h)
        rw [List.lookup_cons, beq_false_of_ne hne]
        exact ih hnodup.2 h

theorem lookup_eq_some_iff {entries : List (String × α)} {key : String} {value : α}
    (hnodup : (entries.map (·.1)).Nodup) :
    entries.lookup key = some value ↔ (key, value) ∈ entries :=
  ⟨mem_of_lookup, lookup_of_mem hnodup⟩

theorem lookup_eq_none_iff {entries : List (String × α)} {key : String} :
    entries.lookup key = none ↔ key ∉ entries.map (·.1) := by
  rw [List.lookup_eq_none_iff]
  simp only [List.mem_map, not_exists, not_and, bne_iff_ne, ne_eq]
  exact ⟨fun h entry hmem heq => h entry hmem heq.symm,
    fun h entry hmem heq => h entry hmem heq.symm⟩

theorem exists_lookup_of_mem_keys {entries : List (String × α)} {key : String}
    (h : key ∈ entries.map (·.1)) : ∃ value, entries.lookup key = some value := by
  cases hlookup : entries.lookup key with
  | some value => exact ⟨value, rfl⟩
  | none => exact absurd h (lookup_eq_none_iff.mp hlookup)

theorem lookup_map {β : Type} (entries : List (String × α)) (f : String × α → β) (key : String) :
    (entries.map fun entry => (entry.1, f entry)).lookup key =
      (entries.lookup key).map fun value => f (key, value) := by
  induction entries with
  | nil => rfl
  | cons entry entries ih =>
      obtain ⟨other, value⟩ := entry
      rw [List.map_cons, List.lookup_cons, List.lookup_cons]
      by_cases hkey : key = other
      · subst hkey
        simp
      · simp only [beq_false_of_ne hkey, ih]

theorem lookup_filter (entries : List (String × α)) (p : String → Bool) (key : String) :
    (entries.filter fun entry => p entry.1).lookup key =
      if p key then entries.lookup key else none := by
  induction entries with
  | nil => simp
  | cons entry entries ih =>
      obtain ⟨other, value⟩ := entry
      rw [List.filter_cons]
      by_cases hkey : key = other
      · subst hkey
        cases hp : p key <;> simp [hp, ih]
      · cases hp : p other <;> simp [List.lookup_cons, beq_false_of_ne hkey, ih]

/-- Two members under one key are one. -/
theorem eq_of_mem {entries : List (String × α)} {key : String} {value value' : α}
    (hnodup : (entries.map (·.1)).Nodup) (h : (key, value) ∈ entries)
    (h' : (key, value') ∈ entries) : value = value' := by
  have heq := (lookup_of_mem hnodup h).symm.trans (lookup_of_mem hnodup h')
  simpa using heq

end EntityContract.Association
