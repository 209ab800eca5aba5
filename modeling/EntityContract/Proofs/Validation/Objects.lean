import EntityContract.Proofs.Validation.Checking

/-!
What checking an object brings: it is accepted if its members are and no required field is absent,
and the result consists of the members, in their order, and the defaults of absent fields.
-/

namespace EntityContract

namespace FieldNode

theorem mem_of_find? {fields : List FieldNode} {name : String} {field : FieldNode}
    (h : find? fields name = some field) : field ∈ fields ∧ field.name = name := by
  have hname := List.find?_some h
  rw [beq_iff_eq] at hname
  exact ⟨List.mem_of_find?_eq_some h, hname⟩

/-- The defaults of the fields that may be absent and are. -/
def defaults (fields : List FieldNode) (members : Members) : Members :=
  fields.filterMap fun field =>
    if members.contains field.name || field.required then none
    else field.default?.map fun value => (field.name, value)

theorem keys_defaults_sublist (fields : List FieldNode) (members : Members) :
    ((defaults fields members).map (·.1)).Sublist (fields.map (·.name)) := by
  induction fields with
  | nil => exact List.Sublist.refl []
  | cons field fields ih =>
      rw [defaults, List.filterMap_cons, ← defaults]
      split
      · exact ih.cons _
      · rename_i member hmember
        rw [List.map_cons, List.map_cons]
        have hname : member.1 = field.name := by
          split at hmember
          · exact nomatch hmember
          · obtain ⟨value, -, rfl⟩ := Option.map_eq_some_iff.mp hmember
            rfl
        rw [hname]
        exact ih.cons_cons _

theorem mem_defaults_iff {fields : List FieldNode} {members : Members} {key : String}
    {value : Json} :
    (key, value) ∈ defaults fields members ↔ ∃ field ∈ fields, field.name = key ∧
      key ∉ members.map (·.1) ∧ field.required = false ∧ field.default? = some value := by
  rw [defaults, List.mem_filterMap]
  refine exists_congr fun field => and_congr_right fun _ => ?_
  constructor
  · intro h
    split at h
    · exact nomatch h
    · rename_i hneither
      rw [Bool.or_eq_true, not_or, Bool.not_eq_true, Bool.not_eq_true] at hneither
      obtain ⟨value, hvalue, heq⟩ := Option.map_eq_some_iff.mp h
      cases heq
      exact ⟨rfl, Members.contains_eq_false_iff.mp hneither.1, hneither.2, hvalue⟩
  · rintro ⟨rfl, habsent, hrequired, hdefault⟩
    rw [Members.contains_eq_false_iff.mpr habsent, hrequired, hdefault]
    rfl

theorem find?_of_mem {fields : List FieldNode} (hnodup : (fields.map (·.name)).Nodup)
    {field : FieldNode} (h : field ∈ fields) : find? fields field.name = some field := by
  induction fields with
  | nil => exact nomatch h
  | cons head fields ih =>
      rw [List.map_cons, List.nodup_cons] at hnodup
      rw [find?, List.find?_cons]
      rcases List.mem_cons.mp h with rfl | h
      · simp
      · have hne : head.name ≠ field.name := by
          intro heq
          exact hnodup.1 (heq ▸ List.mem_map_of_mem h)
        rw [beq_false_of_ne hne]
        exact ih hnodup.2 h

/-- What is filled in for a field that is absent. -/
def filled? (field : FieldNode) : Option Json :=
  if field.required then none else field.default?

theorem lookup_defaults {fields : List FieldNode} (hnodup : (fields.map (·.name)).Nodup)
    {members : Members} {key : String} (h : key ∉ members.map (·.1)) :
    (defaults fields members).lookup key = (find? fields key).bind filled? := by
  have hdefaults := hnodup.sublist (keys_defaults_sublist fields members)
  apply Option.ext
  intro value
  rw [Association.lookup_eq_some_iff hdefaults, mem_defaults_iff, Option.bind_eq_some_iff]
  constructor
  · rintro ⟨field, hfield, rfl, -, hrequired, hdefault⟩
    refine ⟨field, find?_of_mem hnodup hfield, ?_⟩
    rw [filled?, hrequired]
    exact hdefault
  · rintro ⟨field, hfind, hfilled⟩
    obtain ⟨hfield, hname⟩ := mem_of_find? hfind
    rw [filled?] at hfilled
    split at hfilled
    · exact nomatch hfilled
    · rename_i hrequired
      exact ⟨field, hfield, hname, h, Bool.not_eq_true _ ▸ hrequired, hfilled⟩

theorem disjoint_defaults {fields : List FieldNode} {members : Members} {key : String}
    (h : key ∈ (defaults fields members).map (·.1)) : key ∉ members.map (·.1) := by
  obtain ⟨⟨key, value⟩, hmem, rfl⟩ := List.mem_map.mp h
  obtain ⟨field, -, -, habsent, -⟩ := mem_defaults_iff.mp hmem
  exact habsent

end FieldNode

@[simp] theorem Outcome.output_accept (value : Json) : (accept value).output = value := rfl

@[simp] theorem Outcome.violations_accept (value : Json) : (accept value).violations = [] := rfl

namespace Walk

variable {arena : Arena} {fields : List FieldNode} {policy : UnknownFields} {path : Path}

theorem output_checkRecord {node : NodeId} {members : Members} :
    (checkRecord node path (.obj members) (parts arena (.obj members))).output =
      .obj (members.map fun member =>
        (member.1, (check arena member.2 node (path ++ [.key member.1])).output)) := by
  rw [parts, checkRecord]
  dsimp only
  rw [List.map_map, List.map_map]
  rfl

theorem violations_checkObject_ne_nil {value : Json} (h : ∀ members, value ≠ .obj members) :
    (checkObject fields policy path value (parts arena value)).violations ≠ [] := by
  cases value with
  | obj members => exact absurd rfl (h members)
  | _ => simp [checkObject, Outcome.reject]

theorem flatMap_absentField_fst (fields : List FieldNode) (path : Path) (members : Members) :
    ((fields.filter fun field => !Members.contains field.name members).map
        (absentField path)).flatMap (·.1) = FieldNode.defaults fields members := by
  induction fields with
  | nil => rfl
  | cons field fields ih =>
      rw [FieldNode.defaults, List.filterMap_cons, ← FieldNode.defaults, ← ih, List.filter_cons]
      cases hcontains : Members.contains field.name members with
      | true => simp
      | false =>
          cases hrequired : field.required with
          | true => simp [absentField, hrequired]
          | false => cases hdefault : field.default? <;> simp [absentField, hrequired, hdefault]

theorem absentField_snd_eq_nil_iff {field : FieldNode} :
    (absentField path field).2 = [] ↔ field.required = false := by
  rw [absentField]
  cases field.required with
  | true => simp
  | false => cases field.default? <;> simp

/-- An object is accepted if its declared members are, and no required field is absent. -/
theorem violations_checkObject_eq_nil_iff {members : Members} :
    (checkObject fields policy path (.obj members) (parts arena (.obj members))).violations = [] ↔
      (∀ member ∈ members, (memberOutcome arena fields path member).violations = []) ∧
        ∀ field ∈ fields, field.required = true → field.name ∈ members.map (·.1) := by
  rw [parts, checkObject, memberOutcomes_eq]
  dsimp only
  rw [List.append_eq_nil_iff, List.flatMap_eq_nil_iff, List.flatMap_eq_nil_iff]
  simp only [List.forall_mem_map, List.mem_filter, absentField_snd_eq_nil_iff]
  refine and_congr ⟨fun h member hmem => ?_, fun h member hmem => h member hmem.1⟩
    (forall_congr' fun field => ?_)
  · cases hfield : FieldNode.find? fields member.1 with
    | some field => exact h member ⟨hmem, by simp [hfield]⟩
    | none => simp [memberOutcome, hfield, Outcome.accept]
  · rw [Bool.not_eq_true', Members.contains_eq_false_iff]
    cases field.required <;> simp

/-- The members of the normalized object: the checked ones come first, then the defaults. -/
def objectMembers (arena : Arena) (fields : List FieldNode) (policy : UnknownFields) (path : Path)
    (members : Members) : Members :=
  (members.filter fun member => policy = .passthrough ||
      (FieldNode.find? fields member.1).isSome).map
    (fun member => (member.1, (memberOutcome arena fields path member).output)) ++
  FieldNode.defaults fields members

theorem nodup_objectMembers {members : Members} (hnodup : (fields.map (·.name)).Nodup)
    (hmembers : (members.map (·.1)).Nodup) :
    ((objectMembers arena fields policy path members).map (·.1)).Nodup := by
  rw [objectMembers, List.map_append, List.map_map]
  refine (hmembers.sublist ?_).append
    (hnodup.sublist (FieldNode.keys_defaults_sublist fields members)) ?_
  · exact (List.filter_sublist).map _
  · intro key hkey hmem
    obtain ⟨member, hmember, rfl⟩ := List.mem_map.mp hkey
    exact FieldNode.disjoint_defaults hmem
      (List.mem_map_of_mem (f := (·.1)) (List.mem_of_mem_filter hmember))

/-- Members are kept unless they are stripped, and absent fields are filled in. -/
theorem lookup_objectMembers (hnodup : (fields.map (·.name)).Nodup) (members : Members)
    (key : String) :
    (objectMembers arena fields policy path members).lookup key =
      match members.lookup key with
      | some value =>
        if policy = .passthrough || (FieldNode.find? fields key).isSome then
          some (memberOutcome arena fields path (key, value)).output
        else none
      | none => (FieldNode.find? fields key).bind FieldNode.filled? := by
  rw [objectMembers, List.lookup_append, Association.lookup_map, Association.lookup_filter members
    (fun key => policy = .passthrough || (FieldNode.find? fields key).isSome)]
  cases hlookup : members.lookup key with
  | some value =>
      have hnone : (FieldNode.defaults fields members).lookup key = none := by
        rw [Association.lookup_eq_none_iff]
        intro hkey
        exact FieldNode.disjoint_defaults hkey
          (List.mem_map_of_mem (f := (·.1)) (Association.mem_of_lookup hlookup))
      rw [hnone, Option.or_none]
      dsimp only
      split <;> rfl
  | none =>
      rw [← FieldNode.lookup_defaults hnodup (Association.lookup_eq_none_iff.mp hlookup)]
      simp

theorem output_checkObject {members : Members} (hnodup : (fields.map (·.name)).Nodup) :
    (checkObject fields policy path (.obj members) (parts arena (.obj members))).output =
      .obj (objectMembers arena fields policy path members) := by
  rw [parts, checkObject, memberOutcomes_eq]
  dsimp only
  rw [flatMap_absentField_fst, Members.foldl_insert_eq_append, List.map_map]
  · rfl
  · exact hnodup.sublist (FieldNode.keys_defaults_sublist fields members)
  · intro key hkey hmem
    apply FieldNode.disjoint_defaults hkey
    simp only [List.map_map, List.mem_map, List.mem_filter] at hmem
    obtain ⟨member, ⟨hmem, -⟩, rfl⟩ := hmem
    exact List.mem_map_of_mem (f := (·.1)) hmem

section Fields

variable {labels : List Shape} {nodes : List FieldNode} {declared : Fields}

theorem filled?_eq (h : List.Forall₂ (FieldNode.Fits labels) nodes declared) (key : String) :
    (FieldNode.find? nodes key).bind FieldNode.filled? =
      (declared.lookup key).bind Shape.default? := by
  have hfound := find?_fits h key
  generalize FieldNode.find? nodes key = node? at hfound ⊢
  generalize declared.lookup key = shape? at hfound ⊢
  cases hfound with
  | none => rfl
  | @some node shape hfits =>
      rw [Option.bind_some, Option.bind_some, FieldNode.filled?, hfits.required_eq,
        hfits.default_eq]
      cases hoptional : shape.isOptional with
      | true => rfl
      | false => rw [Shape.default?_of_isOptional_eq_false hoptional]; rfl

theorem memberOutcome_of_lookup_none
    (h : List.Forall₂ (FieldNode.Fits labels) nodes declared) {key : String} {value : Json}
    (hlookup : declared.lookup key = none) :
    memberOutcome arena nodes path (key, value) = .accept value := by
  have hfound := find?_fits h key
  rw [hlookup] at hfound
  rw [memberOutcome]
  generalize FieldNode.find? nodes key = node? at hfound ⊢
  cases hfound
  rfl

theorem exists_memberOutcome_of_lookup (arena : Arena) (path : Path) (value : Json)
    (h : List.Forall₂ (FieldNode.Fits labels) nodes declared) {key : String} {shape : Shape}
    (hlookup : declared.lookup key = some shape) :
    ∃ id, labels[id]? = some shape.present ∧
      memberOutcome arena nodes path (key, value) = check arena value id (path ++ [.key key]) := by
  have hfound := find?_fits h key
  rw [hlookup] at hfound
  rw [memberOutcome]
  generalize FieldNode.find? nodes key = node? at hfound ⊢
  cases hfound with
  | some hfits => exact ⟨_, hfits.label, rfl⟩

end Fields

end Walk

end EntityContract
