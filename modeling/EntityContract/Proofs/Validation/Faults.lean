import EntityContract.Proofs.Json.Difference
import EntityContract.Proofs.Validation.Objects
import EntityContract.Proofs.Validation.Position

/-!
The violations of arrays, records and objects, part by part. Each part is at another step, so what
is told of one is apart from what is told of the others; and mending a document at all paths that
are reported mends each part at the paths that are reported of it.
-/

namespace EntityContract

namespace Violation

/-- The violations of parts in a value, each at the step to its part. -/
def gather (faults : List (Segment × List Violation)) : List Violation :=
  faults.flatMap fun fault => fault.2.map (·.under fault.1)

variable {faults : List (Segment × List Violation)} {segment : Segment}
  {violations : List Violation}

theorem gather_append (faults others : List (Segment × List Violation)) :
    gather (faults ++ others) = gather faults ++ gather others := List.flatMap_append

theorem mem_gather_iff {violation : Violation} :
    violation ∈ gather faults ↔ ∃ segment violations inner, (segment, violations) ∈ faults ∧
      inner ∈ violations ∧ violation = inner.under segment := by
  simp only [gather, List.mem_flatMap, List.mem_map]
  constructor
  · rintro ⟨fault, hfault, inner, hinner, rfl⟩
    exact ⟨fault.1, fault.2, inner, hfault, hinner, rfl⟩
  · rintro ⟨segment, violations, inner, hfault, hinner, rfl⟩
    exact ⟨(segment, violations), hfault, inner, hinner, rfl⟩

/-- A path that is gathered starts with the step to its part. -/
theorem exists_of_mem_paths_gather {reported : Path} (h : reported ∈ (gather faults).map (·.path)) :
    ∃ segment violations inner, (segment, violations) ∈ faults ∧ inner ∈ violations ∧
      reported = segment :: inner.path := by
  obtain ⟨violation, hviolation, rfl⟩ := List.mem_map.mp h
  obtain ⟨segment, violations, inner, hfault, hinner, rfl⟩ := mem_gather_iff.mp hviolation
  exact ⟨segment, violations, inner, hfault, hinner, rfl⟩

theorem nil_not_mem_paths_gather : [] ∉ (gather faults).map (·.path) := by
  intro h
  obtain ⟨_, _, _, -, -, hpath⟩ := exists_of_mem_paths_gather h
  exact nomatch hpath

theorem pairwise_apart_gather (hnodup : (faults.map (·.1)).Nodup)
    (h : ∀ fault ∈ faults, (fault.2.map (·.path)).Pairwise Path.Apart) :
    ((gather faults).map (·.path)).Pairwise Path.Apart := by
  rw [gather, List.map_flatMap, List.pairwise_flatMap]
  refine ⟨fun fault hfault => ?_, ?_⟩
  · have hpairwise := (h fault hfault).map (fault.1 :: ·) fun _ _ hapart => hapart.cons fault.1
    rwa [List.map_map] at hpairwise ⊢
  · refine (List.pairwise_map.mp hnodup).imp fun hne path hpath other hother => ?_
    obtain ⟨_, hviolation, rfl⟩ := List.mem_map.mp hpath
    obtain ⟨_, hviolation', rfl⟩ := List.mem_map.mp hother
    obtain ⟨inner, -, rfl⟩ := List.mem_map.mp hviolation
    obtain ⟨inner', -, rfl⟩ := List.mem_map.mp hviolation'
    exact Path.apart_of_ne hne _ _

section Mending

variable {value other part : Json}

/-- Two faults at one step are one. -/
theorem violations_eq_of_mem (hnodup : (faults.map (·.1)).Nodup)
    (h : (segment, violations) ∈ faults) {others : List Violation}
    (h' : (segment, others) ∈ faults) : violations = others :=
  congrArg Prod.snd (List.inj_on_of_nodup_map hnodup h h' rfl)

/-- A part of the one value has a counterpart in the other, which agrees with it off the paths that
are reported of the part. -/
theorem exists_part_of_agreesOff (hnodup : (faults.map (·.1)).Nodup)
    (hfault : (segment, violations) ∈ faults)
    (hother : value.AgreesOff ((gather faults).map (·.path)) other)
    (hfound : ∀ violation ∈ gather faults, (other.follow? violation.path).isSome)
    (hpart : value.enter? segment = some part) :
    ∃ otherPart, other.enter? segment = some otherPart ∧
      part.AgreesOff (violations.map (·.path)) otherPart := by
  have hfurther : ∀ reported ∈ (gather faults).map (·.path), ∀ path,
      reported <+: segment :: path → ∃ further ∈ violations.map (·.path), further <+: path := by
    intro reported hreported path hprefix
    obtain ⟨segment', violations', inner, hfault', hinner, rfl⟩ :=
      exists_of_mem_paths_gather hreported
    obtain ⟨rfl, hrest⟩ := List.cons_prefix_cons.mp hprefix
    rw [violations_eq_of_mem hnodup hfault hfault']
    exact ⟨inner.path, List.mem_map_of_mem hinner, hrest⟩
  -- Either the part itself is reported, and then something is found there, or it is kept.
  have henter : ∃ otherPart, other.enter? segment = some otherPart := by
    by_cases hroot : [] ∈ violations.map (·.path)
    · obtain ⟨inner, hinner, hpath⟩ := List.mem_map.mp hroot
      have hsome := hfound _ (mem_gather_iff.mpr ⟨_, _, _, hfault, hinner, rfl⟩)
      rw [under, hpath, Json.follow?_singleton] at hsome
      exact Option.isSome_iff_exists.mp hsome
    · have hrel := hother.enter? fun reported hreported hprefix => by
        obtain ⟨further, hmem, hnil⟩ := hfurther reported hreported [] hprefix
        exact hroot (List.prefix_nil.mp hnil ▸ hmem)
      rw [hpart] at hrel
      generalize other.enter? segment = other? at hrel ⊢
      cases hrel with
      | some _ => exact ⟨_, rfl⟩
  obtain ⟨otherPart, hotherPart⟩ := henter
  exact ⟨otherPart, hotherPart, hother.of_enter? hpart hotherPart hfurther⟩

/-- Nothing is added where nothing is reported. -/
theorem enter?_eq_none_of_agreesOff (hsegment : segment ∉ faults.map (·.1))
    (hother : value.AgreesOff ((gather faults).map (·.path)) other)
    (hpart : value.enter? segment = none) : other.enter? segment = none := by
  have hrel := hother.enter? fun reported hreported hprefix => by
    obtain ⟨segment', violations', inner, hfault, hinner, rfl⟩ :=
      exists_of_mem_paths_gather hreported
    obtain ⟨rfl, -⟩ := List.cons_prefix_cons.mp hprefix
    exact hsegment (List.mem_map_of_mem (f := (·.1)) hfault)
  rw [hpart] at hrel
  generalize other.enter? segment = other? at hrel ⊢
  cases hrel
  rfl

end Mending

end Violation

namespace Walk

variable {arena : Arena} {node : NodeId}

/-- What is reported of the elements of an array. -/
def itemFaults (arena : Arena) (node : NodeId) (items : List Json) :
    List (Segment × List Violation) :=
  items.zipIdx.map fun item => (.index item.2, (check arena item.1 node []).violations)

/-- What is reported of the members of a record. -/
def recordFaults (arena : Arena) (node : NodeId) (members : Members) :
    List (Segment × List Violation) :=
  members.map fun member => (.key member.1, (check arena member.2 node []).violations)

/-- What is reported of the declared members of an object. -/
def memberFaults (arena : Arena) (fields : List FieldNode) (members : Members) :
    List (Segment × List Violation) :=
  members.filterMap fun member => (FieldNode.find? fields member.1).map fun field =>
    (.key member.1, (check arena member.2 field.node []).violations)

/-- What is reported of the fields that an object requires and that are missing. -/
def missingFaults (fields : List FieldNode) (members : Members) : List (Segment × List Violation) :=
  (fields.filter fun field => field.required && !Members.contains field.name members).map
    fun field => (.key field.name, [⟨[], .missing, []⟩])

theorem violations_checkArray (items : List Json) :
    (checkArray node [] (.arr items) (parts arena (.arr items))).violations =
      Violation.gather (itemFaults arena node items) := by
  rw [parts, checkArray, itemOutcomes_eq, itemFaults, Violation.gather]
  simp only [List.flatMap_map, List.nil_append, check_cons, Outcome.under]

theorem violations_checkRecord (members : Members) :
    (checkRecord node [] (.obj members) (parts arena (.obj members))).violations =
      Violation.gather (recordFaults arena node members) := by
  rw [parts, checkRecord, recordFaults, Violation.gather]
  simp only [List.map_map, List.flatMap_map, Function.comp_def, List.nil_append, check_cons,
    Outcome.under]

theorem violations_memberOutcome (fields : List FieldNode) (member : String × Json) :
    (memberOutcome arena fields [] member).violations =
      Violation.gather (memberFaults arena fields [member]) := by
  rw [memberOutcome, memberFaults, List.filterMap_cons, List.filterMap_nil]
  cases FieldNode.find? fields member.1 with
  | none => rfl
  | some field =>
      dsimp only
      rw [List.nil_append, check_cons]
      exact (List.append_nil _).symm

theorem violations_memberOutcomes (fields : List FieldNode) (policy : UnknownFields)
    (members : Members) :
    (memberOutcomes fields policy [] members
        (members.map fun member => (member.1, check arena member.2))).flatMap (·.2.violations) =
      Violation.gather (memberFaults arena fields members) := by
  rw [flatMap_memberOutcomes]
  induction members with
  | nil => rfl
  | cons member members ih =>
      have hsplit : memberFaults arena fields (member :: members) =
          memberFaults arena fields [member] ++ memberFaults arena fields members :=
        List.filterMap_append (l := [member])
      rw [hsplit, Violation.gather_append, ← violations_memberOutcome, ← ih, List.flatMap_cons]

theorem violations_absentFields (fields : List FieldNode) (members : Members) :
    ((fields.filter fun field => !Members.contains field.name members).map
        (absentField [])).flatMap (·.2) =
      Violation.gather (missingFaults fields members) := by
  rw [missingFaults, ← List.filter_filter]
  induction fields.filter fun field => !Members.contains field.name members with
  | nil => rfl
  | cons field absent ih =>
      rw [List.map_cons, List.flatMap_cons, ih, List.filter_cons]
      split
      · rename_i hrequired
        rw [absentField, if_pos hrequired]
        rfl
      · rename_i hoptional
        rw [absentField_snd_eq_nil_iff.mpr (Bool.not_eq_true _ ▸ hoptional), List.nil_append]

theorem violations_checkObject (fields : List FieldNode) (policy : UnknownFields)
    (members : Members) :
    (checkObject fields policy [] (.obj members) (parts arena (.obj members))).violations =
      Violation.gather (memberFaults arena fields members ++ missingFaults fields members) := by
  rw [Violation.gather_append, ← violations_memberOutcomes fields policy, ← violations_absentFields]
  rfl

section Steps

variable {fields : List FieldNode} {items : List Json} {members : Members} {segment : Segment}
  {violations : List Violation}

theorem mem_itemFaults_iff : (segment, violations) ∈ itemFaults arena node items ↔
    ∃ position item, items[position]? = some item ∧ segment = .index position ∧
      violations = (check arena item node []).violations := by
  rw [itemFaults, List.mem_map]
  constructor
  · rintro ⟨⟨item, position⟩, hitem, heq⟩
    cases heq
    exact ⟨position, item, List.mem_zipIdx_iff_getElem?.mp hitem, rfl, rfl⟩
  · rintro ⟨position, item, hitem, rfl, rfl⟩
    exact ⟨(item, position), List.mem_zipIdx_iff_getElem?.mpr hitem, rfl⟩

theorem mem_recordFaults_iff : (segment, violations) ∈ recordFaults arena node members ↔
    ∃ member ∈ members, segment = .key member.1 ∧
      violations = (check arena member.2 node []).violations := by
  rw [recordFaults, List.mem_map]
  constructor
  · rintro ⟨member, hmember, heq⟩
    cases heq
    exact ⟨member, hmember, rfl, rfl⟩
  · rintro ⟨member, hmember, rfl, rfl⟩
    exact ⟨member, hmember, rfl⟩

theorem mem_memberFaults_iff : (segment, violations) ∈ memberFaults arena fields members ↔
    ∃ member ∈ members, ∃ field, FieldNode.find? fields member.1 = some field ∧
      segment = .key member.1 ∧ violations = (check arena member.2 field.node []).violations := by
  rw [memberFaults, List.mem_filterMap]
  refine exists_congr fun member => and_congr_right fun _ => ?_
  rw [Option.map_eq_some_iff]
  refine exists_congr fun field => and_congr_right fun _ => ?_
  rw [Prod.mk.injEq]
  exact and_congr eq_comm eq_comm

theorem mem_missingFaults_iff : (segment, violations) ∈ missingFaults fields members ↔
    ∃ field ∈ fields, field.required = true ∧ field.name ∉ members.map (·.1) ∧
      segment = .key field.name ∧ violations = [⟨[], .missing, []⟩] := by
  simp only [missingFaults, List.mem_map, List.mem_filter, Bool.and_eq_true, Bool.not_eq_true',
    Members.contains_eq_false_iff, Prod.mk.injEq]
  constructor
  · rintro ⟨field, ⟨hfield, hrequired, habsent⟩, rfl, rfl⟩
    exact ⟨field, hfield, hrequired, habsent, rfl, rfl⟩
  · rintro ⟨field, hfield, hrequired, habsent, rfl, rfl⟩
    exact ⟨field, ⟨hfield, hrequired, habsent⟩, rfl, rfl⟩

theorem nodup_itemFaults : ((itemFaults arena node items).map (·.1)).Nodup := by
  have hpositions : (items.zipIdx.map (·.2)).Nodup := by
    rw [List.zipIdx_map_snd]
    exact List.nodup_range'
  have hsteps := hpositions.map (f := Segment.index) fun _ _ h => Segment.index.inj h
  rw [List.map_map] at hsteps
  rwa [itemFaults, List.map_map]

theorem nodup_recordFaults (h : (members.map (·.1)).Nodup) :
    ((recordFaults arena node members).map (·.1)).Nodup := by
  have hsteps := h.map (f := Segment.key) fun _ _ h => Segment.key.inj h
  rw [List.map_map] at hsteps
  rwa [recordFaults, List.map_map]

/-- A field that is missing is not among the members. -/
theorem nodup_objectFaults (hfields : (fields.map (·.name)).Nodup)
    (hmembers : (members.map (·.1)).Nodup) :
    ((memberFaults arena fields members ++ missingFaults fields members).map (·.1)).Nodup := by
  rw [List.map_append]
  refine List.Nodup.append ?_ ?_ fun segment hpresent hmissing => ?_
  · refine List.pairwise_map.mpr ((List.pairwise_map.mp hmembers).filterMap _ ?_)
    intro member other hne fault hfault fault' hfault'
    obtain ⟨_, -, rfl⟩ := Option.map_eq_some_iff.mp hfault
    obtain ⟨_, -, rfl⟩ := Option.map_eq_some_iff.mp hfault'
    exact fun h => hne (Segment.key.inj h)
  · rw [missingFaults, List.map_map]
    exact List.pairwise_map.mpr (((List.pairwise_map.mp hfields).filter _).imp fun hne h =>
      hne (Segment.key.inj h))
  · obtain ⟨⟨_, violations⟩, hfault, rfl⟩ := List.mem_map.mp hpresent
    obtain ⟨⟨_, others⟩, hother, heq⟩ := List.mem_map.mp hmissing
    obtain ⟨member, hmember, -, -, hsegment, -⟩ := mem_memberFaults_iff.mp hfault
    obtain ⟨field, -, -, hname, hsegment', -⟩ := mem_missingFaults_iff.mp hother
    have hkey : field.name = member.1 :=
      Segment.key.inj (hsegment'.symm.trans (heq.trans hsegment))
    exact hname (hkey ▸ List.mem_map_of_mem (f := (·.1)) hmember)

end Steps

end Walk

end EntityContract
