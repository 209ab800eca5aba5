import EntityContract.Proofs.Arena.Reach
import EntityContract.Proofs.Validation.Acceptance
import EntityContract.Proofs.Validation.Faults
import EntityContract.Proofs.Validator

/-!
One walk reports every violation, and each once. No path that is reported leads through another one,
each is governed by one node, and whoever puts values there that these nodes accept, and changes
nothing else, has a document that is accepted.
-/

namespace EntityContract

/-- The node that looks at the part at one step. -/
def Node.child? : Node → Segment → Option NodeId
  | .array item, .index _ => some item
  | .record item, .key _ => some item
  | .object fields _, .key name => (FieldNode.find? fields name).map (·.node)
  | _, _ => none

/-- Either nothing is told of a value, or one thing of the value as a whole. -/
def Outcome.Whole (outcome : Outcome) : Prop :=
  outcome.violations = [] ∨ ∃ fault, outcome.violations = [⟨[], fault, []⟩]

namespace Arena

variable {arena : Arena} {id node other target child : NodeId} {segment : Segment} {path : Path}
  {key : String}

/-- The second node looks at the parts at one step in the values that the first one looks at. -/
inductive Enters (arena : Arena) : NodeId → Segment → NodeId → Prop
  | child {id child : NodeId} {segment : Segment} :
      (arena.node id).child? segment = some child → Enters arena id segment child
  | entity {id target child : NodeId} {key : String} {segment : Segment} :
      arena.node id = .entity key target → Enters arena target segment child →
        Enters arena id segment child

/-- The second node looks at what a path leads to in the values that the first one looks at. -/
inductive Governs (arena : Arena) : NodeId → Path → NodeId → Prop
  | here (id : NodeId) : Governs arena id [] id
  | step {id child node : NodeId} {segment : Segment} {path : Path} :
      arena.Enters id segment child → Governs arena child path node →
        Governs arena id (segment :: path) node

theorem enters_entity_iff (hnode : arena.node id = .entity key target) :
    arena.Enters id segment child ↔ arena.Enters target segment child := by
  constructor
  · intro h
    cases h with
    | child hchild =>
        rw [hnode] at hchild
        exact nomatch hchild
    | entity hnode' henters =>
        rw [hnode] at hnode'
        cases hnode'
        exact henters
  · exact .entity hnode

theorem enters_object_iff {fields : List FieldNode} {policy : UnknownFields} {name : String}
    (hnode : arena.node id = .object fields policy) :
    arena.Enters id (.key name) child ↔
      ∃ field, FieldNode.find? fields name = some field ∧ field.node = child := by
  have hchild : (arena.node id).child? (.key name) = some child ↔
      ∃ field, FieldNode.find? fields name = some field ∧ field.node = child := by
    rw [hnode, Node.child?, Option.map_eq_some_iff]
  rw [← hchild]
  constructor
  · intro h
    cases h with
    | child hchild => exact hchild
    | entity hnode' =>
        rw [hnode] at hnode'
        exact nomatch hnode'
  · exact .child

theorem Enters.unique (h : arena.Enters id segment node) (h' : arena.Enters id segment other) :
    node = other := by
  induction h with
  | child hchild =>
      cases h' with
      | child hother => exact Option.some.inj (hchild.symm.trans hother)
      | entity hnode _ =>
          rw [hnode] at hchild
          exact nomatch hchild
  | entity hnode _ ih => exact ih ((enters_entity_iff hnode).mp h')

theorem governs_cons_iff (henters : arena.Enters id segment child) :
    arena.Governs id (segment :: path) node ↔ arena.Governs child path node := by
  constructor
  · intro h
    cases h with
    | step henters' hgoverns => exact henters.unique henters' ▸ hgoverns
  · exact .step henters

theorem governs_entity_iff (hnode : arena.node id = .entity key target) :
    arena.Governs id (segment :: path) node ↔ arena.Governs target (segment :: path) node := by
  constructor
  · intro h
    cases h with
    | step henters hgoverns => exact .step ((enters_entity_iff hnode).mp henters) hgoverns
  · intro h
    cases h with
    | step henters hgoverns => exact .step (.entity hnode henters) hgoverns

theorem Governs.unique (h : arena.Governs id path node) (h' : arena.Governs id path other) :
    node = other := by
  induction h with
  | here id =>
      cases h'
      rfl
  | step henters _ ih => exact ih ((governs_cons_iff henters).mp h')

/-- At each place that is reported there is a value that the node which governs it accepts. -/
def Mends (arena : Arena) (id : NodeId) (violations : List Violation) (value : Json) : Prop :=
  ∀ violation ∈ violations, ∃ node part, arena.Governs id violation.path node ∧
    value.follow? violation.path = some part ∧
      (Validator.validate ⟨arena, node, none⟩ part).isValid = true

/-- The violations of a value tell all that is wrong with it, and each thing once. -/
structure Diagnoses (arena : Arena) (id : NodeId) (value : Json) (violations : List Violation) :
    Prop where
  apart : (violations.map (·.path)).Pairwise Path.Apart
  governed : ∀ violation ∈ violations, ∃ node, arena.Governs id violation.path node
  complete : ∀ {other : Json}, other.Proper → value.AgreesOff (violations.map (·.path)) other →
    arena.Mends id violations other → (Walk.check arena other id []).violations = []

variable {value otherValue : Json} {violation : Violation} {violations : List Violation}
  {faults : List (Segment × List Violation)}

theorem Mends.accepts (h : arena.Mends id violations value) (hviolation : violation ∈ violations)
    (hpath : violation.path = []) : (Walk.check arena value id []).violations = [] := by
  obtain ⟨node, part, hgoverns, hfound, hvalid⟩ := h violation hviolation
  rw [hpath] at hgoverns hfound
  cases hgoverns
  cases hfound
  exact Validator.isValid_validate_iff.mp hvalid

theorem Mends.of_enters (h : arena.Mends id (Violation.gather faults) value)
    (hfault : (segment, violations) ∈ faults) (henters : arena.Enters id segment child)
    {part : Json} (hpart : value.enter? segment = some part) :
    arena.Mends child violations part := by
  intro violation hviolation
  obtain ⟨node, found, hgoverns, hfound, hvalid⟩ :=
    h _ (Violation.mem_gather_iff.mpr ⟨_, _, _, hfault, hviolation, rfl⟩)
  obtain ⟨inner, hinner, hfound⟩ := Json.follow?_cons_eq_some_iff.mp hfound
  rw [hpart] at hinner
  cases hinner
  exact ⟨node, found, (governs_cons_iff henters).mp hgoverns, hfound, hvalid⟩

/-- Of a value that is rejected as a whole one thing is told, and any value that the node accepts
mends it. -/
theorem diagnoses_of_reject (hpath : violation.path = []) :
    arena.Diagnoses id value [violation] where
  apart := List.pairwise_singleton _ _
  governed := by
    intro other hother
    rw [List.mem_singleton.mp hother, hpath]
    exact ⟨id, .here id⟩
  complete _ _ hmends := hmends.accepts (List.mem_singleton.mpr rfl) hpath

/-- Nothing is told of a value that is accepted. -/
theorem diagnoses_of_accepts {registry : Registry} {labels : List Shape}
    (hregistry : registry.Indexed) (harena : arena.Labelled registry labels) {shape : Shape}
    (hid : labels[id]? = some shape) (hshape : shape.WellFormed) (hvalue : value.Proper)
    (haccepts : (Walk.check arena value id []).violations = []) :
    arena.Diagnoses id value [] where
  apart := List.Pairwise.nil
  governed _ hviolation := absurd hviolation List.not_mem_nil
  complete hother hagrees _ := by
    rw [Walk.check_accepts_iff hregistry harena _ id [] hid hshape] at haccepts ⊢
    exact haccepts.of_same_value hvalue hother (hagrees.same hvalue hother)

/-- What is told of one part: what its node tells, or that it is missing. -/
inductive Tells (arena : Arena) (id : NodeId) (value : Json) : Segment × List Violation → Prop
  | part {segment : Segment} {child : NodeId} {part : Json} {violations : List Violation} :
      arena.Enters id segment child → value.enter? segment = some part →
        arena.Diagnoses child part violations → Tells arena id value (segment, violations)
  | missing {segment : Segment} {child : NodeId} {violation : Violation} :
      arena.Enters id segment child → violation.path = [] →
        Tells arena id value (segment, [violation])

theorem Tells.exists_diagnoses {fault : Segment × List Violation}
    (h : arena.Tells id value fault) :
    ∃ child part, arena.Enters id fault.1 child ∧ arena.Diagnoses child part fault.2 := by
  cases h with
  | part henters _ hdiagnoses => exact ⟨_, _, henters, hdiagnoses⟩
  | missing henters hpath => exact ⟨_, .null, henters, diagnoses_of_reject hpath⟩

/-- Mending a value mends the parts of it that are told of. -/
theorem Tells.exists_part (h : arena.Tells id value (segment, violations))
    (hnodup : (faults.map (·.1)).Nodup) (hfault : (segment, violations) ∈ faults)
    (hother : otherValue.Proper)
    (hagrees : value.AgreesOff ((Violation.gather faults).map (·.path)) otherValue)
    (hmends : arena.Mends id (Violation.gather faults) otherValue) :
    ∃ child part, arena.Enters id segment child ∧ otherValue.enter? segment = some part ∧
      (Walk.check arena part child []).violations = [] := by
  have hfound : ∀ violation ∈ Violation.gather faults,
      (otherValue.follow? violation.path).isSome := fun violation hviolation => by
    obtain ⟨_, part, -, hpart, -⟩ := hmends violation hviolation
    rw [hpart]
    rfl
  cases h with
  | part henters hpart hdiagnoses =>
      obtain ⟨otherPart, hotherPart, hagreesPart⟩ :=
        Violation.exists_part_of_agreesOff hnodup hfault hagrees hfound hpart
      exact ⟨_, otherPart, henters, hotherPart, hdiagnoses.complete
        (hother.part (Json.part_of_enter? hotherPart)) hagreesPart
        (hmends.of_enters hfault henters hotherPart)⟩
  | @missing _ _ violation henters hpath =>
      have hsome := hfound _ (Violation.mem_gather_iff.mpr
        ⟨_, _, _, hfault, List.mem_singleton.mpr rfl, rfl⟩)
      rw [Violation.under, hpath, Json.follow?_singleton] at hsome
      obtain ⟨part, hpart⟩ := Option.isSome_iff_exists.mp hsome
      exact ⟨_, part, henters, hpart, (hmends.of_enters hfault henters hpart).accepts
        (List.mem_singleton.mpr rfl) hpath⟩

/-- The violations of the parts tell what is wrong with the whole, if every part that is looked at
is told of, and a value of the same form is accepted once its parts are and none is missing. -/
theorem diagnoses_gather (hnodup : (faults.map (·.1)).Nodup)
    (htells : ∀ fault ∈ faults, arena.Tells id value fault)
    (hcovers : ∀ segment child part, arena.Enters id segment child →
      value.enter? segment = some part → segment ∈ faults.map (·.1))
    (haccepts : ∀ other : Json, other.Proper → Json.SameForm value other →
      (∀ fault ∈ faults, (other.enter? fault.1).isSome) →
      (∀ segment child part, arena.Enters id segment child → other.enter? segment = some part →
        (Walk.check arena part child []).violations = []) →
      (Walk.check arena other id []).violations = []) :
    arena.Diagnoses id value (Violation.gather faults) where
  apart := by
    refine Violation.pairwise_apart_gather hnodup fun fault hfault => ?_
    obtain ⟨_, _, -, hdiagnoses⟩ := (htells fault hfault).exists_diagnoses
    exact hdiagnoses.apart
  governed := by
    intro violation hviolation
    obtain ⟨segment, violations, inner, hfault, hinner, rfl⟩ :=
      Violation.mem_gather_iff.mp hviolation
    obtain ⟨_, _, henters, hdiagnoses⟩ := (htells _ hfault).exists_diagnoses
    obtain ⟨node, hgoverns⟩ := hdiagnoses.governed inner hinner
    exact ⟨node, .step henters hgoverns⟩
  complete := by
    intro other hother hagrees hmends
    have hpart : ∀ fault ∈ faults, ∃ child part, arena.Enters id fault.1 child ∧
        other.enter? fault.1 = some part ∧ (Walk.check arena part child []).violations = [] :=
      fun fault hfault => (htells fault hfault).exists_part hnodup hfault hother hagrees hmends
    refine haccepts other hother (hagrees.sameForm Violation.nil_not_mem_paths_gather)
      (fun fault hfault => ?_) fun segment child part henters hfound => ?_
    · obtain ⟨_, part, -, hfound, -⟩ := hpart fault hfault
      rw [hfound]
      rfl
    · by_cases hsegment : segment ∈ faults.map (·.1)
      · obtain ⟨fault, hfault, rfl⟩ := List.mem_map.mp hsegment
        obtain ⟨child', part', henters', hfound', haccepted⟩ := hpart fault hfault
        rw [hfound] at hfound'
        cases hfound'
        exact henters.unique henters' ▸ haccepted
      -- A part that nothing is told of was not there, and is not added.
      · have hnone := Violation.enter?_eq_none_of_agreesOff hsegment hagrees
          (Option.eq_none_iff_forall_ne_some.mpr fun part hpart =>
            hsegment (hcovers segment child part henters hpart))
        rw [hfound] at hnone
        exact nomatch hnone

/-- An entity tells what its target tells. -/
theorem Diagnoses.of_entity (h : arena.Diagnoses target value violations)
    (hnode : arena.node id = .entity key target)
    (hcheck : ∀ value, Walk.check arena value id [] = Walk.check arena value target []) :
    arena.Diagnoses id value violations where
  apart := h.apart
  governed := by
    intro violation hviolation
    obtain ⟨node, hgoverns⟩ := h.governed violation hviolation
    cases hpath : violation.path with
    | nil => exact ⟨id, .here id⟩
    | cons segment path =>
        rw [hpath] at hgoverns
        exact ⟨node, (governs_entity_iff hnode).mpr hgoverns⟩
  complete := by
    intro other hother hagrees hmends
    rw [hcheck]
    refine h.complete hother hagrees fun violation hviolation => ?_
    cases hpath : violation.path with
    | nil =>
        have haccepts := hmends.accepts hviolation hpath
        rw [hcheck] at haccepts
        exact ⟨target, other, .here target, rfl, Validator.isValid_validate_iff.mpr haccepts⟩
    | cons segment path =>
        obtain ⟨node, part, hgoverns, hmended⟩ := hmends violation hviolation
        rw [hpath] at hgoverns hmended
        exact ⟨node, part, (governs_entity_iff hnode).mp hgoverns, hmended⟩

end Arena

namespace Walk

open Arena

variable {registry : Registry} {arena : Arena} {labels : List Shape} {root id node : NodeId}
  {value : Json} {path : Path}

theorem Scalar.whole {check : Path → Json → Outcome} (h : Scalar check) (value : Json) :
    (check [] value).Whole := by
  rcases h value with ⟨output, haccept⟩ | ⟨fault, hreject⟩
  · exact Or.inl (by rw [haccept]; rfl)
  · exact Or.inr ⟨fault, by rw [hreject]; rfl⟩

section Parts

theorem checkArray_diagnoses (hsettled : arena.Settled) (hnode : arena.node id = .array node)
    {items : List Json} (hitems : ∀ item ∈ items,
      arena.Diagnoses node item (check arena item node []).violations) :
    arena.Diagnoses id (.arr items)
      (checkArray node [] (.arr items) (parts arena (.arr items))).violations := by
  have henters : ∀ position, arena.Enters id (.index position) node :=
    fun position => .child (by rw [hnode]; rfl)
  rw [violations_checkArray]
  refine diagnoses_gather nodup_itemFaults ?_ ?_ ?_
  · rintro ⟨segment, violations⟩ hfault
    obtain ⟨position, item, hitem, rfl, rfl⟩ := mem_itemFaults_iff.mp hfault
    exact .part (henters position) hitem (hitems item (List.mem_of_getElem? hitem))
  · intro segment child part _ hpart
    cases segment with
    | key name => cases hpart
    | index position =>
        exact List.mem_map_of_mem (f := (·.1))
          (mem_itemFaults_iff.mpr ⟨position, part, hpart, rfl, rfl⟩)
  · intro other _ hform _ haccepts
    obtain ⟨others, rfl, -⟩ := hform.exists_arr
    rw [check_eq hsettled, visit, hnode]
    refine violations_checkArray_eq_nil_iff.mpr fun item hitem => ?_
    obtain ⟨position, hposition⟩ := List.getElem?_of_mem hitem
    exact haccepts (.index position) node item (henters position) hposition

theorem checkRecord_diagnoses (hsettled : arena.Settled) (hnode : arena.node id = .record node)
    {members : Members} (hnodup : (members.map (·.1)).Nodup) (hmembers : ∀ member ∈ members,
      arena.Diagnoses node member.2 (check arena member.2 node []).violations) :
    arena.Diagnoses id (.obj members)
      (checkRecord node [] (.obj members) (parts arena (.obj members))).violations := by
  have henters : ∀ name, arena.Enters id (.key name) node :=
    fun name => .child (by rw [hnode]; rfl)
  rw [violations_checkRecord]
  refine diagnoses_gather (nodup_recordFaults hnodup) ?_ ?_ ?_
  · rintro ⟨segment, violations⟩ hfault
    obtain ⟨member, hmember, rfl, rfl⟩ := mem_recordFaults_iff.mp hfault
    exact .part (henters member.1) (Association.lookup_of_mem hnodup hmember)
      (hmembers member hmember)
  · intro segment child part _ hpart
    cases segment with
    | index position => cases hpart
    | key name =>
        exact List.mem_map_of_mem (f := (·.1))
          (mem_recordFaults_iff.mpr ⟨(name, part), Association.mem_of_lookup hpart, rfl, rfl⟩)
  · intro other hother hform _ haccepts
    obtain ⟨others, rfl⟩ := hform.exists_obj
    rw [check_eq hsettled, visit, hnode]
    refine violations_checkRecord_eq_nil_iff.mpr fun member hmember => ?_
    exact haccepts (.key member.1) node member.2 (henters member.1)
      (Association.lookup_of_mem hother.nodup hmember)

theorem checkObject_diagnoses (hsettled : arena.Settled) {fields : List FieldNode}
    {policy : UnknownFields} (hnode : arena.node id = .object fields policy)
    (hfields : (fields.map (·.name)).Nodup) {members : Members}
    (hnodup : (members.map (·.1)).Nodup) (hmembers : ∀ member ∈ members, ∀ field ∈ fields,
      arena.Diagnoses field.node member.2 (check arena member.2 field.node []).violations) :
    arena.Diagnoses id (.obj members)
      (checkObject fields policy [] (.obj members) (parts arena (.obj members))).violations := by
  have henters : ∀ {name field}, FieldNode.find? fields name = some field →
      arena.Enters id (.key name) field.node :=
    fun hfind => (enters_object_iff hnode).mpr ⟨_, hfind, rfl⟩
  have hpresent : ∀ {name field part}, FieldNode.find? fields name = some field →
      (name, part) ∈ members → (Segment.key name, (check arena part field.node []).violations) ∈
        memberFaults arena fields members ++ missingFaults fields members :=
    fun hfind hmember => List.mem_append_left _
      (mem_memberFaults_iff.mpr ⟨_, hmember, _, hfind, rfl, rfl⟩)
  rw [violations_checkObject]
  refine diagnoses_gather (nodup_objectFaults hfields hnodup) ?_ ?_ ?_
  · rintro ⟨segment, violations⟩ hfault
    rcases List.mem_append.mp hfault with hfault | hfault
    · obtain ⟨member, hmember, field, hfind, rfl, rfl⟩ := mem_memberFaults_iff.mp hfault
      exact .part (henters hfind) (Association.lookup_of_mem hnodup hmember)
        (hmembers member hmember field (FieldNode.mem_of_find? hfind).1)
    · obtain ⟨field, hfield, -, -, rfl, rfl⟩ := mem_missingFaults_iff.mp hfault
      exact .missing (henters (FieldNode.find?_of_mem hfields hfield)) rfl
  · intro segment child part hchild hpart
    cases segment with
    | index position => cases hpart
    | key name =>
        obtain ⟨field, hfind, -⟩ := (enters_object_iff hnode).mp hchild
        exact List.mem_map_of_mem (f := (·.1)) (hpresent hfind (Association.mem_of_lookup hpart))
  · intro other hother hform hfound haccepts
    obtain ⟨others, rfl⟩ := hform.exists_obj
    rw [check_eq hsettled, visit, hnode]
    refine violations_checkObject_eq_nil_iff.mpr
      ⟨fun member hmember => ?_, fun field hfield hrequired => ?_⟩
    · rw [memberOutcome]
      cases hfind : FieldNode.find? fields member.1 with
      | none => rfl
      | some field =>
          exact (violations_check_eq_nil_iff _ _ _ _).mpr (haccepts (.key member.1) field.node
            member.2 (henters hfind) (Association.lookup_of_mem hother.nodup hmember))
    · have hsome : (others.lookup field.name).isSome := by
        by_cases hname : field.name ∈ members.map (·.1)
        · obtain ⟨member, hmember, hkey⟩ := List.mem_map.mp hname
          have hfind := FieldNode.find?_of_mem hfields hfield
          rw [← hkey] at hfind ⊢
          exact hfound _ (hpresent hfind hmember)
        · exact hfound _ (List.mem_append_right _
            (mem_missingFaults_iff.mpr ⟨field, hfield, hrequired, hname, rfl, rfl⟩))
      obtain ⟨part, hpart⟩ := Option.isSome_iff_exists.mp hsome
      exact List.mem_map_of_mem (f := (·.1)) (Association.mem_of_lookup hpart)

end Parts

/-- What a node tells of a value tells all that is wrong with it. -/
theorem check_diagnoses (hregistry : registry.Indexed) (harena : arena.Labelled registry labels)
    {source : Shape} (hroot : labels[root]? = some source) (hsource : source.WellFormed)
    (hstraight : arena.Straight root) (value : Json) (id : NodeId) (hid : arena.Reaches root id)
    (hvalue : value.Proper) : arena.Diagnoses id value (check arena value id []).violations := by
  have hsettled := harena.settled hregistry
  induction value, id using hsettled.induct with
  | step value id hparts hdelegates =>
      have hchild : ∀ {child : NodeId}, child ∈ (arena.node id).children →
          arena.Reaches root child := hid.tail
      -- Without parts to look at, a node accepts the value or tells one thing of it.
      have hwhole : ∀ {outcome : Outcome}, check arena value id [] = outcome → outcome.Whole →
          arena.Diagnoses id value outcome.violations := by
        intro outcome hcheck houtcome
        rcases houtcome with hnone | ⟨fault, hone⟩
        · obtain ⟨shape, hlabel, hshape⟩ := hid.everywhere harena hregistry Shape.mergeable_local
            (fun _ _ _ => hregistry.wellFormed) hroot hsource
          rw [hnone]
          exact diagnoses_of_accepts hregistry harena hlabel hshape hvalue (hcheck ▸ hnone)
        · rw [hone]
          exact diagnoses_of_reject rfl
      have hcheck := check_eq hsettled value id []
      rw [visit] at hcheck
      rw [hcheck]
      cases hnode : arena.node id with
      | pending => exact hwhole (hnode ▸ hcheck) (Or.inl rfl)
      | unknown => exact hwhole (hnode ▸ hcheck) (Or.inl rfl)
      | string format => exact hwhole (hnode ▸ hcheck) ((scalar_checkString format).whole value)
      | integer => exact hwhole (hnode ▸ hcheck) (scalar_checkInteger.whole value)
      | number => exact hwhole (hnode ▸ hcheck) (scalar_checkNumber.whole value)
      | boolean => exact hwhole (hnode ▸ hcheck) (scalar_checkBoolean.whole value)
      | literal expected =>
          exact hwhole (hnode ▸ hcheck) ((scalar_checkLiteral expected).whole value)
      | enum options => exact hwhole (hnode ▸ hcheck) ((scalar_checkEnum options).whole value)
      | array item =>
          rw [hnode] at hchild
          cases value with
          | arr items =>
              exact checkArray_diagnoses hsettled hnode fun part hpart => hparts part (.item hpart)
                item (hchild List.mem_cons_self) (hvalue.item hpart)
          | _ => exact hwhole (hnode ▸ hcheck) (Or.inr ⟨_, rfl⟩)
      | record item =>
          rw [hnode] at hchild
          cases value with
          | obj members =>
              exact checkRecord_diagnoses hsettled hnode hvalue.nodup fun member hmember =>
                hparts member.2 (.member hmember) item (hchild List.mem_cons_self)
                  (hvalue.member hmember)
          | _ => exact hwhole (hnode ▸ hcheck) (Or.inr ⟨_, rfl⟩)
      | object fields policy =>
          have hfields := hid.nodup harena hregistry hroot hsource hnode
          rw [hnode] at hchild
          cases value with
          | obj members =>
              exact checkObject_diagnoses hsettled hnode hfields hvalue.nodup
                fun member hmember field hfield => hparts member.2 (.member hmember) field.node
                  (hchild (List.mem_map_of_mem hfield)) (hvalue.member hmember)
          | _ => exact hwhole (hnode ▸ hcheck) (Or.inr ⟨_, rfl⟩)
      | union variants => exact absurd hnode (hstraight.not_union hid)
      | intersection left right => exact absurd hnode (hstraight.not_intersection hid)
      | entity key target =>
          rw [hnode] at hchild
          refine (hdelegates target (.entity hnode) (hchild List.mem_cons_self) hvalue).of_entity
            hnode fun other => ?_
          rw [check_eq hsettled, visit, hnode]

end Walk

namespace Registry

variable {registry : Registry} {validator : Validator}

/-- Without unions and intersections that are left to run time, all that is wrong with a document is
reported, and each thing once: a document is accepted that has, at every path that is reported, a
value which the node that governs this path accepts, and is otherwise the same. -/
theorem compile_violations_complete {entries : List (String × Json)}
    (hproper : ∀ entry ∈ entries, entry.2.Proper) (hentries : ofEntries entries = .ok registry)
    {key : String} (hcompile : registry.compile key = .ok validator)
    (hstraight : validator.arena.Straight validator.root) {value : Json} (hvalue : value.Proper)
    {violations : List Violation} (hinvalid : validator.validate value = .invalid violations) :
    (violations.map (·.path)).Pairwise Path.Apart ∧
      (∀ violation ∈ violations,
        ∃! node, validator.arena.Governs validator.root violation.path node) ∧
      ∀ other : Json, other.Proper → value.AgreesOff (violations.map (·.path)) other →
        validator.arena.Mends validator.root violations other →
          (validator.validate other).isValid = true := by
  have hregistry := indexed_of_ofEntries hproper hentries
  obtain ⟨labels, harena, hroot⟩ := checks_of_compile hcompile
  have hdiagnoses := Walk.check_diagnoses hregistry harena hroot (wellFormed_ref key) hstraight
    value validator.root (.refl _ _) hvalue
  rw [← Validator.violations_validate, hinvalid] at hdiagnoses
  refine ⟨hdiagnoses.apart, fun violation hviolation => ?_, fun other hother hagrees hmends => ?_⟩
  · obtain ⟨node, hgoverns⟩ := hdiagnoses.governed violation hviolation
    exact ⟨node, hgoverns, fun other hother => hother.unique hgoverns⟩
  · exact Validator.isValid_validate_iff.mpr (hdiagnoses.complete hother hagrees hmends)

/-- The label of the tree is no text, and the tree below has none. -/
def unlabelledDocument : Json :=
  .obj [("label", .num (.int 5)), ("children", .arr [.obj []])]

def unlabelledViolations : List Violation :=
  [⟨[.key "label"], .type "string" (.num (.int 5)), []⟩,
    ⟨[.key "children", .index 0, .key "label"], .missing, []⟩]

def labelledDocument : Json :=
  .obj [("children", .arr [.obj [("label", .str "leaf")]]), ("label", .str "root")]

theorem agreesOff_labelledDocument :
    unlabelledDocument.AgreesOff (unlabelledViolations.map (·.path)) labelledDocument := by
  intro path hpath
  have hlabel : ∀ rest, path ≠ .key "label" :: rest := fun rest heq =>
    hpath [.key "label"] (by simp [unlabelledViolations]) ⟨rest, heq.symm⟩
  have hleaf : ∀ rest, path ≠ .key "children" :: .index 0 :: .key "label" :: rest := fun rest heq =>
    hpath [.key "children", .index 0, .key "label"] (by simp [unlabelledViolations])
      ⟨rest, heq.symm⟩
  rcases path with _ | ⟨_ | name, path⟩
  · exact .some trivial
  · exact .none
  · by_cases hname : name = "children"
    · subst hname
      rcases path with _ | ⟨(_ | position) | name, path⟩
      · exact .some rfl
      · rcases path with _ | ⟨_ | name, path⟩
        · exact .some trivial
        · exact .none
        · have hname : (name == "label") = false :=
            beq_false_of_ne fun heq => hleaf path (heq ▸ rfl)
          have hnone : labelledDocument.follow? (.key "children" :: .index 0 :: .key name :: path) =
              none := by
            simp [labelledDocument, Json.follow?_cons, Json.enter?, Json.get?, Json.at?,
              List.lookup_cons, hname]
          rw [hnone]
          exact .none
      · exact .none
      · exact .none
    · have hname : (name == "children") = false := beq_false_of_ne hname
      have hother : (name == "label") = false := beq_false_of_ne fun heq => hlabel path (heq ▸ rfl)
      simp [unlabelledDocument, labelledDocument, Json.follow?_cons, Json.enter?, Json.get?,
        List.lookup_cons, hname, hother]

theorem compile_violations_complete_tree :
    treeValidator.validate unlabelledDocument = .invalid unlabelledViolations ∧
      treeValidator.arena.Mends 0 unlabelledViolations labelledDocument ∧
        (treeValidator.validate labelledDocument).isValid = true := by
  have hproper : ∀ entry ∈ [("Tree", treeDefinition)], entry.2.Proper := by
    simpa using proper_treeDefinition
  have hstraight : treeValidator.arena.Straight treeValidator.root :=
    Arena.straight_of_nodes (by simp [treeValidator])
  have hvalue : unlabelledDocument.Proper := by
    simp [unlabelledDocument]
  have hother : labelledDocument.Proper := by
    simp [labelledDocument]
  have hinvalid : treeValidator.validate unlabelledDocument = .invalid unlabelledViolations := by
    rfl
  have hlabel : treeValidator.arena.Enters 0 (.key "label") 1 := .entity rfl (.child rfl)
  have hchildren : treeValidator.arena.Enters 0 (.key "children") 2 := .entity rfl (.child rfl)
  have hmends : treeValidator.arena.Mends 0 unlabelledViolations labelledDocument := by
    intro violation hviolation
    rcases List.mem_cons.mp hviolation with rfl | hviolation
    · exact ⟨1, .str "root", .step hlabel (.here 1), rfl, rfl⟩
    · rw [List.mem_singleton.mp hviolation]
      exact ⟨1, .str "leaf", .step hchildren (.step (.child rfl) (.step hlabel (.here 1))), rfl,
        rfl⟩
  exact ⟨hinvalid, hmends,
    (compile_violations_complete hproper ofEntries_treeDefinition compile_treeRegistry hstraight
      hvalue hinvalid).2.2 _ hother agreesOff_labelledDocument hmends⟩

end Registry

end EntityContract
