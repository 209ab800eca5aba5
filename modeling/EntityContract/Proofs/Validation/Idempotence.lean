import EntityContract.Proofs.Arena.Reach
import EntityContract.Proofs.Validation.Position
import EntityContract.Proofs.Validation.RoundTrip
import EntityContract.Proofs.Validator

/-!
Normalizing a document twice. The second walk sees other members than the first: undeclared ones are
gone, defaults stand where nothing stood, and whole numbers are integers. It leaves all of them as
they are, if every default is what its own node makes of it.
-/

namespace EntityContract

theorem Number.normalize_cases (n : Number) :
    n.normalize = n ∨ ∃ value, n.normalize = .int value := by
  cases n with
  | int value => exact Or.inl rfl
  | float x =>
      rw [normalize]
      split
      · split
        · exact Or.inr ⟨_, rfl⟩
        · exact Or.inl rfl
      · exact Or.inl rfl

theorem Number.isWhole_normalize {n : Number} (h : n.isWhole = true) :
    n.normalize.isWhole = true := by
  rcases n.normalize_cases with heq | ⟨value, heq⟩
  · rwa [heq]
  · rw [heq]
    rfl

theorem Number.normalize_normalize (n : Number) : n.normalize.normalize = n.normalize := by
  rcases n.normalize_cases with heq | ⟨value, heq⟩
  · rw [heq, heq]
  · rw [heq]
    rfl

/-- The value was accepted as it is. -/
structure Outcome.Keeps (outcome : Outcome) (value : Json) : Prop where
  accepts : outcome.violations = []
  output_eq : outcome.output = value

/-- Every default in an object that is reached is accepted by the node of its field, which makes
nothing else of it. -/
def Arena.KeepsDefaults (arena : Arena) (root : NodeId) : Prop :=
  ∀ {id : NodeId} {fields : List FieldNode} {policy : UnknownFields}, arena.Reaches root id →
    arena.node id = .object fields policy → ∀ field ∈ fields, ∀ default,
      field.default? = some default →
        ∃ label?, Validator.validate ⟨arena, field.node, none⟩ default = .valid default label?

namespace Walk

variable {arena : Arena} {fields : List FieldNode} {policy : UnknownFields} {path : Path}

theorem check_keeps_iff {value : Json} {id : NodeId} :
    (check arena value id path).Keeps value ↔ (check arena value id []).Keeps value := by
  constructor
  · rintro ⟨haccepts, houtput⟩
    rw [output_check] at houtput
    exact ⟨(violations_check_eq_nil_iff arena value id path).mp haccepts, houtput⟩
  · rintro ⟨haccepts, houtput⟩
    rw [← output_check arena value id path] at houtput
    exact ⟨(violations_check_eq_nil_iff arena value id path).mpr haccepts, houtput⟩

theorem checkInteger_keeps {value : Json} (h : (checkInteger path value).violations = []) :
    (checkInteger path (checkInteger path value).output).Keeps
      (checkInteger path value).output := by
  cases value with
  | num n =>
      rw [checkInteger] at h
      split at h
      · rename_i hwhole
        rw [output_checkInteger, wholeOf, if_pos hwhole, checkInteger,
          if_pos (Number.isWhole_normalize hwhole)]
        exact ⟨rfl, by rw [Number.normalize_normalize]; rfl⟩
      · cases h
  | _ => cases h

theorem checkArray_keeps {node : NodeId} {items : List Json}
    (h : ∀ item ∈ items, (check arena item node []).Keeps item) :
    (checkArray node path (.arr items) (parts arena (.arr items))).Keeps (.arr items) where
  accepts := violations_checkArray_eq_nil_iff.mpr fun item hitem => (h item hitem).accepts
  output_eq := by
    have hmap : (items.map fun item => (check arena item node []).output) = items.map id :=
      List.map_congr_left fun item hitem => (h item hitem).output_eq
    rw [output_checkArray, hmap, List.map_id]

theorem checkRecord_keeps {node : NodeId} {members : Members}
    (h : ∀ member ∈ members, (check arena member.2 node []).Keeps member.2) :
    (checkRecord node path (.obj members) (parts arena (.obj members))).Keeps (.obj members) where
  accepts := violations_checkRecord_eq_nil_iff.mpr fun member hmember => (h member hmember).accepts
  output_eq := by
    have hmap : (members.map fun member => (member.1,
        (check arena member.2 node (path ++ [.key member.1])).output)) = members.map id :=
      List.map_congr_left fun member hmember => by
        rw [output_check, (h member hmember).output_eq]
        rfl
    rw [output_checkRecord, hmap, List.map_id]

/-- An object keeps members that their nodes keep, if nothing is stripped and nothing filled in. -/
theorem checkObject_keeps {members : Members} (hnodup : (fields.map (·.name)).Nodup)
    (hmembers : ∀ member ∈ members, (memberOutcome arena fields path member).Keeps member.2)
    (hkept : ∀ member ∈ members,
      (policy = .passthrough || (FieldNode.find? fields member.1).isSome) = true)
    (habsent : ∀ field ∈ fields, field.name ∉ members.map (·.1) →
      field.required = false ∧ field.default? = none) :
    (checkObject fields policy path (.obj members) (parts arena (.obj members))).Keeps
      (.obj members) := by
  have hdefaults : FieldNode.defaults fields members = [] := by
    rw [List.eq_nil_iff_forall_not_mem]
    rintro ⟨key, value⟩ hdefault
    obtain ⟨field, hfield, rfl, hname, -, hvalue⟩ := FieldNode.mem_defaults_iff.mp hdefault
    rw [(habsent field hfield hname).2] at hvalue
    exact nomatch hvalue
  have hmap : (members.map fun member =>
      (member.1, (memberOutcome arena fields path member).output)) = members.map id :=
    List.map_congr_left fun member hmember => by rw [(hmembers member hmember).output_eq]; rfl
  refine ⟨violations_checkObject_eq_nil_iff.mpr
    ⟨fun member hmember => (hmembers member hmember).accepts, fun field hfield hrequired => ?_⟩, ?_⟩
  · by_contra hname
    rw [(habsent field hfield hname).1] at hrequired
    exact absurd hrequired Bool.false_ne_true
  · rw [output_checkObject hnodup, objectMembers, List.filter_eq_self.mpr hkept, hmap, List.map_id,
      hdefaults, List.append_nil]

/-- Declared members are not stripped. -/
theorem not_mem_names_of_objectMembers {members : Members} (hnodup : (fields.map (·.name)).Nodup)
    {field : FieldNode} (hfield : field ∈ fields)
    (h : field.name ∉ (objectMembers arena fields policy path members).map (·.1)) :
    field.name ∉ members.map (·.1) := by
  intro hname
  obtain ⟨member, hmember, heq⟩ := List.mem_map.mp hname
  have hkept : (policy = .passthrough || (FieldNode.find? fields member.1).isSome) = true := by
    rw [heq, FieldNode.find?_of_mem hnodup hfield]
    exact Bool.or_true _
  have hfilter : member ∈ members.filter fun member =>
      policy = .passthrough || (FieldNode.find? fields member.1).isSome :=
    List.mem_filter.mpr ⟨hmember, hkept⟩
  have hobject := List.mem_map_of_mem (f := fun member =>
    (member.1, (memberOutcome arena fields path member).output)) hfilter
  exact h (List.mem_map.mpr ⟨_, List.mem_append_left _ hobject, heq⟩)

/-- What an object makes of the members that it accepts it keeps. -/
theorem checkObject_objectMembers_keeps {members : Members} (hnodup : (fields.map (·.name)).Nodup)
    (haccepts : (checkObject fields policy path (.obj members)
      (parts arena (.obj members))).violations = [])
    (hmembers : ∀ member ∈ members, ∀ field ∈ fields,
      (check arena member.2 field.node []).violations = [] →
        (check arena (check arena member.2 field.node []).output field.node []).Keeps
          (check arena member.2 field.node []).output)
    (hdefaults : ∀ field ∈ fields, ∀ default, field.default? = some default →
      (check arena default field.node []).Keeps default) :
    (checkObject fields policy path (.obj (objectMembers arena fields policy path members))
      (parts arena (.obj (objectMembers arena fields policy path members)))).Keeps
        (.obj (objectMembers arena fields policy path members)) := by
  obtain ⟨hchecked, hrequired⟩ := violations_checkObject_eq_nil_iff.mp haccepts
  refine checkObject_keeps hnodup ?_ ?_ fun field hfield hname => ?_
  · intro member hmember
    rcases List.mem_append.mp hmember with hmember | hmember
    · obtain ⟨source, hsource, rfl⟩ := List.mem_map.mp hmember
      have hsource := List.mem_of_mem_filter hsource
      have haccepted := hchecked source hsource
      rw [memberOutcome] at haccepted ⊢
      rw [memberOutcome]
      cases hfind : FieldNode.find? fields source.1 with
      | none => exact ⟨rfl, rfl⟩
      | some field =>
          rw [hfind] at haccepted
          have hkeeps := hmembers source hsource field (FieldNode.mem_of_find? hfind).1
            ((violations_check_eq_nil_iff _ _ _ _).mp haccepted)
          dsimp only
          rw [output_check]
          exact check_keeps_iff.mpr hkeeps
    · obtain ⟨field, hfield, hname, -, -, hdefault⟩ := FieldNode.mem_defaults_iff.mp hmember
      have hfind := FieldNode.find?_of_mem hnodup hfield
      rw [hname] at hfind
      rw [memberOutcome, hfind]
      exact check_keeps_iff.mpr (hdefaults field hfield member.2 hdefault)
  · intro member hmember
    rcases List.mem_append.mp hmember with hmember | hmember
    · obtain ⟨source, hsource, rfl⟩ := List.mem_map.mp hmember
      exact (List.mem_filter.mp hsource).2
    · obtain ⟨field, hfield, hname, -⟩ := FieldNode.mem_defaults_iff.mp hmember
      rw [← hname, FieldNode.find?_of_mem hnodup hfield]
      exact Bool.or_true _
  · have hmissing := not_mem_names_of_objectMembers hnodup hfield hname
    have hoptional : field.required = false := by
      by_contra hrequiring
      exact hmissing (hrequired field hfield (Bool.not_eq_false _ ▸ hrequiring))
    refine ⟨hoptional, Option.eq_none_iff_forall_not_mem.mpr fun value hvalue => hname ?_⟩
    have hdefault :=
      FieldNode.mem_defaults_iff.mpr ⟨field, hfield, rfl, hmissing, hoptional, hvalue⟩
    exact List.mem_map_of_mem (f := (·.1)) (List.mem_append_right _ hdefault)

variable {registry : Registry} {labels : List Shape} {root : NodeId}

/-- What a node makes of a value that it accepts it keeps. -/
theorem check_output_keeps (hregistry : registry.Indexed) (harena : arena.Labelled registry labels)
    {source : Shape} (hroot : labels[root]? = some source) (hsource : source.WellFormed)
    (hstraight : arena.Straight root) (hdefaults : arena.KeepsDefaults root) (value : Json)
    (id : NodeId) (hid : arena.Reaches root id)
    (haccepts : (check arena value id []).violations = []) :
    (check arena (check arena value id []).output id []).Keeps
      (check arena value id []).output := by
  have hsettled := harena.settled hregistry
  induction value, id using hsettled.induct with
  | step value id hparts hdelegates =>
      have hchild : ∀ {child : NodeId}, child ∈ (arena.node id).children →
          arena.Reaches root child := hid.tail
      rw [check_eq hsettled value, visit] at haccepts ⊢
      rw [check_eq hsettled _ id, visit]
      cases hnode : arena.node id with
      | pending => exact ⟨rfl, rfl⟩
      | unknown => exact ⟨rfl, rfl⟩
      | string format =>
          rw [hnode] at haccepts
          dsimp only
          rw [output_checkString]
          exact ⟨haccepts, output_checkString format⟩
      | integer =>
          rw [hnode] at haccepts
          exact checkInteger_keeps haccepts
      | number =>
          rw [hnode] at haccepts
          dsimp only
          rw [output_checkNumber]
          exact ⟨haccepts, output_checkNumber⟩
      | boolean =>
          rw [hnode] at haccepts
          dsimp only
          rw [output_checkBoolean]
          exact ⟨haccepts, output_checkBoolean⟩
      | literal expected =>
          rw [hnode] at haccepts
          dsimp only
          rw [output_checkLiteral]
          exact ⟨haccepts, output_checkLiteral expected⟩
      | enum options =>
          rw [hnode] at haccepts
          dsimp only
          rw [output_checkEnum]
          exact ⟨haccepts, output_checkEnum options⟩
      | array item =>
          rw [hnode] at haccepts hchild
          cases value with
          | arr items =>
              rw [violations_checkArray_eq_nil_iff] at haccepts
              dsimp only
              rw [output_checkArray]
              refine checkArray_keeps (List.forall_mem_map.mpr fun part hpart => ?_)
              exact hparts part (.item hpart) item (hchild List.mem_cons_self) (haccepts part hpart)
          | _ => cases haccepts
      | record item =>
          rw [hnode] at haccepts hchild
          cases value with
          | obj members =>
              rw [violations_checkRecord_eq_nil_iff] at haccepts
              dsimp only
              rw [output_checkRecord]
              refine checkRecord_keeps (List.forall_mem_map.mpr fun member hmember => ?_)
              dsimp only
              rw [output_check]
              exact hparts member.2 (.member hmember) item (hchild List.mem_cons_self)
                (haccepts member hmember)
          | _ => cases haccepts
      | object fields policy =>
          have hnodup := hid.nodup harena hregistry hroot hsource hnode
          rw [hnode] at haccepts hchild
          cases value with
          | obj members =>
              dsimp only
              rw [output_checkObject hnodup]
              refine checkObject_objectMembers_keeps hnodup haccepts
                (fun member hmember field hfield => hparts member.2 (.member hmember) field.node
                  (hchild (List.mem_map_of_mem hfield)))
                fun field hfield default hdefault => ?_
              obtain ⟨label?, hvalid⟩ := hdefaults hid hnode field hfield default hdefault
              exact ⟨Validator.accepts_of_validate hvalid, Validator.output_of_validate hvalid⟩
          | _ => cases haccepts
      | union variants => exact absurd hnode (hstraight.not_union hid)
      | intersection left right => exact absurd hnode (hstraight.not_intersection hid)
      | entity key target =>
          rw [hnode] at haccepts hchild
          exact hdelegates target (.entity hnode) (hchild List.mem_cons_self) haccepts

end Walk

namespace Registry

variable {registry : Registry} {validator : Validator}

/-- Without unions and intersections that are left to run time, and with defaults that are kept,
a normalized document is accepted, and is its own normalized document. -/
theorem compile_validate_idempotent {entries : List (String × Json)}
    (hproper : ∀ entry ∈ entries, entry.2.Proper) (hentries : ofEntries entries = .ok registry)
    {key : String} (hcompile : registry.compile key = .ok validator)
    (hstraight : validator.arena.Straight validator.root)
    (hdefaults : validator.arena.KeepsDefaults validator.root) {value output : Json}
    {label? : Option String} (hvalid : validator.validate value = .valid output label?) :
    ∃ other?, validator.validate output = .valid output other? := by
  have hregistry := indexed_of_ofEntries hproper hentries
  obtain ⟨labels, harena, hroot⟩ := checks_of_compile hcompile
  have hkeeps := Walk.check_output_keeps hregistry harena hroot (wellFormed_ref key) hstraight
    hdefaults value validator.root (.refl _ _) (Validator.accepts_of_validate hvalid)
  rw [Validator.output_of_validate hvalid] at hkeeps
  obtain ⟨other?, hother⟩ :=
    Validator.exists_validate_of_isValid (Validator.isValid_validate_iff.mpr hkeeps.accepts)
  rw [hkeeps.output_eq] at hother
  exact ⟨other?, hother⟩

/-- A stock with a count, one unless it is told, and further stock behind it. -/
def stockDefinition : Json :=
  .obj [("type", .str "object"), ("properties", .obj [
    ("count", .obj [("type", .str "integer"), ("default", .num (.int 1))]),
    ("next", .obj [("$ref", .str "#/components/schemas/Stock")])]),
    ("additionalProperties", .bool false)]

def stockRegistry : Registry :=
  ⟨[⟨"Stock", stockDefinition, .object [("count", .optional .integer (some (.num (.int 1)))),
    ("next", .optional (.ref "Stock") none)] .strip⟩]⟩

def stockValidator : Validator where
  arena := ⟨#[.entity "Stock" 2, .integer,
    .object [⟨"count", 1, false, some (.num (.int 1))⟩, ⟨"next", 0, false, none⟩] .strip]⟩
  root := 0
  name? := some "Stock"

/-- The count is two, written with a fraction. -/
def stockDocument : Json :=
  .obj [("next", .obj [("note", .null), ("count", .num (.float ⟨false, Nat.pow 2 52, -51⟩))])]

def stockOutput : Json :=
  .obj [("next", .obj [("count", .num (.int 2))]), ("count", .num (.int 1))]

theorem compile_validate_idempotent_stock :
    stockValidator.validate stockDocument = .valid stockOutput none ∧
      ∃ other?, stockValidator.validate stockOutput = .valid stockOutput other? := by
  have hproper : ∀ entry ∈ [("Stock", stockDefinition)], entry.2.Proper := by
    simp [stockDefinition]
  have hentries : ofEntries [("Stock", stockDefinition)] = .ok stockRegistry := by
    with_unfolding_all rfl
  have hcompile : stockRegistry.compile "Stock" = .ok stockValidator := by rfl
  have hstraight : stockValidator.arena.Straight stockValidator.root :=
    Arena.straight_of_nodes (by simp [stockValidator])
  have hdefaults : stockValidator.arena.KeepsDefaults stockValidator.root := by
    intro id fields policy _ hnode field hfield default hdefault
    rcases id with _ | _ | _ | id
    · cases hnode
    · cases hnode
    · cases hnode
      rcases List.mem_cons.mp hfield with rfl | hfield
      · cases hdefault
        exact ⟨none, rfl⟩
      · rw [List.mem_singleton.mp hfield] at hdefault
        cases hdefault
    · cases hnode
  have hvalid : stockValidator.validate stockDocument = .valid stockOutput none := by rfl
  exact ⟨hvalid,
    compile_validate_idempotent hproper hentries hcompile hstraight hdefaults hvalid⟩

end Registry

end EntityContract
