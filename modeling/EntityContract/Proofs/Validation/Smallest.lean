import EntityContract.Proofs.Json.Difference
import EntityContract.Proofs.Validation.Objects
import EntityContract.Proofs.Validation.Position
import EntityContract.Proofs.Validation.Sampling
import EntityContract.Proofs.Validation.Ways
import EntityContract.Proofs.Validator

/-!
The smallest document of an entity. What is generated without coming to an entity on the way is
accepted: required fields are there, and of a union the first variant fits. Where no union is
reached it leads nowhere that an accepted document does not lead, too.
-/

namespace EntityContract

open Relation

namespace Walk

variable {arena : Arena} {path : Path}

/-- A member that belongs to a field is checked by the node of the field. -/
theorem memberOutcome_of_mem {fields : List FieldNode} (hnodup : (fields.map (·.name)).Nodup)
    {field : FieldNode} (hfield : field ∈ fields) (value : Json) :
    memberOutcome arena fields path (field.name, value) =
      check arena value field.node (path ++ [.key field.name]) := by
  rw [memberOutcome, FieldNode.find?_of_mem hnodup hfield]

theorem exists_obj_of_checkObject {fields : List FieldNode} {policy : UnknownFields} {value : Json}
    (h : (checkObject fields policy path value (parts arena value)).violations = []) :
    ∃ members, value = .obj members := by
  by_contra hvalue
  exact violations_checkObject_ne_nil (fun members heq => hvalue ⟨members, heq⟩) h

end Walk

namespace Arena

variable {arena : Arena} {root id : NodeId} {value other : Json}

/-- The members of a sample of an object are the required fields. -/
theorem mem_sample {fields : List FieldNode} {sample : FieldNode → Json}
    {member : String × Json} :
    (member ∈ (fields.filter (·.required)).map fun field => (field.name, sample field)) ↔
      ∃ field ∈ fields, field.required = true ∧ member = (field.name, sample field) := by
  simp only [List.mem_map, List.mem_filter, and_assoc, eq_comm]

/-- A node accepts its samples. -/
theorem Sampled.accepts (h : arena.Sampled id value) (hsettled : arena.Settled) :
    (Walk.check arena value id []).violations = [] := by
  induction h with
  | unknown hnode => rw [Walk.check_eq hsettled, Walk.visit, hnode]; rfl
  | string hnode =>
      rw [Walk.check_eq hsettled, Walk.visit, hnode]
      dsimp only
      rw [Walk.checkString, Sample.problem?_string]
      rfl
  | integer hnode => rw [Walk.check_eq hsettled, Walk.visit, hnode]; rfl
  | number hnode => rw [Walk.check_eq hsettled, Walk.visit, hnode]; rfl
  | boolean hnode => rw [Walk.check_eq hsettled, Walk.visit, hnode]; rfl
  | literal hnode hproper =>
      rw [Walk.check_eq hsettled, Walk.visit, hnode]
      dsimp only
      rw [Walk.checkLiteral, if_pos (Json.same_refl hproper)]
      rfl
  | @enum id option options hnode =>
      have hmem : (option :: options).contains option = true :=
        List.contains_iff_mem.mpr List.mem_cons_self
      rw [Walk.check_eq hsettled, Walk.visit, hnode]
      dsimp only
      rw [Walk.checkEnum, if_pos hmem]
      rfl
  | array hnode =>
      rw [Walk.check_eq hsettled, Walk.visit, hnode]
      exact Walk.violations_checkArray_eq_nil_iff.mpr fun _ hitem => absurd hitem List.not_mem_nil
  | record hnode =>
      rw [Walk.check_eq hsettled, Walk.visit, hnode]
      exact Walk.violations_checkRecord_eq_nil_iff.mpr fun _ hmember =>
        absurd hmember List.not_mem_nil
  | @object id fields policy sample hnode hnodup _ ih =>
      rw [Walk.check_eq hsettled, Walk.visit, hnode]
      refine Walk.violations_checkObject_eq_nil_iff.mpr ⟨fun member hmember => ?_,
        fun field hfield hrequired => ?_⟩
      · obtain ⟨field, hfield, hrequired, rfl⟩ := mem_sample.mp hmember
        rw [Walk.memberOutcome_of_mem hnodup hfield]
        exact (Walk.violations_check_eq_nil_iff ..).mpr (ih field hfield hrequired)
      · exact List.mem_map_of_mem (f := (·.1)) (mem_sample.mpr ⟨field, hfield, hrequired, rfl⟩)
  | @union id variant variants value hnode _ ih =>
      rw [Walk.check_eq hsettled, Walk.visit, hnode]
      rcases Walk.checkUnion_eq (List.cons_ne_nil variant variants) with hfits | ⟨hfails, -⟩
      · obtain ⟨chosen, -, -, hunion⟩ := hfits
        dsimp only
        rw [hunion]
      · exact absurd ih (hfails variant List.mem_cons_self)
  | entity hnode _ ih =>
      rw [Walk.check_eq hsettled, Walk.visit, hnode]
      exact ih

/-- Where no union is reached, a sample leads nowhere that an accepted value does not lead. -/
theorem Sampled.within (h : arena.Sampled id value) (hsettled : arena.Settled)
    (hunions : ∀ id variants, arena.Reaches root id → arena.node id ≠ .union variants)
    (hid : arena.Reaches root id) (hother : other.Proper)
    (haccepts : (Walk.check arena other id []).violations = []) : value.Within other := by
  induction h generalizing other with
  | @literal id value hnode hproper =>
      rw [Walk.check_eq hsettled, Walk.visit, hnode] at haccepts
      dsimp only at haccepts
      rw [Walk.checkLiteral] at haccepts
      split at haccepts
      · rename_i hsame
        exact Json.within_of_same (Json.same_symm hother hproper hsame)
      · cases haccepts
  | array hnode =>
      exact Json.within_of_enter?_eq_none fun segment => by cases segment <;> rfl
  | record hnode =>
      exact Json.within_of_enter?_eq_none fun segment => by cases segment <;> rfl
  | @object id fields policy sample hnode hnodup _ ih =>
      rw [Walk.check_eq hsettled, Walk.visit, hnode] at haccepts
      obtain ⟨members, rfl⟩ := Walk.exists_obj_of_checkObject haccepts
      obtain ⟨hmembers, hrequiredAll⟩ := Walk.violations_checkObject_eq_nil_iff.mp haccepts
      refine Json.within_obj fun member hmember => ?_
      obtain ⟨field, hfield, hrequired, rfl⟩ := mem_sample.mp hmember
      obtain ⟨part, hpart⟩ :=
        Association.exists_lookup_of_mem_keys (hrequiredAll field hfield hrequired)
      have haccepted := hmembers _ (Association.mem_of_lookup hpart)
      rw [Walk.memberOutcome_of_mem hnodup hfield] at haccepted
      have hreaches : arena.Reaches root field.node :=
        hid.tail (by rw [hnode]; exact List.mem_map_of_mem hfield)
      exact ⟨part, hpart, ih field hfield hrequired hreaches (hother.lookup hpart)
        ((Walk.violations_check_eq_nil_iff ..).mp haccepted)⟩
  | union hnode => exact absurd hnode (hunions _ _ hid)
  | entity hnode _ ih =>
      rw [Walk.check_eq hsettled, Walk.visit, hnode] at haccepts
      exact ih (hid.tail (by rw [hnode]; exact List.mem_singleton_self _)) hother haccepts
  | _ => exact Json.within_of_enter?_eq_none fun segment => by cases segment <;> rfl

end Arena

namespace Registry

variable {registry : Registry} {validator : Validator}

/-- However an entity is compiled, its smallest document is accepted if no intersection is reached
and making the document never comes to an entity that is on the way. If no union is reached
either, wherever it leads, every accepted document leads, too. -/
theorem minimal_accepted {entries : List (String × Json)}
    (hproper : ∀ entry ∈ entries, entry.2.Proper) (hentries : ofEntries entries = .ok registry)
    {key : String} (hway : some validator ∈ registry.waysTo key)
    (hintersections : ∀ id left right, validator.arena.Reaches validator.root id →
      validator.arena.node id ≠ .intersection left right)
    (hreenters : validator.arena.NeverReenters validator.root) :
    (validator.validate validator.minimal).isValid = true ∧
      ((∀ id variants, validator.arena.Reaches validator.root id →
          validator.arena.node id ≠ .union variants) →
        ∀ value : Json, value.Proper → (validator.validate value).isValid = true →
          validator.minimal.Within value) := by
  have hregistry := indexed_of_ofEntries hproper hentries
  have hchecks := checks_of_way hway
  obtain ⟨hwell, hends⟩ := hchecks.wellFormed hregistry
  obtain ⟨labels, harena, hroot⟩ := hchecks
  have hsettled := harena.settled hregistry
  have hsampled : validator.arena.Sampled validator.root validator.minimal :=
    Arena.sampled_minimal
      (fun hreaches => hreaches.node_wellFormed harena hregistry hroot (wellFormed_ref key))
      (hintersections _ _ _) hreenters hwell hends.root_lt
  refine ⟨Validator.isValid_validate_iff.mpr (hsampled.accepts hsettled),
    fun hunions value hvalue hvalid => ?_⟩
  exact hsampled.within hsettled hunions (.refl _ _) hvalue
    (Validator.isValid_validate_iff.mp hvalid)

/-- An employee with a name, who may have a manager. -/
def employeeDefinition : Json :=
  .obj [("type", .str "object"), ("required", .arr [.str "name"]), ("properties", .obj [
    ("name", .obj [("type", .str "string")]),
    ("manager", .obj [("$ref", .str "#/components/schemas/Employee")])])]

def employeeShape : Shape :=
  .object [("name", .string .any), ("manager", .optional (.ref "Employee") none)] .passthrough

/-- A ticket of one system, with a state, an owner and a time; it may follow another ticket. -/
def ticketDefinition : Json :=
  .obj [("allOf", .arr [
    .obj [("type", .str "object"), ("required", .arr [.str "origin", .str "state"]),
      ("properties", .obj [
        ("origin", .obj [("const", .obj [("system", .str "web")])]),
        ("state", .obj [("enum", .arr [.str "open", .str "closed"])])])],
    .obj [("type", .str "object"), ("required", .arr [.str "owner", .str "opened"]),
      ("properties", .obj [
        ("owner", .obj [("$ref", .str "#/components/schemas/Employee")]),
        ("opened", .obj [("type", .str "string"), ("format", .str "date-time")]),
        ("follows", .obj [("$ref", .str "#/components/schemas/Ticket")])])]])]

def ticketShape : Shape :=
  .intersection
    (.object [("origin", .literal (.obj [("system", .str "web")])),
      ("state", .enum ["open", "closed"])] .passthrough)
    (.object [("owner", .ref "Employee"), ("opened", .string .dateTime),
      ("follows", .optional (.ref "Ticket") none)] .passthrough)

def ticketEntries : List (String × Json) :=
  [("Employee", employeeDefinition), ("Ticket", ticketDefinition)]

def ticketRegistry : Registry :=
  ⟨[⟨"Employee", employeeDefinition, employeeShape⟩, ⟨"Ticket", ticketDefinition, ticketShape⟩]⟩

def ticketValidator : Validator where
  arena := ⟨#[.entity "Ticket" 7, .literal (.obj [("system", .str "web")]),
    .enum ["open", "closed"], .entity "Employee" 5, .string .any,
    .object [⟨"name", 4, true, none⟩, ⟨"manager", 3, false, none⟩] .passthrough, .string .dateTime,
    .object [⟨"origin", 1, true, none⟩, ⟨"state", 2, true, none⟩, ⟨"owner", 3, true, none⟩,
      ⟨"opened", 6, true, none⟩, ⟨"follows", 0, false, none⟩] .passthrough]⟩
  root := 0
  name? := some "Ticket"

def ticketDocument : Json :=
  .obj [("opened", .str "2024-02-29T12:00:00Z"), ("state", .str "closed"),
    ("owner", .obj [("name", .str "Kim"), ("manager", .obj [("name", .str "Ash")])]),
    ("origin", .obj [("system", .str "web")]), ("note", .null)]

theorem ofEntries_ticketEntries : ofEntries ticketEntries = .ok ticketRegistry := by
  have hemployee : Shape.ofDefinition employeeDefinition = .ok employeeShape := by
    with_unfolding_all rfl
  have hticket : Shape.ofDefinition ticketDefinition = .ok ticketShape := by
    with_unfolding_all rfl
  refine ofEntries_of_reads ?_ (by decide) (by rfl)
  exact .cons ⟨rfl, rfl, by decide, hemployee⟩ (.cons ⟨rfl, rfl, by decide, hticket⟩ .nil)

theorem way_ticketValidator : some ticketValidator ∈ ticketRegistry.waysTo "Ticket" := by
  have hcompile : ticketRegistry.compile "Ticket" = .ok ticketValidator := by rfl
  rw [waysTo, hcompile]
  exact List.mem_cons_of_mem _ List.mem_cons_self

/-- A ticket needs an owner, but no manager of the owner and no other ticket. -/
theorem neverReenters_ticketValidator :
    ticketValidator.arena.NeverReenters ticketValidator.root := by
  apply Arena.neverReenters_of_falling fun id => [4, 0, 0, 2, 0, 1, 0, 3].getD id 0
  decide

theorem isValid_ticketDocument : (ticketValidator.validate ticketDocument).isValid = true := by
  decide +kernel

theorem minimal_accepted_ticket :
    (ticketValidator.validate ticketValidator.minimal).isValid = true ∧
      ticketValidator.minimal.Within ticketDocument := by
  have hproper : ∀ entry ∈ ticketEntries, entry.2.Proper := by
    simp [ticketEntries, employeeDefinition, ticketDefinition]
  have hvalue : ticketDocument.Proper := by
    simp [ticketDocument]
  have hstraight : ticketValidator.arena.Straight ticketValidator.root :=
    Arena.straight_of_nodes (by simp [ticketValidator])
  obtain ⟨haccepted, hwithin⟩ := minimal_accepted hproper ofEntries_ticketEntries
    way_ticketValidator (fun _ _ _ => hstraight.not_intersection) neverReenters_ticketValidator
  exact ⟨haccepted, hwithin (fun _ _ => hstraight.not_union) ticketDocument hvalue
    isValid_ticketDocument⟩

example : ticketValidator.minimal = .obj [("origin", .obj [("system", .str "web")]),
    ("state", .str "open"), ("owner", .obj [("name", .str "")]),
    ("opened", .str "1970-01-01T00:00:00Z")] := by
  rfl

/-- A link below itself has no smallest document: what is made in its place is not accepted. -/
example :
    (Validator.validate ⟨linkArena, 0, none⟩ (Sample.minimal linkArena 0)).isValid = false := by
  rfl

end Registry

end EntityContract
