import EntityContract.Proofs.Json.Pointer
import EntityContract.Proofs.Validation.Checking

/-!
Where violations lie. Each is reported at the place in the document that it is about: of a missing
field the place where it would be, of any other fault the value that is at fault.
-/

namespace EntityContract

/-- A fault of this kind can be found at this path of the value. Missing fields are found in
objects without them; what is wrong with an enumeration or a format is a text. -/
inductive ConstraintKind.FoundAt (kind : ConstraintKind) : Json → Path → Prop
  | here {value : Json} : kind ≠ .required →
      (kind = .enum ∨ kind = .format → ∃ text, value = .str text) → FoundAt kind value []
  | absent {members : Members} {name : String} : kind = .required →
      Members.contains name members = false → FoundAt kind (.obj members) [.key name]
  | item {items : List Json} {position : Nat} {item : Json} {path : Path} :
      items[position]? = some item → FoundAt kind item path →
        FoundAt kind (.arr items) (.index position :: path)
  | member {members : Members} {name : String} {value : Json} {path : Path} :
      members.lookup name = some value → FoundAt kind value path →
        FoundAt kind (.obj members) (.key name :: path)

/-- The violation, reported by a check of the value at the path, lies in the value. -/
def Violation.LiesIn (value : Json) (path : Path) (violation : Violation) : Prop :=
  ∃ rest, violation.path = path ++ rest ∧ violation.fault.kind.FoundAt value rest

/-- The violation points at what it is about: its path and its pointer lead to one place. A missing
field is missing there; anything else is there, and a text if the fault is one of texts. -/
structure Violation.Points (value : Json) (violation : Violation) : Prop where
  pointer_eq : value.pointer? violation.path.pointer = value.follow? violation.path
  found : violation.fault.kind ≠ .required → ∃ part, value.follow? violation.path = some part ∧
    (violation.fault.kind = .enum ∨ violation.fault.kind = .format → ∃ text, part = .str text)
  missing : violation.fault.kind = .required → ∃ path name members,
    violation.path = path ++ [.key name] ∧ value.follow? path = some (.obj members) ∧
      Members.contains name members = false

section Points

variable {kind : ConstraintKind} {value : Json} {path : Path}

theorem ConstraintKind.FoundAt.pointer_eq (h : kind.FoundAt value path) :
    value.pointer? path.pointer = value.follow? path := by
  rw [Json.pointer?_pointer, Json.follow?]
  induction h with
  | here => rfl
  | absent =>
      rw [List.map_singleton, List.foldlM_cons, List.foldlM_cons, Json.enter?_member]
      rfl
  | item hitem _ ih =>
      rw [List.map_cons, List.foldlM_cons, List.foldlM_cons, Json.enter?_item]
      have henter : (Json.arr _).enter? (.index _) = some _ := hitem
      rw [henter]
      exact ih
  | member hmember _ ih =>
      rw [List.map_cons, List.foldlM_cons, List.foldlM_cons, Json.enter?_member]
      have henter : (Json.obj _).enter? (.key _) = some _ := hmember
      rw [henter]
      exact ih

theorem Json.follow?_item {items : List Json} {position : Nat} {item : Json}
    (h : items[position]? = some item) (path : Path) :
    (arr items).follow? (.index position :: path) = item.follow? path := by
  have henter : (arr items).enter? (.index position) = some item := h
  rw [follow?_cons, henter, Option.bind_some]

theorem Json.follow?_member {members : Members} {name : String} {value : Json}
    (h : members.lookup name = some value) (path : Path) :
    (obj members).follow? (.key name :: path) = value.follow? path := by
  have henter : (obj members).enter? (.key name) = some value := h
  rw [follow?_cons, henter, Option.bind_some]

theorem ConstraintKind.FoundAt.found (h : kind.FoundAt value path) (hkind : kind ≠ .required) :
    ∃ part, value.follow? path = some part ∧
      (kind = .enum ∨ kind = .format → ∃ text, part = .str text) := by
  induction h with
  | here _ htext => exact ⟨_, rfl, htext⟩
  | absent hrequired => exact absurd hrequired hkind
  | item hitem _ ih =>
      rw [Json.follow?_item hitem]
      exact ih
  | member hmember _ ih =>
      rw [Json.follow?_member hmember]
      exact ih

theorem ConstraintKind.FoundAt.missing (h : kind.FoundAt value path) (hkind : kind = .required) :
    ∃ init name members, path = init ++ [.key name] ∧
      value.follow? init = some (.obj members) ∧ Members.contains name members = false := by
  induction h with
  | here hother => exact absurd hkind hother
  | absent _ habsent => exact ⟨[], _, _, rfl, rfl, habsent⟩
  | item hitem _ ih =>
      obtain ⟨init, name, members, rfl, hinit, habsent⟩ := ih
      refine ⟨.index _ :: init, name, members, rfl, ?_, habsent⟩
      rw [Json.follow?_item hitem, hinit]
  | member hmember _ ih =>
      obtain ⟨init, name, members, rfl, hinit, habsent⟩ := ih
      refine ⟨.key _ :: init, name, members, rfl, ?_, habsent⟩
      rw [Json.follow?_member hmember, hinit]

theorem Violation.LiesIn.points {violation : Violation} (h : violation.LiesIn value []) :
    violation.Points value := by
  obtain ⟨path, hpath, hfound⟩ := h
  rw [List.nil_append] at hpath
  subst hpath
  exact ⟨hfound.pointer_eq, hfound.found, hfound.missing⟩

end Points

namespace Walk

variable {arena : Arena} {value : Json} {path : Path}

/-- All violations of an outcome lie in the value. -/
def Located (value : Json) (path : Path) (outcome : Outcome) : Prop :=
  ∀ violation ∈ outcome.violations, violation.LiesIn value path

theorem located_accept (other : Json) : Located value path (.accept other) :=
  fun _ h => nomatch h

theorem located_reject {fault : Fault} (hkind : fault.kind ≠ .required)
    (htext : fault.kind = .enum ∨ fault.kind = .format → ∃ text, value = .str text) :
    Located value path (.reject path value fault) := by
  intro violation hviolation
  rw [List.mem_singleton.mp hviolation]
  exact ⟨[], (List.append_nil path).symm, .here hkind htext⟩

theorem located_type (expected : String) :
    Located value path (.reject path value (.type expected value)) :=
  located_reject (by simp [Fault.kind]) (by simp [Fault.kind])

theorem located_checkString (format : StringFormat) :
    Located value path (checkString format path value) := by
  cases value with
  | str text =>
      rw [checkString]
      split
      · exact located_reject (by simp [Fault.kind]) fun _ => ⟨text, rfl⟩
      · exact located_accept _
  | _ => exact located_type "string"

theorem located_checkEnum (options : List String) :
    Located value path (checkEnum options path value) := by
  cases value with
  | str text =>
      rw [checkEnum]
      split
      · exact located_accept _
      · exact located_reject (by simp [Fault.kind]) fun _ => ⟨text, rfl⟩
  | _ => exact located_type "string"

theorem located_checkInteger : Located value path (checkInteger path value) := by
  cases value with
  | num n =>
      rw [checkInteger]
      split
      · exact located_accept _
      · exact located_type "integer"
  | _ => exact located_type "integer"

theorem located_checkNumber : Located value path (checkNumber path value) := by
  cases value with
  | num n => exact located_accept _
  | _ => exact located_type "number"

theorem located_checkBoolean : Located value path (checkBoolean path value) := by
  cases value with
  | bool b => exact located_accept _
  | _ => exact located_type "boolean"

theorem located_checkLiteral (expected : Json) :
    Located value path (checkLiteral expected path value) := by
  rw [checkLiteral]
  split
  · exact located_accept _
  · exact located_reject (by simp [Fault.kind]) (by simp [Fault.kind])

theorem mem_itemOutcomes {node : NodeId} {items : List Json} {first : Nat} {outcome : Outcome}
    (h : outcome ∈ itemOutcomes node path first (items.map (check arena))) :
    ∃ position item, items[position]? = some item ∧
      outcome = check arena item node (path ++ [.index (first + position)]) := by
  obtain ⟨position, hposition⟩ := List.mem_iff_getElem?.mp h
  rw [getElem?_itemOutcomes, Option.map_eq_some_iff] at hposition
  obtain ⟨item, hitem, rfl⟩ := hposition
  exact ⟨position, item, hitem, rfl⟩

/-- What lies in an element lies in the array. -/
theorem Located.item {items : List Json} {position : Nat} {item : Json} {outcome : Outcome}
    (hitem : items[position]? = some item)
    (h : Located item (path ++ [.index position]) outcome) :
    Located (.arr items) path outcome := by
  intro violation hviolation
  obtain ⟨rest, hpath, hfound⟩ := h violation hviolation
  exact ⟨.index position :: rest, by rw [hpath, List.append_assoc]; rfl, .item hitem hfound⟩

/-- What lies in a member lies in the object. -/
theorem Located.member {members : Members} {name : String} {part : Json} {outcome : Outcome}
    (hmember : members.lookup name = some part)
    (h : Located part (path ++ [.key name]) outcome) :
    Located (.obj members) path outcome := by
  intro violation hviolation
  obtain ⟨rest, hpath, hfound⟩ := h violation hviolation
  exact ⟨.key name :: rest, by rw [hpath, List.append_assoc]; rfl, .member hmember hfound⟩

section Parts

variable (hvalue : value.Proper)
  (hparts : ∀ part : Json, part.Part value →
    ∀ id path, Located part path (check arena part id path))

include hparts

theorem located_checkArray (node : NodeId) :
    Located value path (checkArray node path value (parts arena value)) := by
  cases value with
  | arr items =>
      intro violation hviolation
      obtain ⟨outcome, houtcome, hviolation⟩ := List.mem_flatMap.mp hviolation
      obtain ⟨position, item, hitem, rfl⟩ := mem_itemOutcomes houtcome
      rw [Nat.zero_add] at hviolation
      have hlocated :=
        hparts item (.item (List.mem_of_getElem? hitem)) node (path ++ [.index position])
      exact hlocated.item hitem violation hviolation
  | _ => exact located_type "array"

include hvalue

theorem located_checkRecord (node : NodeId) :
    Located value path (checkRecord node path value (parts arena value)) := by
  cases value with
  | obj members =>
      intro violation hviolation
      rw [parts, checkRecord] at hviolation
      simp only [List.mem_flatMap, List.mem_map, exists_exists_and_eq_and] at hviolation
      obtain ⟨⟨name, part⟩, hmem, hviolation⟩ := hviolation
      have hlocated := hparts part (.member hmem) node (path ++ [.key name])
      exact hlocated.member (Association.lookup_of_mem hvalue.nodup hmem) violation hviolation
  | _ => exact located_type "object"

theorem located_checkObject (fields : List FieldNode) (policy : UnknownFields) :
    Located value path (checkObject fields policy path value (parts arena value)) := by
  cases value with
  | obj members =>
      intro violation hviolation
      rw [parts, checkObject, memberOutcomes_eq] at hviolation
      rcases List.mem_append.mp hviolation with hviolation | hviolation
      · simp only [List.mem_flatMap, List.mem_map, List.mem_filter, exists_exists_and_eq_and]
          at hviolation
        obtain ⟨⟨name, part⟩, ⟨hmem, -⟩, hviolation⟩ := hviolation
        rw [memberOutcome] at hviolation
        split at hviolation
        · rename_i field hfield
          have hlocated := hparts part (.member hmem) field.node (path ++ [.key name])
          exact hlocated.member (Association.lookup_of_mem hvalue.nodup hmem) violation hviolation
        · cases hviolation
      · simp only [List.mem_flatMap, List.mem_map, List.mem_filter, exists_exists_and_eq_and,
          Bool.not_eq_true'] at hviolation
        obtain ⟨field, ⟨-, habsent⟩, hviolation⟩ := hviolation
        rw [absentField] at hviolation
        split at hviolation
        · rw [List.mem_singleton.mp hviolation]
          exact ⟨[.key field.name], rfl, .absent rfl habsent⟩
        · split at hviolation <;> cases hviolation
  | _ => exact located_type "object"

end Parts

theorem located_checkUnion (variants : List Variant) {again : Check}
    (hagain : ∀ id, Located value path (again id path)) :
    Located value path (checkUnion arena variants path value again) := by
  rcases eq_or_ne variants [] with rfl | hvariants
  · exact located_accept value
  · by_cases hfits : ∃ variant ∈ variants, (again variant.node path).violations = []
    · obtain ⟨position, variant, -, hunion⟩ :=
        @checkUnion_of_fits arena variants path value again hfits
      rw [hunion]
      exact fun violation hviolation => nomatch hviolation
    · obtain ⟨position, variant, -, hunion⟩ :=
        @checkUnion_of_fails arena variants path value again hvariants
          fun variant hvariant hviolations => hfits ⟨variant, hvariant, hviolations⟩
      rw [hunion]
      intro violation hviolation
      obtain ⟨inner, hinner, rfl⟩ := List.mem_map.mp hviolation
      exact hagain variant.node inner hinner

theorem Located.intersection {left right : Outcome} (hleft : Located value path left)
    (hright : Located value path right) :
    Located value path (checkIntersection value left right) := by
  intro violation hviolation
  rcases List.mem_append.mp hviolation with hviolation | hviolation
  · exact hleft violation hviolation
  · exact hright violation hviolation

/-- One node after the other, whatever the arena. -/
theorem located_visit (hvalue : value.Proper)
    (hparts : ∀ part : Json, part.Part value → ∀ id path,
      Located part path (check arena part id path)) {again : Check}
    (hagain : ∀ id path, Located value path (again id path)) (id : NodeId) (path : Path) :
    Located value path (visit arena value (parts arena value) again id path) := by
  unfold visit
  cases arena.node id with
  | pending => exact located_accept value
  | unknown => exact located_accept value
  | string format => exact located_checkString format
  | integer => exact located_checkInteger
  | number => exact located_checkNumber
  | boolean => exact located_checkBoolean
  | literal expected => exact located_checkLiteral expected
  | enum options => exact located_checkEnum options
  | array item => exact located_checkArray hparts item
  | record item => exact located_checkRecord hvalue hparts item
  | object fields policy => exact located_checkObject hvalue hparts fields policy
  | union variants => exact located_checkUnion variants fun id => hagain id path
  | intersection left right => exact (hagain left path).intersection (hagain right path)
  | entity key target => exact hagain target path

theorem located_check (arena : Arena) (value : Json) (hvalue : value.Proper) (id : NodeId)
    (path : Path) : Located value path (check arena value id path) := by
  induction value using Json.induct_parts generalizing id path with
  | step value ih =>
      have hparts : ∀ part : Json, part.Part value → ∀ id path,
          Located part path (check arena part id path) :=
        fun part hpart id path => ih part hpart (hvalue.part hpart) id path
      rw [check_eq_step]
      generalize arena.size + 1 = steps
      induction steps generalizing id path with
      | zero => exact located_accept value
      | succ steps ihSteps =>
          rw [step_succ]
          exact located_visit hvalue hparts ihSteps id path

end Walk

namespace Validator

/-- A document that is rejected has violations, and each points at what it is about. -/
theorem violations_point {validator : Validator} {value : Json} {violations : List Violation}
    (hvalue : value.Proper) (h : validator.validate value = .invalid violations) :
    violations ≠ [] ∧ ∀ violation ∈ violations, violation.Points value := by
  rw [validate] at h
  split at h
  · exact nomatch h
  · rename_i hne
    cases h
    exact ⟨hne, fun violation hviolation =>
      (Walk.located_check validator.arena value hvalue validator.root [] violation
        hviolation).points⟩

/-- Lists of tags by name, beside a required field. -/
def tagsValidator : Validator where
  arena := ⟨#[.string .any, .enum ["x"], .array 1, .record 2,
    .object [⟨"id", 0, true, none⟩, ⟨"~tags", 3, false, none⟩] .passthrough]⟩
  root := 4
  name? := none

def tagsDocument : Json :=
  .obj [("~tags", .obj [("0", .arr []), ("a/b", .arr [.str "x", .str "y"])])]

theorem violations_point_tags :
    Violation.Points tagsDocument
        ⟨[.key "~tags", .key "a/b", .index 1], .enum ["x"] "y", []⟩ ∧
      Violation.Points tagsDocument ⟨[.key "id"], .missing, []⟩ := by
  have hvalue : tagsDocument.Proper := by
    simp [tagsDocument]
  have hinvalid : tagsValidator.validate tagsDocument =
      .invalid [⟨[.key "~tags", .key "a/b", .index 1], .enum ["x"] "y", []⟩,
        ⟨[.key "id"], .missing, []⟩] := by rfl
  have hpoints := (violations_point hvalue hinvalid).2
  exact ⟨hpoints _ List.mem_cons_self, hpoints _ (List.mem_cons_of_mem _ List.mem_cons_self)⟩

example : tagsDocument.pointer? "/~0tags/a~1b/1" = some (.str "y") := by rfl

end Validator

end EntityContract
