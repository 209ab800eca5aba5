import EntityContract.Proofs.Arena.Reach
import EntityContract.Proofs.Registry.Permutation
import EntityContract.Proofs.Validation.Completeness

/-!
What is told of one place of a document does not depend on what stands at another one. A violation
names the place of the value that is wrong, and a value is looked at in full only where it stands,
or as a part of another one; only a union tells of a part what depends on other parts.
-/

namespace EntityContract

/-- The value at the path is replaced; members and elements stay where they are. -/
inductive Json.DiffersAt : Path → Json → Json → Prop
  | here (value other : Json) : DiffersAt [] value other
  | item (before after : List Json) {part other : Json} {path : Path} :
      DiffersAt path part other → DiffersAt (.index before.length :: path)
        (.arr (before ++ part :: after)) (.arr (before ++ other :: after))
  | member (before after : Members) (key : String) {part other : Json} {path : Path} :
      DiffersAt path part other → DiffersAt (.key key :: path)
        (.obj (before ++ (key, part) :: after)) (.obj (before ++ (key, other) :: after))

instance Path.instDecidableApart (path other : Path) : Decidable (path.Apart other) :=
  inferInstanceAs (Decidable (¬_ ∧ ¬_))

namespace Violation

/-- The violations at paths that lead neither to the place nor through it. -/
def apartFrom (path : Path) (violations : List Violation) : List Violation :=
  violations.filter fun violation => violation.path.Apart path

variable {path : Path} {segment : Segment} {violations others : List Violation}

theorem apartFrom_append : apartFrom path (violations ++ others) =
    apartFrom path violations ++ apartFrom path others := List.filter_append ..

theorem apartFrom_nil (violations : List Violation) : apartFrom [] violations = [] :=
  List.filter_eq_nil_iff.mpr fun _ _ hapart => (of_decide_eq_true hapart).2 List.nil_prefix

/-- What is told of a value as a whole is not apart from its parts. -/
theorem apartFrom_of_whole {outcome : Outcome} (h : outcome.Whole) :
    apartFrom path outcome.violations = [] := by
  rcases h with hnone | ⟨fault, hone⟩
  · rw [hnone]
    rfl
  · rw [hone]
    exact List.filter_eq_nil_iff.mpr fun violation hviolation hapart =>
      (of_decide_eq_true hapart).1 (List.mem_singleton.mp hviolation ▸ List.nil_prefix)

theorem apartFrom_reject {value : Json} {fault : Fault} :
    apartFrom path (Outcome.reject [] value fault).violations = [] :=
  apartFrom_of_whole (Or.inr ⟨fault, rfl⟩)

theorem apartFrom_under (path : Path) (segment : Segment) (violations : List Violation) :
    apartFrom (segment :: path) (violations.map (·.under segment)) =
      (apartFrom path violations).map (·.under segment) := by
  have happart : ∀ violation : Violation,
      (violation.under segment).path.Apart (segment :: path) ↔ violation.path.Apart path := by
    intro violation
    rw [under, Path.Apart, Path.Apart, List.cons_prefix_cons, List.cons_prefix_cons]
    simp
  rw [apartFrom, List.filter_map]
  congr 2
  funext violation
  exact decide_eq_decide.mpr (happart violation)

/-- Only the violations at one step differ, and these only at the path. -/
theorem apartFrom_gather (before after : List (Segment × List Violation))
    (h : apartFrom path violations = apartFrom path others) :
    apartFrom (segment :: path) (gather (before ++ (segment, violations) :: after)) =
      apartFrom (segment :: path) (gather (before ++ (segment, others) :: after)) := by
  have hsplit : ∀ violations, gather (before ++ (segment, violations) :: after) =
      gather before ++ (violations.map (·.under segment) ++ gather after) :=
    fun _ => gather_append before _
  rw [hsplit, hsplit]
  simp only [apartFrom_append, apartFrom_under, h]

end Violation

namespace Walk

open Violation

variable {arena : Arena} {path : Path} {value other : Json}

/-- Replacing the value at a path changes nothing apart from it in what the node tells. -/
def Local (arena : Arena) (value : Json) (id : NodeId) : Prop :=
  ∀ path other, value.DiffersAt path other →
    apartFrom path (check arena value id []).violations =
      apartFrom path (check arena other id []).violations

section Parts

variable {node : NodeId}

theorem checkArray_local (hparts : ∀ part : Json, part.Part value → Local arena part node)
    (h : value.DiffersAt path other) :
    apartFrom path (checkArray node [] value (parts arena value)).violations =
      apartFrom path (checkArray node [] other (parts arena other)).violations := by
  cases h with
  | here => rw [apartFrom_nil, apartFrom_nil]
  | item before after hdiffers =>
      have hpart := hparts _ (.item (List.mem_append_right _ List.mem_cons_self)) _ _ hdiffers
      rw [violations_checkArray, violations_checkArray]
      simp only [itemFaults, List.zipIdx_append, List.zipIdx_cons, List.map_append, List.map_cons,
        Nat.zero_add]
      exact apartFrom_gather _ _ hpart
  | member => exact apartFrom_reject.trans apartFrom_reject.symm

theorem checkRecord_local (hparts : ∀ part : Json, part.Part value → Local arena part node)
    (h : value.DiffersAt path other) :
    apartFrom path (checkRecord node [] value (parts arena value)).violations =
      apartFrom path (checkRecord node [] other (parts arena other)).violations := by
  cases h with
  | here => rw [apartFrom_nil, apartFrom_nil]
  | item => exact apartFrom_reject.trans apartFrom_reject.symm
  | member before after key hdiffers =>
      have hpart :=
        hparts _ (.member (List.mem_append_right before List.mem_cons_self)) _ _ hdiffers
      rw [violations_checkRecord, violations_checkRecord]
      simp only [recordFaults, List.map_append, List.map_cons]
      exact apartFrom_gather _ _ hpart

/-- Which fields are missing depends on the keys only. -/
theorem missingFaults_congr {fields : List FieldNode} {members others : Members}
    (h : members.map (·.1) = others.map (·.1)) :
    missingFaults fields members = missingFaults fields others := by
  have hcontains : ∀ name, Members.contains name members = Members.contains name others := by
    intro name
    rw [Bool.eq_iff_iff, Members.contains_iff, Members.contains_iff, h]
  simp only [missingFaults, hcontains]

theorem checkObject_local {fields : List FieldNode} {policy : UnknownFields}
    (hparts : ∀ part : Json, part.Part value → ∀ field ∈ fields, Local arena part field.node)
    (h : value.DiffersAt path other) :
    apartFrom path (checkObject fields policy [] value (parts arena value)).violations =
      apartFrom path (checkObject fields policy [] other (parts arena other)).violations := by
  cases h with
  | here => rw [apartFrom_nil, apartFrom_nil]
  | item => exact apartFrom_reject.trans apartFrom_reject.symm
  | @member before after key part other path hdiffers =>
      have hpart := hparts _ (.member (List.mem_append_right before List.mem_cons_self))
      have hmissing : missingFaults fields (before ++ (key, part) :: after) =
          missingFaults fields (before ++ (key, other) :: after) :=
        missingFaults_congr (by rw [List.map_append, List.map_append, List.map_cons, List.map_cons])
      rw [violations_checkObject, violations_checkObject, hmissing, memberFaults, memberFaults,
        List.filterMap_append, List.filterMap_append, List.filterMap_cons, List.filterMap_cons]
      cases hfield : FieldNode.find? fields key with
      | none => rfl
      | some field =>
          simp only [Option.map_some, List.append_assoc, List.cons_append]
          exact apartFrom_gather _ _
            (hpart field (FieldNode.mem_of_find? hfield).1 _ _ hdiffers)

end Parts

theorem Scalar.apartFrom_eq {check : Path → Json → Outcome} (h : Scalar check) (value other : Json)
    (path : Path) : apartFrom path (check [] value).violations =
      apartFrom path (check [] other).violations := by
  rw [apartFrom_of_whole (h.whole value), apartFrom_of_whole (h.whole other)]

/-- By induction on the value and the nodes it is left to; at each node either only a part differs,
or all that is told is told of the value as a whole. -/
theorem check_local (hsettled : arena.Settled) {root : NodeId}
    (hunions : ∀ id variants, arena.Reaches root id → arena.node id ≠ .union variants)
    (value : Json) (id : NodeId) (hid : arena.Reaches root id) : Local arena value id := by
  induction value, id using hsettled.induct with
  | step value id hparts hdelegates =>
      have hchild : ∀ child ∈ (arena.node id).children, arena.Reaches root child :=
        fun _ => hid.tail
      intro path other hdiffers
      rw [check_eq hsettled value, check_eq hsettled other, visit, visit]
      cases hnode : arena.node id with
      | pending => rfl
      | unknown => rfl
      | string format => exact (scalar_checkString format).apartFrom_eq value other path
      | integer => exact scalar_checkInteger.apartFrom_eq value other path
      | number => exact scalar_checkNumber.apartFrom_eq value other path
      | boolean => exact scalar_checkBoolean.apartFrom_eq value other path
      | literal expected => exact (scalar_checkLiteral expected).apartFrom_eq value other path
      | enum options => exact (scalar_checkEnum options).apartFrom_eq value other path
      | array item =>
          rw [hnode] at hchild
          have hitem := hchild item (List.mem_singleton_self item)
          exact checkArray_local (fun part hpart => hparts part hpart item hitem) hdiffers
      | record item =>
          rw [hnode] at hchild
          have hitem := hchild item (List.mem_singleton_self item)
          exact checkRecord_local (fun part hpart => hparts part hpart item hitem) hdiffers
      | object fields policy =>
          rw [hnode] at hchild
          exact checkObject_local (fun part hpart field hfield =>
            hparts part hpart field.node (hchild _ (List.mem_map_of_mem hfield))) hdiffers
      | union variants => exact absurd hnode (hunions id variants hid)
      | intersection left right =>
          rw [hnode] at hchild
          have hleft := hdelegates left (.left hnode) (hchild _ List.mem_cons_self)
          have hright := hdelegates right (.right hnode)
            (hchild _ (List.mem_cons_of_mem _ List.mem_cons_self))
          simp only [checkIntersection, apartFrom_append]
          rw [hleft path other hdiffers, hright path other hdiffers]
      | entity key target =>
          rw [hnode] at hchild
          exact hdelegates target (.entity hnode) (hchild _ (List.mem_singleton_self target)) path
            other hdiffers

end Walk

namespace Registry

variable {registry : Registry} {validator : Validator}

/-- Where no union is reached, replacing the value at one path changes nothing in what is told of
places that the path neither leads to nor through: the same violations in the same order. -/
theorem compile_local {entries : List (String × Json)}
    (hproper : ∀ entry ∈ entries, entry.2.Proper) (hentries : ofEntries entries = .ok registry)
    {key : String} (hcompile : registry.compile key = .ok validator)
    (hunions : ∀ id variants, validator.arena.Reaches validator.root id →
      validator.arena.node id ≠ .union variants)
    {path : Path} {value other : Json} (h : value.DiffersAt path other) :
    (validator.validate value).violations.filter (·.path.Apart path) =
      (validator.validate other).violations.filter (·.path.Apart path) := by
  have hregistry := indexed_of_ofEntries hproper hentries
  obtain ⟨labels, harena, -⟩ := checks_of_compile hcompile
  rw [Validator.violations_validate, Validator.violations_validate]
  exact Walk.check_local (harena.settled hregistry) hunions value validator.root (.refl _ _) path
    other h

/-- Numbers, all of which are whole. -/
def levelsDefinition : Json :=
  .obj [("allOf", .arr [
    .obj [("type", .str "array"), ("items", .obj [("type", .str "number")])],
    .obj [("type", .str "array"), ("items", .obj [("type", .str "integer")])]])]

def levelsRegistry : Registry :=
  ⟨[⟨"Levels", levelsDefinition, .intersection (.array .number) (.array .integer)⟩]⟩

def levelsValidator : Validator where
  arena := ⟨#[.entity "Levels" 5, .number, .array 1, .integer, .array 3, .intersection 2 4]⟩
  root := 0
  name? := some "Levels"

theorem ofEntries_levelsDefinition :
    ofEntries [("Levels", levelsDefinition)] = .ok levelsRegistry := by
  have hlevels : Shape.ofDefinition levelsDefinition =
      .ok (.intersection (.array .number) (.array .integer)) := by
    rfl
  exact ofEntries_of_reads (.cons ⟨rfl, rfl, by decide, hlevels⟩ .nil) (List.nodup_singleton _)
    (by rfl)

theorem node_levelsValidator_ne_union (id : NodeId) (variants : List Variant) :
    levelsValidator.arena.node id ≠ .union variants :=
  Arena.forall_node (p := fun node => ∀ variants, node ≠ .union variants)
    (by simp [levelsValidator]) (fun _ => nofun) id variants

theorem compile_local_levels :
    (levelsValidator.validate (.arr [.null, .bool true])).violations.filter
        (·.path.Apart [.index 0]) =
      (levelsValidator.validate (.arr [.num (.int 1), .bool true])).violations.filter
        (·.path.Apart [.index 0]) := by
  have hproper : ∀ entry ∈ [("Levels", levelsDefinition)], entry.2.Proper := by
    simp [levelsDefinition]
  have hcompile : levelsRegistry.compile "Levels" = .ok levelsValidator := by rfl
  exact compile_local hproper ofEntries_levelsDefinition hcompile
    (fun id variants _ => node_levelsValidator_ne_union id variants)
    (.item [] [.bool true] (.here .null (.num (.int 1))))

example : (levelsValidator.validate (.arr [.null, .bool true])).violations =
    [⟨[.index 0], .type "number" .null, []⟩, ⟨[.index 1], .type "number" (.bool true), []⟩,
      ⟨[.index 0], .type "integer" .null, []⟩, ⟨[.index 1], .type "integer" (.bool true), []⟩] := by
  rfl

end Registry

end EntityContract
