import Mathlib.Tactic.FinCases
import EntityContract.Proofs.Arena.Reach
import EntityContract.Proofs.Json.Order
import EntityContract.Proofs.Registry.Permutation
import EntityContract.Proofs.Validator

/-!
Normalized documents keep the order of keys. Objects, records and unions do so at every depth. An
intersection that is left to run time does so unless its right side keeps a member that its left
side drops: such a member is put behind those of the left side. Without objects that strip none
does.
-/

namespace EntityContract

namespace Walk

/-- Where the walk of a document comes by: the value, the node that it is checked against and its
path. Of the variants of a union only the one counts whose output is taken. -/
inductive Visits (arena : Arena) (document : Json) (root : NodeId) : Json → NodeId → Path → Prop
  | root : Visits arena document root document root []
  | item {value part : Json} {id node : NodeId} {path : Path} {position : Nat} :
      Visits arena document root value id path → arena.node id = .array node →
        value.enter? (.index position) = some part →
          Visits arena document root part node (path ++ [.index position])
  | member {value part : Json} {id node : NodeId} {path : Path} {key : String} :
      Visits arena document root value id path → arena.node id = .record node →
        value.enter? (.key key) = some part →
          Visits arena document root part node (path ++ [.key key])
  | field {value part : Json} {id : NodeId} {fields : List FieldNode} {policy : UnknownFields}
      {field : FieldNode} {path : Path} {key : String} :
      Visits arena document root value id path → arena.node id = .object fields policy →
        value.enter? (.key key) = some part → FieldNode.find? fields key = some field →
          Visits arena document root part field.node (path ++ [.key key])
  | variant {value : Json} {id : NodeId} {variants : List Variant} {variant : Variant}
      {path : Path} :
      Visits arena document root value id path → arena.node id = .union variants →
        variant ∈ variants →
        check arena value id path =
          ⟨(check arena value variant.node path).output, [], some variant.label⟩ →
          Visits arena document root value variant.node path
  | left {value : Json} {id left right : NodeId} {path : Path} :
      Visits arena document root value id path → arena.node id = .intersection left right →
        Visits arena document root value left path
  | right {value : Json} {id left right : NodeId} {path : Path} :
      Visits arena document root value id path → arena.node id = .intersection left right →
        Visits arena document root value right path
  | entity {value : Json} {id target : NodeId} {key : String} {path : Path} :
      Visits arena document root value id path → arena.node id = .entity key target →
        Visits arena document root value target path

/-- The walk comes by an intersection whose right side keeps a member that its left side drops,
where other members of the left side should be behind it. -/
def Displaces (arena : Arena) (document : Json) (root : NodeId) : Prop :=
  ∃ value id path left right, Visits arena document root value id path ∧
    arena.node id = .intersection left right ∧
      value.Displaced (check arena value left path).output (check arena value right path).output

variable {registry : Registry} {arena : Arena} {labels : List Shape} {path : Path} {value : Json}

section Visits

variable {document : Json} {root : NodeId} {id : NodeId}

theorem Visits.proper (h : Visits arena document root value id path) (hdocument : document.Proper) :
    value.Proper := by
  induction h with
  | root => exact hdocument
  | item _ _ hpart ih | member _ _ hpart ih | field _ _ hpart _ ih =>
      exact ih.part (Json.part_of_enter? hpart)
  | variant _ _ _ _ ih | left _ _ ih | right _ _ ih | entity _ _ ih => exact ih

theorem Visits.reaches (h : Visits arena document root value id path) : arena.Reaches root id := by
  induction h with
  | root => exact .refl arena root
  | item _ hnode _ ih | member _ hnode _ ih | entity _ hnode ih =>
      exact ih.tail (by rw [hnode]; exact List.mem_singleton_self _)
  | field _ hnode _ hfind ih =>
      exact ih.tail (by rw [hnode]; exact List.mem_map_of_mem (FieldNode.mem_of_find? hfind).1)
  | variant _ hnode hvariant _ ih =>
      exact ih.tail (by rw [hnode]; exact List.mem_map_of_mem hvariant)
  | left _ hnode ih => exact ih.tail (by rw [hnode]; exact List.mem_cons_self)
  | right _ hnode ih =>
      exact ih.tail (by rw [hnode]; exact List.mem_cons_of_mem _ (List.mem_singleton_self _))

end Visits

/-- Where no shape drops members, none is displaced. -/
theorem not_displaces_of_carries (hregistry : registry.Indexed)
    (harena : arena.Labelled registry labels) {p : Shape → Prop} (hp : Shape.Mergeable p)
    {fixed : String → Prop} (hcarries : ∀ shape, p shape → shape.Carries fixed)
    (hrefers : ∀ key shape, p (.ref key) → registry.shape? key = some shape → shape.Everywhere p)
    {document : Json} (hdocument : document.Proper) {root : NodeId} {source : Shape}
    (hroot : labels[root]? = some source) (hwell : source.WellFormed)
    (hsource : source.Everywhere p) : ¬Displaces arena document root := by
  rintro ⟨value, id, path, left, right, hvisits, hnode, hdisplaced⟩
  obtain ⟨shape, hid, hshape⟩ :=
    hvisits.reaches.everywhere harena hregistry hp hrefers hroot hsource
  obtain ⟨other, hother, hotherWell⟩ := hvisits.reaches.everywhere harena hregistry
    Shape.mergeable_local (fun _ _ _ => hregistry.wellFormed) hroot hwell
  rw [hid, Option.some.injEq] at hother
  subst hother
  have hfits := harena.fits hid
  rw [hnode] at hfits
  cases hfits with
  | intersection _ hleft _ =>
      have hleftShape := (Shape.Everywhere.intersection_iff.mp hshape).2.1.present
      have hleftWell := (Shape.Everywhere.intersection_iff.mp hotherWell).2.1.present
      exact (check_extends hregistry harena hp hcarries hrefers value left path hleft hleftWell
        hleftShape (hvisits.proper hdocument)).not_displaced _ hdisplaced

theorem wholeOf_inOrder (value : Json) : value.InOrder (wholeOf value) := by
  cases value with
  | num n =>
      refine Json.inOrder_of_enter (fun _ _ hvalue => nomatch hvalue) fun segment _ _ hpart => ?_
      cases segment <;> cases hpart
  | _ => exact Json.inOrder_self _

theorem checkArray_inOrder {node : NodeId}
    (hitems : ∀ position part, value.enter? (.index position) = some part →
      part.InOrder (check arena part node (path ++ [.index position])).output) :
    value.InOrder (checkArray node path value (parts arena value)).output := by
  cases value with
  | arr items =>
      refine Json.inOrder_of_enter (fun _ _ hvalue => nomatch hvalue)
        fun segment part result hpart hresult => ?_
      cases segment with
      | key name => exact nomatch hpart
      | index position =>
          have hitem : items[position]? = some part := hpart
          have houtcome : ((itemOutcomes node path 0 (items.map (check arena))).map
              (·.output))[position]? = some result := hresult
          rw [List.getElem?_map, getElem?_itemOutcomes, hitem, Nat.zero_add] at houtcome
          cases houtcome
          exact hitems position part hpart
  | _ => exact Json.inOrder_self _

theorem checkRecord_inOrder {node : NodeId}
    (hmembers : ∀ key part, value.enter? (.key key) = some part →
      part.InOrder (check arena part node (path ++ [.key key])).output) :
    value.InOrder (checkRecord node path value (parts arena value)).output := by
  cases value with
  | obj members =>
      rw [output_checkRecord]
      refine Json.inOrder_of_enter (fun _ _ hvalue houtput => ?_)
        fun segment part result hpart hresult => ?_
      · cases hvalue
        cases houtput
        refine Members.keepsOrder_of_sublist ?_
        rw [List.map_map]
        exact List.Sublist.refl _
      · cases segment with
        | index position => exact nomatch hpart
        | key name =>
            have hmember : members.lookup name = some part := hpart
            have houtcome : (members.map fun member => (member.1,
                (check arena member.2 node (path ++ [.key member.1])).output)).lookup name =
                  some result := hresult
            rw [Association.lookup_map, hmember] at houtcome
            cases houtcome
            exact hmembers name part hpart
  | _ => exact Json.inOrder_self _

/-- The kept members stand as they stood, and the defaults of absent fields come behind them. -/
theorem keepsOrder_objectMembers (fields : List FieldNode) (policy : UnknownFields)
    (members : Members) : members.KeepsOrder (objectMembers arena fields policy path members) := by
  refine (Members.keepsOrder_of_sublist ?_).append fun key => FieldNode.disjoint_defaults
  rw [List.map_map]
  exact List.filter_sublist.map _

theorem checkObject_inOrder {fields : List FieldNode} {policy : UnknownFields}
    (hnodup : (fields.map (·.name)).Nodup)
    (hmembers : ∀ key part field, value.enter? (.key key) = some part →
      FieldNode.find? fields key = some field →
        part.InOrder (check arena part field.node (path ++ [.key key])).output) :
    value.InOrder (checkObject fields policy path value (parts arena value)).output := by
  cases value with
  | obj members =>
      rw [output_checkObject hnodup]
      refine Json.inOrder_of_enter (fun _ _ hvalue houtput => ?_)
        fun segment part result hpart hresult => ?_
      · cases hvalue
        cases houtput
        exact keepsOrder_objectMembers fields policy members
      · cases segment with
        | index position => exact nomatch hpart
        | key name =>
            have hmember : members.lookup name = some part := hpart
            have houtcome : (objectMembers arena fields policy path members).lookup name =
              some result := hresult
            rw [lookup_objectMembers hnodup, hmember] at houtcome
            dsimp only at houtcome
            split at houtcome
            · cases houtcome
              rw [memberOutcome]
              cases hfind : FieldNode.find? fields name with
              | none => exact Json.inOrder_self part
              | some field => exact hmembers name part field hpart hfind
            · cases houtcome
  | _ => exact Json.inOrder_self _

/-- Wherever the walk comes by, what it makes of the value is in order. -/
theorem check_inOrder (hregistry : registry.Indexed) (harena : arena.Labelled registry labels)
    {document : Json} {root : NodeId} {source : Shape} (hroot : labels[root]? = some source)
    (hsource : source.WellFormed) (hdisplaces : ¬Displaces arena document root) (value : Json)
    (id : NodeId) (path : Path) (hvisits : Visits arena document root value id path) :
    value.InOrder (check arena value id path).output := by
  have hsettled := harena.settled hregistry
  induction value, id using hsettled.induct generalizing path with
  | step value id hparts hdelegates =>
      have hcheck := check_eq hsettled value id path
      rw [visit] at hcheck
      cases hnode : arena.node id with
      | array node =>
          rw [hcheck, hnode]
          exact checkArray_inOrder fun position part hpart =>
            hparts part (Json.part_of_enter? hpart) _ _ (hvisits.item hnode hpart)
      | record node =>
          rw [hcheck, hnode]
          exact checkRecord_inOrder fun key part hpart =>
            hparts part (Json.part_of_enter? hpart) _ _ (hvisits.member hnode hpart)
      | object fields policy =>
          rw [hcheck, hnode]
          exact checkObject_inOrder (hvisits.reaches.nodup harena hregistry hroot hsource hnode)
            fun key part field hpart hfind =>
              hparts part (Json.part_of_enter? hpart) _ _ (hvisits.field hnode hpart hfind)
      | union variants =>
          rw [hnode] at hcheck
          rcases @checkUnion_reports arena variants path value (check arena value) with
            houtput | ⟨variant, hvariant, heq⟩
          · rw [hcheck, houtput]
            exact Json.inOrder_self value
          · have hreported := hcheck.trans heq
            rw [hreported]
            exact hdelegates _ (.variant hnode hvariant) path
              (hvisits.variant hnode hvariant hreported)
      | intersection left right =>
          rw [hcheck, hnode]
          refine Json.InOrder.mergeOutputs ?_ ?_ fun hdisplaced =>
            hdisplaces ⟨value, id, path, left, right, hvisits, hnode, hdisplaced⟩
          · exact hdelegates _ (.left hnode) path (hvisits.left hnode)
          · exact hdelegates _ (.right hnode) path (hvisits.right hnode)
      | entity key target =>
          rw [hcheck, hnode]
          exact hdelegates _ (.entity hnode) path (hvisits.entity hnode)
      | integer =>
          rw [hcheck, hnode]
          dsimp only
          rw [output_checkInteger]
          exact wholeOf_inOrder value
      | pending | unknown =>
          rw [hcheck, hnode]
          exact Json.inOrder_self value
      | string format =>
          rw [hcheck, hnode]
          dsimp only
          rw [output_checkString]
          exact Json.inOrder_self value
      | number =>
          rw [hcheck, hnode]
          dsimp only
          rw [output_checkNumber]
          exact Json.inOrder_self value
      | boolean =>
          rw [hcheck, hnode]
          dsimp only
          rw [output_checkBoolean]
          exact Json.inOrder_self value
      | literal expected =>
          rw [hcheck, hnode]
          dsimp only
          rw [output_checkLiteral]
          exact Json.inOrder_self value
      | enum options =>
          rw [hcheck, hnode]
          dsimp only
          rw [output_checkEnum]
          exact Json.inOrder_self value

end Walk

namespace Registry

variable {registry : Registry} {validator : Validator}

/-- Normalized documents keep the order of keys at every depth, and put defaults behind them, unless
the walk of the document displaces members. -/
theorem compile_validate_inOrder {entries : List (String × Json)}
    (hproper : ∀ entry ∈ entries, entry.2.Proper) (hentries : ofEntries entries = .ok registry)
    {key : String} (hcompile : registry.compile key = .ok validator) {value output : Json}
    {label? : Option String} (hvalid : validator.validate value = .valid output label?)
    (hdisplaces : ¬Walk.Displaces validator.arena value validator.root) :
    value.InOrder output := by
  have hregistry := indexed_of_ofEntries hproper hentries
  obtain ⟨labels, harena, hroot⟩ := checks_of_compile hcompile
  rw [← Validator.output_of_validate hvalid]
  exact Walk.check_inOrder hregistry harena hroot (wellFormed_ref key) hdisplaces value
    validator.root [] .root

/-- No member is displaced in a registry without objects that strip. -/
theorem not_displaces_of_compile {entries : List (String × Json)}
    (hproper : ∀ entry ∈ entries, entry.2.Proper) (hentries : ofEntries entries = .ok registry)
    (hstrip : ∀ fields, Shape.object fields .strip ∉ registry.shapes) {key : String}
    (hcompile : registry.compile key = .ok validator) {value : Json} (hvalue : value.Proper) :
    ¬Walk.Displaces validator.arena value validator.root := by
  have hregistry := indexed_of_ofEntries hproper hentries
  obtain ⟨labels, harena, hroot⟩ := checks_of_compile hcompile
  have hcarries := carries_of_mem_shapes hstrip
  refine Walk.not_displaces_of_carries hregistry harena (Shape.mergeable_carries _)
    (fun _ h => h) (fun _ _ _ hshape => everywhere_of_mem_shapes hcarries hshape) hvalue hroot
    (wellFormed_ref key) ?_
  simp [Shape.Everywhere, Shape.subshapes, Shape.Carries]

/-- What `additionalProperties` says about undeclared members. -/
def additional : UnknownFields → Json
  | .passthrough => .bool true
  | .strip => .bool false

/-- A titled object that is one variant of a union, and thus not merged with the sized object. -/
def entryDefinition (left right : UnknownFields) : Json :=
  .obj [("allOf", .arr [
    .obj [("anyOf", .arr [.obj [("type", .str "object"),
      ("properties", .obj [("title", .obj [("type", .str "string")])]),
      ("additionalProperties", additional left)]])],
    .obj [("type", .str "object"),
      ("properties", .obj [("size", .obj [("type", .str "integer")]),
        ("hidden", .obj [("type", .str "boolean"), ("default", .bool false)])]),
      ("additionalProperties", additional right)]])]

def entryShape (left right : UnknownFields) : Shape :=
  .intersection (.union [.object [("title", .optional (.string .any) none)] left])
    (.object [("size", .optional .integer none),
      ("hidden", .optional .boolean (some (.bool false)))] right)

def entryRegistry (left right : UnknownFields) : Registry :=
  ⟨[⟨"Entry", entryDefinition left right, entryShape left right⟩]⟩

def entryValidator (left right : UnknownFields) : Validator where
  arena := ⟨#[.entity "Entry" 7, .string .any, .object [⟨"title", 1, false, none⟩] left,
    .union [⟨"variant 1", 2⟩], .integer, .boolean,
    .object [⟨"size", 4, false, none⟩, ⟨"hidden", 5, false, some (.bool false)⟩] right,
    .intersection 3 6]⟩
  root := 0
  name? := some "Entry"

theorem ofEntries_entryDefinition (left right : UnknownFields) :
    ofEntries [("Entry", entryDefinition left right)] = .ok (entryRegistry left right) := by
  have hentry : Shape.ofDefinition (entryDefinition left right) = .ok (entryShape left right) := by
    cases left <;> cases right <;> rfl
  have hname : isBlankText "Entry" = false := by decide
  exact ofEntries_of_reads (.cons ⟨rfl, rfl, hname, hentry⟩ .nil) (List.nodup_singleton _) (by rfl)

theorem compile_entryRegistry (left right : UnknownFields) :
    (entryRegistry left right).compile "Entry" = .ok (entryValidator left right) := by
  cases left <;> cases right <;> rfl

def entryDocument : Json :=
  .obj [("size", .num (.int 1)), ("title", .str "x"), ("note", .null)]

/-- The walk comes by the intersection with the whole document only. -/
theorem visits_entry {left right : UnknownFields} {document value : Json} {id : NodeId}
    {path : Path} (h : Walk.Visits (entryValidator left right).arena document 0 value id path) :
    (value = document ∧ path = [] ∧ id ∈ [0, 2, 3, 6, 7]) ∨ id ∈ [1, 4, 5] := by
  induction h with
  | root => exact Or.inl ⟨rfl, rfl, by decide⟩
  | item _ hnode _ ih | member _ hnode _ ih =>
      rcases ih with ⟨-, -, hid⟩ | hid
      · fin_cases hid <;> cases hnode
      · fin_cases hid <;> cases hnode
  | field _ hnode _ hfind ih =>
      rcases ih with ⟨-, -, hid⟩ | hid
      · obtain ⟨hfield, -⟩ := FieldNode.mem_of_find? hfind
        fin_cases hid
        all_goals cases hnode
        · fin_cases hfield
          exact Or.inr (by decide)
        · fin_cases hfield
          · exact Or.inr (by decide)
          · exact Or.inr (by decide)
      · fin_cases hid <;> cases hnode
  | variant _ hnode hmem _ ih =>
      rcases ih with ⟨rfl, rfl, hid⟩ | hid
      · fin_cases hid
        all_goals cases hnode
        fin_cases hmem
        exact Or.inl ⟨rfl, rfl, by decide⟩
      · fin_cases hid <;> cases hnode
  | left _ hnode ih | right _ hnode ih | entity _ hnode ih =>
      rcases ih with ⟨rfl, rfl, hid⟩ | hid
      · fin_cases hid
        all_goals cases hnode
        exact Or.inl ⟨rfl, rfl, by decide⟩
      · fin_cases hid <;> cases hnode

theorem compile_validate_inOrder_entry :
    ∃ output, (entryValidator .passthrough .strip).validate entryDocument =
        .valid output (some "variant 1") ∧ entryDocument.InOrder output := by
  have hproper : ∀ entry ∈ [("Entry", entryDefinition .passthrough .strip)], entry.2.Proper := by
    simp [entryDefinition, additional]
  have hvalid : (entryValidator .passthrough .strip).validate entryDocument =
      .valid (.obj [("size", .num (.int 1)), ("title", .str "x"), ("note", .null),
        ("hidden", .bool false)]) (some "variant 1") := by rfl
  refine ⟨_, hvalid, compile_validate_inOrder hproper (ofEntries_entryDefinition _ _)
    (compile_entryRegistry _ _) hvalid ?_⟩
  rintro ⟨value, id, path, left, right, hvisits, hnode, hdisplaced⟩
  rcases visits_entry hvisits with ⟨rfl, rfl, hid⟩ | hid
  · fin_cases hid
    all_goals cases hnode
    have hextends : entryDocument.Extends (fun _ => False) entryDocument := .refl _
    exact hextends.not_displaced _ hdisplaced
  · fin_cases hid <;> cases hnode

/-- With the policies exchanged, the size is dropped on the left and put behind the title. -/
theorem validate_displaced_entry :
    ∃ output, ofEntries [("Entry", entryDefinition .strip .passthrough)] =
        .ok (entryRegistry .strip .passthrough) ∧
      (entryRegistry .strip .passthrough).compile "Entry" =
        .ok (entryValidator .strip .passthrough) ∧
      (entryValidator .strip .passthrough).validate entryDocument =
          .valid output (some "variant 1") ∧ ¬entryDocument.InOrder output := by
  refine ⟨.obj [("title", .str "x"), ("size", .num (.int 1)), ("note", .null),
    ("hidden", .bool false)], ofEntries_entryDefinition _ _, compile_entryRegistry _ _, rfl,
    fun hinOrder => ?_⟩
  exact absurd (hinOrder [] _ _ rfl rfl) (by decide)

end Registry

end EntityContract
