import EntityContract.Proofs.Json.Extension
import EntityContract.Proofs.Validation.Acceptance

/-!
Undeclared fields survive validation: where no object strips them, the normalized document extends
the document that was checked, at every depth.
-/

namespace EntityContract

/-- The shape keeps undeclared members, and touches no member under a key that is fixed. -/
def Shape.Carries (fixed : String → Prop) : Shape → Prop
  | .object fields policy => policy = .passthrough ∧ ∀ key ∈ fields.map (·.1), ¬fixed key
  | .record _ => ∀ key, ¬fixed key
  | _ => True

theorem Shape.mergeable_carries (fixed : String → Prop) :
    Shape.Mergeable (Shape.Carries fixed) where
  intersection := fun _ _ => trivial
  absent := fun _ => trivial
  default := fun _ _ => trivial

namespace Registry

variable {registry : Registry} {fixed : String → Prop}

/-- Merging keeps undeclared members, and declares no further names. -/
theorem Flattens.carries {p : Shape → Prop} (hcarries : ∀ shape, p shape → shape.Carries fixed)
    (hregistry : ∀ key shape, p (.ref key) → registry.shape? key = some shape →
      shape.Everywhere p)
    {shape : Shape} {object : ObjectShape} (h : registry.Flattens shape object)
    (hshape : shape.Everywhere p) :
    object.policy = .passthrough ∧ ∀ key ∈ object.fields.map (·.1), ¬fixed key := by
  induction h with
  | object fields policy => exact hcarries _ hshape.self
  | ref hfound _ ih => exact ih (hregistry _ _ hshape.self hfound)
  | intersection _ _ ihLeft ihRight =>
      obtain ⟨-, hleft, hright⟩ := Shape.Everywhere.intersection_iff.mp hshape
      obtain ⟨hpolicy, hkeys⟩ := ihLeft hleft
      obtain ⟨-, hkeys'⟩ := ihRight hright
      refine ⟨?_, fun key hkey => ?_⟩
      · rw [ObjectShape.merge, hpolicy]
        rfl
      · rcases Shape.mem_keys_mergeFields_iff.mp hkey with hkey | hkey
        · exact hkeys key hkey
        · exact hkeys' key hkey

end Registry

namespace Walk

variable {registry : Registry} {arena : Arena} {labels : List Shape} {fixed : String → Prop}
  {path : Path} {value : Json}

theorem output_checkString (format : StringFormat) :
    (checkString format path value).output = value := by
  unfold checkString
  split
  · split <;> rfl
  · rfl

theorem output_checkEnum (options : List String) :
    (checkEnum options path value).output = value := by
  unfold checkEnum
  split
  · split <;> rfl
  · rfl

theorem output_checkNumber : (checkNumber path value).output = value := by
  unfold checkNumber
  split <;> rfl

theorem output_checkBoolean : (checkBoolean path value).output = value := by
  unfold checkBoolean
  split <;> rfl

theorem output_checkLiteral (expected : Json) :
    (checkLiteral expected path value).output = value := by
  rw [checkLiteral]
  split <;> rfl

/-- A whole number becomes an integer, anything else stays as it is. -/
def wholeOf : Json → Json
  | .num n => .num (if n.isWhole then n.normalize else n)
  | value => value

theorem output_checkInteger : (checkInteger path value).output = wholeOf value := by
  cases value with
  | num n =>
      rw [checkInteger, wholeOf]
      split <;> rfl
  | _ => rfl

theorem proper_wholeOf (hvalue : value.Proper) : (wholeOf value).Proper := by
  cases value with
  | num n => exact Json.proper_num _
  | _ => exact hvalue

theorem extends_wholeOf : value.Extends fixed (wholeOf value) := by
  cases value with
  | num n =>
      rw [wholeOf]
      split
      · exact .normalized n
      · exact .num n
  | _ => exact .refl _

theorem checkArray_extends {node : NodeId}
    (hitem : ∀ part : Json, part.Part value → ∀ path,
      part.Extends fixed (check arena part node path).output) :
    value.Extends fixed (checkArray node path value (parts arena value)).output := by
  cases value with
  | arr items =>
      have houtcomes : List.Forall₂ (fun part outcome => part.Extends fixed outcome.output) items
          (itemOutcomes node path 0 (items.map (check arena))) :=
        forall₂_itemOutcomes (fun part hmem path => hitem part (.item hmem) path) 0
      exact Json.extends_arr_iff.mpr ⟨_, rfl, List.forall₂_map_right_iff.mpr houtcomes⟩
  | _ => exact .refl _

theorem checkRecord_extends {node : NodeId} (hfixed : ∀ key, ¬fixed key)
    (hmember : ∀ part : Json, part.Part value → ∀ path,
      part.Extends fixed (check arena part node path).output) :
    value.Extends fixed (checkRecord node path value (parts arena value)).output := by
  cases value with
  | obj members =>
      rw [output_checkRecord]
      refine Json.extends_obj_iff.mpr
        ⟨_, [], congrArg Json.obj (List.append_nil _).symm, ?_, by simp⟩
      simp only [List.forall₂_map_right_iff, List.forall₂_same]
      exact fun member hmem => ⟨rfl, hmember _ (.member hmem) _, fun h => absurd h (hfixed _)⟩
  | _ => exact .refl _

theorem memberOutcome_extends {nodes : List FieldNode} {member : String × Json}
    (hchecked : ∀ field ∈ nodes, field.name = member.1 → ∀ path,
      member.2.Extends fixed (check arena member.2 field.node path).output)
    (hfixed : ∀ field ∈ nodes, ¬fixed field.name) :
    Json.KeptMember fixed member (member.1, (memberOutcome arena nodes path member).output) := by
  rw [memberOutcome]
  cases hfind : FieldNode.find? nodes member.1 with
  | none => exact ⟨rfl, .refl _, fun _ => rfl⟩
  | some field =>
      obtain ⟨hfield, hname⟩ := FieldNode.mem_of_find? hfind
      exact ⟨rfl, hchecked field hfield hname _,
        fun h => absurd (hname.symm ▸ h) (hfixed field hfield)⟩

theorem checkObject_extends {nodes : List FieldNode} (hnodup : (nodes.map (·.name)).Nodup)
    (hfixed : ∀ field ∈ nodes, ¬fixed field.name)
    (hchecked : ∀ part : Json, part.Part value → ∀ field ∈ nodes, ∀ path,
      part.Extends fixed (check arena part field.node path).output) :
    value.Extends fixed
      (checkObject nodes .passthrough path value (parts arena value)).output := by
  cases value with
  | obj members =>
      rw [output_checkObject hnodup, objectMembers]
      refine Json.extends_obj_iff.mpr ⟨_, _, rfl, ?_, ?_⟩
      · simp only [decide_true, Bool.true_or, List.filter_true, List.forall₂_map_right_iff,
          List.forall₂_same]
        exact fun member hmem => memberOutcome_extends
          (fun field hfield _ path => hchecked _ (.member hmem) field hfield path) hfixed
      · exact fun key hkey => FieldNode.disjoint_defaults hkey
  | _ => exact .refl _

theorem checkObject_proper {nodes : List FieldNode} {policy : UnknownFields}
    (hvalue : value.Proper) (hnodup : (nodes.map (·.name)).Nodup)
    (hdefaults : ∀ field ∈ nodes, ∀ default, field.default? = some default → default.Proper)
    (hchecked : ∀ part : Json, part.Part value → ∀ field ∈ nodes, ∀ path,
      (check arena part field.node path).output.Proper) :
    (checkObject nodes policy path value (parts arena value)).output.Proper := by
  cases value with
  | obj members =>
      rw [output_checkObject hnodup, Json.proper_obj]
      refine ⟨nodup_objectMembers hnodup hvalue.nodup, fun member hmem => ?_⟩
      rcases List.mem_append.mp hmem with hmem | hmem
      · obtain ⟨source, hsource, rfl⟩ := List.mem_map.mp hmem
        have hpart : source.2.Part (.obj members) := .member (List.mem_of_mem_filter hsource)
        dsimp only
        rw [memberOutcome]
        cases hfind : FieldNode.find? nodes source.1 with
        | none => exact hvalue.part hpart
        | some field => exact hchecked _ hpart field (FieldNode.mem_of_find? hfind).1 _
      · obtain ⟨field, hfield, -, -, -, hdefault⟩ := FieldNode.mem_defaults_iff.mp hmem
        exact hdefaults field hfield member.2 hdefault
  | _ => exact hvalue

/-- The output of a check keeps no key twice. -/
theorem check_proper (hregistry : registry.Indexed) (harena : arena.Labelled registry labels)
    (value : Json) (id : NodeId) {shape : Shape} (path : Path) (hid : labels[id]? = some shape)
    (hshape : shape.WellFormed) (hvalue : value.Proper) :
    (check arena value id path).output.Proper := by
  have hsettled := harena.settled hregistry
  induction value, id using hsettled.induct generalizing shape path with
  | step value id hparts hdelegates =>
      have hfits := harena.fits hid
      rw [check_eq hsettled, visit]
      generalize hnode : arena.node id = node at hfits
      cases hfits with
      | string format =>
          rw [output_checkString]
          exact hvalue
      | integer =>
          rw [output_checkInteger]
          exact proper_wholeOf hvalue
      | number =>
          rw [output_checkNumber]
          exact hvalue
      | boolean =>
          rw [output_checkBoolean]
          exact hvalue
      | unknown => exact hvalue
      | literal expected =>
          rw [output_checkLiteral]
          exact hvalue
      | enum options =>
          rw [output_checkEnum]
          exact hvalue
      | array hitem =>
          have hwell := (Shape.Everywhere.array_iff.mp hshape).2.present
          cases value with
          | arr items =>
              have houtcomes : List.Forall₂ (fun _ outcome => outcome.output.Proper) items
                  (itemOutcomes _ path 0 (items.map (check arena))) :=
                forall₂_itemOutcomes (fun part hmem path =>
                  hparts part (.item hmem) _ path hitem hwell (hvalue.item hmem)) 0
              refine Json.proper_arr.mpr fun output hmem => ?_
              obtain ⟨outcome, houtcome, rfl⟩ := List.mem_map.mp hmem
              obtain ⟨_, -, hproper⟩ := Pairing.exists_of_mem_right houtcomes houtcome
              exact hproper
          | _ => exact hvalue
      | record hitem =>
          have hwell := (Shape.Everywhere.record_iff.mp hshape).2.present
          cases value with
          | obj members =>
              dsimp only
              rw [output_checkRecord, Json.proper_obj, List.map_map]
              refine ⟨hvalue.nodup, fun output hmem => ?_⟩
              obtain ⟨member, hmember, rfl⟩ := List.mem_map.mp hmem
              exact hparts _ (.member hmember) _ _ hitem hwell (hvalue.member hmember)
          | _ => exact hvalue
      | object href hflatten hfields =>
          have hflattens := (Registry.flatten_eq_some_iff hregistry).mp hflatten
          obtain ⟨hnodup, hwell⟩ :=
            Shape.Everywhere.object_iff.mp (hflattens.wellFormed hregistry hshape)
          refine checkObject_proper hvalue ?_ (fun node hmem default hdefault => ?_)
            fun part hpart node hmem path => ?_
          · rw [names_eq_of_fits hfields]
            exact hnodup
          · obtain ⟨field, hfield, hfits⟩ := Pairing.exists_of_mem_left hfields hmem
            rw [hfits.default_eq] at hdefault
            obtain ⟨inner, hlocal⟩ := (hwell field hfield).default? hdefault
            exact hlocal
          · obtain ⟨field, hfield, hfits⟩ := Pairing.exists_of_mem_left hfields hmem
            exact hparts part hpart _ path hfits.label (hwell field hfield).present
              (hvalue.part hpart)
      | @union variants shapes hvariants =>
          obtain ⟨-, hwell⟩ := Shape.Everywhere.union_iff.mp hshape
          have hunion := @output_checkUnion arena variants path value (check arena value)
          rcases hunion with houtput | ⟨variant, hvariant, houtput⟩
          · dsimp only
            rw [houtput]
            exact hvalue
          · obtain ⟨other, hother, hlabel⟩ :=
            Pairing.exists_of_mem_left (labels_of_variants hvariants) hvariant
            dsimp only
            rw [houtput]
            exact hdelegates _ (.variant hnode hvariant) path hlabel (hwell other hother).present
              hvalue
      | intersection hflatten hleft hright =>
          obtain ⟨-, hleftWell, hrightWell⟩ := Shape.Everywhere.intersection_iff.mp hshape
          exact (hdelegates _ (.left hnode) path hleft hleftWell.present hvalue).mergeOutputs
            (hdelegates _ (.right hnode) path hright hrightWell.present hvalue) _
      | entity hfound htarget =>
          exact hdelegates _ (.entity hnode) path htarget (hregistry.wellFormed hfound).present
            hvalue

/-- The output of a check extends the value, whether it is accepted or not, if all shapes that are
referred to carry over what is fixed. -/
theorem check_extends (hregistry : registry.Indexed) (harena : arena.Labelled registry labels)
    {p : Shape → Prop} (hp : Shape.Mergeable p) (hcarries : ∀ shape, p shape → shape.Carries fixed)
    (hrefers : ∀ key shape, p (.ref key) → registry.shape? key = some shape → shape.Everywhere p)
    (value : Json) (id : NodeId) {shape : Shape} (path : Path) (hid : labels[id]? = some shape)
    (hwell : shape.WellFormed) (hshape : shape.Everywhere p) (hvalue : value.Proper) :
    value.Extends fixed (check arena value id path).output := by
  have hsettled := harena.settled hregistry
  induction value, id using hsettled.induct generalizing shape path with
  | step value id hparts hdelegates =>
      have hfits := harena.fits hid
      rw [check_eq hsettled, visit]
      generalize hnode : arena.node id = node at hfits
      cases hfits with
      | string format =>
          rw [output_checkString]
          exact .refl value
      | integer =>
          rw [output_checkInteger]
          exact extends_wholeOf
      | number =>
          rw [output_checkNumber]
          exact .refl value
      | boolean =>
          rw [output_checkBoolean]
          exact .refl value
      | unknown => exact .refl value
      | literal expected =>
          rw [output_checkLiteral]
          exact .refl value
      | enum options =>
          rw [output_checkEnum]
          exact .refl value
      | array hitem =>
          have hitemWell := (Shape.Everywhere.array_iff.mp hwell).2.present
          have hitemCarries := (Shape.Everywhere.array_iff.mp hshape).2.present
          exact checkArray_extends fun part hpart path =>
            hparts part hpart _ path hitem hitemWell hitemCarries (hvalue.part hpart)
      | record hitem =>
          obtain ⟨hrecord, hitemCarries⟩ := Shape.Everywhere.record_iff.mp hshape
          have hitemWell := (Shape.Everywhere.record_iff.mp hwell).2.present
          exact checkRecord_extends (hcarries _ hrecord) fun part hpart path =>
            hparts part hpart _ path hitem hitemWell hitemCarries.present (hvalue.part hpart)
      | object href hflatten hfields =>
          have hflattens := (Registry.flatten_eq_some_iff hregistry).mp hflatten
          obtain ⟨hnodup, hfieldsWell⟩ :=
            Shape.Everywhere.object_iff.mp (hflattens.wellFormed hregistry hwell)
          have hfieldsCarry := hflattens.everywhere hp hrefers hshape
          obtain ⟨hpolicy, hfixed⟩ := hflattens.carries hcarries hrefers hshape
          rw [hpolicy]
          refine checkObject_extends ?_ (fun node hmem => ?_) fun part hpart node hmem path => ?_
          · rw [names_eq_of_fits hfields]
            exact hnodup
          · apply hfixed
            rw [← names_eq_of_fits hfields]
            exact List.mem_map_of_mem hmem
          · obtain ⟨field, hfield, hfits⟩ := Pairing.exists_of_mem_left hfields hmem
            exact hparts part hpart _ path hfits.label (hfieldsWell field hfield).present
              (hfieldsCarry field hfield).present (hvalue.part hpart)
      | @union variants shapes hvariants =>
          obtain ⟨-, hshapesWell⟩ := Shape.Everywhere.union_iff.mp hwell
          obtain ⟨-, hshapesCarry⟩ := Shape.Everywhere.union_iff.mp hshape
          have hunion := @output_checkUnion arena variants path value (check arena value)
          rcases hunion with houtput | ⟨variant, hvariant, houtput⟩
          · dsimp only
            rw [houtput]
            exact .refl value
          · obtain ⟨other, hother, hlabel⟩ :=
            Pairing.exists_of_mem_left (labels_of_variants hvariants) hvariant
            dsimp only
            rw [houtput]
            exact hdelegates _ (.variant hnode hvariant) path hlabel
              (hshapesWell other hother).present (hshapesCarry other hother).present hvalue
      | intersection hflatten hleft hright =>
          obtain ⟨-, hleftWell, hrightWell⟩ := Shape.Everywhere.intersection_iff.mp hwell
          obtain ⟨-, hleftCarries, hrightCarries⟩ := Shape.Everywhere.intersection_iff.mp hshape
          exact Json.Extends.mergeOutputs hvalue
            (hdelegates _ (.left hnode) path hleft hleftWell.present hleftCarries.present hvalue)
            (hdelegates _ (.right hnode) path hright hrightWell.present hrightCarries.present
              hvalue)
      | entity hfound htarget =>
          exact hdelegates _ (.entity hnode) path htarget (hregistry.wellFormed hfound).present
            (hrefers _ _ hshape.self hfound).present hvalue

end Walk

end EntityContract
