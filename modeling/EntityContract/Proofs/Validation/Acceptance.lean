import EntityContract.Proofs.Registry.Satisfaction
import EntityContract.Proofs.Validation.Objects

/-!
A compiled node accepts the values that satisfy the shape it is labelled with.
-/

namespace EntityContract

namespace Walk

variable {registry : Registry} {arena : Arena} {labels : List Shape} {path : Path} {value : Json}

theorem checkString_accepts_iff {format : StringFormat} :
    (checkString format path value).violations = [] ↔
      registry.Satisfies (.string format) value := by
  constructor
  · intro h
    cases value with
    | str text =>
        rw [checkString] at h
        split at h
        · exact nomatch h
        · rename_i hproblem
          exact .string hproblem
    | _ => exact nomatch h
  · intro h
    cases h with
    | string hproblem =>
        rw [checkString, hproblem]
        rfl

theorem checkInteger_accepts_iff :
    (checkInteger path value).violations = [] ↔ registry.Satisfies .integer value := by
  constructor
  · intro h
    cases value with
    | num n =>
        rw [checkInteger] at h
        split at h
        · rename_i hwhole
          exact .integer hwhole
        · exact nomatch h
    | _ => exact nomatch h
  · intro h
    cases h with
    | integer hwhole =>
        rw [checkInteger, if_pos hwhole]
        rfl

theorem checkNumber_accepts_iff :
    (checkNumber path value).violations = [] ↔ registry.Satisfies .number value := by
  constructor
  · intro h
    cases value with
    | num n => exact .number n
    | _ => exact nomatch h
  · intro h
    cases h with
    | number n => rfl

theorem checkBoolean_accepts_iff :
    (checkBoolean path value).violations = [] ↔ registry.Satisfies .boolean value := by
  constructor
  · intro h
    cases value with
    | bool value => exact .boolean value
    | _ => exact nomatch h
  · intro h
    cases h with
    | boolean value => rfl

theorem checkLiteral_accepts_iff {expected : Json} :
    (checkLiteral expected path value).violations = [] ↔
      registry.Satisfies (.literal expected) value := by
  constructor
  · intro h
    rw [checkLiteral] at h
    split at h
    · rename_i hsame
      exact .literal hsame
    · exact nomatch h
  · intro h
    cases h with
    | literal hsame =>
        rw [checkLiteral, if_pos hsame]
        rfl

theorem checkEnum_accepts_iff {options : List String} :
    (checkEnum options path value).violations = [] ↔
      registry.Satisfies (.enum options) value := by
  constructor
  · intro h
    cases value with
    | str text =>
        rw [checkEnum] at h
        split at h
        · rename_i hmem
          exact .enum (List.contains_iff_mem.mp hmem)
        · exact nomatch h
    | _ => exact nomatch h
  · intro h
    cases h with
    | enum hmem =>
        rw [checkEnum, if_pos (List.contains_iff_mem.mpr hmem)]
        rfl

theorem checkArray_accepts_iff {node : NodeId} {item : Shape}
    (hitem : ∀ part : Json, part.Part value → ∀ path,
      (check arena part node path).violations = [] ↔ registry.Satisfies item part) :
    (checkArray node path value (parts arena value)).violations = [] ↔
      registry.Satisfies (.array item) value := by
  rw [Registry.satisfies_array_iff]
  cases value with
  | arr items =>
      have houtcomes : List.Forall₂
          (fun part outcome => outcome.violations = [] ↔ registry.Satisfies item part) items
          (itemOutcomes node path 0 (items.map (check arena))) :=
        forall₂_itemOutcomes (fun part hmem path => hitem part (.item hmem) path) 0
      rw [parts, checkArray]
      dsimp only
      rw [List.flatMap_eq_nil_iff]
      constructor
      · intro h
        refine ⟨items, rfl, fun part hpart => ?_⟩
        obtain ⟨outcome, hmem, houtcome⟩ := Pairing.exists_of_mem_left houtcomes hpart
        exact houtcome.mp (h outcome hmem)
      · rintro ⟨_, heq, h⟩ outcome hmem
        cases heq
        obtain ⟨part, hpart, houtcome⟩ := Pairing.exists_of_mem_right houtcomes hmem
        exact houtcome.mpr (h part hpart)
  | _ => simp [checkArray, parts, Outcome.reject]

theorem checkRecord_accepts_iff {node : NodeId} {item : Shape}
    (hitem : ∀ part : Json, part.Part value → ∀ path,
      (check arena part node path).violations = [] ↔ registry.Satisfies item part) :
    (checkRecord node path value (parts arena value)).violations = [] ↔
      registry.Satisfies (.record item) value := by
  rw [Registry.satisfies_record_iff]
  cases value with
  | obj members =>
      rw [parts, checkRecord]
      dsimp only
      simp only [List.flatMap_eq_nil_iff, List.forall_mem_map]
      constructor
      · intro h
        exact ⟨members, rfl, fun member hmem => (hitem _ (.member hmem) _).mp (h member hmem)⟩
      · rintro ⟨_, heq, h⟩ member hmem
        cases heq
        exact (hitem _ (.member hmem) _).mpr (h member hmem)
  | _ => simp [checkRecord, parts, Outcome.reject]

/-- The fields decide, found by the names of the members. -/
theorem checkObject_accepts_iff {nodes : List FieldNode} {object : ObjectShape}
    (hfields : List.Forall₂ (FieldNode.Fits labels) nodes object.fields)
    (hnodup : (object.fields.map (·.1)).Nodup)
    (hmembers : ∀ part : Json, part.Part value → ∀ node shape path,
      labels[node]? = some shape.present → (∃ field ∈ object.fields, field.2 = shape) →
        ((check arena part node path).violations = [] ↔
          registry.Satisfies shape.present part)) :
    (checkObject nodes object.policy path value (parts arena value)).violations = [] ↔
      registry.Satisfies object.toShape value := by
  cases value with
  | obj members =>
      rw [violations_checkObject_eq_nil_iff, Registry.satisfies_object_iff hnodup]
      have hmember : ∀ member ∈ members,
          (memberOutcome arena nodes path member).violations = [] ↔
            ∀ shape, object.fields.lookup member.1 = some shape →
              registry.Satisfies shape.present member.2 := by
        rintro ⟨key, value⟩ hmem
        cases hlookup : object.fields.lookup key with
        | none => simp [memberOutcome_of_lookup_none hfields hlookup]
        | some shape =>
            obtain ⟨node, hlabel, houtcome⟩ :=
              exists_memberOutcome_of_lookup arena path value hfields hlookup
            simp only [houtcome, Option.some.injEq, forall_eq']
            exact hmembers _ (.member hmem) _ _ _ hlabel ⟨_, Association.mem_of_lookup hlookup, rfl⟩
      constructor
      · rintro ⟨hchecked, hrequired⟩
        refine ⟨members, rfl, fun name shape hlookup => ⟨fun hoptional => ?_, ?_⟩⟩
        · obtain ⟨node, hnode, hfits⟩ :=
            Pairing.exists_of_mem_right hfields (Association.mem_of_lookup hlookup)
          have hname := hrequired node hnode (by rw [hfits.required_eq, hoptional]; rfl)
          rwa [hfits.name_eq] at hname
        · rintro member hmem rfl
          exact (hmember member hmem).mp (hchecked member hmem) shape hlookup
      · rintro ⟨_, heq, h⟩
        cases heq
        refine ⟨fun member hmem => ?_, fun node hnode hrequired => ?_⟩
        · exact (hmember member hmem).mpr fun shape hlookup =>
            (h member.1 shape hlookup).2 member hmem rfl
        · obtain ⟨field, hfield, hfits⟩ := Pairing.exists_of_mem_left hfields hnode
          rw [hfits.required_eq, Bool.not_eq_true'] at hrequired
          rw [hfits.name_eq]
          exact (h field.1 field.2 (Association.lookup_of_mem hnodup hfield)).1 hrequired
  | _ =>
      refine iff_of_false (violations_checkObject_ne_nil (by simp)) fun h => ?_
      cases h

theorem checkUnion_accepts_iff {variants : List Variant} {shapes : List Shape} {again : Check}
    (hvariants : List.Forall₂ (Variant.Fits labels) variants (shapes.zipIdx 1))
    (hne : shapes ≠ [])
    (hagain : ∀ variant shape, variant ∈ variants → shape ∈ shapes →
      labels[variant.node]? = some shape.present →
        ((again variant.node path).violations = [] ↔ registry.Satisfies shape value)) :
    (checkUnion arena variants path value again).violations = [] ↔
      registry.Satisfies (.union shapes) value := by
  have hunion := @checkUnion_eq arena variants path value again (ne_nil_of_variants hvariants hne)
  rw [Registry.satisfies_union_iff]
  rcases hunion with ⟨variant, hvariant, haccepts, heq⟩ | ⟨hnone, hrejects⟩
  · obtain ⟨shape, hshape, hlabel⟩ :=
    Pairing.exists_of_mem_left (labels_of_variants hvariants) hvariant
    rw [heq]
    exact iff_of_true rfl ⟨shape, hshape, (hagain _ _ hvariant hshape hlabel).mp haccepts⟩
  · refine iff_of_false hrejects fun ⟨shape, hshape, hsatisfies⟩ => ?_
    obtain ⟨variant, hvariant, hlabel⟩ :=
      Pairing.exists_of_mem_right (labels_of_variants hvariants) hshape
    exact hnone variant hvariant ((hagain _ _ hvariant hshape hlabel).mpr hsatisfies)

/-- A node accepts the values that satisfy its label. -/
theorem check_accepts_iff (hregistry : registry.Indexed) (harena : arena.Labelled registry labels)
    (value : Json) (id : NodeId) {shape : Shape} (path : Path) (hid : labels[id]? = some shape)
    (hshape : shape.WellFormed) :
    (check arena value id path).violations = [] ↔ registry.Satisfies shape value := by
  have hsettled := harena.settled hregistry
  induction value, id using hsettled.induct generalizing shape path with
  | step value id hparts hdelegates =>
      have hfits := harena.fits hid
      rw [check_eq hsettled, visit]
      generalize hnode : arena.node id = node at hfits
      cases hfits with
      | string format => exact checkString_accepts_iff
      | integer => exact checkInteger_accepts_iff
      | number => exact checkNumber_accepts_iff
      | boolean => exact checkBoolean_accepts_iff
      | unknown => exact iff_of_true rfl (.unknown value)
      | literal expected => exact checkLiteral_accepts_iff
      | enum options => exact checkEnum_accepts_iff
      | array hitem =>
          have hwell := (Shape.Everywhere.array_iff.mp hshape).2.present
          exact checkArray_accepts_iff fun part hpart path =>
            (hparts part hpart _ path hitem hwell).trans Registry.satisfies_present_iff
      | record hvalue =>
          have hwell := (Shape.Everywhere.record_iff.mp hshape).2.present
          exact checkRecord_accepts_iff fun part hpart path =>
            (hparts part hpart _ path hvalue hwell).trans Registry.satisfies_present_iff
      | object href hflatten hfields =>
          have hflattens := (Registry.flatten_eq_some_iff hregistry).mp hflatten
          obtain ⟨hnodup, hwell⟩ :=
            Shape.Everywhere.object_iff.mp (hflattens.wellFormed hregistry hshape)
          rw [← hflattens.satisfies_iff hregistry hshape]
          refine checkObject_accepts_iff hfields hnodup
            fun part hpart node _ path hlabel hinner => ?_
          obtain ⟨field, hfield, rfl⟩ := hinner
          exact hparts part hpart node path hlabel (hwell field hfield).present
      | union hvariants =>
          obtain ⟨hne, hwell⟩ := Shape.Everywhere.union_iff.mp hshape
          refine checkUnion_accepts_iff hvariants hne fun variant shape hvariant hmem hlabel => ?_
          exact (hdelegates _ (.variant hnode hvariant) path hlabel
            (hwell shape hmem).present).trans Registry.satisfies_present_iff
      | intersection hflatten hleft hright =>
          obtain ⟨-, hleftWell, hrightWell⟩ := Shape.Everywhere.intersection_iff.mp hshape
          have hleftIff := (hdelegates _ (.left hnode) path hleft hleftWell.present).trans
            Registry.satisfies_present_iff
          have hrightIff := (hdelegates _ (.right hnode) path hright hrightWell.present).trans
            Registry.satisfies_present_iff
          exact List.append_eq_nil_iff.trans ((and_congr hleftIff hrightIff).trans
            Registry.satisfies_intersection_iff.symm)
      | entity hfound htarget =>
          rw [Registry.satisfies_ref_iff hfound, ← Registry.satisfies_present_iff]
          exact hdelegates _ (.entity hnode) path htarget (hregistry.wellFormed hfound).present

end Walk

end EntityContract
