import EntityContract.Proofs.Arena.Declaration
import EntityContract.Proofs.Registry.Normalization
import EntityContract.Proofs.Validation.RoundTrip

/-!
A check makes of the values that it accepts what the shape of its node says. The choice among the
variants of a union is by the fields that their objects declare.
-/

namespace EntityContract

namespace Arena

variable {registry : Registry} {arena : Arena} {labels : List Shape}

/-- A node behind which there is one object declares the fields of that object. -/
theorem Labelled.declared_eq_of_flattens (harena : arena.Labelled registry labels)
    (hregistry : registry.Indexed) {shape : Shape} {object : ObjectShape}
    (h : registry.Flattens shape object) {id : NodeId} (hid : labels[id]? = some shape) :
    arena.declared id = object.fields.map (·.1) := by
  have hsettled := harena.settled hregistry
  induction h generalizing id with
  | object fields policy =>
      have hfits := harena.fits hid
      rw [declared_eq hsettled]
      generalize arena.node id = node at hfits
      cases hfits with
      | object hshape hflatten hfields =>
          cases hflatten
          exact names_eq_of_fits hfields
  | ref hfound hinner ih =>
      have hfits := harena.fits hid
      rw [declared_eq hsettled]
      generalize arena.node id = node at hfits
      cases hfits with
      | object hshape => exact absurd rfl (hshape _)
      | entity hshape htarget =>
          rw [hfound, Option.some.injEq] at hshape
          subst hshape
          rw [hinner.present_eq] at htarget
          exact ih htarget
  | intersection hleft hright =>
      have hflatten := (Registry.flatten_eq_some_iff hregistry).mpr (.intersection hleft hright)
      have hfits := harena.fits hid
      rw [declared_eq hsettled]
      generalize arena.node id = node at hfits
      cases hfits with
      | object hshape hother hfields =>
          rw [hflatten, Option.some.injEq] at hother
          subst hother
          exact names_eq_of_fits hfields
      | intersection hnone =>
          rw [hflatten] at hnone
          exact nomatch hnone

end Arena

namespace Walk

variable {registry : Registry} {arena : Arena} {labels : List Shape} {path : Path} {value : Json}

/-- The output of a union is that of a variant that fits and is as specific as any. -/
theorem exists_best_of_checkUnion {variants : List Variant} {check : Check}
    (hvariants : variants ≠ [])
    (h : (checkUnion arena variants path value check).violations = []) :
    ∃ variant ∈ variants, (check variant.node path).violations = [] ∧
      (checkUnion arena variants path value check).output = (check variant.node path).output ∧
      ∀ other ∈ variants, (check other.node path).violations = [] →
        specificity arena other.node value ≤ specificity arena variant.node value := by
  have hfits : ∃ variant ∈ variants, (check variant.node path).violations = [] := by
    have hunion := @checkUnion_eq arena variants path value check hvariants
    rcases hunion with ⟨variant, hvariant, hfits, -⟩ | ⟨-, hrejects⟩
    · exact ⟨variant, hvariant, hfits⟩
    · exact absurd h hrejects
  obtain ⟨position, variant, hbest, hunion⟩ := checkUnion_of_fits hfits
  refine ⟨variant, hbest.mem, hbest.eligible_best, by rw [hunion],
    fun other hother hotherFits => ?_⟩
  obtain ⟨i, hi⟩ := List.mem_iff_getElem?.mp hother
  exact hbest.le hi hotherFits

theorem specificity_eq_coverage (harena : arena.Labelled registry labels)
    (hregistry : registry.Indexed) {shape : Shape} {object : ObjectShape}
    (h : registry.Flattens shape object) {id : NodeId} (hid : labels[id]? = some shape.present)
    (value : Json) : specificity arena id value = object.coverage value := by
  rw [h.present_eq] at hid
  cases value with
  | obj members =>
      rw [specificity, ObjectShape.coverage, harena.declared_eq_of_flattens hregistry h hid]
  | _ => rfl

theorem checkObject_normalizes {nodes : List FieldNode} {object : ObjectShape} {members : Members}
    (hfields : List.Forall₂ (FieldNode.Fits labels) nodes object.fields)
    (hnodup : (object.fields.map (·.1)).Nodup)
    (haccepts : (checkObject nodes object.policy path (.obj members)
      (parts arena (.obj members))).violations = [])
    (hmembers : ∀ part : Json, part.Part (.obj members) → ∀ node shape path,
      labels[node]? = some shape.present → (∃ field ∈ object.fields, field.2 = shape) →
        (check arena part node path).violations = [] →
          registry.Normalizes shape.present part (check arena part node path).output) :
    registry.NormalizesMembers object members
      (objectMembers arena nodes object.policy path members) := by
  intro key
  obtain ⟨hchecked, hrequired⟩ := violations_checkObject_eq_nil_iff.mp haccepts
  have hnames : (nodes.map (·.name)).Nodup := names_eq_of_fits hfields ▸ hnodup
  rw [lookup_objectMembers hnames, filled?_eq hfields]
  cases hshape : object.fields.lookup key with
  | none =>
      have hfind : FieldNode.find? nodes key = none := by
        have hfound := find?_fits hfields key
        rw [hshape] at hfound
        generalize FieldNode.find? nodes key = node? at hfound ⊢
        cases hfound
        rfl
      cases hlookup : members.lookup key with
      | none =>
          cases object.policy with
          | strip => exact .stripped none
          | passthrough => exact .kept none
      | some value =>
          dsimp only
          rw [memberOutcome_of_lookup_none hfields hshape, hfind]
          cases object.policy with
          | strip => exact .stripped (some value)
          | passthrough => exact .kept (some value)
  | some shape =>
      have hfield := Association.mem_of_lookup hshape
      obtain ⟨node, hnode, hfits⟩ := Pairing.exists_of_mem_right hfields hfield
      cases hlookup : members.lookup key with
      | none =>
          refine .absent ?_
          by_contra hoptional
          have hmem := hrequired node hnode (by rw [hfits.required_eq]; simpa using hoptional)
          rw [hfits.name_eq] at hmem
          exact Association.lookup_eq_none_iff.mp hlookup hmem
      | some value =>
          have hmem := Association.mem_of_lookup hlookup
          obtain ⟨id, hlabel, houtcome⟩ :=
            exists_memberOutcome_of_lookup arena path value hfields hshape
          have hfind : (FieldNode.find? nodes key).isSome = true := by
            have hfound := FieldNode.find?_of_mem hnames hnode
            rw [hfits.name_eq] at hfound
            rw [hfound]
            rfl
          have hmember := hchecked _ hmem
          rw [houtcome] at hmember
          dsimp only
          rw [hfind, Bool.or_true, if_pos rfl, houtcome]
          exact .present (hmembers _ (.member hmem) _ _ _ hlabel ⟨_, hfield, rfl⟩ hmember)

theorem checkArray_normalizes {node : NodeId} {item : Shape}
    (haccepts : (checkArray node path value (parts arena value)).violations = [])
    (hitem : ∀ part : Json, part.Part value → ∀ path,
      (check arena part node path).violations = [] →
        registry.Normalizes item.present part (check arena part node path).output) :
    registry.Normalizes (.array item) value
      (checkArray node path value (parts arena value)).output := by
  cases value with
  | arr items =>
      have houtcomes : List.Forall₂ (fun part outcome => outcome.violations = [] →
          registry.Normalizes item.present part outcome.output) items
          (itemOutcomes node path 0 (items.map (check arena))) :=
        forall₂_itemOutcomes (fun part hmem path => hitem part (.item hmem) path) 0
      refine Registry.normalizes_array_iff.mpr ⟨items, _, rfl, rfl, ?_⟩
      refine List.forall₂_map_right_iff.mpr (Pairing.mono houtcomes ?_)
      exact fun part _ outcome hmem h => h (List.flatMap_eq_nil_iff.mp haccepts outcome hmem)
  | _ => cases haccepts

theorem checkRecord_normalizes {node : NodeId} {shape : Shape}
    (haccepts : (checkRecord node path value (parts arena value)).violations = [])
    (hmember : ∀ part : Json, part.Part value → ∀ path,
      (check arena part node path).violations = [] →
        registry.Normalizes shape.present part (check arena part node path).output) :
    registry.Normalizes (.record shape) value
      (checkRecord node path value (parts arena value)).output := by
  cases value with
  | obj members =>
      rw [output_checkRecord]
      refine Registry.normalizes_record_iff.mpr ⟨members, _, rfl, rfl, ?_⟩
      simp only [List.forall₂_map_right_iff, List.forall₂_same]
      intro member hmem
      refine ⟨trivial, hmember _ (.member hmem) _ ?_⟩
      simp only [parts, checkRecord, List.flatMap_eq_nil_iff, List.forall_mem_map] at haccepts
      exact haccepts member hmem
  | _ => cases haccepts

/-- The variant that is taken is as specific as any that fits, and that is by the fields. -/
theorem checkUnion_normalizes (harena : arena.Labelled registry labels)
    (hregistry : registry.Indexed) {variants : List Variant} {shapes : List Shape} {again : Check}
    (hlabels : List.Forall₂ (fun variant shape => labels[variant.node]? = some shape.present)
      variants shapes) (hne : shapes ≠ [])
    (haccepts : (checkUnion arena variants path value again).violations = [])
    (hsatisfies : ∀ id, ∀ shape ∈ shapes, labels[id]? = some shape.present →
      ((again id path).violations = [] ↔ registry.Satisfies shape value))
    (hagain : ∀ variant ∈ variants, ∀ shape ∈ shapes, labels[variant.node]? = some shape.present →
      (again variant.node path).violations = [] →
        registry.Normalizes shape.present value (again variant.node path).output) :
    registry.Normalizes (.union shapes) value
      (checkUnion arena variants path value again).output := by
  have hvariantsNe : variants ≠ [] := by
    rintro rfl
    rw [List.forall₂_nil_left_iff] at hlabels
    exact hne hlabels
  obtain ⟨variant, hvariant, hfits, houtput, hbest⟩ :=
    exists_best_of_checkUnion hvariantsNe haccepts
  obtain ⟨shape, hmem, hlabel⟩ := Pairing.exists_of_mem_left hlabels hvariant
  rw [houtput]
  refine .union hmem ((hsatisfies _ shape hmem hlabel).mp hfits)
    (hagain variant hvariant shape hmem hlabel hfits) ?_
  intro other hother hotherSatisfied ours theirs hours htheirs
  obtain ⟨otherVariant, hotherVariant, hotherLabel⟩ := Pairing.exists_of_mem_right hlabels hother
  rw [← specificity_eq_coverage harena hregistry hours hlabel,
    ← specificity_eq_coverage harena hregistry htheirs hotherLabel]
  exact hbest otherVariant hotherVariant
    ((hsatisfies _ other hother hotherLabel).mpr hotherSatisfied)

/-- What a check makes of a value that it accepts. -/
theorem check_normalizes (hregistry : registry.Indexed) (harena : arena.Labelled registry labels)
    (value : Json) (id : NodeId) {shape : Shape} (path : Path) (hid : labels[id]? = some shape)
    (hshape : shape.WellFormed) (haccepts : (check arena value id path).violations = []) :
    registry.Normalizes shape value (check arena value id path).output := by
  have hsettled := harena.settled hregistry
  induction value, id using hsettled.induct generalizing shape path with
  | step value id hparts hdelegates =>
      have hsatisfies := (check_accepts_iff hregistry harena value id path hid hshape).mp haccepts
      have hfits := harena.fits hid
      rw [check_eq hsettled, visit] at haccepts ⊢
      generalize hnode : arena.node id = node at hfits haccepts ⊢
      cases hfits with
      | string format =>
          dsimp only
          rw [output_checkString]
          cases hsatisfies with
          | string hproblem => exact .string hproblem
      | integer =>
          dsimp only
          rw [output_checkInteger]
          cases hsatisfies with
          | integer hwhole =>
              rw [wholeOf, if_pos hwhole]
              exact .integer hwhole
      | number =>
          dsimp only
          rw [output_checkNumber]
          cases hsatisfies with
          | number n => exact .number n
      | boolean =>
          dsimp only
          rw [output_checkBoolean]
          cases hsatisfies with
          | boolean value => exact .boolean value
      | unknown => exact .unknown value
      | literal expected =>
          dsimp only
          rw [output_checkLiteral]
          cases hsatisfies with
          | literal hsame => exact .literal hsame
      | enum options =>
          dsimp only
          rw [output_checkEnum]
          cases hsatisfies with
          | enum hmem => exact .enum hmem
      | array hitem =>
          have hitemWell := (Shape.Everywhere.array_iff.mp hshape).2.present
          exact checkArray_normalizes haccepts fun part hpart path =>
            hparts part hpart _ path hitem hitemWell
      | record hitem =>
          have hitemWell := (Shape.Everywhere.record_iff.mp hshape).2.present
          exact checkRecord_normalizes haccepts fun part hpart path =>
            hparts part hpart _ path hitem hitemWell
      | object href hflatten hfields =>
          have hflattens := (Registry.flatten_eq_some_iff hregistry).mp hflatten
          obtain ⟨hnodup, hwell⟩ :=
            Shape.Everywhere.object_iff.mp (hflattens.wellFormed hregistry hshape)
          cases value with
          | obj members =>
              dsimp only at haccepts ⊢
              rw [output_checkObject (names_eq_of_fits hfields ▸ hnodup)]
              refine .object href hflattens (checkObject_normalizes hfields hnodup haccepts ?_)
              intro part hpart node shape path hlabel hfield
              obtain ⟨field, hfield, rfl⟩ := hfield
              exact hparts part hpart node path hlabel (hwell field hfield).present
          | _ => exact absurd haccepts (violations_checkObject_ne_nil (by simp))
      | union hvariants =>
          obtain ⟨hne, hwell⟩ := Shape.Everywhere.union_iff.mp hshape
          refine checkUnion_normalizes harena hregistry (labels_of_variants hvariants) hne haccepts
            (fun id shape hmem hlabel => ?_) fun variant hvariant shape hmem hlabel =>
              hdelegates _ (.variant hnode hvariant) path hlabel (hwell shape hmem).present
          have hpresent := (hwell shape hmem).present
          exact (check_accepts_iff hregistry harena value id path hlabel hpresent).trans
            Registry.satisfies_present_iff
      | intersection hflatten hleft hright =>
          obtain ⟨-, hleftWell, hrightWell⟩ := Shape.Everywhere.intersection_iff.mp hshape
          obtain ⟨hleftFits, hrightFits⟩ := List.append_eq_nil_iff.mp haccepts
          exact .intersection hflatten
            (hdelegates _ (.left hnode) path hleft hleftWell.present hleftFits)
            (hdelegates _ (.right hnode) path hright hrightWell.present hrightFits)
      | entity hfound htarget =>
          exact .ref hfound (hdelegates _ (.entity hnode) path htarget
            (hregistry.wellFormed hfound).present haccepts)

end Walk

end EntityContract
