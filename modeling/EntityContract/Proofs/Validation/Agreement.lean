import EntityContract.Proofs.Arena.Likeness
import EntityContract.Proofs.Validation.RoundTrip

/-!
Nodes that were compiled from equal shapes agree, be they in one arena or in two: they accept the
same values, and make equal outputs of them.
-/

namespace EntityContract

/-- Both accept or both reject, and the outputs are equal. -/
structure Outcome.Same (outcome other : Outcome) : Prop where
  accepts_iff : outcome.violations = [] ↔ other.violations = []
  output : outcome.output.same other.output = true

namespace Walk

variable {arena arena' : Arena} {path path' : Path} {value : Json}

/-- The best variants so far have equal scores and equal outputs. -/
def Selection.Same (selection other : Selection) : Prop :=
  Option.Rel (fun best best' : Nat × String × Json => best.1 = best'.1 ∧
    best.2.2.same best'.2.2 = true) selection.fitting other.fitting

theorem Selection.Same.add {selection other : Selection} (h : selection.Same other)
    {outcome outcome' : Outcome} (houtcome : outcome.Same outcome') (label label' : String)
    (score : Nat) : (selection.add label score outcome).Same (other.add label' score outcome') := by
  have hfits : outcome.violations.isEmpty = outcome'.violations.isEmpty := by
    rw [Bool.eq_iff_iff, List.isEmpty_iff, List.isEmpty_iff]
    exact houtcome.accepts_iff
  have hbest : (selection.fitting.all fun best => best.1 < score) =
      other.fitting.all fun best => best.1 < score := by
    rw [Selection.Same] at h
    generalize selection.fitting = fitting? at h
    generalize other.fitting = fitting'? at h
    cases h with
    | none => rfl
    | some hbest => rw [Option.all_some, Option.all_some, hbest.1]
  rw [Selection.add, Selection.add, ← hfits, ← hbest]
  split
  · split
    · exact .some ⟨rfl, houtcome.output⟩
    · exact h
  · rw [Selection.Same]
    split <;> split <;> exact h

theorem Selection.Same.foldl {selection other : Selection} (h : selection.Same other)
    {score score' : Variant → Nat} {outcome outcome' : Variant → Outcome}
    {variants variants' : List Variant}
    (hvariants : List.Forall₂ (fun variant variant' => score variant = score' variant' ∧
      (outcome variant).Same (outcome' variant')) variants variants') :
    (variants.foldl (fun selection variant => selection.add variant.label (score variant)
      (outcome variant)) selection).Same
      (variants'.foldl (fun selection variant => selection.add variant.label (score' variant)
        (outcome' variant)) other) := by
  induction hvariants generalizing selection other with
  | nil => exact h
  | cons hhead _ ih =>
      rw [List.foldl_cons, List.foldl_cons, ← hhead.1]
      exact ih (h.add hhead.2 _ _ _)

theorem Selection.Same.output {selection other : Selection} (h : selection.Same other)
    (hvalue : value.Proper) :
    (selection.outcome value).output.same (other.outcome value).output = true := by
  obtain ⟨fitting?, failing?⟩ := selection
  obtain ⟨fitting'?, failing'?⟩ := other
  rw [Selection.Same] at h
  cases h with
  | some hbest => exact hbest.2
  | none =>
      have hnone : ∀ failing? : Option (String × List Violation),
          (Selection.outcome ⟨none, failing?⟩ value).output = value := by
        intro failing?
        cases failing? <;> rfl
      rw [hnone, hnone]
      exact Json.same_refl hvalue

theorem checkUnion_same {variants variants' : List Variant} {check check' : Check}
    (hvariants : List.Forall₂ (fun variant variant' =>
      specificity arena variant.node value = specificity arena' variant'.node value ∧
        (check variant.node path).Same (check' variant'.node path')) variants variants')
    (hvalue : value.Proper) :
    (checkUnion arena variants path value check).output.same
      (checkUnion arena' variants' path' value check').output = true := by
  have hempty : Selection.Same ⟨none, none⟩ ⟨none, none⟩ := .none
  exact (hempty.foldl hvariants).output hvalue

variable {related : NodeId → NodeId → Prop}

theorem memberOutcome_same {fields fields' : List FieldNode}
    (hfields : List.Forall₂ (FieldNode.Like related) fields fields') {member : String × Json}
    (hmember : member.2.Proper)
    (hchecked : ∀ id id', related id id' → ∀ path path',
      (check arena member.2 id path).output.same (check arena' member.2 id' path').output = true) :
    (memberOutcome arena fields path member).output.same
      (memberOutcome arena' fields' path' member).output = true := by
  have hfind := find?_like hfields member.1
  rw [memberOutcome, memberOutcome]
  generalize FieldNode.find? fields member.1 = field? at hfind
  generalize FieldNode.find? fields' member.1 = field'? at hfind
  cases hfind with
  | none => exact Json.same_refl hmember
  | some hfield => exact hchecked _ _ hfield.node _ _

theorem checkObject_same {fields fields' : List FieldNode} {policy : UnknownFields}
    (hnodup : (fields.map (·.name)).Nodup)
    (hfields : List.Forall₂ (FieldNode.Like related) fields fields') (hvalue : value.Proper)
    (hchecked : ∀ part : Json, part.Part value → ∀ id id', related id id' → ∀ path path',
      (check arena part id path).output.same (check arena' part id' path').output = true) :
    (checkObject fields policy path value (parts arena value)).output.same
      (checkObject fields' policy path' value (parts arena' value)).output = true := by
  cases value with
  | obj members =>
      have hnodup' : (fields'.map (·.name)).Nodup := by rwa [← names_eq_of_like hfields]
      rw [output_checkObject hnodup, output_checkObject hnodup',
        Json.same_obj_iff_lookup (nodup_objectMembers hnodup hvalue.nodup)
          (nodup_objectMembers hnodup' hvalue.nodup)]
      intro key
      rw [lookup_objectMembers hnodup, lookup_objectMembers hnodup']
      have hfind := find?_like hfields key
      generalize FieldNode.find? fields key = field? at hfind ⊢
      generalize FieldNode.find? fields' key = field'? at hfind ⊢
      cases hlookup : members.lookup key with
      | some value =>
          have hkept : field?.isSome = field'?.isSome := by
            cases hfind <;> rfl
          dsimp only
          rw [hkept]
          split
          · exact .some (memberOutcome_same hfields (hvalue.lookup hlookup)
              (hchecked value (Json.part_of_lookup hlookup)))
          · exact .none
      | none =>
          cases hfind with
          | none => exact .none
          | some hfield =>
              dsimp only
              rw [Option.bind_some, Option.bind_some, FieldNode.filled?, FieldNode.filled?,
                ← hfield.required_eq]
              split
              · exact .none
              · exact hfield.default
  | _ => exact Json.same_refl hvalue

theorem checkArray_same {item item' : NodeId} (hvalue : value.Proper)
    (hchecked : ∀ part : Json, part.Part value → ∀ path path',
      (check arena part item path).output.same (check arena' part item' path').output = true) :
    (checkArray item path value (parts arena value)).output.same
      (checkArray item' path' value (parts arena' value)).output = true := by
  cases value with
  | arr items =>
      have houtcomes : List.Forall₂ (fun outcome outcome' : Outcome =>
          outcome.output.same outcome'.output = true)
          (itemOutcomes item path 0 (items.map (check arena)))
          (itemOutcomes item' path' 0 (items.map (check arena'))) :=
        forall₂_itemOutcomes_pair (fun part hmem => hchecked part (.item hmem)) 0 0
      rw [parts, parts, checkArray, checkArray, Json.same_arr_iff, List.forall₂_map_left_iff,
        List.forall₂_map_right_iff]
      exact houtcomes
  | _ => exact Json.same_refl hvalue

theorem checkRecord_same {item item' : NodeId} (hvalue : value.Proper)
    (hchecked : ∀ part : Json, part.Part value → ∀ path path',
      (check arena part item path).output.same (check arena' part item' path').output = true) :
    (checkRecord item path value (parts arena value)).output.same
      (checkRecord item' path' value (parts arena' value)).output = true := by
  cases value with
  | obj members =>
      rw [output_checkRecord, output_checkRecord, Json.same_obj_iff_lookup]
      · intro key
        rw [Association.lookup_map, Association.lookup_map]
        cases hlookup : members.lookup key with
        | none => exact .none
        | some value => exact .some (hchecked value (Json.part_of_lookup hlookup) _ _)
      · rw [List.map_map]
        exact hvalue.nodup
      · rw [List.map_map]
        exact hvalue.nodup
  | _ => exact Json.same_refl hvalue

section Labelled

variable {registry : Registry} {labels labels' : List Shape} {id id' : NodeId}

theorem accepts_iff_of_resemble (hregistry : registry.Indexed)
    (h : arena.Labelled registry labels) (h' : arena'.Labelled registry labels')
    (hids : Arena.Resemble labels labels' id id') :
    (check arena value id path).violations = [] ↔
      (check arena' value id' path').violations = [] := by
  obtain ⟨shape, shape', hid, hid', hshape, hshape', hsame⟩ := hids
  rw [check_accepts_iff hregistry h value id path hid hshape,
    check_accepts_iff hregistry h' value id' path' hid' hshape']
  exact ⟨fun hsatisfies => hsatisfies.of_same hsame,
    fun hsatisfies => hsatisfies.of_same (Shape.same_symm hshape hshape' hsame)⟩

theorem proper_of_resemble (hregistry : registry.Indexed) (h : arena.Labelled registry labels)
    (h' : arena'.Labelled registry labels') (path path' : Path)
    (hids : Arena.Resemble labels labels' id id') (hvalue : value.Proper) :
    (check arena value id path).output.Proper ∧ (check arena' value id' path').output.Proper := by
  obtain ⟨shape, shape', hid, hid', hshape, hshape', -⟩ := hids
  exact ⟨check_proper hregistry h value id path hid hshape hvalue,
    check_proper hregistry h' value id' path' hid' hshape' hvalue⟩

/-- Nodes of equal shapes have the same outcome. -/
theorem check_same (hregistry : registry.Indexed) (h : arena.Labelled registry labels)
    (h' : arena'.Labelled registry labels') (value : Json) (id id' : NodeId) (path path' : Path)
    (hids : Arena.Resemble labels labels' id id') (hvalue : value.Proper) :
    (check arena value id path).Same (check arena' value id' path') := by
  have hsettled := h.settled hregistry
  have hsettled' := h'.settled hregistry
  induction value, id using hsettled.induct generalizing id' path path' with
  | step value id hparts hdelegates =>
      refine ⟨accepts_iff_of_resemble hregistry h h' hids, ?_⟩
      have hlike := h.like h' hregistry hids
      rw [check_eq hsettled, check_eq hsettled', visit, visit]
      generalize hnode : arena.node id = node at hlike
      generalize hnode' : arena'.node id' = node' at hlike
      cases hlike with
      | string format =>
          rw [output_checkString, output_checkString]
          exact Json.same_refl hvalue
      | integer =>
          rw [output_checkInteger, output_checkInteger]
          exact Json.same_refl (proper_wholeOf hvalue)
      | number =>
          rw [output_checkNumber, output_checkNumber]
          exact Json.same_refl hvalue
      | boolean =>
          rw [output_checkBoolean, output_checkBoolean]
          exact Json.same_refl hvalue
      | unknown => exact Json.same_refl hvalue
      | literal expected expected' =>
          rw [output_checkLiteral, output_checkLiteral]
          exact Json.same_refl hvalue
      | enum options =>
          rw [output_checkEnum, output_checkEnum]
          exact Json.same_refl hvalue
      | array hitem =>
          exact checkArray_same hvalue fun part hpart path path' =>
            (hparts part hpart _ _ path path' hitem (hvalue.part hpart)).output
      | record hitem =>
          exact checkRecord_same hvalue fun part hpart path path' =>
            (hparts part hpart _ _ path path' hitem (hvalue.part hpart)).output
      | object policy hnodup hfields =>
          exact checkObject_same hnodup hfields hvalue fun part hpart id id' hids path path' =>
            (hparts part hpart id id' path path' hids (hvalue.part hpart)).output
      | union hvariants =>
          refine checkUnion_same (Pairing.mono hvariants
            fun variant hmem variant' hmem' hvariant => ⟨?_, ?_⟩) hvalue
          · exact specificity_eq (Arena.declared_eq_of_like hsettled hsettled'
              (fun hids => h.like h' hregistry hids) hvariant) value
          · exact hdelegates _ (.variant hnode hmem) _ path path' hvariant hvalue
      | intersection hleft hright =>
          obtain ⟨hl, hl'⟩ := proper_of_resemble hregistry h h' path path' hleft hvalue
          obtain ⟨hr, hr'⟩ := proper_of_resemble hregistry h h' path path' hright hvalue
          exact Json.mergeOutputs_same hl hl' hr hr'
            (hdelegates _ (.left hnode) _ path path' hleft hvalue).output
            (hdelegates _ (.right hnode) _ path path' hright hvalue).output _
      | entity htarget =>
          exact (hdelegates _ (.entity hnode) _ path path' htarget hvalue).output

end Labelled

end Walk

end EntityContract
