import EntityContract.Proofs.Validation.Agreement

/-!
An intersection may be compiled to one merged object, or to a node that checks both sides. Either
way it makes of a value what the two sides make of it, joined.
-/

namespace EntityContract

/-- Undeclared members are kept, and defaults have no parts. -/
def Shape.Plain : Shape → Prop
  | .object _ policy => policy = .passthrough
  | .optional _ (some value) => value.Scalar
  | _ => True

theorem Shape.Plain.carries {shape : Shape} (h : shape.Plain) :
    shape.Carries (fun _ => False) := by
  cases shape with
  | object fields policy => exact ⟨h, fun _ _ => not_false⟩
  | record value => exact fun _ => not_false
  | _ => trivial

/-- The shape occurs in the first one, or in an entity that is referred to there. -/
inductive Registry.Reaches (registry : Registry) (source : Shape) : Shape → Prop
  | inner {shape : Shape} : shape ∈ source.subshapes → Reaches registry source shape
  | entity {key : String} {entity shape : Shape} : Reaches registry source (.ref key) →
      registry.shape? key = some entity → shape ∈ entity.subshapes →
        Reaches registry source shape

theorem Registry.Reaches.mem {registry : Registry} {source shape : Shape}
    (h : registry.Reaches source shape) : shape ∈ source.subshapes ∨ shape ∈ registry.shapes := by
  cases h with
  | inner hshape => exact Or.inl hshape
  | entity _ hfound hshape =>
      exact Or.inr (mem_shapes_of_mem_subshapes (mem_shapes_of_shape? hfound) hshape)

/-- A condition on shapes that makes them plain, and that holds of the shapes that they refer to. -/
structure Registry.Plainly (registry : Registry) (p : Shape → Prop) : Prop where
  mergeable : Shape.Mergeable p
  plain : ∀ shape, p shape → shape.Plain
  refers : ∀ key shape, p (.ref key) → registry.shape? key = some shape → shape.Everywhere p

theorem Registry.exists_plainly_of_reaches {registry : Registry} {s t : Shape}
    (h : ∀ shape, registry.Reaches s shape ∨ registry.Reaches t shape → shape.Plain) :
    ∃ p, registry.Plainly p ∧ s.Everywhere p ∧ t.Everywhere p := by
  refine ⟨fun shape => shape.Plain ∧
    ∀ key, shape = .ref key → registry.Reaches s shape ∨ registry.Reaches t shape, ⟨⟨?_, ?_, ?_⟩,
      fun shape hp => hp.1, ?_⟩, ?_, ?_⟩
  · exact fun left right => ⟨trivial, nofun⟩
  · exact fun shape => ⟨trivial, nofun⟩
  · exact fun other hp => ⟨hp.1, nofun⟩
  · intro key entity hp hfound shape hshape
    have hreaches := (hp.2 key rfl).imp (fun hkey => hkey.entity hfound hshape)
      (fun hkey => hkey.entity hfound hshape)
    exact ⟨h shape hreaches, fun _ _ => hreaches⟩
  · intro shape hshape
    have hreaches : registry.Reaches s shape ∨ registry.Reaches t shape := Or.inl (.inner hshape)
    exact ⟨h shape hreaches, fun _ _ => hreaches⟩
  · intro shape hshape
    have hreaches : registry.Reaches s shape ∨ registry.Reaches t shape := Or.inr (.inner hshape)
    exact ⟨h shape hreaches, fun _ _ => hreaches⟩

namespace Walk

variable {registry : Registry}

/-- Where a shape comes down to an object, its node checks the fields of that object. -/
theorem exists_checkObject_of_flattens {arena : Arena} {labels : List Shape}
    (hregistry : registry.Indexed) (harena : arena.Labelled registry labels) {shape : Shape}
    {object : ObjectShape} (h : registry.Flattens shape object) {id : NodeId}
    (hid : labels[id]? = some shape) :
    ∃ nodes, List.Forall₂ (FieldNode.Fits labels) nodes object.fields ∧
      ∀ value path, check arena value id path =
        checkObject nodes object.policy path value (parts arena value) := by
  have hsettled := harena.settled hregistry
  have hobject : ∀ {nodes : List FieldNode} {object : ObjectShape} {id : NodeId},
      arena.node id = .object nodes object.policy → ∀ value path, check arena value id path =
        checkObject nodes object.policy path value (parts arena value) := by
    intro nodes object id hnode value path
    rw [check_eq hsettled, visit, hnode]
  induction h generalizing id with
  | object fields policy =>
      have hfits := harena.fits hid
      generalize hnode : arena.node id = node at hfits
      cases hfits with
      | object _ hflatten hfields =>
          have hflattens := (Registry.flatten_eq_some_iff hregistry).mp hflatten
          cases hflattens
          exact ⟨_, hfields, hobject hnode⟩
  | intersection hleft hright =>
      have hfits := harena.fits hid
      have hflattens := Registry.Flattens.intersection hleft hright
      rw [← Registry.flatten_eq_some_iff hregistry] at hflattens
      generalize hnode : arena.node id = node at hfits
      cases hfits with
      | object _ hflatten hfields =>
          rw [hflattens, Option.some.injEq] at hflatten
          subst hflatten
          exact ⟨_, hfields, hobject hnode⟩
      | intersection hnone =>
          rw [hflattens] at hnone
          cases hnone
  | @ref key shape object hfound hinner ih =>
      have hfits := harena.fits hid
      generalize hnode : arena.node id = node at hfits
      cases hfits with
      | object href => exact absurd rfl (href key)
      | entity hshape htarget =>
          rw [hfound, Option.some.injEq] at hshape
          subst hshape
          have hpresent : shape.present = shape := by
            cases hinner <;> rfl
          rw [hpresent] at htarget
          obtain ⟨nodes, hfields, hchecked⟩ := ih htarget
          refine ⟨nodes, hfields, fun value path => ?_⟩
          rw [check_eq hsettled, visit, hnode]
          exact hchecked value path

/-- The defaults of two sides are joined to the first one. -/
theorem or_joins {left? right? : Option Json} (hleft : Shape.SameDefault left? left?)
    (hright : Shape.SameDefault right? right?) (hscalar : ∀ value ∈ left?, value.Scalar) :
    Shape.SameDefault (left?.or right?) (Json.mergeFound none left? right?) := by
  cases left? with
  | none => exact hright
  | some value =>
      cases right? with
      | none => exact hleft
      | some other =>
          rw [Json.mergeFound, Json.mergeOutputs_none (hscalar value rfl)]
          exact hleft

/-- The first node makes of the value what the two others make of it, joined. -/
def Joins (arena left right : Arena) (id leftId rightId : NodeId) (value : Json) : Prop :=
  ∀ path leftPath rightPath, (check arena value id path).output.same
    (Json.mergeOutputs (check left value leftId leftPath).output
      (check right value rightId rightPath).output (some value)) = true

variable {arena left right : Arena} {labels leftLabels rightLabels : List Shape}
  {p : Shape → Prop} (hregistry : registry.Indexed) (hplainly : registry.Plainly p)
  (harena : arena.Labelled registry labels) (hleft : left.Labelled registry leftLabels)
  (hright : right.Labelled registry rightLabels)

section OneSide

variable {other : Arena} {otherLabels : List Shape} (hother : other.Labelled registry otherLabels)
  {shape : Shape} {id otherId : NodeId} {value : Json} (hid : labels[id]? = some shape)
  (hotherId : otherLabels[otherId]? = some shape) (hshape : shape.WellFormed)
  (hvalue : value.Proper)

include hregistry harena hother hid hotherId hshape hvalue

theorem output_same (path otherPath : Path) :
    (check arena value id path).output.same (check other value otherId otherPath).output = true :=
  (check_same hregistry harena hother value id otherId path otherPath
    ⟨shape, shape, hid, hotherId, hshape, hshape, Shape.same_refl hshape⟩ hvalue).output

variable (hplain : shape.Everywhere p)

include hplainly hplain

/-- What only the left side declares is joined with the value itself. -/
theorem output_same_left (path otherPath : Path) :
    (check arena value id path).output.same
      (Json.mergeOutputs (check other value otherId otherPath).output value (some value)) =
        true := by
  have hextends := check_extends hregistry hother hplainly.mergeable
    (fun shape hp => (hplainly.plain shape hp).carries) hplainly.refers value otherId otherPath
    hotherId hshape hplain hvalue
  rw [Json.mergeOutputs_input hvalue hextends]
  exact output_same hregistry harena hother hid hotherId hshape hvalue path otherPath

theorem output_same_right (path otherPath : Path) :
    (check arena value id path).output.same
      (Json.mergeOutputs value (check other value otherId otherPath).output (some value)) =
        true := by
  have hextends := check_extends hregistry hother hplainly.mergeable
    (fun shape hp => (hplainly.plain shape hp).carries) hplainly.refers value otherId otherPath
    hotherId hshape hplain hvalue
  have hproper := check_proper hregistry hother value otherId otherPath hotherId hshape hvalue
  have hsame := output_same hregistry harena hother hid hotherId hshape hvalue path otherPath
  have hjoined := Json.input_mergeOutputs hvalue hproper hextends
  exact Json.same_trans hsame (Json.same_symm (hvalue.mergeOutputs hproper _) hproper hjoined)

end OneSide

include hregistry harena hleft hright

/-- Where both sides are equal, one of them is enough. -/
theorem joins_of_same {s t : Shape} {id leftId rightId : NodeId} {value : Json}
    (hid : labels[id]? = some s) (hl : leftLabels[leftId]? = some s)
    (hr : rightLabels[rightId]? = some t) (hs : s.WellFormed) (ht : t.WellFormed)
    (hsame : s.same t = true) (hvalue : value.Proper) :
    Joins arena left right id leftId rightId value := by
  intro path leftPath rightPath
  have hone := (check_same hregistry harena hleft value id leftId path leftPath
    ⟨s, s, hid, hl, hs, hs, Shape.same_refl hs⟩ hvalue).output
  have hother := (check_same hregistry hleft hright value leftId rightId leftPath rightPath
    ⟨s, t, hl, hr, hs, ht, hsame⟩ hvalue).output
  have hproper := check_proper hregistry hleft value leftId leftPath hl hs hvalue
  have hproper' := check_proper hregistry hright value rightId rightPath hr ht hvalue
  have hjoined := Json.mergeOutputs_same hproper hproper hproper hproper'
    (Json.same_refl hproper) hother (some value)
  rw [Json.mergeOutputs_self hproper] at hjoined
  exact Json.same_trans hone hjoined

/-- A node that checks both sides joins what copies of them make. -/
theorem joins_of_intersection {s t : Shape} {id leftId rightId : NodeId} {value : Json}
    (hflatten : registry.flatten (.intersection s t) = none)
    (hid : labels[id]? = some (.intersection s t)) (hl : leftLabels[leftId]? = some s.present)
    (hr : rightLabels[rightId]? = some t.present) (hs : s.WellFormed) (ht : t.WellFormed)
    (hvalue : value.Proper) : Joins arena left right id leftId rightId value := by
  intro path leftPath rightPath
  have hfits := harena.fits hid
  rw [check_eq (harena.settled hregistry), visit]
  generalize arena.node id = node at hfits
  cases hfits with
  | object _ hsome =>
      rw [hflatten] at hsome
      cases hsome
  | @intersection leftNode rightNode _ _ _ hleftNode hrightNode =>
      have hresemble : Arena.Resemble labels leftLabels leftNode leftId :=
        .present hleftNode hl hs hs (Shape.same_refl hs)
      have hresemble' : Arena.Resemble labels rightLabels rightNode rightId :=
        .present hrightNode hr ht ht (Shape.same_refl ht)
      obtain ⟨hproper, hleftProper⟩ :=
        proper_of_resemble hregistry harena hleft path leftPath hresemble hvalue
      obtain ⟨hproper', hrightProper⟩ :=
        proper_of_resemble hregistry harena hright path rightPath hresemble' hvalue
      exact Json.mergeOutputs_same hproper hleftProper hproper' hrightProper
        (check_same hregistry harena hleft value _ _ path leftPath hresemble hvalue).output
        (check_same hregistry harena hright value _ _ path rightPath hresemble' hvalue).output _

section Objects

variable {nodes leftNodes rightNodes : List FieldNode} {leftFields rightFields : Fields}
  (hnodes : List.Forall₂ (FieldNode.Fits labels) nodes (Shape.mergeFields leftFields rightFields))
  (hleftNodes : List.Forall₂ (FieldNode.Fits leftLabels) leftNodes leftFields)
  (hrightNodes : List.Forall₂ (FieldNode.Fits rightLabels) rightNodes rightFields)
  (hleftNodup : (leftFields.map (·.1)).Nodup) (hnodup : (rightFields.map (·.1)).Nodup)
  (hleftWell : ∀ field ∈ leftFields, field.2.WellFormed)
  (hrightWell : ∀ field ∈ rightFields, field.2.WellFormed)
  (hleftPlain : ∀ field ∈ leftFields, field.2.Everywhere p)
  (hrightPlain : ∀ field ∈ rightFields, field.2.Everywhere p)

include hplainly hnodes hleftNodes hrightNodes hnodup hleftWell hrightWell hleftPlain hrightPlain

/-- A member declared on one side is checked as that side checks it, one declared on both sides as
the intersection of the fields. -/
theorem memberOutcome_joins {key : String} {value : Json} (hvalue : value.Proper)
    (hboth : ∀ ours theirs, leftFields.lookup key = some ours →
      rightFields.lookup key = some theirs → ∀ id leftId rightId,
        labels[id]? = some (Shape.both ours.present theirs.present) →
          leftLabels[leftId]? = some ours.present → rightLabels[rightId]? = some theirs.present →
            Joins arena left right id leftId rightId value)
    (path leftPath rightPath : Path) :
    (memberOutcome arena nodes path (key, value)).output.same
      (Json.mergeOutputs (memberOutcome left leftNodes leftPath (key, value)).output
        (memberOutcome right rightNodes rightPath (key, value)).output (some value)) = true := by
  have hmerged := @Shape.lookup_mergeFields leftFields rightFields hnodup key
  cases hours : leftFields.lookup key with
  | none =>
      rw [memberOutcome_of_lookup_none hleftNodes hours, Outcome.output_accept]
      cases htheirs : rightFields.lookup key with
      | none =>
          rw [hours, htheirs] at hmerged
          rw [memberOutcome_of_lookup_none hrightNodes htheirs,
            memberOutcome_of_lookup_none hnodes hmerged, Outcome.output_accept,
            Json.mergeOutputs_self hvalue]
          exact Json.same_refl hvalue
      | some theirs =>
          rw [hours, htheirs] at hmerged
          have hfield := Association.mem_of_lookup htheirs
          have hwell := hrightWell _ hfield
          obtain ⟨id, hid, houtcome⟩ :=
            exists_memberOutcome_of_lookup arena path value hnodes hmerged
          obtain ⟨rightId, hr, hrightOutcome⟩ :=
            exists_memberOutcome_of_lookup right rightPath value hrightNodes htheirs
          rw [houtcome, hrightOutcome]
          exact output_same_right hregistry hplainly harena hright hid hr hwell.present hvalue
            (hrightPlain _ hfield).present _ _
  | some ours =>
      have hfield := Association.mem_of_lookup hours
      obtain ⟨leftId, hl, hleftOutcome⟩ :=
        exists_memberOutcome_of_lookup left leftPath value hleftNodes hours
      cases htheirs : rightFields.lookup key with
      | none =>
          rw [hours, htheirs] at hmerged
          obtain ⟨id, hid, houtcome⟩ :=
            exists_memberOutcome_of_lookup arena path value hnodes hmerged
          rw [houtcome, hleftOutcome, memberOutcome_of_lookup_none hrightNodes htheirs,
            Outcome.output_accept]
          exact output_same_left hregistry hplainly harena hleft hid hl (hleftWell _ hfield).present
            hvalue (hleftPlain _ hfield).present _ _
      | some theirs =>
          rw [hours, htheirs] at hmerged
          obtain ⟨id, hid, houtcome⟩ :=
            exists_memberOutcome_of_lookup arena path value hnodes hmerged
          obtain ⟨rightId, hr, hrightOutcome⟩ :=
            exists_memberOutcome_of_lookup right rightPath value hrightNodes htheirs
          rw [Shape.present_mergeField] at hid
          rw [houtcome, hleftOutcome, hrightOutcome]
          exact hboth ours theirs hours htheirs id leftId rightId hid hl hr _ _ _

include hleftNodup

/-- Merged objects make of a value what the two objects make of it, joined. -/
theorem checkObject_joins {members : Members} (hvalue : (Json.obj members).Proper)
    (hours : ∀ key ours, leftFields.lookup key = some ours → ours.isOptional = false →
      key ∈ members.map (·.1))
    (htheirs : ∀ key theirs, rightFields.lookup key = some theirs → theirs.isOptional = false →
      key ∈ members.map (·.1))
    (hboth : ∀ key value, members.lookup key = some value → ∀ ours theirs,
      leftFields.lookup key = some ours → rightFields.lookup key = some theirs →
        ∀ id leftId rightId, labels[id]? = some (Shape.both ours.present theirs.present) →
          leftLabels[leftId]? = some ours.present → rightLabels[rightId]? = some theirs.present →
            Joins arena left right id leftId rightId value)
    (path leftPath rightPath : Path) :
    (Json.obj (objectMembers arena nodes .passthrough path members)).same
      (Json.mergeOutputs (.obj (objectMembers left leftNodes .passthrough leftPath members))
        (.obj (objectMembers right rightNodes .passthrough rightPath members))
        (some (.obj members))) = true := by
  have hnames : (nodes.map (·.name)).Nodup := by
    rw [names_eq_of_fits hnodes]
    exact Shape.nodup_mergeFields hleftNodup
  have hleftNames : (leftNodes.map (·.name)).Nodup := by
    rwa [names_eq_of_fits hleftNodes]
  have hrightNames : (rightNodes.map (·.name)).Nodup := by
    rwa [names_eq_of_fits hrightNodes]
  have hmembers : ((objectMembers arena nodes .passthrough path members).map (·.1)).Nodup :=
    nodup_objectMembers hnames hvalue.nodup
  have hl : ((objectMembers left leftNodes .passthrough leftPath members).map (·.1)).Nodup :=
    nodup_objectMembers hleftNames hvalue.nodup
  have hr : ((objectMembers right rightNodes .passthrough rightPath members).map (·.1)).Nodup :=
    nodup_objectMembers hrightNames hvalue.nodup
  rw [Json.mergeOutputs_obj,
    Json.same_obj_iff_lookup hmembers (Json.nodup_mergeOutputs hl hr _)]
  intro key
  rw [Json.lookup_mergeOutputs, lookup_objectMembers hnames, lookup_objectMembers hleftNames,
    lookup_objectMembers hrightNames, Option.bind_some, Json.get?]
  cases hlookup : members.lookup key with
  | some value =>
      simp only [decide_true, Bool.true_or, if_true]
      exact .some (memberOutcome_joins hregistry hplainly harena hleft hright hnodes hleftNodes
        hrightNodes hnodup hleftWell hrightWell hleftPlain hrightPlain (hvalue.lookup hlookup)
        (hboth key value hlookup) path leftPath rightPath)
  | none =>
      have hkey := Association.lookup_eq_none_iff.mp hlookup
      have hdefaults : ∀ {fields : Fields}, (∀ field ∈ fields, field.2.WellFormed) →
          Shape.SameDefault ((fields.lookup key).bind Shape.default?)
            ((fields.lookup key).bind Shape.default?) := by
        intro fields hwell
        cases hfound : fields.lookup key with
        | none => exact .none
        | some shape =>
            have hshape := hwell _ (Association.mem_of_lookup hfound)
            exact (Shape.presence_same (Shape.same_refl hshape)).2
      dsimp only
      rw [filled?_eq hnodes, filled?_eq hleftNodes, filled?_eq hrightNodes,
        Shape.default?_mergeFields hnodup]
      · apply or_joins (hdefaults hleftWell) (hdefaults hrightWell)
        intro value hvalue
        obtain ⟨ours, hfound, hdefault⟩ := Option.bind_eq_some_iff.mp hvalue
        obtain ⟨inner, hp⟩ := (hleftPlain _ (Association.mem_of_lookup hfound)).default? hdefault
        exact hplainly.plain _ hp
      · intro ours hfound
        by_contra hoptional
        exact hkey (hours key ours hfound (Bool.eq_false_iff.mpr hoptional))
      · intro theirs hfound
        by_contra hoptional
        exact hkey (htheirs key theirs hfound (Bool.eq_false_iff.mpr hoptional))

end Objects

/-- The field of a merged object is one of the two fields if they are equal. -/
theorem joins_of_both {s t : Shape} {id leftId rightId : NodeId} {value : Json}
    (hid : labels[id]? = some (Shape.both s.present t.present))
    (hl : leftLabels[leftId]? = some s.present) (hr : rightLabels[rightId]? = some t.present)
    (hs : s.WellFormed) (ht : t.WellFormed) (hvalue : value.Proper)
    (hintersection : labels[id]? = some (.intersection s.present t.present) →
      Joins arena left right id leftId rightId value) :
    Joins arena left right id leftId rightId value := by
  rw [Shape.both] at hid
  split at hid
  · rename_i hsame
    exact joins_of_same hregistry harena hleft hright hid hl hr hs.present ht.present hsame hvalue
  · exact hintersection hid

include hplainly

/-- An intersection that comes down to one object joins what the objects of its sides make of a
value, if it does so where both declare a field. -/
theorem joins_of_flattens {s t : Shape} {sObject tObject : ObjectShape}
    (hsFlattens : registry.Flattens s sObject) (htFlattens : registry.Flattens t tObject)
    {id leftId rightId : NodeId} {value : Json} (hid : labels[id]? = some (.intersection s t))
    (hl : leftLabels[leftId]? = some s) (hr : rightLabels[rightId]? = some t)
    (hs : s.WellFormed) (ht : t.WellFormed) (hsPlain : s.Everywhere p) (htPlain : t.Everywhere p)
    (hvalue : value.Proper) (hsValue : registry.Satisfies s value)
    (htValue : registry.Satisfies t value)
    (hboth : ∀ part : Json, part.Part value → ∀ ours theirs : Shape, ours.WellFormed →
      theirs.WellFormed → ours.Everywhere p → theirs.Everywhere p →
        registry.Satisfies ours part → registry.Satisfies theirs part → ∀ id leftId rightId,
          labels[id]? = some (Shape.both ours.present theirs.present) →
            leftLabels[leftId]? = some ours.present → rightLabels[rightId]? = some theirs.present →
              Joins arena left right id leftId rightId part) :
    Joins arena left right id leftId rightId value := by
  have hcarries : ∀ shape, p shape → shape.Carries (fun _ => False) :=
    fun shape hp => (hplainly.plain shape hp).carries
  obtain ⟨nodes, hnodes, hcheck⟩ :=
    exists_checkObject_of_flattens hregistry harena (.intersection hsFlattens htFlattens) hid
  obtain ⟨leftNodes, hleftNodes, hleftCheck⟩ :=
    exists_checkObject_of_flattens hregistry hleft hsFlattens hl
  obtain ⟨rightNodes, hrightNodes, hrightCheck⟩ :=
    exists_checkObject_of_flattens hregistry hright htFlattens hr
  obtain ⟨-, hsWell⟩ := Shape.Everywhere.object_iff.mp (hsFlattens.wellFormed hregistry hs)
  obtain ⟨-, htWell⟩ := Shape.Everywhere.object_iff.mp (htFlattens.wellFormed hregistry ht)
  have hsNodup := hsFlattens.nodup hregistry hs
  have htNodup := htFlattens.nodup hregistry ht
  have hsFields := hsFlattens.everywhere hplainly.mergeable hplainly.refers hsPlain
  have htFields := htFlattens.everywhere hplainly.mergeable hplainly.refers htPlain
  obtain ⟨hsPolicy, -⟩ := hsFlattens.carries hcarries hplainly.refers hsPlain
  obtain ⟨htPolicy, -⟩ := htFlattens.carries hcarries hplainly.refers htPlain
  have hpolicy : (sObject.merge tObject).policy = .passthrough := by
    rw [ObjectShape.merge, hsPolicy]
    rfl
  rw [← hsFlattens.satisfies_iff hregistry hs, Registry.satisfies_object_iff hsNodup] at hsValue
  rw [← htFlattens.satisfies_iff hregistry ht, Registry.satisfies_object_iff htNodup] at htValue
  obtain ⟨members, rfl, hsMembers⟩ := hsValue
  obtain ⟨_, heq, htMembers⟩ := htValue
  cases heq
  intro path leftPath rightPath
  rw [hcheck, hleftCheck, hrightCheck, hpolicy, hsPolicy, htPolicy, output_checkObject,
    output_checkObject, output_checkObject]
  · apply checkObject_joins hregistry hplainly harena hleft hright hnodes hleftNodes hrightNodes
      hsNodup htNodup hsWell htWell hsFields htFields hvalue
    · intro key ours hours
      exact (hsMembers key ours hours).1
    · intro key theirs htheirs
      exact (htMembers key theirs htheirs).1
    · intro key value hlookup ours theirs hours htheirs id leftId rightId hid hl hr
      have hmember := Association.mem_of_lookup hlookup
      have hfield := Association.mem_of_lookup hours
      have hfield' := Association.mem_of_lookup htheirs
      apply hboth value (.member hmember) ours theirs (hsWell _ hfield) (htWell _ hfield')
        (hsFields _ hfield) (htFields _ hfield') _ _ id leftId rightId hid hl hr
      · exact Registry.satisfies_present_iff.mp ((hsMembers key ours hours).2 _ hmember rfl)
      · exact Registry.satisfies_present_iff.mp ((htMembers key theirs htheirs).2 _ hmember rfl)
  · rwa [names_eq_of_fits hrightNodes]
  · rwa [names_eq_of_fits hleftNodes]
  · rw [names_eq_of_fits hnodes]
    exact Shape.nodup_mergeFields hsNodup

/-- Of a value that satisfies both sides, an intersection makes what the two sides make of it,
joined. -/
theorem check_joins {s t : Shape} {id leftId rightId : NodeId} {value : Json}
    (hid : labels[id]? = some (.intersection s t)) (hl : leftLabels[leftId]? = some s.present)
    (hr : rightLabels[rightId]? = some t.present) (hs : s.WellFormed) (ht : t.WellFormed)
    (hsPlain : s.Everywhere p) (htPlain : t.Everywhere p) (hvalue : value.Proper)
    (hsValue : registry.Satisfies s value) (htValue : registry.Satisfies t value) :
    Joins arena left right id leftId rightId value := by
  induction value using Json.induct_parts generalizing s t id leftId rightId with
  | step value ih =>
      cases hflatten : registry.flatten (.intersection s t) with
      | none =>
          exact joins_of_intersection hregistry harena hleft hright hflatten hid hl hr hs ht hvalue
      | some object =>
          rw [Registry.flatten_eq_some_iff hregistry] at hflatten
          cases hflatten with
          | intersection hsFlattens htFlattens =>
              have hsPresent : s.present = s := by
                cases hsFlattens <;> rfl
              have htPresent : t.present = t := by
                cases htFlattens <;> rfl
              rw [hsPresent] at hl
              rw [htPresent] at hr
              apply joins_of_flattens hregistry hplainly harena hleft hright hsFlattens htFlattens
                hid hl hr hs ht hsPlain htPlain hvalue hsValue htValue
              intro part hpart ours theirs hours htheirs hoursPlain htheirsPlain hoursValue
                htheirsValue id leftId rightId hid hl hr
              apply joins_of_both hregistry harena hleft hright hid hl hr hours htheirs
                (hvalue.part hpart)
              intro hid
              rw [← Shape.present_present] at hl hr
              exact ih part hpart hid hl hr hours.present htheirs.present hoursPlain.present
                htheirsPlain.present (hvalue.part hpart)
                (Registry.satisfies_present_iff.mpr hoursValue)
                (Registry.satisfies_present_iff.mpr htheirsValue)

end Walk

end EntityContract
