import EntityContract.Proofs.Arena.Completion
import EntityContract.Proofs.Json.Joining
import EntityContract.Proofs.Registry.Normalization
import EntityContract.Proofs.Validation.Smallest

/-!
The smallest document of an intersection. The sample of each side is made without a look at the
other side, so it is accepted exactly if the two samples meet. Where both sides come down to objects
this is asked of the fields that either side requires, one by one, and else of the two samples
joined.
Main statement: `compileShape_intersection_minimal_iff`.
-/

namespace EntityContract

open Relation

namespace Sample

variable {arena : Arena} {id : NodeId}

/-- The sample of a node that is no entity is made of the samples of other nodes. -/
theorem minimal_eq_visit (harena : arena.WellFormed) (hid : id < arena.size)
    (hentity : ∀ key target, arena.node id ≠ .entity key target) :
    minimal arena id = visit arena (fun _ other => minimal arena other) [] id := by
  rw [← iterate_turn harena hid (fun _ => .null) (Nat.le_succ _), Function.iterate_succ_apply']
  change _ = turn arena (fun call => minimal arena call.2) ([], id)
  refine along_turn fun next hnext => ?_
  cases hnext with
  | entity hnode => exact absurd hnode (hentity _ _)
  | child _ hchild =>
      exact iterate_turn harena (harena.child_lt _ hchild) _ (Nat.le_refl _)

/-- The sample of an object is accepted if those of its required fields are. -/
theorem accepts_minimal_object_iff (harena : arena.WellFormed) (hsettled : arena.Settled)
    (hid : id < arena.size) {fields : List FieldNode} {policy : UnknownFields}
    (hnode : arena.node id = .object fields policy) (hnodup : (fields.map (·.name)).Nodup) :
    (Walk.check arena (minimal arena id) id []).violations = [] ↔
      ∀ field ∈ fields, field.required = true →
        (Walk.check arena (minimal arena field.node) field.node []).violations = [] := by
  have hnames : (((fields.filter (·.required)).map fun field =>
      (field.name, minimal arena field.node)).map (·.1)).Nodup := by
    rw [List.map_map]
    exact hnodup.sublist (List.filter_sublist.map _)
  have hmember : ∀ field ∈ fields,
      ((Walk.memberOutcome arena fields [] (field.name, minimal arena field.node)).violations = [] ↔
        (Walk.check arena (minimal arena field.node) field.node []).violations = []) := by
    intro field hfield
    rw [Walk.memberOutcome_of_mem hnodup hfield, Walk.violations_check_eq_nil_iff]
  rw [minimal_eq_visit harena hid (by simp [hnode]), visit, hnode]
  dsimp only
  rw [Members.ofWritten_of_nodup hnames, Walk.check_eq hsettled, Walk.visit, hnode]
  refine Walk.violations_checkObject_eq_nil_iff.trans ⟨fun h field hfield hrequired => ?_,
    fun h => ⟨fun member hmem => ?_, fun field hfield hrequired => ?_⟩⟩
  · exact (hmember field hfield).mp (h.1 _ (Arena.mem_sample.mpr ⟨field, hfield, hrequired, rfl⟩))
  · obtain ⟨field, hfield, hrequired, rfl⟩ := Arena.mem_sample.mp hmem
    exact (hmember field hfield).mpr (h field hfield hrequired)
  · exact List.mem_map_of_mem (f := (·.1)) (Arena.mem_sample.mpr ⟨field, hfield, hrequired, rfl⟩)

end Sample

/-- Both objects declare the field, with different shapes. -/
structure ObjectShape.Disagree (ours theirs : ObjectShape) (name : String) (x y : Shape) :
    Prop where
  left : ours.fields.lookup name = some x
  right : theirs.fields.lookup name = some y
  same_eq : x.present.same y.present = false

/-- What both declare and either requires, the merged object requires as an intersection. -/
theorem ObjectShape.Disagree.lookup_merge {ours theirs : ObjectShape} {name : String} {x y : Shape}
    (h : ours.Disagree theirs name x y) (hnodup : (theirs.fields.map (·.1)).Nodup)
    (hrequired : (x.isOptional && y.isOptional) = false) :
    (ours.merge theirs).fields.lookup name = some (.intersection x.present y.present) := by
  rw [merge, Shape.lookup_mergeFields hnodup, h.left, h.right]
  dsimp only
  rw [Shape.mergeField_eq, hrequired, if_neg Bool.false_ne_true, Shape.both, h.same_eq,
    if_neg Bool.false_ne_true]

/-- Without an input nothing tells which side changed it, so the left one is taken. -/
theorem Json.mergeOutputs_none_of_not_joinable {left right : Json} (h : ¬Joinable left right) :
    mergeOutputs left right none = left := by
  rw [mergeOutputs_eq_chosen h, chosen]
  rfl

namespace Registry

variable {registry : Registry}

/-- The own validator of the shape accepts its own smallest document. -/
def AcceptsSample (registry : Registry) (shape : Shape) : Prop :=
  ∃ own, registry.CompilesTo shape own ∧ (own.validate own.minimal).isValid = true

/-- The samples of the two shapes meet: what they make together is a value of both. -/
inductive SamplesMeet (registry : Registry) : Shape → Shape → Prop
  /-- Samples that cannot be joined part by part: the first shape's is taken as it is. -/
  | taken {left right : Shape} {ours theirs : Validator} :
      registry.flatten (.intersection left right) = none →
      registry.CompilesTo left ours → registry.CompilesTo right theirs →
      ¬ours.minimal.Joinable theirs.minimal →
      (ours.validate ours.minimal).isValid = true →
      (theirs.validate ours.minimal).isValid = true → SamplesMeet registry left right
  /-- Samples with parts are joined part by part. -/
  | joined {left right : Shape} {ours theirs : Validator} :
      registry.flatten (.intersection left right) = none →
      registry.CompilesTo left ours → registry.CompilesTo right theirs →
      ours.minimal.Joinable theirs.minimal →
      (ours.validate (Json.mergeOutputs ours.minimal theirs.minimal none)).isValid = true →
      (theirs.validate (Json.mergeOutputs ours.minimal theirs.minimal none)).isValid = true →
      SamplesMeet registry left right
  /-- Of two objects, the fields meet that both declare and either requires; the other required
  fields have a sample by themselves. -/
  | merged {left right : Shape} {ours theirs : ObjectShape} :
      registry.Flattens left ours → registry.Flattens right theirs →
      (∀ name x y, ours.Disagree theirs name x y → (x.isOptional && y.isOptional) = false →
        SamplesMeet registry x.present y.present) →
      (∀ name shape, (ours.merge theirs).fields.lookup name = some shape →
        shape.isOptional = false → (∀ x y, ¬ours.Disagree theirs name x y) →
          registry.AcceptsSample shape) →
      SamplesMeet registry left right

variable {validator own : Validator} {left right shape : Shape}

/-- Whatever node the shape has, it tells whether the shape accepts its own sample. -/
theorem acceptsSample_iff (hchecks : validator.arena.Checks registry validator.root shape.present)
    (hregistry : registry.Indexed) (hown : registry.CompilesTo shape own) :
    registry.AcceptsSample shape ↔ (validator.validate validator.minimal).isValid = true := by
  have hagrees : ∀ {other}, registry.CompilesTo shape other → other.Agrees validator :=
    fun hother => hother.checks.agrees hchecks hregistry
  constructor
  · rintro ⟨other, hother, haccepts⟩
    obtain ⟨hvalidate, hminimal⟩ := hagrees hother
    rwa [hvalidate, hminimal] at haccepts
  · obtain ⟨hvalidate, hminimal⟩ := hagrees hown
    intro haccepts
    exact ⟨own, hown, by rwa [hvalidate, hminimal]⟩

section Kept

variable (h : registry.CompilesTo (.intersection left right) validator)
  (hregistry : registry.Indexed) {ours theirs : Validator} (hours : registry.CompilesTo left ours)
  (htheirs : registry.CompilesTo right theirs)

include h hregistry hours htheirs

/-- Kept apart, the sides bring their samples, which are joined without an input. -/
theorem CompilesTo.minimal_kept (hflatten : registry.flatten (.intersection left right) = none) :
    validator.minimal = Json.mergeOutputs ours.minimal theirs.minimal none := by
  have hchecks := h.checks
  obtain ⟨hwell, hends⟩ := hchecks.wellFormed hregistry
  obtain ⟨labels, harena, hroot⟩ := hchecks
  have hfits := harena.fits hroot
  generalize hnode : validator.arena.node validator.root = node at hfits
  cases hfits with
  | object _ hsome => exact nomatch hflatten.symm.trans hsome
  | intersection _ hleft hright =>
      obtain ⟨ourLabels, hourArena, hourRoot⟩ := hours.checks
      obtain ⟨theirLabels, htheirArena, htheirRoot⟩ := htheirs.checks
      rw [Validator.minimal, Sample.minimal_eq_visit hwell hends.root_lt (by simp [hnode]),
        Sample.visit, hnode]
      dsimp only
      rw [Arena.minimal_eq_of_twins harena hourArena hregistry ⟨_, hleft, hourRoot⟩,
        Arena.minimal_eq_of_twins harena htheirArena hregistry ⟨_, hright, htheirRoot⟩]
      rfl

variable (hleft : left.WellFormed) (hright : right.WellFormed)

include hleft hright

/-- A validator of an intersection accepts what those of both sides do. -/
theorem CompilesTo.isValid_intersection_iff (value : Json) :
    (validator.validate value).isValid = true ↔
      (ours.validate value).isValid = true ∧ (theirs.validate value).isValid = true := by
  have hwell : (Shape.intersection left right).WellFormed :=
    Shape.Everywhere.intersection_iff.mpr ⟨trivial, hleft, hright⟩
  rw [h.checks.isValid_iff hregistry hwell.present,
    hours.checks.isValid_iff hregistry hleft.present,
    htheirs.checks.isValid_iff hregistry hright.present, @satisfies_present_iff registry value left,
    @satisfies_present_iff registry value right]
  exact satisfies_intersection_iff

theorem CompilesTo.acceptsSample_kept_iff
    (hflatten : registry.flatten (.intersection left right) = none) :
    registry.AcceptsSample (.intersection left right) ↔
      (ours.validate (Json.mergeOutputs ours.minimal theirs.minimal none)).isValid = true ∧
        (theirs.validate (Json.mergeOutputs ours.minimal theirs.minimal none)).isValid = true := by
  rw [acceptsSample_iff h.checks hregistry h,
    h.isValid_intersection_iff hregistry hours htheirs hleft hright,
    h.minimal_kept hregistry hours htheirs hflatten]

end Kept

/-- The sample of a merged object is accepted if those of the fields that it requires are. -/
theorem CompilesTo.acceptsSample_merged_iff
    (h : registry.CompilesTo (.intersection left right) validator) (hregistry : registry.Indexed)
    (hleft : left.WellFormed) (hright : right.WellFormed) {object : ObjectShape}
    (hflatten : registry.flatten (.intersection left right) = some object) :
    registry.AcceptsSample (.intersection left right) ↔
      ∀ name shape, object.fields.lookup name = some shape → shape.isOptional = false →
        registry.AcceptsSample shape := by
  have hwellBoth : (Shape.intersection left right).WellFormed :=
    Shape.Everywhere.intersection_iff.mpr ⟨trivial, hleft, hright⟩
  have hobject : (object.fields.map (·.1)).Nodup :=
    ((flatten_eq_some_iff hregistry).mp hflatten).nodup hregistry hwellBoth
  rw [acceptsSample_iff h.checks hregistry h, Validator.isValid_validate_iff]
  have hchecks := h.checks
  obtain ⟨hwell, hends⟩ := hchecks.wellFormed hregistry
  obtain ⟨labels, harena, hroot⟩ := hchecks
  have hfits := harena.fits hroot
  generalize hnode : validator.arena.node validator.root = node at hfits
  cases hfits with
  | intersection hnone => exact nomatch hflatten.symm.trans hnone
  | @object nodes _ _ _ hsome hfields =>
      have heq := hflatten.symm.trans hsome
      cases heq
      have hnodup : (nodes.map (·.name)).Nodup := names_eq_of_fits hfields ▸ hobject
      -- The node of a required field has the sample of the field's own validator.
      have hfield : ∀ {node : FieldNode} {name : String} {shape : Shape},
          (name, shape) ∈ object.fields → FieldNode.Fits labels node (name, shape) →
            shape.isOptional = false → (registry.AcceptsSample shape ↔ (Walk.check validator.arena
              (Sample.minimal validator.arena node.node) node.node []).violations = []) := by
        intro node name shape hmem hfit hoptional
        have hleads : ReflTransGen registry.Leads (.intersection left right) shape :=
          Shape.present_of_isOptional_eq_false hoptional ▸ .single (.call (.merged hflatten hmem))
        obtain ⟨own, hown⟩ := h.exists_of_leads hleads
        have hfieldChecks : validator.arena.Checks registry node.node shape.present :=
          ⟨labels, harena, hfit.label⟩
        let inner : Validator := ⟨validator.arena, node.node, none⟩
        have hinner : registry.AcceptsSample shape ↔
            (inner.validate inner.minimal).isValid = true :=
          acceptsSample_iff hfieldChecks hregistry hown
        exact hinner.trans Validator.isValid_validate_iff
      refine (Sample.accepts_minimal_object_iff hwell (harena.settled hregistry) hends.root_lt hnode
        hnodup).trans ⟨fun haccepts name shape hlookup hoptional => ?_,
          fun haccepts node hmem hrequired => ?_⟩
      · have hmem := Association.mem_of_lookup hlookup
        obtain ⟨node, hnode, hfit⟩ := Pairing.exists_of_mem_right hfields hmem
        refine (hfield hmem hfit hoptional).mpr (haccepts node hnode ?_)
        rw [hfit.required_eq, hoptional, Bool.not_false]
      · obtain ⟨⟨name, shape⟩, hmem, hfit⟩ := Pairing.exists_of_mem_left hfields hmem
        have hoptional : shape.isOptional = false := by
          simpa [hrequired] using hfit.required_eq.symm
        exact (hfield hmem hfit hoptional).mp
          (haccepts name shape (Association.lookup_of_mem hobject hmem) hoptional)

section Meet

variable (h : registry.CompilesTo (.intersection left right) validator)
  (hregistry : registry.Indexed) (hleft : left.WellFormed) (hright : right.WellFormed)

include h hregistry hleft hright

theorem CompilesTo.acceptsSample_iff_meet_of_kept
    (hflatten : registry.flatten (.intersection left right) = none) :
    registry.AcceptsSample (.intersection left right) ↔ registry.SamplesMeet left right := by
  constructor
  · obtain ⟨ours, hours⟩ := h.exists_of_leads (.single (.call (.left hflatten)))
    obtain ⟨theirs, htheirs⟩ := h.exists_of_leads (.single (.call (.right hflatten)))
    rw [h.acceptsSample_kept_iff hregistry hours htheirs hleft hright hflatten]
    rintro ⟨hacceptsOurs, hacceptsTheirs⟩
    by_cases hjoinable : ours.minimal.Joinable theirs.minimal
    · exact .joined hflatten hours htheirs hjoinable hacceptsOurs hacceptsTheirs
    · rw [Json.mergeOutputs_none_of_not_joinable hjoinable] at hacceptsOurs hacceptsTheirs
      exact .taken hflatten hours htheirs hjoinable hacceptsOurs hacceptsTheirs
  · intro hmeet
    cases hmeet with
    | taken _ hours htheirs hjoinable hacceptsOurs hacceptsTheirs =>
        rw [h.acceptsSample_kept_iff hregistry hours htheirs hleft hright hflatten,
          Json.mergeOutputs_none_of_not_joinable hjoinable]
        exact ⟨hacceptsOurs, hacceptsTheirs⟩
    | joined _ hours htheirs _ hacceptsOurs hacceptsTheirs =>
        exact (h.acceptsSample_kept_iff hregistry hours htheirs hleft hright hflatten).mpr
          ⟨hacceptsOurs, hacceptsTheirs⟩
    | merged hours htheirs =>
        rw [(flatten_eq_some_iff hregistry).mpr (.intersection hours htheirs)] at hflatten
        exact nomatch hflatten

theorem CompilesTo.acceptsSample_iff_meet_of_merged {ours theirs : ObjectShape}
    (hours : registry.Flattens left ours) (htheirs : registry.Flattens right theirs)
    (hfield : ∀ name x y, ours.Disagree theirs name x y →
      (x.isOptional && y.isOptional) = false →
        (registry.AcceptsSample (.intersection x.present y.present) ↔
          registry.SamplesMeet x.present y.present)) :
    registry.AcceptsSample (.intersection left right) ↔ registry.SamplesMeet left right := by
  have hflatten := (flatten_eq_some_iff hregistry).mpr (.intersection hours htheirs)
  have hnodup := htheirs.nodup hregistry hright
  rw [h.acceptsSample_merged_iff hregistry hleft hright hflatten]
  constructor
  · intro haccepts
    refine .merged hours htheirs (fun name x y hdisagree hrequired => ?_)
      fun name shape hlookup hoptional _ => haccepts name shape hlookup hoptional
    exact (hfield name x y hdisagree hrequired).mp
      (haccepts name _ (hdisagree.lookup_merge hnodup hrequired) rfl)
  · intro hmeet name shape hlookup hoptional
    cases hmeet with
    | taken hnone => exact nomatch hflatten.symm.trans hnone
    | joined hnone => exact nomatch hflatten.symm.trans hnone
    | merged hours' htheirs' hmeet hothers =>
        cases hours.unique hregistry hours'
        cases htheirs.unique hregistry htheirs'
        by_cases hdisagree : ∃ x y, ours.Disagree theirs name x y
        · obtain ⟨x, y, hdisagree⟩ := hdisagree
          have hrequired : (x.isOptional && y.isOptional) = false := by
            rw [ObjectShape.merge, Shape.lookup_mergeFields hnodup, hdisagree.left,
              hdisagree.right] at hlookup
            cases hlookup
            rwa [Shape.isOptional_mergeField] at hoptional
          cases hlookup.symm.trans (hdisagree.lookup_merge hnodup hrequired)
          exact (hfield name x y hdisagree hrequired).mpr (hmeet name x y hdisagree hrequired)
        · exact hothers name shape hlookup hoptional fun x y h => hdisagree ⟨x, y, h⟩

/-- By induction on how deep the calls for merged fields are nested. -/
theorem CompilesTo.acceptsSample_iff_meet {n : Nat}
    (hbounded : Chain.Bounded registry.Calls n (.intersection left right)) :
    registry.AcceptsSample (.intersection left right) ↔ registry.SamplesMeet left right := by
  induction n generalizing left right validator with
  | zero => exact hbounded.elim
  | succ n ih =>
      cases hflatten : registry.flatten (.intersection left right) with
      | none => exact h.acceptsSample_iff_meet_of_kept hregistry hleft hright hflatten
      | some object =>
          cases (flatten_eq_some_iff hregistry).mp hflatten with
          | @intersection _ _ ours theirs hours htheirs =>
              refine h.acceptsSample_iff_meet_of_merged hregistry hleft hright hours htheirs
                fun name x y hdisagree hrequired => ?_
              have hmem := Association.mem_of_lookup
                (hdisagree.lookup_merge (htheirs.nodup hregistry hright) hrequired)
              have hcalls : registry.Calls (.intersection left right)
                  (.intersection x.present y.present) := .merged hflatten hmem
              obtain ⟨own, hown⟩ := h.exists_of_leads (.single (.call hcalls))
              have hx : x.WellFormed := (Shape.Everywhere.object_iff.mp
                (hours.wellFormed hregistry hleft)).2 _ (Association.mem_of_lookup hdisagree.left)
              have hy : y.WellFormed := (Shape.Everywhere.object_iff.mp
                (htheirs.wellFormed hregistry hright)).2 _
                  (Association.mem_of_lookup hdisagree.right)
              exact ih hown hx.present hy.present (hbounded _ hcalls)

end Meet

/-- The validator of an intersection accepts its own smallest document exactly if the samples of the
two sides meet, whatever else it accepts. -/
theorem compileShape_intersection_minimal_iff {entries : List (String × Json)}
    (hproper : ∀ entry ∈ entries, entry.2.Proper) (hentries : ofEntries entries = .ok registry)
    {left right : Json} (hleft : left.Proper) (hright : right.Proper) {s t : Shape}
    (hs : Shape.ofDefinition left = .ok s) (ht : Shape.ofDefinition right = .ok t)
    (hcompile : registry.compileShape (.intersection s t) = .ok validator) :
    (validator.validate validator.minimal).isValid = true ↔ registry.SamplesMeet s t := by
  have hregistry := indexed_of_ofEntries hproper hentries
  have hcompiles := compilesTo_of_compileShape hcompile
  obtain ⟨depth, hfinish⟩ := compilesTo_of_compileShape hcompile
  obtain ⟨builder, hrun, -⟩ := Build.finish_eq_ok_iff.mp hfinish
  rw [← acceptsSample_iff hcompiles.checks hregistry hcompiles]
  exact hcompiles.acceptsSample_iff_meet hregistry (Shape.wellFormed_ofDefinition hleft hs)
    (Shape.wellFormed_ofDefinition hright ht) (covered_of_leads hrun .refl).bounded

/-- A channel of one of two kinds, at an address. -/
def channelDefinition : Json :=
  .obj [("type", .str "object"), ("required", .arr [.str "kind", .str "address"]),
    ("properties", .obj [("kind", .obj [("enum", .arr [.str "stdio", .str "sse"])]),
      ("address", .obj [("type", .str "string")])])]

def channelShape : Shape :=
  .object [("kind", .enum ["stdio", "sse"]), ("address", .string .any)] .passthrough

/-- Something that may be of a kind. -/
def kindDefinition : Json :=
  .obj [("type", .str "object"), ("properties", .obj [("kind", .obj [("type", .str "string")])])]

def kindShape : Shape :=
  .object [("kind", .optional (.string .any) none)] .passthrough

/-- The closed list stands on the left, so the sample of the kind is one of its members. -/
theorem compileShape_intersection_minimal_iff_channel :
    ∃ validator, (Registry.mk []).compileShape (.intersection channelShape kindShape) =
      .ok validator ∧ (validator.validate validator.minimal).isValid = true := by
  have hchannel : Shape.ofDefinition channelDefinition = .ok channelShape := by
    rfl
  have hkind : Shape.ofDefinition kindDefinition = .ok kindShape := by
    rfl
  have hmeet : (Registry.mk []).SamplesMeet channelShape kindShape := by
    refine .merged (.object _ _) (.object _ _) (fun name x y hdisagree _ => ?_)
      fun name shape hlookup _ hagree => ?_
    · obtain ⟨hx, hy, -⟩ := hdisagree
      cases List.mem_singleton.mp (Association.mem_of_lookup hy)
      cases show some (Shape.enum ["stdio", "sse"]) = some x from hx
      have hours : (Registry.mk []).compileShape (.enum ["stdio", "sse"]) =
        .ok ⟨⟨#[.enum ["stdio", "sse"]]⟩, 0, none⟩ := rfl
      have htheirs : (Registry.mk []).compileShape (.string .any) =
        .ok ⟨⟨#[.string .any]⟩, 0, none⟩ := rfl
      exact .taken rfl (compilesTo_of_compileShape hours) (compilesTo_of_compileShape htheirs)
        not_false rfl rfl
    · have hfields : (name, shape) ∈ [("kind", Shape.intersection (.enum ["stdio", "sse"])
          (.string .any)), ("address", .string .any)] := Association.mem_of_lookup hlookup
      rcases List.mem_cons.mp hfields with hkind | haddress
      · cases hkind
        exact absurd ⟨rfl, rfl, rfl⟩
          (hagree (.enum ["stdio", "sse"]) (.optional (.string .any) none))
      · cases List.mem_singleton.mp haddress
        exact ⟨_, compilesTo_of_compileShape rfl, rfl⟩
  have hentries : ofEntries [] = .ok ⟨[]⟩ := rfl
  refine ⟨_, rfl, (compileShape_intersection_minimal_iff (List.forall_mem_nil _) hentries ?_ ?_
    hchannel hkind rfl).mpr hmeet⟩
  · simp [channelDefinition]
  · simp [kindDefinition]

/-- The sample of a text is no member of a closed list. It is taken for the intersection of both,
which rejects it, although the list has members that are accepted. -/
theorem rejects_minimal_text_enum :
    ∃ s t ours theirs validator, ofEntries [] = .ok ⟨[]⟩ ∧
      Shape.ofDefinition (.obj [("type", .str "string")]) = .ok s ∧
      Shape.ofDefinition (.obj [("enum", .arr [.str "stdio", .str "sse"])]) = .ok t ∧
      (Registry.mk []).compileShape s = .ok ours ∧ (Registry.mk []).compileShape t = .ok theirs ∧
      (ours.validate ours.minimal).isValid = true ∧
      (theirs.validate theirs.minimal).isValid = true ∧
      (ours.validate (.str "stdio")).isValid = true ∧
      (theirs.validate (.str "stdio")).isValid = true ∧
      (Registry.mk []).compileShape (.intersection s t) = .ok validator ∧
      (validator.validate validator.minimal).isValid = false := by
  have hs : Shape.ofDefinition (.obj [("type", .str "string")]) = .ok (.string .any) := by
    rfl
  have ht : Shape.ofDefinition (.obj [("enum", .arr [.str "stdio", .str "sse"])]) =
      .ok (.enum ["stdio", "sse"]) := by
    rfl
  exact ⟨_, _, _, _, _, rfl, hs, ht, rfl, rfl, rfl, rfl, rfl, rfl, rfl, rfl⟩

end Registry

end EntityContract
