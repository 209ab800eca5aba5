import EntityContract.Proofs.Arena.Ending
import EntityContract.Proofs.Validation.Intersection

/-!
What validators promise: they accept the documents that satisfy the shape of their entity, merged
intersections do what their sides do together, documents keep their extension fields, and
compilation ends unless merging goes on without end.
-/

namespace EntityContract

namespace Validator

variable {validator : Validator} {value : Json}

theorem isValid_validate_iff :
    (validator.validate value).isValid = true ↔
      (Walk.check validator.arena value validator.root []).violations = [] := by
  rw [validate]
  split
  · rename_i hnone
    exact iff_of_true rfl hnone
  · rename_i hsome
    exact iff_of_false Bool.false_ne_true hsome

theorem output_of_validate {output : Json} {label? : Option String}
    (h : validator.validate value = .valid output label?) :
    (Walk.check validator.arena value validator.root []).output = output := by
  rw [validate] at h
  split at h
  · exact (ValidationResult.valid.inj h).1
  · exact nomatch h

theorem violations_validate :
    (validator.validate value).violations =
      (Walk.check validator.arena value validator.root []).violations := by
  rw [validate]
  split
  · rename_i hnone
    exact hnone.symm
  · rfl

theorem accepts_of_validate {output : Json} {label? : Option String}
    (h : validator.validate value = .valid output label?) :
    (Walk.check validator.arena value validator.root []).violations = [] :=
  isValid_validate_iff.mp (by rw [h]; rfl)

theorem validate_of_accepts {output : Json} {label? : Option String}
    (h : Walk.check validator.arena value validator.root [] = ⟨output, [], label?⟩) :
    validator.validate value = .valid output label? := by
  rw [validate, h]

theorem validate_of_rejects
    (h : (Walk.check validator.arena value validator.root []).violations ≠ []) :
    validator.validate value =
      .invalid (Walk.check validator.arena value validator.root []).violations := by
  rw [validate]
  split
  · rename_i hnone
    exact absurd hnone h
  · rfl

theorem exists_validate_of_isValid (h : (validator.validate value).isValid = true) :
    ∃ label?, validator.validate value =
      .valid (Walk.check validator.arena value validator.root []).output label? := by
  cases hresult : validator.validate value with
  | valid output label? => exact ⟨label?, by rw [output_of_validate hresult]⟩
  | invalid violations =>
      rw [hresult] at h
      exact absurd h Bool.false_ne_true

end Validator

namespace Arena.Checks

variable {registry : Registry} {validator : Validator} {shape : Shape}

theorem isValid_iff (h : validator.arena.Checks registry validator.root shape)
    (hregistry : registry.Indexed) (hshape : shape.WellFormed) (value : Json) :
    (validator.validate value).isValid = true ↔ registry.Satisfies shape value := by
  obtain ⟨labels, harena, hroot⟩ := h
  rw [← Walk.check_accepts_iff hregistry harena value validator.root [] hroot hshape]
  exact Validator.isValid_validate_iff

end Arena.Checks

namespace Registry

variable {registry : Registry} {validator : Validator}

theorem wellFormed_ref (key : String) : (Shape.ref key).WellFormed := by
  simp [Shape.WellFormed, Shape.Everywhere, Shape.subshapes, Shape.Local]

/-- The validator of an entity accepts the values that satisfy the shape of the entity. -/
theorem compile_isValid_iff {entries : List (String × Json)}
    (hproper : ∀ entry ∈ entries, entry.2.Proper) (hentries : ofEntries entries = .ok registry)
    {key : String} (hcompile : registry.compile key = .ok validator) :
    ∃ shape, registry.shape? key = some shape ∧
      ∀ value, (validator.validate value).isValid = true ↔ registry.Satisfies shape value := by
  have hregistry := indexed_of_ofEntries hproper hentries
  have hchecks := checks_of_compile hcompile
  obtain ⟨shape, hshape⟩ : ∃ shape, registry.shape? key = some shape := by
    obtain ⟨labels, harena, hroot⟩ := hchecks
    have hfits := harena.fits hroot
    generalize validator.arena.node validator.root = node at hfits
    cases hfits with
    | object href => exact absurd rfl (href key)
    | entity hshape => exact ⟨_, hshape⟩
  refine ⟨shape, hshape, fun value => ?_⟩
  exact (hchecks.isValid_iff hregistry (wellFormed_ref key) value).trans (satisfies_ref_iff hshape)

/-- A tree: a labelled node, and the trees below it. -/
def treeDefinition : Json :=
  .obj [("allOf", .arr [
    .obj [("type", .str "object"), ("properties", .obj [("label", .obj [("type", .str "string")])]),
      ("required", .arr [.str "label"])],
    .obj [("type", .str "object"), ("properties", .obj [("children", .obj [("type", .str "array"),
      ("items", .obj [("$ref", .str "#/components/schemas/Tree")])])])]])]

def treeShape : Shape :=
  .intersection (.object [("label", .string .any)] .passthrough)
    (.object [("children", .optional (.array (.ref "Tree")) none)] .passthrough)

def treeRegistry : Registry := ⟨[⟨"Tree", treeDefinition, treeShape⟩]⟩

def treeValidator : Validator where
  arena := ⟨#[.entity "Tree" 3, .string .any, .array 0,
    .object [⟨"label", 1, true, none⟩, ⟨"children", 2, false, none⟩] .passthrough]⟩
  root := 0
  name? := some "Tree"

theorem proper_treeDefinition : treeDefinition.Proper := by
  simp [treeDefinition]

theorem ofEntries_treeDefinition :
    ofEntries [("Tree", treeDefinition)] = .ok treeRegistry := by
  -- References are read by a search in the text, which is irreducible.
  with_unfolding_all rfl

theorem compile_treeRegistry : treeRegistry.compile "Tree" = .ok treeValidator := by rfl

/-- A tree with one tree below it, both with a field that is not declared. -/
def treeDocument : Json :=
  .obj [("note", .num (.int 1)), ("label", .str "root"),
    ("children", .arr [.obj [("label", .str "leaf"), ("checked", .bool true)]])]

theorem compile_isValid_iff_tree :
    ∃ shape, treeRegistry.shape? "Tree" = some shape ∧ ∀ value,
      (treeValidator.validate value).isValid = true ↔ treeRegistry.Satisfies shape value := by
  have hproper : ∀ entry ∈ [("Tree", treeDefinition)], entry.2.Proper := by
    simpa using proper_treeDefinition
  exact compile_isValid_iff hproper ofEntries_treeDefinition compile_treeRegistry

/-- The validator of an intersection accepts what both validators accept. Of that it makes what
both make of it, joined, if no object that is reached strips and no default has parts. -/
theorem compileShape_intersection {entries : List (String × Json)}
    (hproper : ∀ entry ∈ entries, entry.2.Proper) (hentries : ofEntries entries = .ok registry)
    {left right : Json} {s t : Shape} (hleft : left.Proper) (hright : right.Proper)
    (hs : Shape.ofDefinition left = .ok s) (ht : Shape.ofDefinition right = .ok t)
    (hplain : ∀ shape, registry.Reaches s shape ∨ registry.Reaches t shape → shape.Plain)
    {leftValidator rightValidator : Validator} (hl : registry.compileShape s = .ok leftValidator)
    (hr : registry.compileShape t = .ok rightValidator)
    (hcompile : registry.compileShape (.intersection s t) = .ok validator) {value : Json}
    (hvalue : value.Proper) :
    ((validator.validate value).isValid = true ↔
      (leftValidator.validate value).isValid = true ∧
        (rightValidator.validate value).isValid = true) ∧
    ∀ output label?, validator.validate value = .valid output label? →
      ∃ leftOutput leftLabel? rightOutput rightLabel?,
        leftValidator.validate value = .valid leftOutput leftLabel? ∧
          rightValidator.validate value = .valid rightOutput rightLabel? ∧
            output.same (Json.mergeOutputs leftOutput rightOutput (some value)) = true := by
  have hregistry := indexed_of_ofEntries hproper hentries
  have hsWell := Shape.wellFormed_ofDefinition hleft hs
  have htWell := Shape.wellFormed_ofDefinition hright ht
  have hwell : (Shape.intersection s t).WellFormed :=
    Shape.Everywhere.intersection_iff.mpr ⟨trivial, hsWell, htWell⟩
  have hlChecks := checks_of_compileShape hl
  have hrChecks := checks_of_compileShape hr
  have hchecks := checks_of_compileShape hcompile
  have hlIff := (hlChecks.isValid_iff hregistry hsWell.present value).trans satisfies_present_iff
  have hrIff := (hrChecks.isValid_iff hregistry htWell.present value).trans satisfies_present_iff
  have hiff : (validator.validate value).isValid = true ↔
      (leftValidator.validate value).isValid = true ∧
        (rightValidator.validate value).isValid = true := by
    rw [hlIff, hrIff, hchecks.isValid_iff hregistry hwell value]
    exact satisfies_intersection_iff
  refine ⟨hiff, fun output label? hvalid => ?_⟩
  obtain ⟨hlValid, hrValid⟩ := hiff.mp (by rw [hvalid]; rfl)
  obtain ⟨leftLabel?, hleftValid⟩ := Validator.exists_validate_of_isValid hlValid
  obtain ⟨rightLabel?, hrightValid⟩ := Validator.exists_validate_of_isValid hrValid
  refine ⟨_, leftLabel?, _, rightLabel?, hleftValid, hrightValid, ?_⟩
  obtain ⟨p, hplainly, hsPlain, htPlain⟩ := exists_plainly_of_reaches hplain
  obtain ⟨labels, harena, hroot⟩ := hchecks
  obtain ⟨leftLabels, hleftArena, hleftRoot⟩ := hlChecks
  obtain ⟨rightLabels, hrightArena, hrightRoot⟩ := hrChecks
  rw [← Validator.output_of_validate hvalid]
  exact Walk.check_joins hregistry hplainly harena hleftArena hrightArena hroot hleftRoot hrightRoot
    hsWell htWell hsPlain htPlain hvalue (hlIff.mp hlValid) (hrIff.mp hrValid) [] [] []

/-- An object with a size, merged with a tree below. -/
def sizedDefinition : Json :=
  .obj [("type", .str "object"), ("properties", .obj [("label", .obj [("type", .str "string")]),
    ("size", .obj [("type", .str "integer"), ("default", .num (.int 1))])])]

def sizedShape : Shape :=
  .object [("label", .optional (.string .any) none),
    ("size", .optional .integer (some (.num (.int 1))))] .passthrough

def sizedValidator : Validator where
  arena := ⟨#[.string .any, .integer,
    .object [⟨"label", 0, false, none⟩, ⟨"size", 1, false, some (.num (.int 1))⟩] .passthrough]⟩
  root := 2
  name? := none

def sizedTreeValidator : Validator where
  arena := ⟨#[.string .any, .integer, .entity "Tree" 5, .string .any, .array 2,
    .object [⟨"label", 3, true, none⟩, ⟨"children", 4, false, none⟩] .passthrough, .array 2,
    .object [⟨"label", 0, true, none⟩, ⟨"size", 1, false, some (.num (.int 1))⟩,
      ⟨"children", 6, false, none⟩] .passthrough]⟩
  root := 7
  name? := none

def sizedTreeDocument : Json :=
  .obj [("note", .num (.int 1)), ("label", .str "root"),
    ("children", .arr [.obj [("label", .str "leaf"), ("checked", .bool true)]]),
    ("size", .num (.int 1))]

theorem plain_of_reaches_tree {shape : Shape}
    (h : treeRegistry.Reaches sizedShape shape ∨ treeRegistry.Reaches (.ref "Tree") shape) :
    shape.Plain := by
  have hsized : ∀ shape ∈ sizedShape.subshapes, shape.Plain := by
    simp [sizedShape, Shape.subshapes, Shape.subshapesOfFields, Shape.Plain, Json.Scalar]
  have href : ∀ shape ∈ (Shape.ref "Tree").subshapes, shape.Plain := by
    simp [Shape.subshapes, Shape.Plain]
  have htree : ∀ shape ∈ treeRegistry.shapes, shape.Plain := by
    simp [shapes, treeRegistry, treeShape, Shape.subshapes, Shape.subshapesOfFields, Shape.Plain]
  rcases h with h | h
  · rcases h.mem with hmem | hmem
    · exact hsized shape hmem
    · exact htree shape hmem
  · rcases h.mem with hmem | hmem
    · exact href shape hmem
    · exact htree shape hmem

theorem compileShape_intersection_tree :
    ∃ leftOutput leftLabel? rightOutput rightLabel?,
      sizedValidator.validate treeDocument = .valid leftOutput leftLabel? ∧
        Validator.validate ⟨treeValidator.arena, 0, none⟩ treeDocument =
          .valid rightOutput rightLabel? ∧
          sizedTreeDocument.same
            (Json.mergeOutputs leftOutput rightOutput (some treeDocument)) = true := by
  have hproper : ∀ entry ∈ [("Tree", treeDefinition)], entry.2.Proper := by
    simpa using proper_treeDefinition
  have hleft : sizedDefinition.Proper := by
    simp [sizedDefinition]
  have hright : (Json.obj [("$ref", .str "#/components/schemas/Tree")]).Proper := by
    simp
  have hs : Shape.ofDefinition sizedDefinition = .ok sizedShape := by
    rfl
  have ht : Shape.ofDefinition (.obj [("$ref", .str "#/components/schemas/Tree")]) =
      .ok (.ref "Tree") := by
    with_unfolding_all rfl
  have hl : treeRegistry.compileShape sizedShape = .ok sizedValidator := by rfl
  have hr : treeRegistry.compileShape (.ref "Tree") = .ok ⟨treeValidator.arena, 0, none⟩ := by rfl
  have hcompile : treeRegistry.compileShape (.intersection sizedShape (.ref "Tree")) =
      .ok sizedTreeValidator := by rfl
  have hvalue : treeDocument.Proper := by
    simp [treeDocument]
  have hvalid : sizedTreeValidator.validate treeDocument = .valid sizedTreeDocument none := by rfl
  exact (compileShape_intersection hproper ofEntries_treeDefinition hleft hright hs ht
    (fun _ => plain_of_reaches_tree) hl hr hcompile hvalue).2 _ _ hvalid

/-- No object of the registry declares a field of that name. -/
def Undeclared (registry : Registry) (name : String) : Prop :=
  ∀ fields policy, Shape.object fields policy ∈ registry.shapes → name ∉ fields.map (·.1)

/-- Without objects that strip, no shape drops members. -/
theorem carries_of_mem_shapes (hstrip : ∀ fields, Shape.object fields .strip ∉ registry.shapes) :
    ∀ shape ∈ registry.shapes, shape.Carries fun _ => False := by
  intro shape hshape
  cases shape with
  | object fields policy =>
      cases policy with
      | passthrough => exact ⟨rfl, fun _ _ => not_false⟩
      | strip => exact absurd hshape (hstrip fields)
  | record inner => exact fun _ => not_false
  | _ => trivial

/-- Without objects that strip, the normalized document extends the document; and without records
everything under an undeclared key is carried over unchanged. -/
theorem compile_validate_extends {entries : List (String × Json)}
    (hproper : ∀ entry ∈ entries, entry.2.Proper) (hentries : ofEntries entries = .ok registry)
    (hstrip : ∀ fields, Shape.object fields .strip ∉ registry.shapes) {key : String}
    (hcompile : registry.compile key = .ok validator) {value output : Json}
    {label? : Option String} (hvalue : value.Proper)
    (hvalid : validator.validate value = .valid output label?) :
    value.Extends (fun _ => False) output ∧
      ((∀ inner, Shape.record inner ∉ registry.shapes) →
        value.Extends registry.Undeclared output) := by
  have hregistry := indexed_of_ofEntries hproper hentries
  have houtput := Validator.output_of_validate hvalid
  have hextends : ∀ fixed : String → Prop,
      (∀ shape ∈ registry.shapes, shape.Carries fixed) → value.Extends fixed output := by
    intro fixed hcarries
    obtain ⟨labels, harena, hroot⟩ := checks_of_compile hcompile
    rw [← houtput]
    apply Walk.check_extends hregistry harena (Shape.mergeable_carries fixed) (fun _ h => h)
      (fun _ _ _ hshape => everywhere_of_mem_shapes hcarries hshape) value validator.root [] hroot
      (wellFormed_ref key) _ hvalue
    simp [Shape.Everywhere, Shape.subshapes, Shape.Carries]
  have hcarries := carries_of_mem_shapes hstrip
  refine ⟨hextends _ hcarries, fun hrecord => hextends _ fun shape hshape => ?_⟩
  cases shape with
  | object fields policy =>
      exact ⟨(hcarries _ hshape).1, fun name hname hundeclared =>
        hundeclared fields policy hshape hname⟩
  | record inner => exact absurd hshape (hrecord inner)
  | _ => trivial

theorem compile_validate_extends_tree :
    treeDocument.Extends treeRegistry.Undeclared treeDocument := by
  have hproper : ∀ entry ∈ [("Tree", treeDefinition)], entry.2.Proper := by
    simpa using proper_treeDefinition
  have hstrip : ∀ fields, Shape.object fields .strip ∉ treeRegistry.shapes := by
    simp [shapes, treeRegistry, treeShape, Shape.subshapes, Shape.subshapesOfFields]
  have hrecord : ∀ inner, Shape.record inner ∉ treeRegistry.shapes := by
    simp [shapes, treeRegistry, treeShape, Shape.subshapes, Shape.subshapesOfFields]
  have hvalue : treeDocument.Proper := by
    simp [treeDocument]
  have hvalid : treeValidator.validate treeDocument = .valid treeDocument none := by rfl
  exact (compile_validate_extends hproper ofEntries_treeDefinition hstrip compile_treeRegistry
    hvalue hvalid).2 hrecord

theorem finish_of_error {α : Type} {build : Build α} {error : CompileError}
    (h : build .empty = .error error) : Build.finish build = .error error := by
  have hrun : build.run .empty = .error error := h
  rw [Build.finish, hrun]
  rfl

/-- Compiling an entity ends unless it leads to a shape that calls for itself through merged
fields. Then it ends at no depth, or at a key that is not registered. -/
theorem compile_ends {entries : List (String × Json)} (hproper : ∀ entry ∈ entries, entry.2.Proper)
    (hentries : ofEntries entries = .ok registry) (hapart : registry.MergesApart) (key : String) :
    (¬registry.Endless (.ref key) → registry.compile key ≠ .error .unfinished) ∧
      (registry.Endless (.ref key) → ∀ depth,
        Build.finish (Build.shape registry depth (.ref key)) = .error .unfinished ∨
          ∃ other, registry.shape? other = none ∧
            Relation.ReflTransGen registry.Leads (.ref key) (.ref other) ∧
            Build.finish (Build.shape registry depth (.ref key)) =
              .error (.unknownReference ⟨other⟩)) := by
  have hregistry := indexed_of_ofEntries hproper hentries
  refine ⟨fun hends hunfinished => ?_, fun hendless depth => ?_⟩
  · have hcomplete := finishes_of_not_endless hregistry hapart hends
    rw [compile, Build.finish] at hunfinished
    cases hrun : (Build.complete registry (.ref key)).run .empty with
    | error error =>
        rw [hrun] at hunfinished
        cases hunfinished
        exact hcomplete hrun
    | ok result =>
        rw [hrun] at hunfinished
        cases hunfinished
  · rcases shape_of_endless hendless depth with hrun | ⟨other, hother, hleads, hrun⟩
    · exact Or.inl (finish_of_error hrun)
    · exact Or.inr ⟨other, hother, hleads, finish_of_error hrun⟩

theorem mergesApart_treeRegistry : treeRegistry.MergesApart := by
  intro left right hmem leftObject rightObject hleft hright name hname
  have hshapes : left = .object [("label", .string .any)] .passthrough ∧
      right = .object [("children", .optional (.array (.ref "Tree")) none)] .passthrough := by
    simpa [shapes, treeRegistry, treeShape, Shape.subshapes, Shape.subshapesOfFields] using hmem
  obtain ⟨rfl, rfl⟩ := hshapes
  cases hleft
  cases hright
  simp at hname
  simp [hname]

theorem compile_ends_tree : treeRegistry.compile "Tree" ≠ .error .unfinished := by
  have hproper : ∀ entry ∈ [("Tree", treeDefinition)], entry.2.Proper := by
    simpa using proper_treeDefinition
  have hrun : Build.shape treeRegistry 5 (.ref "Tree") .empty =
      .ok (0, ⟨treeValidator.arena.nodes, [("Tree", 0)]⟩) := by rfl
  exact (compile_ends hproper ofEntries_treeDefinition mergesApart_treeRegistry "Tree").1
    (not_endless_of_ok hrun)

/-- A node whose parent is a node with a note: merging copies the field `parent` into itself. -/
def nodeDefinition : Json :=
  .obj [("type", .str "object"), ("properties", .obj [("parent", .obj [("allOf", .arr [
    .obj [("$ref", .str "#/components/schemas/Node")],
    .obj [("type", .str "object"),
      ("properties", .obj [("note", .obj [("type", .str "string")])])]])])])]

def noteShape : Shape := .object [("note", .optional (.string .any) none)] .passthrough

def parentShape : Shape := .intersection (.ref "Node") noteShape

def nodeRegistry : Registry :=
  ⟨[⟨"Node", nodeDefinition, .object [("parent", .optional parentShape none)] .passthrough⟩]⟩

theorem bind_of_error {α β : Type} {build : Build α} {next : α → Build β} {before : Builder}
    {error : CompileError} (h : build before = .error error) :
    (build >>= next) before = .error error := by
  have hbind : (build >>= next) before = (build before >>= fun value => next value.1 value.2) := rfl
  rw [hbind, h]
  rfl

theorem shapeWith_parentShape (enter : Shape → Build NodeId) (fuel : Nat) (before : Builder) :
    Build.shapeWith nodeRegistry enter fuel parentShape before = .error .unfinished := by
  have hflatten : nodeRegistry.flatten parentShape =
      some ⟨[("parent", .optional parentShape none), ("note", .optional (.string .any) none)],
        .passthrough⟩ := by rfl
  induction fuel with
  | zero => rfl
  | succ fuel ih =>
      rw [parentShape] at hflatten ⊢
      rw [Build.shapeWith, hflatten]
      dsimp only
      rw [Build.object, List.mapM_cons]
      exact bind_of_error (bind_of_error (bind_of_error ih))

/-- Names that are apart do not keep merges from going on without end. -/
theorem compile_endless_node :
    ofEntries [("Node", nodeDefinition)] = .ok nodeRegistry ∧ nodeRegistry.MergesApart ∧
      nodeRegistry.contains "Node" = true ∧
      ∀ depth, Build.finish (Build.shape nodeRegistry depth (.ref "Node")) =
        .error .unfinished := by
  refine ⟨by with_unfolding_all rfl, ?_, by rfl, fun depth => finish_of_error ?_⟩
  · intro left right hmem leftObject rightObject hleft hright name hname
    have hshapes : left = .ref "Node" ∧ right = noteShape := by
      simpa [shapes, nodeRegistry, parentShape, noteShape, Shape.subshapes,
        Shape.subshapesOfFields] using hmem
    obtain ⟨rfl, rfl⟩ := hshapes
    cases hleft
    cases hright
    simp at hname
    simp [hname]
  · rcases depth with _ | depth
    · rfl
    · have hcompile : Build.shapeWithin nodeRegistry (depth + 1) nodeRegistry.size
          (.object [("parent", .optional parentShape none)] .passthrough)
          (Build.reserved "Node" .empty) = .error .unfinished :=
        bind_of_error (bind_of_error (bind_of_error (shapeWith_parentShape _ depth _)))
      rw [Build.shape, Build.shapeWithin, Build.shapeWith, Build.entity_apply]
      change (Build.shapeWithin nodeRegistry (depth + 1) nodeRegistry.size
        (.object [("parent", .optional parentShape none)] .passthrough)
        (Build.reserved "Node" .empty)).map _ = _
      rw [hcompile]
      rfl

end Registry

end EntityContract
