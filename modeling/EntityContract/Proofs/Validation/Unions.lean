import EntityContract.Proofs.Validation.Choice
import EntityContract.Proofs.Validation.Coverage
import EntityContract.Proofs.Validation.Ways
import EntityContract.Proofs.Validator

/-!
The validator of a union against the validators of its variants. It takes the document as the first
of the most specific variants does that accept it; if none accepts it, it tells of the document what
the first of those does that come closest.
-/

namespace EntityContract

open Relation

/-- A value is checked against the first shape as it is against the second one, to which wrappers
and references come. -/
inductive Registry.ComesTo (registry : Registry) : Shape → Shape → Prop
  | refl (shape : Shape) : ComesTo registry shape shape
  | optional {inner target : Shape} {default? : Option Json} :
      ComesTo registry inner target → ComesTo registry (.optional inner default?) target
  | ref {key : String} {shape target : Shape} :
      registry.shape? key = some shape → ComesTo registry shape target →
        ComesTo registry (.ref key) target

/-- A violation as the validator of a union tells of it: with the same fault at the same place, and
the label of the closest variant behind all that its message says. -/
structure Violation.ToldBy (label : String) (violation told : Violation) : Prop where
  path_eq : told.path = violation.path
  fault_eq : told.fault = violation.fault
  message_eq : told.message = violation.message ++ s!" (closest variant: {label})"

theorem Violation.toldBy_inVariant (violation : Violation) (label : String) :
    violation.ToldBy label (violation.inVariant label) where
  path_eq := rfl
  fault_eq := rfl
  message_eq := by
    simp [Violation.message, Violation.inVariant, String.join, String.append_assoc]

/-- The node checks as the variant's own validator does, and is as specific as the variant. -/
structure Variant.StandsFor (registry : Registry) (arena : Arena) (node : Variant)
    (variant : Shape × Validator) : Prop where
  check_eq : ∀ value, Walk.check arena value node.node [] =
    Walk.check variant.2.arena value variant.2.root []
  specificity_eq : ∀ value,
    Walk.specificity arena node.node value = registry.coverage variant.1 value

theorem Variant.StandsFor.isValid_iff {registry : Registry} {arena : Arena} {node : Variant}
    {variant : Shape × Validator} (h : node.StandsFor registry arena variant) (value : Json) :
    (Walk.check arena value node.node []).violations = [] ↔
      (variant.2.validate value).isValid = true := by
  rw [h.check_eq, Validator.isValid_validate_iff]

namespace Registry

variable {registry : Registry} {arena : Arena} {labels : List Shape} {source target : Shape}

theorem ComesTo.leads (h : registry.ComesTo source target) :
    ReflTransGen registry.Leads source target := by
  induction h with
  | refl shape => exact .refl
  | optional _ ih => exact ih.head (.call (.inner _ _))
  | ref hshape _ ih => exact ih.head (.entity hshape)

/-- A node for the one shape leads to a node for the other one, which brings the same. -/
theorem ComesTo.exists_node (h : registry.ComesTo source target) (hregistry : registry.Indexed)
    (harena : arena.Labelled registry labels) {id : NodeId}
    (hid : labels[id]? = some source.present) :
    ∃ other, labels[other]? = some target.present ∧
      ∀ value path, Walk.check arena value id path = Walk.check arena value other path := by
  induction h generalizing id with
  | refl shape => exact ⟨id, hid, fun value path => rfl⟩
  | optional _ ih => exact ih hid
  | ref hshape _ ih =>
      have hfits := harena.fits hid
      generalize hnode : arena.node id = node at hfits
      cases hfits with
      | object href => exact absurd rfl (href _)
      | entity hfound htarget =>
          rw [hshape, Option.some.injEq] at hfound
          subst hfound
          obtain ⟨other, hother, hcheck⟩ := ih htarget
          refine ⟨other, hother, fun value path => ?_⟩
          rw [Walk.check_eq (harena.settled hregistry), Walk.visit, hnode]
          exact hcheck value path

variable {validator : Validator} {variants : List Shape} {owns : List Validator}

/-- If a union can be compiled, so can each of its variants. -/
theorem CompilesTo.exists_owns (h : registry.CompilesTo source validator)
    (hsource : registry.ComesTo source (.union variants)) :
    ∃ owns, List.Forall₂ registry.CompilesTo variants owns :=
  Pairing.exists_of_forall_mem fun _ hvariant =>
    h.exists_of_leads (hsource.leads.tail (.call (.variant hvariant)))

/-- The validator of a union checks a value as nodes of the variants in their order, which bear
their labels and stand for their own validators. -/
theorem CompilesTo.exists_checkUnion (h : registry.CompilesTo source validator)
    (hregistry : registry.Indexed) (hsource : registry.ComesTo source (.union variants))
    (howns : List.Forall₂ registry.CompilesTo variants owns) :
    ∃ nodes : List Variant,
      List.Forall₂ (Variant.StandsFor registry validator.arena) nodes (variants.zip owns) ∧
      (∀ {position : Nat} {node : Variant} {variant : Shape}, nodes[position]? = some node →
        variants[position]? = some variant →
          node.label = Build.variantLabel (position + 1) variant) ∧
      ∀ value, Walk.check validator.arena value validator.root [] =
        Walk.checkUnion validator.arena nodes [] value (Walk.check validator.arena value) := by
  obtain ⟨labels, harena, hroot⟩ := h.checks
  obtain ⟨id, hid, hcheck⟩ := hsource.exists_node hregistry harena hroot
  have hfits := harena.fits hid
  generalize hnode : validator.arena.node id = node at hfits
  cases hfits with
  | object _ hflatten => exact nomatch hflatten
  | @union nodes _ hnodes =>
      refine ⟨nodes, ?_, fun {position node variant} hat hvariant => ?_, fun value => ?_⟩
      · have hpairs : List.Forall₂ (fun variant (pair : Shape × Validator) => variant = pair.1 ∧
            registry.CompilesTo pair.1 pair.2) variants (variants.zip owns) := by
          clear hid hcheck hsource hnodes
          induction howns with
          | nil => exact .nil
          | cons hown _ ih => exact .cons ⟨rfl, hown⟩ ih
        refine Pairing.trans (labels_of_variants hnodes) hpairs ?_
        rintro node - variant pair hlabel ⟨rfl, hown⟩
        obtain ⟨labels', harena', hroot'⟩ := hown.checks
        exact ⟨fun value => Arena.check_eq_of_twins harena harena' hregistry value _ _ []
          ⟨_, hlabel, hroot'⟩, Walk.specificity_eq_coverage_label harena hregistry hlabel⟩
      · have hfit := Pairing.getElem? hnodes position
        rw [hat, List.getElem?_zipIdx, hvariant, Option.map_some, Option.rel_some_some] at hfit
        rw [hfit.name_eq, Nat.add_comm]
      · rw [hcheck, Walk.check_eq (harena.settled hregistry), Walk.visit, hnode]

section Choice

variable {nodes : List Variant}
  (hnodes : List.Forall₂ (Variant.StandsFor registry arena) nodes (variants.zip owns))
  (howns : List.Forall₂ registry.CompilesTo variants owns)

include howns hnodes

theorem exists_accepts_iff (value : Json) :
    (∃ node ∈ nodes, (Walk.check arena value node.node []).violations = []) ↔
      ∃ own ∈ owns, (own.validate value).isValid = true := by
  have hsnd : (variants.zip owns).map (·.2) = owns := List.map_snd_zip howns.length_eq.ge
  constructor
  · rintro ⟨node, hnode, haccepts⟩
    obtain ⟨pair, hpair, hstands⟩ := Pairing.exists_of_mem_left hnodes hnode
    exact ⟨pair.2, hsnd ▸ List.mem_map_of_mem hpair, (hstands.isValid_iff value).mp haccepts⟩
  · rintro ⟨own, hown, hvalid⟩
    rw [← hsnd] at hown
    obtain ⟨pair, hpair, rfl⟩ := List.mem_map.mp hown
    obtain ⟨node, hnode, hstands⟩ := Pairing.exists_of_mem_right hnodes hpair
    exact ⟨node, hnode, (hstands.isValid_iff value).mpr hvalid⟩

theorem fails_of_rejects (hvariants : variants ≠ []) {value : Json}
    (h : ∀ own ∈ owns, (own.validate value).isValid = false) :
    nodes ≠ [] ∧ ∀ node ∈ nodes, (Walk.check arena value node.node []).violations ≠ [] := by
  refine ⟨?_, fun node hnode haccepts => ?_⟩
  · rintro rfl
    rw [List.forall₂_nil_left_iff, List.zip_eq_nil_iff] at hnodes
    rcases hnodes with hnil | hnil
    · exact hvariants hnil
    · rw [hnil, List.forall₂_nil_right_iff] at howns
      exact hvariants howns
  · obtain ⟨own, hown, hvalid⟩ :=
      (exists_accepts_iff hnodes howns value).mp ⟨node, hnode, haccepts⟩
    rw [h own hown] at hvalid
    exact absurd hvalid Bool.false_ne_true

end Choice

/-- The validator of a union accepts what one of the variants' own validators does. It makes of the
document what that of the first most specific one among these does, and reports its label. -/
theorem compilesTo_union_chooses {entries : List (String × Json)}
    (hproper : ∀ entry ∈ entries, entry.2.Proper) (hentries : ofEntries entries = .ok registry)
    (hvariants : variants ≠ []) (hsource : registry.ComesTo source (.union variants))
    (hcompile : registry.CompilesTo source validator) :
    (∃ owns, List.Forall₂ registry.CompilesTo variants owns) ∧
    ∀ owns, List.Forall₂ registry.CompilesTo variants owns → ∀ value,
      ((∃ own ∈ owns, (own.validate value).isValid = true) →
        ∃ position variant own output label?,
          FirstBest (fun pair => (pair.2.validate value).isValid = true)
              (fun pair => registry.coverage pair.1 value) (variants.zip owns) position
              (variant, own) ∧
            own.validate value = .valid output label? ∧
            validator.validate value =
              .valid output (some (Build.variantLabel (position + 1) variant))) ∧
      ((∀ own ∈ owns, (own.validate value).isValid = false) →
        (validator.validate value).isValid = false) := by
  have hregistry := indexed_of_ofEntries hproper hentries
  refine ⟨hcompile.exists_owns hsource, fun owns howns value => ?_⟩
  obtain ⟨nodes, hnodes, hlabels, hcheck⟩ := hcompile.exists_checkUnion hregistry hsource howns
  have haccepts := exists_accepts_iff hnodes howns value
  refine ⟨fun hvalid => ?_, fun hinvalid => ?_⟩
  · obtain ⟨position, node, hbest, hunion⟩ := Walk.checkUnion_of_fits (haccepts.mpr hvalid)
    obtain ⟨⟨variant, own⟩, hstands, hbest'⟩ := hbest.exists_of_forall₂ hnodes
      (fun node pair hstands => hstands.isValid_iff value)
      (fun node pair hstands => hstands.specificity_eq value)
    obtain ⟨label?, hown⟩ := Validator.exists_validate_of_isValid hbest'.eligible_best
    refine ⟨position, variant, own, _, label?, hbest', hown, Validator.validate_of_accepts ?_⟩
    have hvariant := (List.getElem?_zip_eq_some.mp hbest'.here).1
    rw [hcheck, hunion, hlabels hbest.here hvariant, hstands.check_eq]
  · obtain ⟨hne, hfails⟩ := fails_of_rejects hnodes howns hvariants hinvalid
    obtain ⟨position, node, hbest, hunion⟩ := Walk.checkUnion_of_fails hne hfails
    have hrejects : (Walk.check validator.arena value validator.root []).violations ≠ [] := by
      rw [hcheck, hunion]
      exact List.map_eq_nil_iff.not.mpr hbest.eligible_best
    rw [Validator.validate_of_rejects hrejects]
    rfl

/-- Contacts are reached by an entry: persons, who have a mail address, others with a name, or a
text or list instead. -/
def contactDefinition : Json :=
  .obj [("anyOf", .arr [
    .obj [("$ref", .str "#/components/schemas/Person")],
    .obj [("type", .str "object"), ("properties", .obj [("name", .obj [("type", .str "string")]),
      ("phone", .obj [("type", .str "string")])]), ("required", .arr [.str "name"])],
    .obj [("anyOf", .arr [.obj [("type", .str "string")],
      .obj [("type", .str "array"), ("items", .obj [("type", .str "integer")])]])]])]

def personDefinition : Json :=
  .obj [("type", .str "object"), ("properties", .obj [("name", .obj [("type", .str "string")]),
    ("mail", .obj [("type", .str "string")])]), ("required", .arr [.str "name", .str "mail"])]

def contactEntries : List (String × Json) :=
  [("Entry", .obj [("$ref", .str "#/components/schemas/Contact")]), ("Contact", contactDefinition),
    ("Person", personDefinition)]

def contactVariants : List Shape :=
  [.ref "Person",
    .object [("name", .string .any), ("phone", .optional (.string .any) none)] .passthrough,
    .union [.string .any, .array .integer]]

def contactRegistry : Registry :=
  ⟨[⟨"Entry", .obj [("$ref", .str "#/components/schemas/Contact")], .ref "Contact"⟩,
    ⟨"Contact", contactDefinition, .union contactVariants⟩,
    ⟨"Person", personDefinition,
      .object [("name", .string .any), ("mail", .string .any)] .passthrough⟩]⟩

def contactValidator : Validator where
  arena := ⟨#[.entity "Entry" 1, .entity "Contact" 13, .entity "Person" 5,
    .string .any, .string .any,
    .object [⟨"name", 3, true, none⟩, ⟨"mail", 4, true, none⟩] .passthrough,
    .string .any, .string .any,
    .object [⟨"name", 6, true, none⟩, ⟨"phone", 7, false, none⟩] .passthrough,
    .string .any, .integer, .array 10, .union [⟨"variant 1", 9⟩, ⟨"variant 2", 11⟩],
    .union [⟨"Person", 2⟩, ⟨"variant 2", 8⟩, ⟨"variant 3", 12⟩]]⟩
  root := 0
  name? := some "Entry"

def contactOwns : List Validator :=
  [⟨⟨#[.entity "Person" 3, .string .any, .string .any,
      .object [⟨"name", 1, true, none⟩, ⟨"mail", 2, true, none⟩] .passthrough]⟩, 0, none⟩,
    ⟨⟨#[.string .any, .string .any,
      .object [⟨"name", 0, true, none⟩, ⟨"phone", 1, false, none⟩] .passthrough]⟩, 2, none⟩,
    ⟨⟨#[.string .any, .integer, .array 1, .union [⟨"variant 1", 0⟩, ⟨"variant 2", 2⟩]]⟩, 3, none⟩]

theorem ofEntries_contactEntries : ofEntries contactEntries = .ok contactRegistry := by
  have hperson : Shape.ofDefinition personDefinition =
      .ok (.object [("name", .string .any), ("mail", .string .any)] .passthrough) := by
    rfl
  have hcontact : Shape.ofDefinition contactDefinition = .ok (.union contactVariants) := by
    with_unfolding_all rfl
  have hentry : Shape.ofDefinition (.obj [("$ref", .str "#/components/schemas/Contact")]) =
      .ok (.ref "Contact") := by
    with_unfolding_all rfl
  refine ofEntries_of_reads ?_ (by decide) (by rfl)
  exact .cons ⟨rfl, rfl, by decide, hentry⟩ (.cons ⟨rfl, rfl, by decide, hcontact⟩
    (.cons ⟨rfl, rfl, by decide, hperson⟩ .nil))

theorem compile_contactRegistry : contactRegistry.compile "Entry" = .ok contactValidator := by rfl

theorem comesTo_contact : contactRegistry.ComesTo (.ref "Entry") (.union contactVariants) :=
  .ref rfl (.ref rfl (.refl _))

theorem compilesTo_contactVariants :
    List.Forall₂ contactRegistry.CompilesTo contactVariants contactOwns :=
  .cons (compilesTo_of_compileShape (by rfl)) (.cons (compilesTo_of_compileShape (by rfl))
    (.cons (compilesTo_of_compileShape (by rfl)) .nil))

theorem proper_contactEntries : ∀ entry ∈ contactEntries, entry.2.Proper := by
  simp [contactEntries, contactDefinition, personDefinition]

/-- Both the person and the other contact declare two of the three members. -/
def contactDocument : Json :=
  .obj [("mail", .str "a@b"), ("name", .str "A"), ("phone", .str "1")]

theorem compilesTo_union_chooses_contact :
    (∃ position variant own output label?,
      FirstBest (fun pair => (pair.2.validate contactDocument).isValid = true)
          (fun pair => contactRegistry.coverage pair.1 contactDocument)
          (contactVariants.zip contactOwns) position (variant, own) ∧
        own.validate contactDocument = .valid output label? ∧
        contactValidator.validate contactDocument =
          .valid output (some (Build.variantLabel (position + 1) variant))) ∧
      (contactValidator.validate .null).isValid = false := by
  have hchooses := (compilesTo_union_chooses proper_contactEntries ofEntries_contactEntries
    (by simp [contactVariants]) comesTo_contact (compilesTo_of_compile compile_contactRegistry)).2
    contactOwns compilesTo_contactVariants
  exact ⟨(hchooses contactDocument).1 ⟨_, List.mem_cons_self, by rfl⟩,
    (hchooses .null).2 (by decide)⟩

example : contactValidator.validate contactDocument = .valid contactDocument (some "Person") := by
  rfl

/-- The validator of a union tells of a document what the own validator of the variant at a position
does, behind whose messages it puts the label of the variant. It is the first of the variants whose
violations are closest. -/
def Diagnoses (validator : Validator) (variants : List (Shape × Validator)) (value : Json)
    (position : Nat) (reported : List Violation) : Prop :=
  ∃ variant own violations,
    FirstBest (fun pair => (pair.2.validate value).isValid = false)
        (fun pair => Violation.closeness (pair.2.validate value).violations) variants position
        (variant, own) ∧
      own.validate value = .invalid violations ∧
      validator.validate value = .invalid reported ∧
      List.Forall₂ (Violation.ToldBy (Build.variantLabel (position + 1) variant)) violations
        reported

/-- If none of the variants' own validators accepts the document, the validator of a union tells
what the first of those does whose violations are deepest and, of these, fewest. -/
theorem compilesTo_union_diagnoses {entries : List (String × Json)}
    (hproper : ∀ entry ∈ entries, entry.2.Proper) (hentries : ofEntries entries = .ok registry)
    (hvariants : variants ≠ []) (hsource : registry.ComesTo source (.union variants))
    (hcompile : registry.CompilesTo source validator) :
    (∃ owns, List.Forall₂ registry.CompilesTo variants owns) ∧
    ∀ owns, List.Forall₂ registry.CompilesTo variants owns → ∀ value,
      (∀ own ∈ owns, (own.validate value).isValid = false) →
        ∃ position reported, Diagnoses validator (variants.zip owns) value position reported := by
  have hregistry := indexed_of_ofEntries hproper hentries
  refine ⟨hcompile.exists_owns hsource, fun owns howns value hinvalid => ?_⟩
  obtain ⟨nodes, hnodes, hlabels, hcheck⟩ := hcompile.exists_checkUnion hregistry hsource howns
  obtain ⟨hne, hfails⟩ := fails_of_rejects hnodes howns hvariants hinvalid
  obtain ⟨position, node, hbest, hunion⟩ :=
    @Walk.checkUnion_of_fails validator.arena nodes [] value _ hne hfails
  have hrejected : ∀ (node : Variant) (pair : Shape × Validator),
      node.StandsFor registry validator.arena pair →
        ((Walk.check validator.arena value node.node []).violations ≠ [] ↔
          (pair.2.validate value).isValid = false) := fun node pair hstands => by
    rw [ne_eq, hstands.isValid_iff, Bool.not_eq_true]
  have hcloseness : ∀ (node : Variant) (pair : Shape × Validator),
      node.StandsFor registry validator.arena pair →
        Violation.closeness (Walk.check validator.arena value node.node []).violations =
          Violation.closeness (pair.2.validate value).violations := fun node pair hstands => by
    rw [Validator.violations_validate, hstands.check_eq]
  obtain ⟨⟨variant, own⟩, hstands, hbest'⟩ :=
    hbest.exists_of_forall₂ hnodes hrejected hcloseness
  have hvariant := (List.getElem?_zip_eq_some.mp hbest'.here).1
  have hrejects : (Walk.check own.arena value own.root []).violations ≠ [] := by
    rw [← hstands.check_eq]
    exact hbest.eligible_best
  rw [hstands.check_eq, ← hcheck] at hunion
  have hviolations : (Walk.check validator.arena value validator.root []).violations =
      (Walk.check own.arena value own.root []).violations.map (·.inVariant node.label) := by
    rw [hunion]
  refine ⟨position, _, variant, own, _, hbest', Validator.validate_of_rejects hrejects,
    Validator.validate_of_rejects ?_, ?_⟩
  · rw [hviolations]
    exact List.map_eq_nil_iff.not.mpr hrejects
  · rw [hviolations, List.forall₂_map_right_iff, List.forall₂_same, hlabels hbest.here hvariant]
    exact fun violation _ => violation.toldBy_inVariant _

/-- A list of two nulls is told of as a list of integers, although it has two wrong items: the other
variants do not take it for a list. Of a name that is a number the other contact tells, as a person
would also have a mail address. -/
theorem compilesTo_union_diagnoses_contact :
    Diagnoses contactValidator (contactVariants.zip contactOwns) (.arr [.null, .null]) 2
        [⟨[.index 0], .type "integer" .null, ["variant 2", "variant 3"]⟩,
          ⟨[.index 1], .type "integer" .null, ["variant 2", "variant 3"]⟩] ∧
      Diagnoses contactValidator (contactVariants.zip contactOwns) (.obj [("name", Json.int 1)]) 1
        [⟨[.key "name"], .type "string" (Json.int 1), ["variant 2"]⟩] := by
  have hdiagnoses := (compilesTo_union_diagnoses proper_contactEntries ofEntries_contactEntries
    (by simp [contactVariants]) comesTo_contact (compilesTo_of_compile compile_contactRegistry)).2
    contactOwns compilesTo_contactVariants
  constructor
  · obtain ⟨position, reported, variant, own, violations, hbest, hown, hreported, htold⟩ :=
      hdiagnoses (.arr [.null, .null]) (by decide)
    obtain rfl := ValidationResult.invalid.inj hreported
    rcases position with _ | _ | _ | position
    · exact absurd (hbest.le (i := 2) rfl rfl) (by cases hbest.here; decide)
    · exact absurd (hbest.le (i := 2) rfl rfl) (by cases hbest.here; decide)
    · exact ⟨variant, own, violations, hbest, hown, hreported, htold⟩
    · exact nomatch hbest.here
  · obtain ⟨position, reported, variant, own, violations, hbest, hown, hreported, htold⟩ :=
      hdiagnoses (.obj [("name", Json.int 1)]) (by decide)
    obtain rfl := ValidationResult.invalid.inj hreported
    rcases position with _ | _ | _ | position
    · exact absurd (hbest.le (i := 1) rfl rfl) (by cases hbest.here; decide)
    · exact ⟨variant, own, violations, hbest, hown, hreported, htold⟩
    · exact absurd (hbest.le (i := 1) rfl rfl) (by cases hbest.here; decide)
    · exact nomatch hbest.here

end Registry

end EntityContract
