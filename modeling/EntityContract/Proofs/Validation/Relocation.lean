import EntityContract.Proofs.Validation.Trail
import EntityContract.Proofs.Validation.Unions

/-!
A value is validated alike wherever it stands. In a compiled arena a walk that starts at a place of
a document finds there what it finds of the same value as a document, with the place in front of
each path, and is back at that place in the end. So arrays and records bring what the shape of their
parts brings of each part.
-/

namespace EntityContract

/-- The violation in a document that has the checked one at the path. -/
def Violation.below (path : Path) (violation : Violation) : Violation :=
  { violation with path := path ++ violation.path }

/-- The outcome in a document that has the checked one at the path. -/
def Outcome.below (path : Path) (outcome : Outcome) : Outcome :=
  { outcome with violations := outcome.violations.map (·.below path) }

theorem Outcome.below_nil (outcome : Outcome) : outcome.below [] = outcome :=
  congrArg (Outcome.mk outcome.output · outcome.label?) (List.map_id _)

theorem Outcome.under_below (segment : Segment) (path : Path) (outcome : Outcome) :
    (outcome.below path).under segment = outcome.below (segment :: path) := by
  rw [under, below, below, List.map_map]
  rfl

namespace Walk

variable {arena : Arena}

theorem check_below (arena : Arena) (value : Json) (id : NodeId) (path : Path) :
    check arena value id path = (check arena value id []).below path := by
  induction path with
  | nil => exact (Outcome.below_nil _).symm
  | cons segment path ih => rw [check_cons, ih, Outcome.under_below]

/-- The walk comes back to its place, and wherever that is, it finds what is found at the root. -/
theorem walk_apply (harena : arena.WellFormed) {id : NodeId} (hid : id < arena.size) (value : Json)
    {calls : Nat} (hcalls : (value.depth + 1) * arena.size ≤ calls) (trail : Trail) :
    ∃ label?, Trip.walk arena calls id value trail = ((check arena value id []).output,
      ⟨trail.path, trail.violations ++ ((check arena value id []).below trail.path).violations,
        label?⟩) := by
  obtain ⟨label?, hwalk, -⟩ :=
    Trip.finds_walk harena.settled (bounded_calls harena value hid) hcalls trail
  rw [check_below] at hwalk
  exact ⟨label?, hwalk⟩

end Walk

namespace Registry

variable {registry : Registry} {shape : Shape} {validator own : Validator}

/-- The arena is compiled from an entity, from a shape, or from all entities of the registry. -/
inductive Compiles (registry : Registry) : Arena → Prop
  | entity {key : String} {validator : Validator} :
      registry.compile key = .ok validator → Compiles registry validator.arena
  | shape {shape : Shape} {validator : Validator} :
      registry.compileShape shape = .ok validator → Compiles registry validator.arena
  | all {set : ValidatorSet} : registry.compileAll = .ok set → Compiles registry set.arena

theorem Compiles.wellFormed {arena : Arena} (h : registry.Compiles arena)
    (hregistry : registry.Indexed) : arena.WellFormed := by
  cases h with
  | entity hcompile => exact ((checks_of_compile hcompile).wellFormed hregistry).1
  | shape hcompile => exact ((checks_of_compileShape hcompile).wellFormed hregistry).1
  | all hcompile =>
      obtain ⟨labels, harena, -⟩ := labelled_of_roots (compileAll_eq_ok_iff.mp hcompile)
      exact harena.wellFormed hregistry

/-- A node that was compiled from the shape checks a value as the validator of the shape does. -/
theorem CompilesTo.check_eq (h : registry.CompilesTo shape own) (hregistry : registry.Indexed)
    {arena : Arena} {labels : List Shape} (harena : arena.Labelled registry labels) {id : NodeId}
    (hid : labels[id]? = some shape.present) (value : Json) (path : Path) :
    Walk.check arena value id path = Walk.check own.arena value own.root path := by
  obtain ⟨labels', harena', hroot⟩ := h.checks
  exact Arena.check_eq_of_twins harena harena' hregistry value id own.root path ⟨_, hid, hroot⟩

/-- The validator brings of the value what the other one brings of each part, at the step to the
part. -/
structure Distributes (validator own : Validator) (value : Json) (parts : List (Segment × Json))
    (join : List Json → Json) : Prop where
  violations : (validator.validate value).violations = Violation.gather (parts.map fun part =>
    (part.1, (own.validate part.2).violations))
  output : ∀ outputs, List.Forall₂ (fun part output =>
      ∃ label?, own.validate part.2 = .valid output label?) parts outputs →
    validator.validate value = .valid (join outputs) none

theorem distributes_of_check {value : Json} {parts : List (Segment × Json)}
    {join : List Json → Json}
    (h : Walk.check validator.arena value validator.root [] =
      ⟨join (parts.map fun part => (Walk.check own.arena part.2 own.root []).output),
        Violation.gather (parts.map fun part =>
          (part.1, (Walk.check own.arena part.2 own.root []).violations)), none⟩) :
    Distributes validator own value parts join := by
  refine ⟨by simp only [Validator.violations_validate, h], fun outputs houtputs => ?_⟩
  have hjoined : parts.map (fun part => (Walk.check own.arena part.2 own.root []).output) =
      outputs := by
    rw [← List.forall₂_eq_eq_eq, List.forall₂_map_left_iff]
    exact houtputs.imp fun part output ⟨label?, hvalid⟩ => Validator.output_of_validate hvalid
  have hnone : Violation.gather (parts.map fun part =>
      (part.1, (Walk.check own.arena part.2 own.root []).violations)) = [] := by
    rw [Violation.gather, List.flatMap_map, List.flatMap_eq_nil_iff]
    intro part hpart
    obtain ⟨output, -, label?, hvalid⟩ := Pairing.exists_of_mem_left houtputs hpart
    exact List.map_eq_nil_iff.mpr (Validator.accepts_of_validate hvalid)
  rw [hjoined, hnone] at h
  exact Validator.validate_of_accepts h

theorem CompilesTo.distributes_array (h : registry.CompilesTo (.array shape) validator)
    (hown : registry.CompilesTo shape own) (hregistry : registry.Indexed) (items : List Json) :
    Distributes validator own (.arr items)
      (items.zipIdx.map fun item => (.index item.2, item.1)) .arr := by
  obtain ⟨labels, harena, hroot⟩ := h.checks
  have hfits := harena.fits hroot
  generalize hnode : validator.arena.node validator.root = node at hfits
  cases hfits with
  | object _ hflatten => exact nomatch hflatten
  | array hitem =>
      apply distributes_of_check
      rw [Walk.check_eq (harena.settled hregistry), Walk.visit, hnode]
      simp only [Walk.parts, Walk.checkArray, Walk.itemOutcomes_eq, List.map_map, List.flatMap_map,
        Function.comp_def, List.nil_append, Violation.gather, Walk.check_cons, Outcome.under,
        hown.check_eq hregistry harena hitem]

theorem CompilesTo.distributes_record (h : registry.CompilesTo (.record shape) validator)
    (hown : registry.CompilesTo shape own) (hregistry : registry.Indexed) (members : Members) :
    Distributes validator own (.obj members) (members.map fun member => (.key member.1, member.2))
      fun outputs => .obj ((members.map (·.1)).zip outputs) := by
  obtain ⟨labels, harena, hroot⟩ := h.checks
  have hfits := harena.fits hroot
  generalize hnode : validator.arena.node validator.root = node at hfits
  cases hfits with
  | object _ hflatten => exact nomatch hflatten
  | record hvalue =>
      apply distributes_of_check
      rw [Walk.check_eq (harena.settled hregistry), Walk.visit, hnode]
      simp only [Walk.parts, Walk.checkRecord, List.map_map, List.flatMap_map, Function.comp_def,
        List.nil_append, Violation.gather, Walk.check_cons, Outcome.under,
        hown.check_eq hregistry harena hvalue, List.zip_map']

/-- Validation does not depend on the place of a value: neither the walk does, nor what a validator
of arrays or records brings of the parts. -/
theorem compiles_anywhere {entries : List (String × Json)}
    (hproper : ∀ entry ∈ entries, entry.2.Proper) (hentries : ofEntries entries = .ok registry) :
    (∀ arena, registry.Compiles arena → ∀ id < arena.size, ∀ value path,
      Walk.check arena value id path = (Walk.check arena value id []).below path ∧
        ∀ calls, (value.depth + 1) * arena.size ≤ calls → ∀ told label?, ∃ last?,
          Walk.Trip.walk arena calls id value ⟨path, told, label?⟩ =
            ((Walk.check arena value id []).output,
              ⟨path, told ++ ((Walk.check arena value id []).below path).violations, last?⟩)) ∧
    (∀ shape validator, registry.CompilesTo (.array shape) validator →
      (∃ own, registry.CompilesTo shape own) ∧
        ∀ own, registry.CompilesTo shape own → ∀ items, Distributes validator own (.arr items)
          (items.zipIdx.map fun item => (.index item.2, item.1)) .arr) ∧
    ∀ shape validator, registry.CompilesTo (.record shape) validator →
      (∃ own, registry.CompilesTo shape own) ∧
        ∀ own, registry.CompilesTo shape own → ∀ members, Distributes validator own (.obj members)
          (members.map fun member => (.key member.1, member.2))
          fun outputs => .obj ((members.map (·.1)).zip outputs) := by
  have hregistry := indexed_of_ofEntries hproper hentries
  refine ⟨fun arena harena id hid value path => ⟨Walk.check_below arena value id path,
    fun calls hcalls told label? =>
      Walk.walk_apply (harena.wellFormed hregistry) hid value hcalls ⟨path, told, label?⟩⟩,
    fun shape validator hcompile => ⟨?_, fun own hown items =>
      hcompile.distributes_array hown hregistry items⟩,
    fun shape validator hcompile => ⟨?_, fun own hown members =>
      hcompile.distributes_record hown hregistry members⟩⟩
  · exact hcompile.exists_of_leads (.single (.call (.item shape)))
  · exact hcompile.exists_of_leads (.single (.call (.value shape)))

/-- An array of contacts, none of which is told apart from the others. -/
def contactsValidator : Validator where
  arena := ⟨contactValidator.arena.nodes.push (.array 0)⟩
  root := 14
  name? := none

theorem compileShape_contacts :
    contactRegistry.compileShape (.array (.ref "Entry")) = .ok contactsValidator := by rfl

theorem compiles_anywhere_contact :
    (∃ last?, Walk.Trip.walk contactsValidator.arena 100 13 (.arr [.null]) ⟨[.index 1], [], none⟩ =
      (.arr [.null], ⟨[.index 1],
        [⟨[.index 1, .index 0], .type "integer" .null, ["variant 2", "variant 3"]⟩], last?⟩)) ∧
    Distributes contactsValidator contactValidator (.arr [contactDocument, .arr [.null]])
      [(.index 0, contactDocument), (.index 1, .arr [.null])] .arr := by
  obtain ⟨hwalk, harray, -⟩ := compiles_anywhere proper_contactEntries ofEntries_contactEntries
  refine ⟨?_, ?_⟩
  · exact (hwalk _ (.shape compileShape_contacts) 13 (by decide) _ [.index 1]).2 100 (by decide) []
      none
  · exact (harray _ _ (compilesTo_of_compileShape compileShape_contacts)).2 contactValidator
      (compilesTo_of_compile compile_contactRegistry) _

end Registry

end EntityContract
