import EntityContract.Contract
import EntityContract.Proofs.Arena.Completion
import EntityContract.Proofs.Arena.Recursion
import EntityContract.Proofs.Registry.Permutation

/-!
All ways to a validator of an entity agree. Its node is compiled from one shape on each way, in
arenas that differ in what else they hold and in the order of the nodes; neither is seen in a
result.
-/

namespace EntityContract

/-- The nodes were compiled from one shape. -/
def Arena.Twins (labels labels' : List Shape) (id id' : NodeId) : Prop :=
  ∃ shape, labels[id]? = some shape ∧ labels'[id']? = some shape

namespace Arena

variable {registry : Registry} {arena arena' : Arena} {labels labels' : List Shape}

/-- Nodes that fit one shape differ in the nodes that they refer to only. -/
theorem twin_of_fits {node node' : Node} {shape : Shape} (h : node.Fits registry labels shape)
    (h' : node'.Fits registry labels' shape) : node.Twin (Twins labels labels') node' := by
  cases h with
  | array hitem =>
      cases h' with
      | array hitem' => exact .array ⟨_, hitem, hitem'⟩
      | object _ hflatten => exact nomatch hflatten
  | record hitem =>
      cases h' with
      | record hitem' => exact .record ⟨_, hitem, hitem'⟩
      | object _ hflatten => exact nomatch hflatten
  | object href hflatten hfields =>
      cases h' with
      | object _ hflatten' hfields' =>
          rw [hflatten, Option.some.injEq] at hflatten'
          subst hflatten'
          exact .object _ (Pairing.trans hfields hfields'.flip
            fun field _ declared field' hfit hfit' =>
              ⟨hfit.name_eq.trans hfit'.name_eq.symm, ⟨_, hfit.label, hfit'.label⟩,
                hfit.required_eq.trans hfit'.required_eq.symm,
                hfit.default_eq.trans hfit'.default_eq.symm⟩)
      | intersection hnone => exact nomatch hnone.symm.trans hflatten
      | entity => exact absurd rfl (href _)
      | _ => exact nomatch hflatten
  | union hvariants =>
      cases h' with
      | union hvariants' =>
          exact .union (Pairing.trans hvariants hvariants'.flip
            fun variant _ shape variant' hfit hfit' =>
              ⟨hfit.name_eq.trans hfit'.name_eq.symm, ⟨_, hfit.label, hfit'.label⟩⟩)
      | object _ hflatten => exact nomatch hflatten
  | intersection hflatten hleft hright =>
      cases h' with
      | intersection _ hleft' hright' => exact .intersection ⟨_, hleft, hleft'⟩ ⟨_, hright, hright'⟩
      | object _ hflatten' => exact nomatch hflatten.symm.trans hflatten'
  | entity hshape htarget =>
      cases h' with
      | object href => exact absurd rfl (href _)
      | entity hshape' htarget' =>
          rw [hshape, Option.some.injEq] at hshape'
          subst hshape'
          exact .entity _ ⟨_, htarget, htarget'⟩
  | _ =>
      cases h' with
      | object _ hflatten => exact nomatch hflatten
      | _ => exact .scalar rfl

variable (h : arena.Labelled registry labels) (h' : arena'.Labelled registry labels')

include h h'

theorem Labelled.twin {id id' : NodeId} (hids : Twins labels labels' id id') :
    (arena.node id).Twin (Twins labels labels') (arena'.node id') := by
  obtain ⟨shape, hid, hid'⟩ := hids
  exact twin_of_fits (h.fits hid) (h'.fits hid')

theorem declared_eq_of_twins (hregistry : registry.Indexed) {id id' : NodeId}
    (hids : Twins labels labels' id id') : arena.declared id = arena'.declared id' := by
  have hsettled := h.settled hregistry
  have hsettled' := h'.settled hregistry
  induction (hsettled id).acc generalizing id' with
  | intro id _ ih =>
      have hnodes := h.twin h' hids
      rw [declared_eq hsettled, declared_eq hsettled']
      generalize hnode : arena.node id = node at hnodes
      generalize arena'.node id' = node' at hnodes
      cases hnodes with
      | scalar hscalar => cases node <;> first | rfl | exact nomatch hscalar
      | object policy hfields =>
          have hnames : List.Forall₂ (· = ·) _ _ := List.forall₂_map_left_iff.mpr
            (List.forall₂_map_right_iff.mpr (hfields.imp fun _ _ htwin => htwin.name_eq))
          rwa [List.forall₂_eq_eq_eq] at hnames
      | intersection hleft hright =>
          dsimp only
          rw [ih _ (.left hnode) hleft, ih _ (.right hnode) hright]
      | entity key htarget => exact ih _ (.entity hnode) htarget
      | _ => rfl

/-- Nodes of one shape have the same outcome, to the last word of a violation. -/
theorem check_eq_of_twins (hregistry : registry.Indexed) (value : Json) (id id' : NodeId)
    (path : Path) (hids : Twins labels labels' id id') :
    Walk.check arena value id path = Walk.check arena' value id' path := by
  have hsettled := h.settled hregistry
  have hsettled' := h'.settled hregistry
  induction value, id using hsettled.induct generalizing id' path with
  | step value id hparts hdelegates =>
      rw [Walk.check_eq hsettled, Walk.check_eq hsettled', ← Walk.partsBy_check,
        ← Walk.partsBy_check]
      refine Walk.visit_twin (h.twin h' hids) ?_ ?_ ?_
      · exact fun part hpart child child' hchild path => hparts part hpart child child' path hchild
      · exact fun child child' hchild =>
          Walk.specificity_eq (declared_eq_of_twins h h' hregistry hchild) value
      · exact fun other other' hother htwins => hdelegates other hother other' path htwins

omit h' in
/-- An entity is on the way if its key is. -/
theorem Labelled.mem_iff_of_keys {onTheWay : List NodeId} {keys : List String}
    (hway : List.Forall₂ (fun id key => labels[id]? = some (.ref key)) onTheWay keys) {id : NodeId}
    {key : String} (hid : labels[id]? = some (.ref key)) : id ∈ onTheWay ↔ key ∈ keys := by
  constructor
  · intro hmem
    obtain ⟨other, hother, hlabel⟩ := Pairing.exists_of_mem_left hway hmem
    rw [hid, Option.some.injEq, Shape.ref.injEq] at hlabel
    rwa [hlabel]
  · intro hmem
    obtain ⟨other, hother, hlabel⟩ := Pairing.exists_of_mem_right hway hmem
    rwa [h.entity_unique hid hlabel]

theorem generate_eq_of_twins (steps : Nat) {onTheWay onTheWay' : List NodeId} {keys : List String}
    (hway : List.Forall₂ (fun id key => labels[id]? = some (.ref key)) onTheWay keys)
    (hway' : List.Forall₂ (fun id key => labels'[id]? = some (.ref key)) onTheWay' keys)
    {id id' : NodeId} (hids : Twins labels labels' id id') :
    Sample.generate arena steps onTheWay id = Sample.generate arena' steps onTheWay' id' := by
  induction steps generalizing onTheWay onTheWay' keys id id' with
  | zero => rfl
  | succ steps ih =>
      obtain ⟨shape, hid, hid'⟩ := hids
      rw [Sample.generate, Sample.generate]
      refine Sample.visit_twin (h.twin h' ⟨shape, hid, hid'⟩) ?_ ?_
      · intro key target target' hnode hnode' htarget
        have hshape : shape = .ref key := by
          have hfits := h.fits hid
          rw [hnode] at hfits
          cases hfits with
          | entity => rfl
        subst hshape
        have hmem := h.mem_iff_of_keys hway hid
        have hmem' := h'.mem_iff_of_keys hway' hid'
        exact ⟨hmem.trans hmem'.symm, fun _ => ih (.cons hid hway) (.cons hid' hway') htarget⟩
      · exact fun _ child child' _ hchild => ih hway hway' hchild

/-- Nodes of one shape have the same sample. -/
theorem minimal_eq_of_twins (hregistry : registry.Indexed) {root root' : NodeId}
    (hroots : Twins labels labels' root root') :
    Sample.minimal arena root = Sample.minimal arena' root' := by
  obtain ⟨shape, hroot, hroot'⟩ := hroots
  have hlt := (List.getElem?_eq_some_iff.mp hroot).1
  have hlt' := (List.getElem?_eq_some_iff.mp hroot').1
  rw [h.length_eq] at hlt
  rw [h'.length_eq] at hlt'
  generalize hsteps : max ((arena.size + 1) * (arena.size + 1))
    ((arena'.size + 1) * (arena'.size + 1)) = steps
  have hle : (arena.size + 1) * (arena.size + 1) ≤ steps := hsteps ▸ Nat.le_max_left _ _
  have hle' : (arena'.size + 1) * (arena'.size + 1) ≤ steps := hsteps ▸ Nat.le_max_right _ _
  calc
    Sample.minimal arena root = Sample.generate arena steps [] root := by
      rw [Sample.generate_eq_iterate steps ([], root),
        Sample.iterate_turn (h.wellFormed hregistry) hlt _ hle]
    _ = Sample.generate arena' steps [] root' :=
      generate_eq_of_twins h h' steps .nil .nil ⟨shape, hroot, hroot'⟩
    _ = Sample.minimal arena' root' := by
      rw [Sample.generate_eq_iterate steps ([], root'),
        Sample.iterate_turn (h'.wellFormed hregistry) hlt' _ hle']

end Arena

/-- The validators give the same results, and the same smallest document. -/
def Validator.Agrees (validator other : Validator) : Prop :=
  (∀ value, validator.validate value = other.validate value) ∧ validator.minimal = other.minimal

theorem Arena.Checks.agrees {registry : Registry} {validator other : Validator} {shape : Shape}
    (h : validator.arena.Checks registry validator.root shape)
    (h' : other.arena.Checks registry other.root shape) (hregistry : registry.Indexed) :
    validator.Agrees other := by
  obtain ⟨labels, harena, hroot⟩ := h
  obtain ⟨labels', harena', hroot'⟩ := h'
  have htwins : Twins labels labels' validator.root other.root := ⟨shape, hroot, hroot'⟩
  refine ⟨fun value => ?_, ?_⟩
  · rw [Validator.validate, Validator.validate,
      check_eq_of_twins harena harena' hregistry value _ _ [] htwins]
  · exact minimal_eq_of_twins harena harena' hregistry htwins

namespace Registry

variable {registry : Registry}

/-- The ways to a validator of an entity: with all entities, by itself, as a shape that refers to
it, and through a contract. -/
def waysTo (registry : Registry) (key : String) : List (Option Validator) :=
  [registry.compileAll.toOption.bind fun set => (set.get key).toOption,
    (registry.compile key).toOption,
    (registry.compileShape (.ref key)).toOption,
    (Contract.ofRegistry registry).toOption.bind fun contract =>
      (contract.validator key).toOption]

theorem eq_ok_of_toOption {ε α : Type} {result : Except ε α} {value : α}
    (h : some value = result.toOption) : result = .ok value := by
  cases result with
  | error => cases h
  | ok => cases h; rfl

theorem checks_of_get {set : ValidatorSet} {key : String} {validator : Validator}
    (hall : registry.compileAll = .ok set) (h : set.get key = .ok validator) :
    validator.arena.Checks registry validator.root (.ref key) := by
  obtain ⟨labels, harena, -, hroots⟩ := labelled_of_roots (compileAll_eq_ok_iff.mp hall)
  rw [ValidatorSet.get] at h
  split at h
  · rename_i root hroot
    cases h
    exact ⟨labels, harena, hroots _ (Association.mem_of_lookup hroot)⟩
  · cases h

/-- Whichever way an entity is compiled, its validator checks the entity. -/
theorem checks_of_way {key : String} {validator : Validator}
    (h : some validator ∈ registry.waysTo key) :
    validator.arena.Checks registry validator.root (.ref key) := by
  rw [waysTo] at h
  simp only [List.mem_cons, List.not_mem_nil, or_false] at h
  rcases h with h | h | h | h
  · obtain ⟨set, hall, hget⟩ := Option.bind_eq_some_iff.mp h.symm
    exact checks_of_get (eq_ok_of_toOption hall.symm) (eq_ok_of_toOption hget.symm)
  · exact checks_of_compile (eq_ok_of_toOption h)
  · exact checks_of_compileShape (eq_ok_of_toOption h)
  · obtain ⟨contract, hcontract, hvalidator⟩ := Option.bind_eq_some_iff.mp h.symm
    have hinstalled := eq_ok_of_toOption hcontract.symm
    have hget := eq_ok_of_toOption hvalidator.symm
    rw [Contract.ofRegistry] at hinstalled
    split at hinstalled
    · rename_i set hall
      cases hinstalled
      rw [Contract.validator] at hget
      cases hfound : set.get key with
      | error =>
          rw [hfound] at hget
          cases hget
      | ok found =>
          rw [hfound] at hget
          cases hget
          exact checks_of_get hall hfound
    · cases hinstalled
    · cases hinstalled

theorem exists_get_of_roots {keys : List String} {roots : List (String × NodeId)} {arena : Arena}
    (h : (Build.roots registry keys).finish = .ok (roots, arena)) {key : String}
    (hkey : key ∈ keys) : ∃ validator, ValidatorSet.get ⟨arena, roots⟩ key = .ok validator ∧
      validator.arena.Checks registry validator.root (.ref key) := by
  obtain ⟨labels, harena, rfl, hroots⟩ := labelled_of_roots h
  obtain ⟨root, hroot⟩ := Association.exists_lookup_of_mem_keys hkey
  refine ⟨⟨arena, root, some key⟩, ?_, labels, harena, hroots _ (Association.mem_of_lookup hroot)⟩
  rw [ValidatorSet.get, hroot]

theorem checks_of_mem_waysTo {registry' : Registry} {set : ValidatorSet}
    (hall : registry.compileAll = .ok set)
    (hcomplete : Build.complete registry' = Build.complete registry)
    (hnames : registry'.names.Perm registry.names) {key : String} (hkey : key ∈ registry.names)
    {way : Option Validator} (hway : way ∈ registry'.waysTo key) :
    ∃ other, way = some other ∧ other.arena.Checks registry other.root (.ref key) := by
  obtain ⟨⟨root, arena⟩, hroot⟩ := exists_complete_of_compileAll hall hkey
  have hchecks : arena.Checks registry root (.ref key) := Build.checks_of_finish hroot
  obtain ⟨⟨roots, common⟩, hroots⟩ := exists_roots_of_compileAll hall hnames.subset
  obtain ⟨validator, hget, hvalidator⟩ := exists_get_of_roots hroots (hnames.mem_iff.mpr hkey)
  have hall' : registry'.compileAll = .ok ⟨common, roots⟩ := by
    rw [compileAll_eq_ok_iff, Build.roots, hcomplete]
    exact hroots
  rw [← hcomplete] at hroot
  rw [waysTo, hall', Contract.ofRegistry, hall', compile, compileShape, hroot] at hway
  simp only [List.mem_cons, List.not_mem_nil, or_false] at hway
  rcases hway with rfl | rfl | rfl | rfl
  · exact ⟨validator, congrArg Except.toOption hget, hvalidator⟩
  · exact ⟨_, rfl, hchecks⟩
  · exact ⟨_, rfl, hchecks⟩
  · refine ⟨validator, ?_, hvalidator⟩
    change (Contract.validator ⟨registry', ⟨common, roots⟩⟩ key).toOption = some validator
    rw [Contract.validator, hget]
    rfl

/-- If all entities of a registry can be compiled, all ways to a validator of one agree, and so they
do if the definitions are indexed in another order. -/
theorem compile_agrees {entries entries' : List (String × Json)}
    (hproper : ∀ entry ∈ entries, entry.2.Proper) (hentries : ofEntries entries = .ok registry)
    {set : ValidatorSet} (hall : registry.compileAll = .ok set) (hperm : entries.Perm entries') :
    ∃ registry', ofEntries entries' = .ok registry' ∧
      ∀ key, registry.contains key = true →
        ∃ validator, registry.compile key = .ok validator ∧
          ∀ way ∈ registry.waysTo key ++ registry'.waysTo key,
            ∃ other, way = some other ∧ other.Agrees validator := by
  have hregistry := indexed_of_ofEntries hproper hentries
  obtain ⟨registry', hentries', hentities⟩ := exists_ofEntries_of_perm hentries hperm
  refine ⟨registry', hentries', fun key hkey => ?_⟩
  obtain ⟨entity, hentity⟩ := Option.isSome_iff_exists.mp hkey
  obtain ⟨hregistered, rfl⟩ := (get?_eq_some_iff hregistry.nodup_names).mp hentity
  have hmem : entity.name ∈ registry.names := List.mem_map_of_mem hregistered
  obtain ⟨⟨root, arena⟩, hroot⟩ := exists_complete_of_compileAll hall hmem
  have hchecks : arena.Checks registry root (.ref entity.name) := Build.checks_of_finish hroot
  refine ⟨⟨arena, root, some entity.name⟩, by rw [compile, hroot]; rfl, fun way hway => ?_⟩
  have hother : ∃ other, way = some other ∧
      other.arena.Checks registry other.root (.ref entity.name) := by
    rcases List.mem_append.mp hway with hway | hway
    · exact checks_of_mem_waysTo hall rfl (.refl _) hmem hway
    · exact checks_of_mem_waysTo hall (complete_eq_of_perm hregistry.nodup_names hentities).symm
        (names_perm hentities).symm hmem hway
  obtain ⟨other, rfl, hother⟩ := hother
  exact ⟨other, rfl, hother.agrees hchecks hregistry⟩

/-- Two links, one of which may be missing. -/
def pairDefinition : Json :=
  .obj [("type", .str "object"), ("properties", .obj [
    ("left", .obj [("$ref", .str "#/components/schemas/Link")]),
    ("right", .obj [("$ref", .str "#/components/schemas/Link")])]),
    ("required", .arr [.str "left"])]

def pairRegistry : Registry :=
  ⟨[⟨"Pair", pairDefinition,
      .object [("left", .ref "Link"), ("right", .optional (.ref "Link") none)] .passthrough⟩,
    ⟨"Link", linkDefinition, .object [("next", .ref "Link")] .passthrough⟩]⟩

theorem compile_agrees_pair :
    ∃ registry', ofEntries [("Link", linkDefinition), ("Pair", pairDefinition)] = .ok registry' ∧
      ∃ validator, pairRegistry.compile "Pair" = .ok validator ∧
        ∀ way ∈ pairRegistry.waysTo "Pair" ++ registry'.waysTo "Pair",
          ∃ other, way = some other ∧ other.Agrees validator := by
  have hproper : ∀ entry ∈ [("Pair", pairDefinition), ("Link", linkDefinition)],
      entry.2.Proper := by
    simp [pairDefinition, linkDefinition]
  have hentries : ofEntries [("Pair", pairDefinition), ("Link", linkDefinition)] =
      .ok pairRegistry := by
    with_unfolding_all rfl
  have hall : ∃ set, pairRegistry.compileAll = .ok set := ⟨_, by rfl⟩
  obtain ⟨set, hall⟩ := hall
  obtain ⟨registry', hentries', hagrees⟩ :=
    compile_agrees hproper hentries hall (.swap _ _ _)
  exact ⟨registry', hentries', hagrees "Pair" (by rfl)⟩

end Registry

end EntityContract
