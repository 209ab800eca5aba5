import EntityContract.Proofs.Validation.Checking
import EntityContract.Validation.Sample

/-!
Nodes that differ in the indexes of other nodes only. They visit a value alike, and give the same
sample, if the nodes that they refer to do.
-/

namespace EntityContract

/-- The node looks at a value by itself. -/
def Node.isScalar : Node → Bool
  | .array _ | .record _ | .object _ _ | .union _ | .intersection _ _ | .entity _ _ => false
  | _ => true

/-- Fields that differ in their nodes only. -/
structure FieldNode.Twin (related : NodeId → NodeId → Prop) (field other : FieldNode) : Prop where
  name_eq : field.name = other.name
  node : related field.node other.node
  required_eq : field.required = other.required
  default_eq : field.default? = other.default?

/-- Variants that differ in their nodes only. -/
structure Variant.Twin (related : NodeId → NodeId → Prop) (variant other : Variant) : Prop where
  label_eq : variant.label = other.label
  node : related variant.node other.node

/-- Nodes that differ in the nodes that they refer to only. -/
inductive Node.Twin (related : NodeId → NodeId → Prop) : Node → Node → Prop
  | scalar {node : Node} (hnode : node.isScalar = true) : Twin related node node
  | array {item item' : NodeId} (hitem : related item item') :
      Twin related (.array item) (.array item')
  | record {item item' : NodeId} (hitem : related item item') :
      Twin related (.record item) (.record item')
  | object {fields fields' : List FieldNode} (policy : UnknownFields)
      (hfields : List.Forall₂ (FieldNode.Twin related) fields fields') :
      Twin related (.object fields policy) (.object fields' policy)
  | union {variants variants' : List Variant}
      (hvariants : List.Forall₂ (Variant.Twin related) variants variants') :
      Twin related (.union variants) (.union variants')
  | intersection {left left' right right' : NodeId} (hleft : related left left')
      (hright : related right right') :
      Twin related (.intersection left right) (.intersection left' right')
  | entity (key : String) {target target' : NodeId} (htarget : related target target') :
      Twin related (.entity key target) (.entity key target')

/-- A node is its own twin. -/
theorem Node.twin_refl (node : Node) :
    node.Twin (fun child child' => child = child' ∧ child ∈ node.children) node := by
  cases node with
  | array item => exact .array ⟨rfl, List.mem_singleton_self item⟩
  | record item => exact .record ⟨rfl, List.mem_singleton_self item⟩
  | object fields policy =>
      refine .object policy (List.forall₂_same.mpr fun field hfield => ?_)
      exact ⟨rfl, ⟨rfl, List.mem_map_of_mem hfield⟩, rfl, rfl⟩
  | union variants =>
      refine .union (List.forall₂_same.mpr fun variant hvariant => ?_)
      exact ⟨rfl, rfl, List.mem_map_of_mem hvariant⟩
  | intersection left right =>
      exact .intersection ⟨rfl, List.mem_cons_self⟩
        ⟨rfl, List.mem_cons_of_mem _ List.mem_cons_self⟩
  | entity key target => exact .entity key ⟨rfl, List.mem_singleton_self target⟩
  | _ => exact .scalar rfl

namespace Walk

variable {arena arena' : Arena} {related : NodeId → NodeId → Prop} {path : Path}
  {f g : Json → Check}

/-- The checks of the parts of a value, given those of all values. -/
def partsBy (f : Json → Check) : Json → Parts
  | .arr items => .items (items.map f)
  | .obj members => .members (members.map fun member => (member.1, f member.2))
  | _ => .none

theorem partsBy_check (value : Json) : partsBy (check arena) value = parts arena value := by
  cases value <;> rfl

theorem itemOutcomes_twin {item item' : NodeId} {items : List Json}
    (h : ∀ part ∈ items, ∀ path, f part item path = g part item' path) (index : Nat) :
    itemOutcomes item path index (items.map f) = itemOutcomes item' path index (items.map g) := by
  induction items generalizing index with
  | nil => rfl
  | cons part items ih =>
      rw [List.forall_mem_cons] at h
      rw [List.map_cons, List.map_cons, itemOutcomes, itemOutcomes, h.1, ih h.2]

theorem memberOutcomes_twin {fields fields' : List FieldNode}
    (hfields : List.Forall₂ (FieldNode.Twin related) fields fields') (policy : UnknownFields)
    {members : Members} (h : ∀ member ∈ members, ∀ id id', related id id' →
      ∀ path, f member.2 id path = g member.2 id' path) :
    memberOutcomes fields policy path members (members.map fun member => (member.1, f member.2)) =
      memberOutcomes fields' policy path members
        (members.map fun member => (member.1, g member.2)) := by
  induction members with
  | nil => rfl
  | cons member members ih =>
      rw [List.forall_mem_cons] at h
      rw [List.map_cons, List.map_cons, memberOutcomes, memberOutcomes, ih h.2]
      have hfind := find?_rel FieldNode.Twin.name_eq hfields member.1
      generalize FieldNode.find? fields member.1 = field? at hfind
      generalize FieldNode.find? fields' member.1 = field'? at hfind
      cases hfind with
      | none => rfl
      | some hfield =>
          dsimp only
          rw [h.1 _ _ hfield.node]

theorem absentFields_twin {fields fields' : List FieldNode}
    (hfields : List.Forall₂ (FieldNode.Twin related) fields fields') (members : Members) :
    (fields.filter fun field => !Members.contains field.name members).map (absentField path) =
      (fields'.filter fun field => !Members.contains field.name members).map
        (absentField path) := by
  induction hfields with
  | nil => rfl
  | @cons field field' fields fields' hfield _ ih =>
      have habsent : absentField path field = absentField path field' := by
        rw [absentField, absentField, hfield.name_eq, hfield.required_eq, hfield.default_eq]
      rw [List.filter_cons, List.filter_cons, hfield.name_eq]
      split
      · rw [List.map_cons, List.map_cons, habsent, ih]
      · exact ih

theorem checkObject_twin {fields fields' : List FieldNode}
    (hfields : List.Forall₂ (FieldNode.Twin related) fields fields') (policy : UnknownFields)
    {value : Json} (h : ∀ part : Json, part.Part value → ∀ id id', related id id' →
      ∀ path, f part id path = g part id' path) :
    checkObject fields policy path value (partsBy f value) =
      checkObject fields' policy path value (partsBy g value) := by
  cases value with
  | obj members =>
      rw [partsBy, partsBy, checkObject, checkObject, absentFields_twin hfields,
        memberOutcomes_twin hfields policy fun member hmember => h member.2 (.member hmember)]
  | _ => rfl

theorem checkArray_twin {item item' : NodeId} {value : Json}
    (h : ∀ part : Json, part.Part value → ∀ path, f part item path = g part item' path) :
    checkArray item path value (partsBy f value) =
      checkArray item' path value (partsBy g value) := by
  cases value with
  | arr items =>
      rw [partsBy, partsBy, checkArray, checkArray, itemOutcomes_twin fun part hpart =>
        h part (.item hpart)]
  | _ => rfl

theorem checkRecord_twin {item item' : NodeId} {value : Json}
    (h : ∀ part : Json, part.Part value → ∀ path, f part item path = g part item' path) :
    checkRecord item path value (partsBy f value) =
      checkRecord item' path value (partsBy g value) := by
  cases value with
  | obj members =>
      have houtcomes : (members.map fun member =>
            (member.1, f member.2 item (path ++ [.key member.1]))) =
          members.map fun member => (member.1, g member.2 item' (path ++ [.key member.1])) :=
        List.map_congr_left fun member hmember => by rw [h member.2 (.member hmember)]
      simp only [checkRecord, partsBy, List.map_map, Function.comp_def, houtcomes]
  | _ => rfl

theorem checkUnion_twin {variants variants' : List Variant} {value : Json} {again again' : Check}
    (hvariants : List.Forall₂ (Variant.Twin related) variants variants')
    (hspecificity : ∀ id id', related id id' →
      specificity arena id value = specificity arena' id' value)
    (hagain : ∀ variant ∈ variants, ∀ id', related variant.node id' →
      again variant.node path = again' id' path) :
    checkUnion arena variants path value again = checkUnion arena' variants' path value again' := by
  rw [checkUnion, checkUnion]
  congr 1
  refine Pairing.foldl_eq hvariants (fun variant hvariant variant' _ htwin selection => ?_) _
  rw [htwin.label_eq, hspecificity _ _ htwin.node, hagain variant hvariant _ htwin.node]

/-- Twins visit a value alike. -/
theorem visit_twin {value : Json} {id id' : NodeId} {again again' : Check}
    (hnodes : (arena.node id).Twin related (arena'.node id'))
    (hparts : ∀ part : Json, part.Part value → ∀ child child', related child child' →
      ∀ path, f part child path = g part child' path)
    (hspecificity : ∀ child child', related child child' →
      specificity arena child value = specificity arena' child' value)
    (hagain : ∀ other other', arena.Delegates id other → related other other' →
      again other path = again' other' path) :
    visit arena value (partsBy f value) again id path =
      visit arena' value (partsBy g value) again' id' path := by
  rw [visit, visit]
  generalize hnode : arena.node id = node at hnodes
  generalize hnode' : arena'.node id' = node' at hnodes
  cases hnodes with
  | scalar hscalar => cases node <;> first | rfl | exact nomatch hscalar
  | array hitem => exact checkArray_twin fun part hpart => hparts part hpart _ _ hitem
  | record hitem => exact checkRecord_twin fun part hpart => hparts part hpart _ _ hitem
  | object policy hfields => exact checkObject_twin hfields policy hparts
  | union hvariants =>
      exact checkUnion_twin hvariants hspecificity fun variant hvariant other' =>
        hagain _ other' (.variant hnode hvariant)
  | intersection hleft hright =>
      dsimp only
      rw [hagain _ _ (.left hnode) hleft, hagain _ _ (.right hnode) hright]
  | entity key htarget => exact hagain _ _ (.entity hnode) htarget

end Walk

namespace Sample

variable {arena arena' : Arena} {related : NodeId → NodeId → Prop}

/-- Twins give the same sample, if neither or both are entities on the way. -/
theorem visit_twin {f g : List NodeId → NodeId → Json} {onTheWay onTheWay' : List NodeId}
    {id id' : NodeId} (hnodes : (arena.node id).Twin related (arena'.node id'))
    (hentity : ∀ key target target', arena.node id = .entity key target →
      arena'.node id' = .entity key target' → related target target' →
        (id ∈ onTheWay ↔ id' ∈ onTheWay') ∧
          (id ∉ onTheWay → f (id :: onTheWay) target = g (id' :: onTheWay') target'))
    (hchild : (∀ key target, arena.node id ≠ .entity key target) →
      ∀ child child', child ∈ (arena.node id).children → related child child' →
        f onTheWay child = g onTheWay' child') :
    visit arena f onTheWay id = visit arena' g onTheWay' id' := by
  rw [visit, visit]
  generalize hnode : arena.node id = node at hnodes hentity hchild
  generalize hnode' : arena'.node id' = node' at hnodes hentity
  cases hnodes with
  | scalar hscalar => cases node <;> first | rfl | exact nomatch hscalar
  | array => rfl
  | record => rfl
  | @object fields fields' policy hfields =>
      have hsamples : List.Forall₂ (fun field field' => (field.name, f onTheWay field.node) =
          (field'.name, g onTheWay' field'.node) ∧ field.required = field'.required)
          fields fields' :=
        Pairing.mono hfields fun field hfield field' _ htwin =>
          ⟨by rw [htwin.name_eq, hchild (by simp) _ _ (List.mem_map_of_mem hfield) htwin.node],
            htwin.required_eq⟩
      have hmembers : (fields.filter (·.required)).map
            (fun field => (field.name, f onTheWay field.node)) =
          (fields'.filter (·.required)).map fun field => (field.name, g onTheWay' field.node) := by
        clear hfields hentity hchild hnode hnode'
        induction hsamples with
        | nil => rfl
        | @cons field field' fields fields' hhead _ ih =>
            rw [List.filter_cons, List.filter_cons, hhead.2]
            split
            · rw [List.map_cons, List.map_cons, ih, hhead.1]
            · exact ih
      dsimp only
      rw [hmembers]
  | union hvariants =>
      cases hvariants with
      | nil => rfl
      | cons hvariant _ => exact hchild (by simp) _ _ List.mem_cons_self hvariant.node
  | intersection hleft hright =>
      dsimp only
      rw [hchild (by simp) _ _ List.mem_cons_self hleft,
        hchild (by simp) _ _ (List.mem_cons_of_mem _ List.mem_cons_self) hright]
  | entity key htarget =>
      obtain ⟨hway, hsample⟩ := hentity key _ _ rfl rfl htarget
      dsimp only
      by_cases hmem : id ∈ onTheWay
      · rw [if_pos (List.contains_iff_mem.mpr hmem),
          if_pos (List.contains_iff_mem.mpr (hway.mp hmem))]
      · rw [if_neg (List.contains_iff_mem.not.mpr hmem),
          if_neg (List.contains_iff_mem.not.mpr (hway.not.mp hmem)), hsample hmem]

end Sample

end EntityContract
