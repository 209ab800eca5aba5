import EntityContract.Proofs.Arena.Reach
import EntityContract.Proofs.Json.Omission
import EntityContract.Proofs.Registry.Permutation
import EntityContract.Proofs.Validation.Alike
import EntityContract.Proofs.Validation.Normalizing
import EntityContract.Proofs.Validation.Twins

/-!
Members that no object declares do not interfere. A document and what is left of it without them are
walked side by side: at each place the same is told of both, the same variants are chosen, and where
objects strip, the same is made of both. Main statement: `compile_overlooks`.
-/

namespace EntityContract

/-- The node does not look at members of the name. -/
def Node.Overlooks (name : String) : Node → Prop
  | .unknown => False
  | .record _ => False
  | .literal value => value.Scalar
  | .object fields _ => name ∉ fields.map (·.name)
  | _ => True

/-- What a node without parts holds against arrays and objects. -/
def Node.refusal : Node → ConstraintKind
  | .literal _ => .literal
  | _ => .typeMismatch

/-- What is made of the value follows it, and is also made of what is left of the value. -/
structure Outcome.Unaffected (name : String) (value : Json) (outcome other : Outcome) : Prop where
  follows : Json.Follows name value outcome.output
  output_eq : other.output = outcome.output

theorem FieldNode.ne_of_mem {fields : List FieldNode} {name : String} {field : FieldNode}
    (hname : name ∉ fields.map (·.name)) (hfield : field ∈ fields) : field.name ≠ name := by
  rintro rfl
  exact hname (List.mem_map_of_mem hfield)

theorem FieldNode.ne_of_find? {fields : List FieldNode} {name key : String} {field : FieldNode}
    (hname : name ∉ fields.map (·.name)) (hfind : find? fields key = some field) : key ≠ name := by
  obtain ⟨hfield, rfl⟩ := mem_of_find? hfind
  exact ne_of_mem hname hfield

namespace Walk

variable {arena : Arena} {name : String} {id root : NodeId} {path : Path} {value : Json}

theorem specificity_without (hname : name ∉ arena.declared id) (value : Json) :
    specificity arena id value = specificity arena id (value.without name) := by
  cases value with
  | obj members =>
      rw [Json.without_obj, specificity, specificity, List.countP_map, Members.erase,
        List.countP_filter]
      refine List.countP_congr fun member _ => ?_
      rw [Bool.and_eq_true, bne_iff_ne, Function.comp_apply, List.contains_iff_mem]
      refine (and_iff_left_of_imp ?_).symm
      intro hmem heq
      exact hname (heq ▸ hmem)
  | arr items => rw [Json.without_arr]; rfl
  | _ => rfl

/-- A node without parts rejects arrays and objects as a whole. -/
theorem visit_eq_reject (path : Path) {parts : Parts} {again : Check}
    (hscalar : (arena.node id).isScalar = true) (hwell : (arena.node id).WellFormed)
    (hoverlooks : (arena.node id).Overlooks name) (hvalue : ¬value.Scalar) :
    ∃ fault, visit arena value parts again id path = .reject path value fault ∧
      fault.kind = (arena.node id).refusal := by
  have hcomposite : (∃ items, value = .arr items) ∨ ∃ members, value = .obj members := by
    cases value with
    | arr items => exact Or.inl ⟨items, rfl⟩
    | obj members => exact Or.inr ⟨members, rfl⟩
    | _ => exact absurd trivial hvalue
  unfold visit
  generalize arena.node id = node at hscalar hwell hoverlooks ⊢
  cases node with
  | pending => exact hwell.elim
  | unknown => exact hoverlooks.elim
  | literal expected =>
      have hsame : value.same expected = false := by
        rcases hcomposite with ⟨items, rfl⟩ | ⟨members, rfl⟩ <;>
          cases expected <;> first | rfl | exact hoverlooks.elim
      have hreject : checkLiteral expected path value =
          .reject path value (.literal expected value) := by
        rw [checkLiteral, hsame]
        rfl
      exact ⟨_, hreject, rfl⟩
  | string format | integer | number | boolean | enum options =>
      rcases hcomposite with ⟨items, rfl⟩ | ⟨members, rfl⟩
      · exact ⟨_, rfl, rfl⟩
      · exact ⟨_, rfl, rfl⟩
  | _ => cases hscalar

section Parts

variable {fields : List FieldNode} {policy : UnknownFields} {node : NodeId} {members : Members}

theorem checkArray_alike (hparts : ∀ part : Json, part.Part value →
      (check arena part node []).Alike (check arena (part.without name) node [])) :
    (checkArray node [] value (parts arena value)).Alike
      (checkArray node [] (value.without name) (parts arena (value.without name))) := by
  cases value with
  | arr items =>
      rw [Json.without_arr]
      refine ⟨?_, rfl⟩
      rw [violations_checkArray, violations_checkArray]
      apply Violation.map_gist_gather
      simp only [itemFaults, List.zipIdx_map, List.map_map]
      refine List.map_congr_left fun item hitem => ?_
      have hpart := hparts item.1 (.item (List.fst_mem_of_mem_zipIdx hitem))
      exact congrArg (Prod.mk _) hpart.gists
  | obj members => rw [Json.without_obj]; exact Outcome.alike_reject _ _ rfl
  | _ => exact .refl _

theorem memberFaults_without (hname : name ∉ fields.map (·.name))
    (hparts : ∀ member ∈ members, ∀ field ∈ fields, (check arena member.2 field.node []).Alike
      (check arena (member.2.without name) field.node [])) :
    (memberFaults arena fields members).map (fun fault => (fault.1, fault.2.map (·.gist))) =
      (memberFaults arena fields ((Members.erase name members).map fun member =>
        (member.1, member.2.without name))).map
          fun fault => (fault.1, fault.2.map (·.gist)) := by
  induction members with
  | nil => rfl
  | cons member members ih =>
      rw [List.forall_mem_cons] at hparts
      have hrest := ih hparts.2
      rw [memberFaults, memberFaults, Members.erase] at hrest ⊢
      rw [List.filterMap_cons, List.filter_cons]
      cases hfind : FieldNode.find? fields member.1 with
      | none =>
          dsimp only [Option.map_none]
          split
          · rw [List.map_cons, List.filterMap_cons, hfind]
            exact hrest
          · exact hrest
      | some field =>
          have hne := bne_iff_ne.mpr (FieldNode.ne_of_find? hname hfind)
          rw [if_pos hne, List.map_cons, List.filterMap_cons, hfind]
          simp only [Option.map_some, List.map_cons]
          rw [hrest, (hparts.1 field (FieldNode.mem_of_find? hfind).1).gists]

theorem missingFaults_without (hname : name ∉ fields.map (·.name)) :
    missingFaults fields members =
      missingFaults fields ((Members.erase name members).map fun member =>
        (member.1, member.2.without name)) := by
  rw [missingFaults, missingFaults]
  congr 1
  refine List.filter_congr fun field hfield => ?_
  rw [Json.contains_without (FieldNode.ne_of_mem hname hfield)]

theorem checkObject_alike (hname : name ∉ fields.map (·.name))
    (hparts : ∀ part : Json, part.Part value → ∀ field ∈ fields,
      (check arena part field.node []).Alike (check arena (part.without name) field.node [])) :
    (checkObject fields policy [] value (parts arena value)).Alike
      (checkObject fields policy [] (value.without name) (parts arena (value.without name))) := by
  cases value with
  | obj members =>
      rw [Json.without_obj]
      refine ⟨?_, rfl⟩
      rw [violations_checkObject, violations_checkObject]
      apply Violation.map_gist_gather
      rw [List.map_append, List.map_append, ← missingFaults_without hname,
        ← memberFaults_without hname fun member hmember => hparts member.2 (.member hmember)]
  | arr items => rw [Json.without_arr]; exact Outcome.alike_reject _ _ rfl
  | _ => exact .refl _

end Parts

section Reached

variable (harena : arena.Settled)
  (hnodes : ∀ id, arena.Reaches root id →
    (arena.node id).WellFormed ∧ (arena.node id).Overlooks name)

include harena hnodes

theorem not_mem_declared (hid : arena.Reaches root id) : name ∉ arena.declared id := by
  induction (harena id).acc with
  | intro id _ ih =>
      have hchild : ∀ other, arena.Delegates id other → name ∉ arena.declared other :=
        fun other hother => ih other hother (hid.tail hother.mem_children)
      have hoverlooks := (hnodes id hid).2
      rw [Arena.declared_eq harena]
      cases hnode : arena.node id with
      | object fields policy => rwa [hnode] at hoverlooks
      | intersection left right =>
          dsimp only
          rw [List.mem_append, not_or]
          exact ⟨hchild left (.left hnode), hchild right (.right hnode)⟩
      | entity key target => exact hchild target (.entity hnode)
      | _ => exact List.not_mem_nil

/-- By induction on the value and the nodes it is left to; a node that looks at its parts does not
declare the members that are left out. -/
theorem check_without (value : Json) (id : NodeId) (hid : arena.Reaches root id) :
    (check arena value id []).Alike (check arena (value.without name) id []) := by
  induction value, id using harena.induct with
  | step value id hparts hdelegates =>
      by_cases hscalar : value.Scalar
      · rw [Json.without_of_scalar hscalar]
        exact .refl _
      have hchild : ∀ child ∈ (arena.node id).children, arena.Reaches root child :=
        fun _ => hid.tail
      obtain ⟨hwell, hoverlooks⟩ := hnodes id hid
      rw [check_eq harena value, check_eq harena (value.without name)]
      -- What is left of an array or an object is one, and a node without parts rejects both alike.
      by_cases hleaf : (arena.node id).isScalar = true
      · obtain ⟨fault, hreject, hkind⟩ := visit_eq_reject [] hleaf hwell hoverlooks hscalar
        obtain ⟨fault', hreject', hkind'⟩ := visit_eq_reject [] hleaf hwell hoverlooks
          (Json.scalar_without_iff.not.mpr hscalar)
        rw [hreject, hreject']
        exact Outcome.alike_reject _ _ (hkind.trans hkind'.symm)
      rw [visit, visit]
      cases hnode : arena.node id with
      | array item =>
          rw [hnode] at hchild
          exact checkArray_alike fun part hpart =>
            hparts part hpart item (hchild item (List.mem_singleton_self item))
      | record item =>
          rw [hnode] at hoverlooks
          exact hoverlooks.elim
      | object fields policy =>
          rw [hnode] at hchild hoverlooks
          exact checkObject_alike hoverlooks fun part hpart field hfield =>
            hparts part hpart field.node (hchild _ (List.mem_map_of_mem hfield))
      | union variants =>
          rw [hnode] at hchild hwell
          have hreached : ∀ variant ∈ variants, arena.Reaches root variant.node :=
            fun variant hvariant => hchild _ (List.mem_map_of_mem hvariant)
          exact checkUnion_alike
            (fun variant hvariant =>
              hdelegates _ (.variant hnode hvariant) (hreached variant hvariant))
            hwell
            fun variant hvariant => specificity_without
              (not_mem_declared harena hnodes (hreached variant hvariant)) value
      | intersection left right =>
          rw [hnode] at hchild
          exact checkIntersection_alike
            (hdelegates left (.left hnode) (hchild _ List.mem_cons_self))
            (hdelegates right (.right hnode) (hchild _ (List.mem_cons_of_mem _ List.mem_cons_self)))
      | entity key target =>
          rw [hnode] at hchild
          exact hdelegates target (.entity hnode) (hchild _ (List.mem_singleton_self target))
      | _ => exact absurd (by rw [hnode]; rfl) hleaf

end Reached

section Objects

variable {fields : List FieldNode} {members : Members} {member : String × Json} {field : FieldNode}

theorem output_memberOutcome {key : String} (value : Json)
    (h : FieldNode.find? fields key = some field) :
    (memberOutcome arena fields path (key, value)).output =
      (check arena value field.node []).output := by
  rw [memberOutcome, h]
  exact output_check arena value field.node _

/-- Where nothing is told of an object, nothing is told of its declared members. -/
theorem accepts_of_checkObject {policy : UnknownFields}
    (h : (checkObject fields policy path (.obj members)
      (parts arena (.obj members))).violations = [])
    (hmember : member ∈ members) (hfind : FieldNode.find? fields member.1 = some field) :
    (check arena member.2 field.node []).violations = [] := by
  have haccepts := (violations_checkObject_eq_nil_iff.mp h).1 member hmember
  rw [memberOutcome, hfind] at haccepts
  exact (violations_check_eq_nil_iff arena member.2 field.node _).mp haccepts

/-- What is kept of an object that strips are its declared members. -/
theorem mem_objectMembers_strip {output : String × Json}
    (h : output ∈ objectMembers arena fields .strip path members) :
    (∃ member ∈ members, ∃ field, FieldNode.find? fields member.1 = some field ∧
      output = (member.1, (check arena member.2 field.node []).output)) ∨
    output ∈ FieldNode.defaults fields members := by
  refine (List.mem_append.mp h).imp_left fun h => ?_
  obtain ⟨member, hmember, rfl⟩ := List.mem_map.mp h
  obtain ⟨hmember, hkept⟩ := List.mem_filter.mp hmember
  obtain ⟨field, hfind⟩ := Option.isSome_iff_exists.mp hkept
  exact ⟨member, hmember, field, hfind, by rw [output_memberOutcome member.2 hfind]⟩

theorem follows_objectMembers (hname : name ∉ fields.map (·.name))
    (hmembers : (members.map (·.1)).Nodup)
    (hparts : ∀ member ∈ members, ∀ field, FieldNode.find? fields member.1 = some field →
      Json.Follows name member.2 (check arena member.2 field.node []).output) :
    Json.Follows name (.obj members)
      (.obj (objectMembers arena fields .strip path members)) := by
  refine .obj (fun hkey => ?_) fun output houtput value hvalue => ?_
  · obtain ⟨output, houtput, heq⟩ := List.mem_map.mp hkey
    rcases mem_objectMembers_strip houtput with ⟨member, -, field, hfind, rfl⟩ | hdefault
    · exact FieldNode.ne_of_find? hname hfind heq
    · have hdeclared := List.mem_map_of_mem (f := (·.1)) hdefault
      exact hname (heq ▸ (FieldNode.keys_defaults_sublist fields members).subset hdeclared)
  · rcases mem_objectMembers_strip houtput with ⟨member, hmember, field, hfind, rfl⟩ | hdefault
    · rw [Association.lookup_of_mem hmembers hmember, Option.some.injEq] at hvalue
      exact hvalue ▸ hparts member hmember field hfind
    · refine absurd ?_ (FieldNode.disjoint_defaults (List.mem_map_of_mem (f := (·.1)) hdefault))
      exact List.mem_map_of_mem (f := (·.1)) (Association.mem_of_lookup hvalue)

theorem defaults_without (hname : name ∉ fields.map (·.name)) :
    FieldNode.defaults fields ((Members.erase name members).map fun member =>
      (member.1, member.2.without name)) = FieldNode.defaults fields members := by
  rw [FieldNode.defaults, FieldNode.defaults]
  refine List.filterMap_congr fun field hfield => ?_
  rw [Json.contains_without (FieldNode.ne_of_mem hname hfield)]

theorem objectMembers_without (hname : name ∉ fields.map (·.name))
    (hparts : ∀ member ∈ members, ∀ field, FieldNode.find? fields member.1 = some field →
      (check arena (member.2.without name) field.node []).output =
        (check arena member.2 field.node []).output) :
    objectMembers arena fields .strip path ((Members.erase name members).map fun member =>
      (member.1, member.2.without name)) = objectMembers arena fields .strip path members := by
  rw [objectMembers, objectMembers, defaults_without hname]
  congr 1
  induction members with
  | nil => rfl
  | cons member members ih =>
      rw [List.forall_mem_cons] at hparts
      have hrest := ih hparts.2
      rw [Members.erase] at hrest ⊢
      cases hfind : FieldNode.find? fields member.1 with
      | none =>
          rw [List.filter_cons, List.filter_cons_of_neg (by simp [hfind])]
          split
          · rw [List.map_cons, List.filter_cons_of_neg (by simp [hfind])]
            exact hrest
          · exact hrest
      | some field =>
          have hne := bne_iff_ne.mpr (FieldNode.ne_of_find? hname hfind)
          rw [List.filter_cons, if_pos hne, List.map_cons,
            List.filter_cons_of_pos (by simp [hfind]), List.filter_cons_of_pos (by simp [hfind]),
            List.map_cons, List.map_cons, hrest, output_memberOutcome member.2 hfind,
            output_memberOutcome (member.2.without name) hfind, hparts.1 field hfind]

theorem checkObject_unaffected (hname : name ∉ fields.map (·.name))
    (hfields : (fields.map (·.name)).Nodup) (hmembers : (members.map (·.1)).Nodup)
    (hparts : ∀ member ∈ members, ∀ field, FieldNode.find? fields member.1 = some field →
      (check arena member.2 field.node []).Unaffected name member.2
        (check arena (member.2.without name) field.node [])) :
    (checkObject fields .strip path (.obj members) (parts arena (.obj members))).Unaffected name
      (.obj members)
      (checkObject fields .strip path ((Json.obj members).without name)
        (parts arena ((Json.obj members).without name))) := by
  rw [Json.without_obj]
  refine ⟨?_, ?_⟩
  · rw [output_checkObject hfields]
    exact follows_objectMembers hname hmembers fun member hmember field hfind =>
      (hparts member hmember field hfind).follows
  · rw [output_checkObject hfields, output_checkObject hfields]
    exact congrArg Json.obj (objectMembers_without hname fun member hmember field hfind =>
      (hparts member hmember field hfind).output_eq)

end Objects

theorem checkArray_unaffected {node : NodeId} {items : List Json}
    (hitems : ∀ item ∈ items, (check arena item node []).Unaffected name item
      (check arena (item.without name) node [])) :
    (checkArray node path (.arr items) (parts arena (.arr items))).Unaffected name (.arr items)
      (checkArray node path ((Json.arr items).without name)
        (parts arena ((Json.arr items).without name))) := by
  rw [Json.without_arr]
  refine ⟨?_, ?_⟩
  · rw [output_checkArray]
    exact Json.follows_arr_iff.mpr ⟨_, rfl, List.forall₂_map_right_iff.mpr
      (List.forall₂_same.mpr fun item hitem => (hitems item hitem).follows)⟩
  · rw [output_checkArray, output_checkArray, List.map_map]
    exact congrArg Json.arr (List.map_congr_left fun item hitem => (hitems item hitem).output_eq)

/-- Sides are joined alike as both follow the value. -/
theorem checkIntersection_unaffected {left right left' right' : Outcome}
    (hleft : left.Unaffected name value left') (hright : right.Unaffected name value right') :
    (checkIntersection value left right).Unaffected name value
      (checkIntersection (value.without name) left' right') where
  follows := hleft.follows.mergeOutputs hright.follows
  output_eq := by
    simp only [checkIntersection]
    rw [hleft.output_eq, hright.output_eq]
    exact Json.mergeOutputs_without hleft.follows hright.follows

section Stripped

variable (harena : arena.Settled)
  (hnodes : ∀ id, arena.Reaches root id →
    (arena.node id).WellFormed ∧ (arena.node id).Overlooks name)
  (hstrip : ∀ id fields policy, arena.Reaches root id → arena.node id = .object fields policy →
    policy = .strip)

include harena hnodes hstrip

/-- Where objects strip, what is made of an accepted value is also made of what is left of it. -/
theorem check_unaffected (value : Json) (id : NodeId) (hid : arena.Reaches root id)
    (hvalue : value.Proper) (haccepts : (check arena value id []).violations = []) :
    (check arena value id []).Unaffected name value (check arena (value.without name) id []) := by
  induction value, id using harena.induct with
  | step value id hparts hdelegates =>
      by_cases hscalar : value.Scalar
      · rw [Json.without_of_scalar hscalar]
        exact ⟨.scalar hscalar, rfl⟩
      have hchild : ∀ child ∈ (arena.node id).children, arena.Reaches root child :=
        fun _ => hid.tail
      obtain ⟨hwell, hoverlooks⟩ := hnodes id hid
      rw [check_eq harena value] at haccepts ⊢
      rw [check_eq harena (value.without name)]
      by_cases hleaf : (arena.node id).isScalar = true
      · obtain ⟨fault, hreject, -⟩ := visit_eq_reject [] hleaf hwell hoverlooks hscalar
        rw [hreject] at haccepts
        cases haccepts
      rw [visit] at haccepts
      rw [visit, visit]
      cases hnode : arena.node id with
      | array item =>
          rw [hnode] at hchild haccepts
          cases value with
          | arr items =>
              rw [violations_checkArray_eq_nil_iff] at haccepts
              exact checkArray_unaffected fun part hpart =>
                hparts part (.item hpart) item (hchild item (List.mem_singleton_self item))
                  (hvalue.item hpart) (haccepts part hpart)
          | _ => cases haccepts
      | record item =>
          rw [hnode] at hoverlooks
          exact hoverlooks.elim
      | object fields policy =>
          obtain rfl := hstrip id fields policy hid hnode
          rw [hnode] at hchild hoverlooks hwell haccepts
          cases value with
          | obj members =>
              exact checkObject_unaffected hoverlooks hwell hvalue.nodup
                fun member hmember field hfind => hparts member.2 (.member hmember) field.node
                  (hchild _ (List.mem_map_of_mem (FieldNode.mem_of_find? hfind).1))
                  (hvalue.member hmember) (accepts_of_checkObject haccepts hmember hfind)
          | _ => cases haccepts
      | union variants =>
          rw [hnode] at hchild hwell haccepts
          have hreached : ∀ variant ∈ variants, arena.Reaches root variant.node :=
            fun variant hvariant => hchild _ (List.mem_map_of_mem hvariant)
          -- Nothing is told of the union, so a variant fits, and `check_without` says the same one.
          have hfits : ∃ variant ∈ variants, (check arena value variant.node []).violations = [] :=
            (exists_best_of_checkUnion hwell haccepts).imp fun _ h => ⟨h.1, h.2.1⟩
          obtain ⟨variant, hvariant, hfit, hunion, hunion'⟩ := exists_fitting_alike
            (fun variant hvariant =>
              check_without harena hnodes value _ (hreached variant hvariant))
            (fun variant hvariant => specificity_without
              (not_mem_declared harena hnodes (hreached variant hvariant)) value)
            hfits
          obtain ⟨hfollows, houtput⟩ :=
            hdelegates _ (.variant hnode hvariant) (hreached variant hvariant) hvalue hfit
          dsimp only
          rw [hunion, hunion']
          exact ⟨hfollows, houtput⟩
      | intersection left right =>
          rw [hnode] at hchild haccepts
          obtain ⟨hleft, hright⟩ := List.append_eq_nil_iff.mp haccepts
          exact checkIntersection_unaffected
            (hdelegates left (.left hnode) (hchild _ List.mem_cons_self) hvalue hleft)
            (hdelegates right (.right hnode) (hchild _ (List.mem_cons_of_mem _ List.mem_cons_self))
              hvalue hright)
      | entity key target =>
          rw [hnode] at hchild haccepts
          exact hdelegates target (.entity hnode) (hchild _ (List.mem_singleton_self target)) hvalue
            haccepts
      | _ => exact absurd (by rw [hnode]; rfl) hleaf

end Stripped

end Walk

namespace Registry

variable {registry : Registry} {validator : Validator}

/-- A name that no node looks at does not matter: with its members left out at every depth, a
document has the same verdict, the same label and the same violations, told by path and kind. Where
objects strip, it has the same normalized document. -/
theorem compile_overlooks {entries : List (String × Json)}
    (hproper : ∀ entry ∈ entries, entry.2.Proper) (hentries : ofEntries entries = .ok registry)
    {key : String} (hcompile : registry.compile key = .ok validator) {name : String}
    (hname : ∀ id, validator.arena.Reaches validator.root id →
      (validator.arena.node id).Overlooks name) (value : Json) :
    (validator.validate (value.without name)).isValid = (validator.validate value).isValid ∧
    (∀ label?, (∃ output, validator.validate (value.without name) = .valid output label?) ↔
      ∃ output, validator.validate value = .valid output label?) ∧
    (validator.validate (value.without name)).violations.map (·.gist) =
      (validator.validate value).violations.map (·.gist) ∧
    ((∀ id fields policy, validator.arena.Reaches validator.root id →
        validator.arena.node id = .object fields policy → policy = .strip) →
      value.Proper → ∀ output label?, validator.validate value = .valid output label? →
        validator.validate (value.without name) = .valid output label?) := by
  have hregistry := indexed_of_ofEntries hproper hentries
  obtain ⟨labels, harena, hroot⟩ := checks_of_compile hcompile
  have hsettled := harena.settled hregistry
  have hnodes : ∀ id, validator.arena.Reaches validator.root id →
      (validator.arena.node id).WellFormed ∧ (validator.arena.node id).Overlooks name :=
    fun id hid =>
      ⟨hid.node_wellFormed harena hregistry hroot (wellFormed_ref key), hname id hid⟩
  have hroots := Arena.Reaches.refl validator.arena validator.root
  have halike := Walk.check_without hsettled hnodes value validator.root hroots
  refine ⟨?_, halike.exists_validate_iff, ?_, fun hstrip hvalue output label? hvalid => ?_⟩
  · rw [Bool.eq_iff_iff, Validator.isValid_validate_iff, Validator.isValid_validate_iff]
    exact halike.accepts_iff.symm
  · rw [Validator.violations_validate, Validator.violations_validate]
    exact halike.gists.symm
  · obtain ⟨other, hother⟩ := (halike.exists_validate_iff label?).mpr ⟨output, hvalid⟩
    have houtput := (Walk.check_unaffected hsettled hnodes hstrip value validator.root hroots
      hvalue (Validator.accepts_of_validate hvalid)).output_eq
    rw [Validator.output_of_validate hother, Validator.output_of_validate hvalid] at houtput
    rw [hother, houtput]

/-- An object with one required field and no others. -/
def soleField (name type : String) : Json :=
  .obj [("type", .str "object"), ("properties", .obj [(name, .obj [("type", .str type)])]),
    ("required", .arr [.str name]), ("additionalProperties", .bool false)]

/-- A parcel goes to an address or to a shelf, and may list its items. -/
def parcelDefinition : Json :=
  .obj [("allOf", .arr [
    .obj [("anyOf", .arr [soleField "to" "string", soleField "shelf" "integer"])],
    .obj [("type", .str "object"), ("properties", .obj [("items",
        .obj [("type", .str "array"), ("items", soleField "sku" "string")])]),
      ("additionalProperties", .bool false)]])]

def parcelShape : Shape :=
  .intersection
    (.union [.object [("to", .string .any)] .strip, .object [("shelf", .integer)] .strip])
    (.object [("items", .optional (.array (.object [("sku", .string .any)] .strip)) none)] .strip)

def parcelRegistry : Registry := ⟨[⟨"Parcel", parcelDefinition, parcelShape⟩]⟩

def parcelValidator : Validator where
  arena := ⟨#[.entity "Parcel" 10, .string .any, .object [⟨"to", 1, true, none⟩] .strip, .integer,
    .object [⟨"shelf", 3, true, none⟩] .strip, .union [⟨"variant 1", 2⟩, ⟨"variant 2", 4⟩],
    .string .any, .object [⟨"sku", 6, true, none⟩] .strip, .array 7,
    .object [⟨"items", 8, false, none⟩] .strip, .intersection 5 9]⟩
  root := 0
  name? := some "Parcel"

/-- A parcel with notes on it and on one of its items. -/
def parcelDocument : Json :=
  .obj [("note", .arr [.obj [("note", .null)]]), ("to", .str "x"),
    ("items", .arr [.obj [("note", .str "fragile"), ("sku", .str "a")]])]

theorem compile_overlooks_parcel :
    parcelValidator.validate (parcelDocument.without "note") =
      .valid (.obj [("to", .str "x"), ("items", .arr [.obj [("sku", .str "a")]])])
        (some "variant 1") := by
  have hproper : ∀ entry ∈ [("Parcel", parcelDefinition)], entry.2.Proper := by
    simp [parcelDefinition, soleField]
  have hlowers : Shape.ofDefinition parcelDefinition = .ok parcelShape := by
    rfl
  have hentries : ofEntries [("Parcel", parcelDefinition)] = .ok parcelRegistry :=
    ofEntries_of_reads (.cons ⟨rfl, rfl, by decide, hlowers⟩ .nil) (List.nodup_singleton _) (by rfl)
  have hcompile : parcelRegistry.compile "Parcel" = .ok parcelValidator := by rfl
  have hname : ∀ id, (parcelValidator.arena.node id).Overlooks "note" :=
    Arena.forall_node (by simp [parcelValidator, Node.Overlooks]) trivial
  have hstrip : ∀ id, ∀ fields policy,
      parcelValidator.arena.node id = .object fields policy → policy = .strip :=
    Arena.forall_node (p := fun node => ∀ fields policy, node = .object fields policy →
      policy = .strip) (by simp [parcelValidator]) (by simp)
  have hvalue : parcelDocument.Proper := by
    simp [parcelDocument]
  have hvalid : parcelValidator.validate parcelDocument =
      .valid (.obj [("to", .str "x"), ("items", .arr [.obj [("sku", .str "a")]])])
        (some "variant 1") := by rfl
  exact (compile_overlooks hproper hentries hcompile (fun id _ => hname id) parcelDocument).2.2.2
    (fun id fields policy _ => hstrip id fields policy) hvalue _ _ hvalid

end Registry

end EntityContract
