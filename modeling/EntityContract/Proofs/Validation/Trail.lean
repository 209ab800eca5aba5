import EntityContract.Proofs.Arena.Recursion
import EntityContract.Proofs.Validation.Faults

/-!
A walk with one path for the whole document: it steps into a part and back again, and writes down
what it finds on the way. It finds what a check finds, and is back at its place in the end; so a
check that is handed a new path for each part is that walk.
-/

namespace EntityContract.Walk

/-- What a walk carries along: its place in the document, the violations so far, and the label of
the variant that the document was found to be. -/
structure Trail where
  path : Path
  violations : List Violation
  label? : Option String

namespace Trail

/-- A label counts for the document as a whole only. -/
def relabel (trail : Trail) (label? : Option String) : Option String :=
  if trail.path = [] then label?.or trail.label? else trail.label?

def write (trail : Trail) (violations : List Violation) : Trail :=
  { trail with violations := trail.violations ++ violations }

theorem relabel_none (trail : Trail) : trail.relabel none = trail.label? := by
  rw [relabel, Option.none_or, ite_self]

/-- The label that is found last counts. -/
theorem relabel_relabel (trail : Trail) (violations : List Violation)
    (label? last? : Option String) :
    Trail.relabel { trail.write violations with label? := trail.relabel label? } last? =
      trail.relabel (last?.or label?) := by
  rw [relabel, relabel, relabel]
  change (if trail.path = [] then _ else _) = _
  split
  · rw [Option.or_assoc]
  · rfl

theorem write_nil (trail : Trail) : trail.write [] = trail := by
  rw [write, List.append_nil]

theorem write_write (trail : Trail) (violations others : List Violation) :
    (trail.write violations).write others = trail.write (violations ++ others) := by
  rw [write, write, write, List.append_assoc]

end Trail

abbrev Trip := StateM Trail

namespace Trip

def stepInto (segment : Segment) : Trip Unit :=
  modify fun trail => { trail with path := trail.path ++ [segment] }

def stepBack : Trip Unit := modify fun trail => { trail with path := trail.path.dropLast }

/-- Goes to a part of the value and comes back. -/
def within {α : Type} (segment : Segment) (trip : Trip α) : Trip α := do
  stepInto segment
  let result ← trip
  stepBack
  return result

/-- Writes down what is found where the walk is. -/
def report (outcome : Outcome) : Trip Json := do
  modify fun trail => { trail.write outcome.violations with label? := trail.relabel outcome.label? }
  return outcome.output

/-- Looks at the value as a whole. -/
def look (check : Path → Json → Outcome) (value : Json) : Trip Json := do
  report (check (← get).path value)

/-- A trip that writes on a new sheet. -/
def attempt (trip : Trip Json) : Trip Outcome := do
  let before ← get
  set { before with violations := [] }
  let output ← trip
  let after ← get
  set { after with violations := before.violations }
  return ⟨output, after.violations, none⟩

/-- Goes to a member that is declared; another one is kept or dropped. -/
def toMember (fields : List FieldNode) (policy : UnknownFields) (walk : NodeId → Json → Trip Json)
    (kept : Members) (member : String × Json) : Trip Members :=
  match FieldNode.find? fields member.1 with
  | some field => do
    let output ← within (.key member.1) (walk field.node member.2)
    return kept ++ [(member.1, output)]
  | none => return if policy = .passthrough then kept ++ [member] else kept

/-- Steps to the place of a field that is missing, to write that down, or fills in its default. -/
def toField (members kept : Members) (field : FieldNode) : Trip Members :=
  if Members.contains field.name members then return kept
  else if field.required then do
    within (.key field.name) (modify fun trail => trail.write [⟨trail.path, .missing, []⟩])
    return kept
  else match field.default? with
    | some value => return kept.insert field.name value
    | none => return kept

/-- Takes a variant into account, after an attempt at it. -/
def select (arena : Arena) (walk : NodeId → Json → Trip Json) (value : Json)
    (selection : Selection) (variant : Variant) : Trip Selection := do
  let outcome ← attempt (walk variant.node value)
  return selection.add variant.label (specificity arena variant.node value) outcome

def toVariants (arena : Arena) (variants : List Variant) (walk : NodeId → Json → Trip Json)
    (value : Json) : Trip Json := do
  let selection ← variants.foldlM (select arena walk value) ⟨none, none⟩
  report (selection.outcome value)

/-- One call of the walk, given what the calls that it makes do. -/
def turn (arena : Arena) (walk : NodeId → Json → Trip Json) (id : NodeId) (value : Json) :
    Trip Json :=
  match arena.node id, value with
  | .pending, value => return value
  | .unknown, value => return value
  | .string format, value => look (checkString format) value
  | .integer, value => look checkInteger value
  | .number, value => look checkNumber value
  | .boolean, value => look checkBoolean value
  | .literal expected, value => look (checkLiteral expected) value
  | .enum options, value => look (checkEnum options) value
  | .array item, .arr items => do
    return .arr (← items.zipIdx.mapM fun element => within (.index element.2) (walk item element.1))
  | .record item, .obj members => do
    return .obj (← members.mapM fun member => do
      return (member.1, ← within (.key member.1) (walk item member.2)))
  | .object fields policy, .obj members => do
    let kept ← members.foldlM (toMember fields policy walk) []
    return .obj (← fields.foldlM (toField members) kept)
  | .array _, value => look (fun path value => .reject path value (.type "array" value)) value
  | .record _, value | .object _ _, value =>
    look (fun path value => .reject path value (.type "object" value)) value
  | .union variants, value => toVariants arena variants walk value
  | .intersection left right, value => do
    let left ← walk left value
    let right ← walk right value
    return Json.mergeOutputs left right (some value)
  | .entity _ target, value => walk target value

/-- Walks along a value from a node, with calls nested at most so deep. -/
def walk (arena : Arena) : Nat → NodeId → Json → Trip Json
  | 0, _, value => return value
  | calls + 1, id, value => turn arena (walk arena calls) id value

variable {arena : Arena} {trail : Trail} {trip : Trip Json} {outcome : Path → Outcome}

theorem bind_apply {α β : Type} (trip : Trip α) (next : α → Trip β) (trail : Trail) :
    (trip >>= next) trail = next (trip trail).1 (trip trail).2 := rfl

theorem pure_apply {α : Type} (result : α) (trail : Trail) :
    (pure result : Trip α) trail = (result, trail) := rfl

/-- The trip finds the outcome wherever it starts, and ends there. What it takes the label to be
does not matter if there are violations. -/
def Finds (trip : Trip Json) (outcome : Path → Outcome) : Prop :=
  ∀ trail, ∃ label?, trip trail = ((outcome trail.path).output,
      { trail.write (outcome trail.path).violations with label? }) ∧
    (trail.path ≠ [] ∨ (outcome trail.path).violations = [] →
      label? = trail.relabel (outcome trail.path).label?)

theorem finds_of_write (h : ∀ trail, trip trail = ((outcome trail.path).output,
      trail.write (outcome trail.path).violations))
    (hlabel : ∀ path, (outcome path).label? = none := by exact fun _ => rfl) :
    Finds trip outcome :=
  fun trail => ⟨trail.label?, h trail, fun _ => by rw [hlabel, Trail.relabel_none]⟩

theorem finds_look (check : Path → Json → Outcome) (value : Json) :
    Finds (look check value) (check · value) :=
  fun _ => ⟨_, rfl, fun _ => rfl⟩

theorem within_eq {α : Type} (segment : Segment) (trip : Trip α) (trail : Trail) :
    within segment trip trail =
      ((trip { trail with path := trail.path ++ [segment] }).1,
        { (trip { trail with path := trail.path ++ [segment] }).2 with
          path := (trip { trail with path := trail.path ++ [segment] }).2.path.dropLast }) := rfl

/-- Below the root no label is taken over, so a trip to a part does nothing but write. -/
theorem Finds.within_apply (h : Finds trip outcome) (segment : Segment) (trail : Trail) :
    within segment trip trail = ((outcome (trail.path ++ [segment])).output,
      trail.write (outcome (trail.path ++ [segment])).violations) := by
  have hbelow : trail.path ++ [segment] ≠ [] := List.concat_ne_nil _ _
  obtain ⟨label?, htrip, hlabel⟩ := h { trail with path := trail.path ++ [segment] }
  have hkept := hlabel (Or.inl hbelow)
  rw [Trail.relabel, if_neg hbelow] at hkept
  subst hkept
  rw [within_eq, htrip]
  exact congrArg (Prod.mk _) (congrArg (Trail.mk · _ _) List.dropLast_concat)

/-- Trips one after the other write one after the other. -/
theorem mapM_apply {α β : Type} {f : α → Trip β} {result : α → β}
    {violations : α → List Violation} {xs : List α} {trail : Trail}
    (h : ∀ x ∈ xs, ∀ other : Trail, other.path = trail.path →
      f x other = (result x, other.write (violations x))) :
    xs.mapM f trail = (xs.map result, trail.write (xs.flatMap violations)) := by
  induction xs generalizing trail with
  | nil => rw [List.mapM_nil, pure_apply, List.flatMap_nil, Trail.write_nil, List.map_nil]
  | cons x xs ih =>
      rw [List.forall_mem_cons] at h
      have hrest := @ih (trail.write (violations x)) h.2
      rw [List.mapM_cons, bind_apply, h.1 trail rfl, bind_apply, hrest, Trail.write_write]
      rfl

section Parts

variable {walk : NodeId → Json → Trip Json}

theorem finds_items {node : NodeId} {items : List Json}
    (h : ∀ item ∈ items, Finds (walk node item) (check arena item node)) :
    Finds (do return .arr (← items.zipIdx.mapM fun element =>
        within (.index element.2) (walk node element.1)))
      fun path => checkArray node path (.arr items) (parts arena (.arr items)) := by
  refine finds_of_write fun trail => ?_
  have hitem : ∀ element ∈ items.zipIdx, ∀ other : Trail, other.path = trail.path →
      within (.index element.2) (walk node element.1) other =
        ((check arena element.1 node (trail.path ++ [.index element.2])).output,
          other.write (check arena element.1 node (trail.path ++ [.index element.2])).violations) :=
    fun element helement other hpath => by
      rw [(h element.1 (List.fst_mem_of_mem_zipIdx helement)).within_apply, hpath]
  rw [bind_apply, mapM_apply hitem, parts, checkArray, itemOutcomes_eq, List.map_map,
    List.flatMap_map]
  rfl

theorem finds_members {node : NodeId} {members : Members}
    (h : ∀ member ∈ members, Finds (walk node member.2) (check arena member.2 node)) :
    Finds (do return .obj (← members.mapM fun member => do
        return (member.1, ← within (.key member.1) (walk node member.2))))
      fun path => checkRecord node path (.obj members) (parts arena (.obj members)) := by
  refine finds_of_write fun trail => ?_
  have hmember : ∀ member ∈ members, ∀ other : Trail, other.path = trail.path →
      (do return (member.1, ← within (.key member.1) (walk node member.2)) : Trip _) other =
        ((member.1, (check arena member.2 node (trail.path ++ [.key member.1])).output),
          other.write (check arena member.2 node (trail.path ++ [.key member.1])).violations) :=
    fun member hmember other hpath => by
      rw [bind_apply, (h member hmember).within_apply, hpath]
      rfl
  rw [bind_apply, mapM_apply hmember, parts, checkRecord, List.map_map, List.map_map,
    List.flatMap_map, List.flatMap_map]
  rfl

variable {fields : List FieldNode} {policy : UnknownFields} {members : Members}

theorem toMember_apply {member : String × Json}
    (h : ∀ field ∈ fields, Finds (walk field.node member.2) (check arena member.2 field.node))
    (kept : Members) (trail : Trail) :
    toMember fields policy walk kept member trail =
      (if policy = .passthrough || (FieldNode.find? fields member.1).isSome then
          kept ++ [(member.1, (memberOutcome arena fields trail.path member).output)]
        else kept,
        trail.write (memberOutcome arena fields trail.path member).violations) := by
  rw [toMember, memberOutcome]
  cases hfield : FieldNode.find? fields member.1 with
  | some field =>
      have hfinds := h field (FieldNode.mem_of_find? hfield).1
      dsimp only
      rw [bind_apply, hfinds.within_apply, Option.isSome_some, Bool.or_true, if_pos rfl]
      rfl
  | none =>
      rw [Option.isSome_none, Bool.or_false]
      dsimp only
      rw [pure_apply, Outcome.violations_accept, Trail.write_nil]
      simp only [decide_eq_true_eq, Outcome.output_accept]

theorem foldlM_toMember
    (h : ∀ member ∈ members, ∀ field ∈ fields,
      Finds (walk field.node member.2) (check arena member.2 field.node))
    (kept : Members) (trail : Trail) :
    members.foldlM (toMember fields policy walk) kept trail =
      (kept ++ (members.filter fun member => policy = .passthrough ||
          (FieldNode.find? fields member.1).isSome).map fun member =>
            (member.1, (memberOutcome arena fields trail.path member).output),
        trail.write (members.flatMap fun member =>
          (memberOutcome arena fields trail.path member).violations)) := by
  induction members generalizing kept trail with
  | nil => rw [List.foldlM_nil, pure_apply, List.flatMap_nil, Trail.write_nil, List.filter_nil,
      List.map_nil, List.append_nil]
  | cons member members ih =>
      rw [List.forall_mem_cons] at h
      rw [List.foldlM_cons, bind_apply, toMember_apply h.1, ih h.2, Trail.write_write,
        List.flatMap_cons, List.filter_cons]
      split
      · rw [List.append_assoc, List.map_cons]
        rfl
      · rfl

theorem toField_apply (kept : Members) (field : FieldNode) (trail : Trail) :
    toField members kept field trail =
      if Members.contains field.name members then (kept, trail)
      else ((absentField trail.path field).1.foldl
          (fun kept member => Members.insert member.1 member.2 kept) kept,
        trail.write (absentField trail.path field).2) := by
  rw [toField, absentField]
  split
  · rfl
  · split
    · rw [bind_apply, within_eq]
      exact congrArg (Prod.mk kept) (congrArg (Trail.mk · _ _) List.dropLast_concat)
    · cases field.default? with
      | none => rw [Trail.write_nil]; rfl
      | some value => rw [Trail.write_nil]; rfl

theorem foldlM_toField (fields : List FieldNode) (kept : Members) (trail : Trail) :
    fields.foldlM (toField members) kept trail =
      ((((fields.filter fun field => !Members.contains field.name members).map
          (absentField trail.path)).flatMap (·.1)).foldl
            (fun kept member => Members.insert member.1 member.2 kept) kept,
        trail.write (((fields.filter fun field => !Members.contains field.name members).map
          (absentField trail.path)).flatMap (·.2))) := by
  induction fields generalizing kept trail with
  | nil => exact congrArg (Prod.mk kept) (Trail.write_nil trail).symm
  | cons field fields ih =>
      rw [List.foldlM_cons, bind_apply, toField_apply, List.filter_cons]
      cases Members.contains field.name members with
      | true => exact ih kept trail
      | false =>
          rw [if_neg Bool.false_ne_true, ih, Trail.write_write]
          simp only [Bool.not_false, if_true, List.map_cons, List.flatMap_cons, List.foldl_append]
          rfl

theorem finds_fields
    (h : ∀ member ∈ members, ∀ field ∈ fields,
      Finds (walk field.node member.2) (check arena member.2 field.node)) :
    Finds (do
        let kept ← members.foldlM (toMember fields policy walk) []
        return .obj (← fields.foldlM (toField members) kept))
      fun path => checkObject fields policy path (.obj members) (parts arena (.obj members)) := by
  refine finds_of_write fun trail => ?_
  rw [bind_apply, foldlM_toMember h, bind_apply, foldlM_toField, Trail.write_write, parts,
    checkObject]
  dsimp only
  rw [flatMap_memberOutcomes, memberOutcomes_eq, List.map_map]
  rfl

/-- What a variant of a union finds is kept apart; a label that it leaves is no matter below the
root. -/
theorem Finds.attempt_apply (h : Finds trip outcome) (trail : Trail) :
    ∃ label?, attempt trip trail = (⟨(outcome trail.path).output, (outcome trail.path).violations,
        none⟩, { trail with label? }) ∧ (trail.path ≠ [] → label? = trail.label?) := by
  obtain ⟨label?, htrip, hlabel⟩ := h { trail with violations := [] }
  refine ⟨label?, ?_, fun hbelow => ?_⟩
  · have hattempt : attempt trip trail =
        (⟨(trip { trail with violations := [] }).1,
            (trip { trail with violations := [] }).2.violations, none⟩,
          { (trip { trail with violations := [] }).2 with violations := trail.violations }) :=
      rfl
    rw [hattempt, htrip]
    rfl
  · rw [hlabel (Or.inl hbelow), Trail.relabel, if_neg hbelow]

theorem foldlM_select {variants : List Variant} {value : Json}
    (h : ∀ variant ∈ variants, Finds (walk variant.node value) (check arena value variant.node))
    (selection : Selection) (trail : Trail) :
    ∃ label?, variants.foldlM (select arena walk value) selection trail =
      (variants.foldl (fun selection variant => selection.add variant.label
          (specificity arena variant.node value) (check arena value variant.node trail.path))
        selection, { trail with label? }) ∧
      (trail.path ≠ [] ∨ variants = [] → label? = trail.label?) := by
  induction variants generalizing selection trail with
  | nil => exact ⟨trail.label?, rfl, fun _ => rfl⟩
  | cons variant variants ih =>
      rw [List.forall_mem_cons] at h
      obtain ⟨label?, hattempt, hlabel⟩ := h.1.attempt_apply trail
      obtain ⟨last?, hrest, hlast⟩ := ih h.2 (selection.add variant.label
        (specificity arena variant.node value) (check arena value variant.node trail.path))
        { trail with label? }
      refine ⟨last?, ?_, fun hbelow => ?_⟩
      · rw [List.foldlM_cons, bind_apply, select, bind_apply, hattempt]
        exact hrest
      · have hpath : trail.path ≠ [] := hbelow.resolve_right (List.cons_ne_nil _ _)
        exact (hlast (Or.inl hpath)).trans (hlabel hpath)

theorem finds_toVariants {variants : List Variant} {value : Json}
    (h : ∀ variant ∈ variants, Finds (walk variant.node value) (check arena value variant.node)) :
    Finds (toVariants arena variants walk value)
      fun path => checkUnion arena variants path value (check arena value) := by
  intro trail
  obtain ⟨label?, hselect, hlabel⟩ := foldlM_select h ⟨none, none⟩ trail
  refine ⟨Trail.relabel { trail with label? }
    (checkUnion arena variants trail.path value (check arena value)).label?, ?_, fun hkept => ?_⟩
  · rw [toVariants, bind_apply, hselect]
    rfl
  · dsimp only at hkept ⊢
    rcases eq_or_ne variants [] with rfl | hvariants
    · rw [hlabel (Or.inr rfl)]
    · by_cases hpath : trail.path = []
      · -- At the root the union takes its own label, whatever its variants have left.
        obtain ⟨variant, -, -, hunion⟩ | ⟨-, hviolations⟩ :=
          @checkUnion_eq arena variants trail.path value (check arena value) hvariants
        · rw [hunion, Trail.relabel, Trail.relabel, if_pos hpath, if_pos hpath]
          rfl
        · exact absurd (hkept.resolve_left (not_not.mpr hpath)) hviolations
      · rw [hlabel (Or.inl hpath)]

theorem finds_both {left right : Trip Json} {outcome other : Path → Outcome}
    (hleft : Finds left outcome) (hright : Finds right other) (value : Json) :
    Finds (do
        let left ← left
        let right ← right
        return Json.mergeOutputs left right (some value))
      fun path => checkIntersection value (outcome path) (other path) := by
  intro trail
  obtain ⟨first?, hfirst, hlabel⟩ := hleft trail
  obtain ⟨last?, hlast, hlabel'⟩ :=
    hright { trail.write (outcome trail.path).violations with label? := first? }
  refine ⟨last?, ?_, fun hkept => ?_⟩
  · rw [bind_apply, hfirst, bind_apply, hlast]
    exact congrArg (Prod.mk _) (congrArg (Trail.mk trail.path · last?) (List.append_assoc _ _ _))
  · have hsides := hkept.imp_right List.append_eq_nil_iff.mp
    rw [hlabel' (hsides.imp_right And.right), hlabel (hsides.imp_right And.left)]
    exact Trail.relabel_relabel trail _ _ _

end Parts

/-- One call finds what the node finds, if the calls that it makes do. -/
theorem finds_turn {walk : NodeId → Json → Trip Json} {id : NodeId} {value : Json}
    (hagain : ∀ other, arena.Delegates id other →
      Finds (walk other value) (check arena value other))
    (hparts : ∀ part : Json, part.Part value → ∀ child ∈ (arena.node id).children,
      Finds (walk child part) (check arena part child)) :
    Finds (turn arena walk id value)
      (visit arena value (parts arena value) (check arena value) id) := by
  unfold turn visit
  cases hnode : arena.node id with
  | pending => exact finds_of_write fun trail => congrArg (Prod.mk value) trail.write_nil.symm
  | unknown => exact finds_of_write fun trail => congrArg (Prod.mk value) trail.write_nil.symm
  | string format => exact finds_look (checkString format) value
  | integer => exact finds_look checkInteger value
  | number => exact finds_look checkNumber value
  | boolean => exact finds_look checkBoolean value
  | literal expected => exact finds_look (checkLiteral expected) value
  | enum options => exact finds_look (checkEnum options) value
  | array item =>
      rw [hnode] at hparts
      cases value with
      | arr items =>
          exact finds_items fun part hpart =>
            hparts part (.item hpart) item (List.mem_singleton_self item)
      | _ => exact finds_look (fun path value => .reject path value (.type "array" value)) _
  | record item =>
      rw [hnode] at hparts
      cases value with
      | obj members =>
          exact finds_members fun member hmember =>
            hparts member.2 (.member hmember) item (List.mem_singleton_self item)
      | _ => exact finds_look (fun path value => .reject path value (.type "object" value)) _
  | object fields policy =>
      rw [hnode] at hparts
      cases value with
      | obj members =>
          exact finds_fields fun member hmember field hfield =>
            hparts member.2 (.member hmember) field.node (List.mem_map_of_mem hfield)
      | _ => exact finds_look (fun path value => .reject path value (.type "object" value)) _
  | union variants =>
      exact finds_toVariants fun variant hvariant => hagain _ (.variant hnode hvariant)
  | intersection left right =>
      exact finds_both (hagain left (.left hnode)) (hagain right (.right hnode)) value
  | entity key target => exact hagain target (.entity hnode)

/-- The walk finds what a check finds, if its calls may be nested as deep as they are. -/
theorem finds_walk (harena : arena.Settled) {n calls : Nat} {id : NodeId} {value : Json}
    (hbounded : Chain.Bounded (Calls arena) n (value, id)) (hcalls : n ≤ calls) :
    Finds (walk arena calls id value) (check arena value id) := by
  induction n generalizing calls id value with
  | zero => exact hbounded.elim
  | succ n ih =>
      obtain ⟨calls, rfl⟩ : ∃ k, calls = k + 1 := Nat.exists_eq_succ_of_ne_zero (by omega)
      rw [walk, funext (check_eq harena value id)]
      exact finds_turn
        (fun other hother => ih (hbounded _ (.again hother)) (by omega))
        fun part hpart child hchild => ih (hbounded _ (.part hpart hchild)) (by omega)

end Trip

end EntityContract.Walk
