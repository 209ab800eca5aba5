import Mathlib.Data.List.Basic
import Mathlib.Logic.Function.Iterate
import EntityContract.Proofs.Arena.Declaration
import EntityContract.Proofs.Validation.Twins

/-!
Everything that runs on a compiled arena ends. The walk and the sample are recursions that are given
a bound on the number of calls; in a well-formed arena neither ever asks beyond it, and neither do
following entities and collecting declared names.
-/

namespace EntityContract

open Relation

/-- What compilation promises of an arena. -/
structure Arena.WellFormed (arena : Arena) : Prop where
  filled : ∀ {id : NodeId}, id < arena.size → arena.node id ≠ .pending
  child_lt : ∀ {id : NodeId}, ∀ child ∈ (arena.node id).children, child < arena.size
  entity_unique : ∀ {id other : NodeId} {key : String} {target target' : NodeId},
    arena.node id = .entity key target → arena.node other = .entity key target' → id = other
  acyclic : ∀ id, ¬TransGen arena.Delegates id id
  /-- Only entities refer to nodes after them. -/
  falling : ∀ {id : NodeId}, (∀ key target, arena.node id ≠ .entity key target) →
    ∀ child ∈ (arena.node id).children, child < id

namespace Arena

variable {registry : Registry} {arena : Arena} {labels : List Shape} {id : NodeId}

theorem Labelled.wellFormed (h : arena.Labelled registry labels) (hregistry : registry.Indexed) :
    arena.WellFormed where
  filled := by
    intro id hid hpending
    obtain ⟨shape, hshape⟩ := h.exists_label hid
    have hfits := h.fits hshape
    rw [hpending] at hfits
    exact nomatch hfits
  child_lt := by
    intro id child hchild
    by_cases hid : id < arena.size
    · obtain ⟨shape, hshape⟩ := h.exists_label hid
      rw [← h.length_eq]
      exact (h.fits hshape).lt_length hchild
    · rw [node_eq_pending_of_size_le (Nat.le_of_not_lt hid)] at hchild
      exact nomatch hchild
  entity_unique := by
    intro id other key target target' hid hother
    have hlabel : ∀ {id target}, arena.node id = .entity key target →
        labels[id]? = some (.ref key) := by
      intro id target hnode
      have hlt : id < arena.size := lt_size_of_delegates (.entity hnode)
      obtain ⟨shape, hshape⟩ := h.exists_label hlt
      have hfits := h.fits hshape
      rw [hnode] at hfits
      cases hfits with
      | entity => exact hshape
    exact h.entity_unique (hlabel hid) (hlabel hother)
  acyclic := fun id => Chain.not_transGen_self_of_acc (h.acc_delegates hregistry id)
  falling := h.child_lt

namespace WellFormed

variable (harena : arena.WellFormed)

include harena

/-- A value is left to no node twice. -/
theorem bounded_delegates (hid : id < arena.size) :
    Chain.Bounded arena.Delegates arena.size id := by
  have hclosed : ∀ id other, arena.Delegates id other → other ∈ List.range arena.size :=
    fun id other hother => List.mem_range.mpr (harena.child_lt other hother.mem_children)
  have hbounded := Chain.bounded_of_closed hclosed harena.acyclic (List.mem_range.mpr hid)
  rwa [List.length_range] at hbounded

theorem settled : arena.Settled := by
  intro id
  by_cases hid : id < arena.size
  · exact (harena.bounded_delegates hid).mono (Nat.le_succ _)
  · exact fun other hother => absurd (lt_size_of_delegates hother) hid

/-- Following entities comes to another node before there are no steps left. -/
theorem exists_resolve_eq (hid : id < arena.size) :
    ∃ steps < arena.size, arena.resolve id = arena.resolveWithin steps id ∧
      ∀ key target, arena.node (arena.resolve id) ≠ .entity key target := by
  have hbounded := harena.bounded_delegates hid
  obtain ⟨steps, hsteps⟩ : ∃ steps, arena.size = steps + 1 :=
    Nat.exists_eq_succ_of_ne_zero (Nat.ne_zero_of_lt hid)
  rw [hsteps] at hbounded
  have hresolve : arena.resolve id = arena.resolveWithin steps id := by
    rw [resolve, hsteps]
    exact resolveWithin_of_bounded hbounded (Nat.le_succ steps)
  refine ⟨steps, by omega, hresolve, ?_⟩
  rw [hresolve]
  exact node_resolveWithin_ne_entity hbounded

end WellFormed

/-- The nodes that are searched for declared names below a node. -/
def Searches (arena : Arena) (id other : NodeId) : Prop :=
  ∃ left right, arena.node (arena.resolve id) = .intersection left right ∧
    (other = left ∨ other = right)

theorem along_declares : Chain.Along arena.Searches arena.declares := by
  intro f g id h
  rw [declares, declares]
  cases hnode : arena.node (arena.resolve id) with
  | intersection left right =>
      dsimp only
      rw [h left ⟨left, right, hnode, .inl rfl⟩, h right ⟨left, right, hnode, .inr rfl⟩]
  | _ => rfl

theorem bounded_searches {n : Nat} (h : Chain.Bounded arena.Delegates n id) :
    Chain.Bounded arena.Searches n id := by
  induction n generalizing id with
  | zero => exact h.elim
  | succ n ih =>
      rintro other ⟨left, right, hnode, hother⟩
      have hresolved := bounded_resolveWithin h arena.size
      rcases hother with rfl | rfl
      · exact ih (hresolved _ (.left hnode))
      · exact ih (hresolved _ (.right hnode))

theorem declaredWithin_eq_iterate (steps : Nat) :
    arena.declaredWithin steps = arena.declares^[steps] fun _ => [] := by
  induction steps with
  | zero => rfl
  | succ steps ih => rw [declaredWithin, ih, Function.iterate_succ_apply']

/-- The search for declared names never asks below as many nodes as there are. -/
theorem WellFormed.iterate_declares (harena : arena.WellFormed) (hid : id < arena.size)
    (beyond : NodeId → List String) {calls : Nat} (hcalls : arena.size ≤ calls) :
    arena.declares^[calls] beyond id = arena.declared id := by
  rw [declared, declaredWithin_eq_iterate]
  exact along_declares.iterate_eq (bounded_searches (harena.bounded_delegates hid)) hcalls
    (Nat.le_succ _) _ _

end Arena

namespace Walk

variable {arena : Arena}

/-- One call of the walk, for a value and a node, given what the calls that it makes bring. -/
def turn (arena : Arena) (recurse : Json × NodeId → Path → Outcome) (call : Json × NodeId) :
    Path → Outcome :=
  visit arena call.1 (partsBy (fun part id => recurse (part, id)) call.1)
    (fun id => recurse (call.1, id)) call.2

/-- The calls in a call of the walk are for the same value, or for one of its parts. -/
inductive Calls (arena : Arena) : Json × NodeId → Json × NodeId → Prop
  | again {value : Json} {id other : NodeId} :
      arena.Delegates id other → Calls arena (value, id) (value, other)
  | part {value part : Json} {id child : NodeId} :
      part.Part value → child ∈ (arena.node id).children → Calls arena (value, id) (part, child)

theorem along_turn : Chain.Along (Calls arena) (turn arena) := by
  rintro f g ⟨value, id⟩ h
  funext path
  refine visit_twin (Node.twin_refl _) ?_ ?_ ?_
  · rintro part hpart child _ ⟨rfl, hchild⟩ path
    rw [h _ (.part hpart hchild)]
  · rintro child _ ⟨rfl, -⟩
    rfl
  · rintro other _ hother ⟨rfl, -⟩
    rw [h _ (.again hother)]

theorem turn_check (harena : arena.Settled) :
    turn arena (fun call => check arena call.1 call.2) = fun call => check arena call.1 call.2 := by
  funext call path
  rw [check_eq harena, turn, ← partsBy_check]

/-- No node repeats until the walk goes to a part of the value. -/
theorem bounded_calls (harena : arena.WellFormed) (value : Json) {id : NodeId}
    (hid : id < arena.size) :
    Chain.Bounded (Calls arena) ((value.depth + 1) * arena.size) (value, id) := by
  induction value using Json.induct_parts generalizing id with
  | step value ih =>
      have hparts : ∀ part : Json, part.Part value → ∀ child < arena.size,
          Chain.Bounded (Calls arena) (value.depth * arena.size) (part, child) :=
        fun part hpart child hchild =>
          (ih part hpart hchild).mono (Nat.mul_le_mul_right _ hpart.depth_lt)
      have hstay : ∀ n id, Chain.Bounded arena.Delegates n id →
          Chain.Bounded (Calls arena) (value.depth * arena.size + n) (value, id) := by
        intro n
        induction n with
        | zero => exact fun id h => h.elim
        | succ n ihStay =>
            rintro id h ⟨other, child⟩ hcall
            cases hcall with
            | again hother => exact ihStay child (h child hother)
            | part hpart hchild =>
                exact (hparts other hpart child (harena.child_lt child hchild)).mono
                  (Nat.le_add_right _ _)
      rw [Nat.succ_mul]
      exact hstay arena.size id (harena.bounded_delegates hid)

/-- The walk never makes more nested calls than there are nodes for each level of the value. -/
theorem iterate_turn (harena : arena.WellFormed) (value : Json) {id : NodeId}
    (hid : id < arena.size) (beyond : Json × NodeId → Path → Outcome) {calls : Nat}
    (hcalls : (value.depth + 1) * arena.size ≤ calls) :
    (turn arena)^[calls] beyond (value, id) = check arena value id :=
  along_turn.iterate_eq_of_fixed (bounded_calls harena value hid) hcalls beyond
    (turn_check harena.settled)

end Walk

namespace Sample

variable {arena : Arena}

/-- One call for a sample, below the entities on the way, given what the calls that it makes
bring. -/
def turn (arena : Arena) (recurse : List NodeId × NodeId → Json) (call : List NodeId × NodeId) :
    Json :=
  visit arena (fun onTheWay id => recurse (onTheWay, id)) call.1 call.2

/-- A call for an entity puts it on the way, once; other calls go to earlier nodes. -/
inductive Calls (arena : Arena) : List NodeId × NodeId → List NodeId × NodeId → Prop
  | entity {onTheWay : List NodeId} {id : NodeId} {key : String} {target : NodeId} :
      arena.node id = .entity key target → id ∉ onTheWay →
        Calls arena (onTheWay, id) (id :: onTheWay, target)
  | child {onTheWay : List NodeId} {id child : NodeId} :
      (∀ key target, arena.node id ≠ .entity key target) → child ∈ (arena.node id).children →
        Calls arena (onTheWay, id) (onTheWay, child)

theorem along_turn : Chain.Along (Calls arena) (turn arena) := by
  rintro f g ⟨onTheWay, id⟩ h
  refine visit_twin (Node.twin_refl _) ?_ ?_
  · rintro key target _ hnode - ⟨rfl, -⟩
    exact ⟨Iff.rfl, fun hnew => h _ (.entity hnode hnew)⟩
  · rintro hother child _ hchild ⟨rfl, -⟩
    exact h _ (.child hother hchild)

/-- The nodes that are not on the way. -/
def fresh (arena : Arena) (onTheWay : List NodeId) : List NodeId :=
  (List.range arena.size).filter fun id => id ∉ onTheWay

theorem length_fresh_cons_lt {onTheWay : List NodeId} {id : NodeId} (hid : id < arena.size)
    (hnew : id ∉ onTheWay) :
    (fresh arena (id :: onTheWay)).length < (fresh arena onTheWay).length := by
  have hfilter : fresh arena (id :: onTheWay) =
      (fresh arena onTheWay).filter fun other => other ≠ id := by
    rw [fresh, fresh, List.filter_filter]
    apply List.filter_congr
    intro other _
    simp only [List.mem_cons, not_or, ne_eq, Bool.decide_and]
  rw [hfilter, List.length_filter_lt_length_iff_exists]
  refine ⟨id, ?_, by simp⟩
  simp [fresh, hid, hnew]

/-- Until the next entity is put on the way the nodes fall. -/
theorem bounded_calls (harena : arena.WellFormed) {n : Nat} {onTheWay : List NodeId} {id : NodeId}
    (hid : id < arena.size)
    (hn : (fresh arena onTheWay).length * (arena.size + 1) + id < n) :
    Chain.Bounded (Calls arena) n (onTheWay, id) := by
  induction n generalizing onTheWay id with
  | zero => omega
  | succ n ih =>
      rintro ⟨next, child⟩ hcall
      cases hcall with
      | entity hnode hnew =>
          have hmem : child ∈ (arena.node id).children := by
            simp [hnode, Node.children]
          have htarget : child < arena.size := harena.child_lt child hmem
          have hfresh := Nat.mul_le_mul_right (arena.size + 1) (length_fresh_cons_lt hid hnew)
          rw [Nat.succ_mul] at hfresh
          have hlt := Nat.add_lt_add_left (Nat.lt_succ_of_lt htarget)
            ((fresh arena (id :: onTheWay)).length * (arena.size + 1))
          apply ih htarget
          omega
      | child hother hchild =>
          have hfalls := harena.falling hother child hchild
          have hlt := Nat.add_lt_add_left hfalls
            ((fresh arena onTheWay).length * (arena.size + 1))
          exact ih (Nat.lt_trans hfalls hid) (Nat.lt_of_lt_of_le hlt (Nat.le_of_lt_succ hn))

theorem generate_eq_iterate (steps : Nat) (call : List NodeId × NodeId) :
    generate arena steps call.1 call.2 = (turn arena)^[steps] (fun _ => .null) call := by
  induction steps generalizing call with
  | zero => rfl
  | succ steps ih =>
      rw [Function.iterate_succ_apply', generate, turn]
      congr 1
      funext onTheWay id
      exact ih (onTheWay, id)

theorem bounded_calls_root (harena : arena.WellFormed) {root : NodeId} (hroot : root < arena.size) :
    Chain.Bounded (Calls arena) ((arena.size + 1) * (arena.size + 1)) ([], root) := by
  have hlength : (fresh arena []).length = arena.size := by
    simp [fresh]
  apply bounded_calls harena hroot
  rw [hlength, Nat.succ_mul]
  exact Nat.add_lt_add_left (Nat.lt_succ_of_lt hroot) _

/-- The sample never makes more nested calls than it may. -/
theorem iterate_turn (harena : arena.WellFormed) {root : NodeId} (hroot : root < arena.size)
    (beyond : List NodeId × NodeId → Json) {calls : Nat}
    (hcalls : (arena.size + 1) * (arena.size + 1) ≤ calls) :
    (turn arena)^[calls] beyond ([], root) = minimal arena root := by
  rw [minimal, generate_eq_iterate _ ([], root)]
  exact along_turn.iterate_eq (bounded_calls_root harena hroot) hcalls (Nat.le_refl _) _ _

end Sample

/-- What is started at the root ends: no answer from beyond the bounds is ever asked for. -/
structure Arena.Ends (arena : Arena) (root : NodeId) : Prop where
  root_lt : root < arena.size
  walk : ∀ (value : Json) (beyond : Json × NodeId → Path → Outcome) (calls : Nat),
    (value.depth + 1) * arena.size ≤ calls →
      (Walk.turn arena)^[calls] beyond (value, root) = Walk.check arena value root
  sample : ∀ (beyond : List NodeId × NodeId → Json) (calls : Nat),
    (arena.size + 1) * (arena.size + 1) ≤ calls →
      (Sample.turn arena)^[calls] beyond ([], root) = Sample.minimal arena root
  resolve : ∀ id < arena.size, ∃ steps < arena.size,
    arena.resolve id = arena.resolveWithin steps id ∧
      ∀ key target, arena.node (arena.resolve id) ≠ .entity key target
  declared : ∀ id < arena.size, ∀ (beyond : NodeId → List String) (calls : Nat),
    arena.size ≤ calls → arena.declares^[calls] beyond id = arena.declared id

theorem Arena.WellFormed.ends {arena : Arena} (harena : arena.WellFormed) {root : NodeId}
    (hroot : root < arena.size) : arena.Ends root where
  root_lt := hroot
  walk := fun value beyond _ => Walk.iterate_turn harena value hroot beyond
  sample := fun beyond _ => Sample.iterate_turn harena hroot beyond
  resolve := fun _ => harena.exists_resolve_eq
  declared := fun _ hid beyond _ => harena.iterate_declares hid beyond

theorem Arena.Checks.wellFormed {registry : Registry} {arena : Arena} {root : NodeId}
    {shape : Shape} (h : arena.Checks registry root shape) (hregistry : registry.Indexed) :
    arena.WellFormed ∧ arena.Ends root := by
  obtain ⟨labels, harena, hroot⟩ := h
  have hwell := harena.wellFormed hregistry
  have hlt := (List.getElem?_eq_some_iff.mp hroot).1
  rw [harena.length_eq] at hlt
  exact ⟨hwell, hwell.ends hlt⟩

namespace Registry

variable {registry : Registry}

/-- However a validator is compiled, its arena is well-formed, and what runs on it ends. -/
theorem compile_wellFormed {entries : List (String × Json)}
    (hproper : ∀ entry ∈ entries, entry.2.Proper) (hentries : ofEntries entries = .ok registry) :
    (∀ key validator, registry.compile key = .ok validator →
      validator.arena.WellFormed ∧ validator.arena.Ends validator.root) ∧
    (∀ shape validator, registry.compileShape shape = .ok validator →
      validator.arena.WellFormed ∧ validator.arena.Ends validator.root) ∧
    ∀ set, registry.compileAll = .ok set →
      set.arena.WellFormed ∧ ∀ root ∈ set.roots, set.arena.Ends root.2 := by
  have hregistry := indexed_of_ofEntries hproper hentries
  refine ⟨fun key validator hcompile => (checks_of_compile hcompile).wellFormed hregistry,
    fun shape validator hcompile => (checks_of_compileShape hcompile).wellFormed hregistry,
    fun set hcompile => ?_⟩
  obtain ⟨labels, harena, -, hroots⟩ := labelled_of_roots (compileAll_eq_ok_iff.mp hcompile)
  refine ⟨harena.wellFormed hregistry, fun root hroot => ?_⟩
  have hchecks : set.arena.Checks registry root.2 (.ref root.1) :=
    ⟨labels, harena, hroots root hroot⟩
  exact (hchecks.wellFormed hregistry).2

/-- A link of a chain that has no end. -/
def linkDefinition : Json :=
  .obj [("type", .str "object"), ("properties", .obj [("next", .obj [("$ref", .str
    "#/components/schemas/Link")])]), ("required", .arr [.str "next"])]

def linkRegistry : Registry :=
  ⟨[⟨"Link", linkDefinition, .object [("next", .ref "Link")] .passthrough⟩]⟩

def linkArena : Arena := ⟨#[.entity "Link" 1, .object [⟨"next", 0, true, none⟩] .passthrough]⟩

theorem compile_wellFormed_link :
    linkArena.WellFormed ∧ linkArena.Ends 0 ∧
      Sample.minimal linkArena 0 = .obj [("next", .null)] := by
  have hproper : ∀ entry ∈ [("Link", linkDefinition)], entry.2.Proper := by
    simp [linkDefinition]
  -- References are read by a search in the text, which is irreducible.
  have hentries : ofEntries [("Link", linkDefinition)] = .ok linkRegistry := by
    with_unfolding_all rfl
  have hcompile : linkRegistry.compileAll = .ok ⟨linkArena, [("Link", 0)]⟩ := by rfl
  obtain ⟨hwell, hends⟩ := (compile_wellFormed hproper hentries).2.2 _ hcompile
  exact ⟨hwell, hends ("Link", 0) List.mem_cons_self, by rfl⟩

end Registry

end EntityContract
