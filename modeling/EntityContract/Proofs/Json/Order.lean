import EntityContract.Proofs.Json.Extension
import EntityContract.Proofs.Json.Pointer

/-!
The order of members. A value made from another one is in order if, wherever both are objects, the
keys of the first come in their order and before all new ones. Two values in order join to one in
order unless the right one holds a member of the input that the left one has dropped: it is put
behind all members on the left.
-/

namespace EntityContract

namespace Members

/-- One key stands before the other. -/
def Precedes (members : Members) (first second : String) : Prop :=
  [first, second].Sublist (members.map (·.1))

/-- The keys of the members come in their order among the outputs, and before all other keys. -/
def KeepsOrder (members outputs : Members) : Prop :=
  (outputs.map (·.1)).Pairwise fun first second =>
    second ∈ members.map (·.1) → members.Precedes first second

instance (members : Members) (first second : String) :
    Decidable (members.Precedes first second) :=
  inferInstanceAs (Decidable (List.Sublist _ _))

instance (members outputs : Members) : Decidable (members.KeepsOrder outputs) :=
  inferInstanceAs (Decidable (List.Pairwise _ _))

/-- The left side has dropped a member that is on the right, and holds a key that should be behind
it. -/
def Displaces (members lefts rights : Members) : Prop :=
  ∃ first ∈ lefts.map (·.1), ∃ second ∈ rights.map (·.1), second ∉ lefts.map (·.1) ∧
    second ∈ members.map (·.1) ∧ ¬members.Precedes first second

variable {members kept added lefts rights : Members}

theorem keepsOrder_of_sublist (h : (kept.map (·.1)).Sublist (members.map (·.1))) :
    members.KeepsOrder kept :=
  List.pairwise_iff_forall_sublist.mpr fun hpair _ => hpair.trans h

theorem KeepsOrder.append (hkept : members.KeepsOrder kept)
    (hadded : ∀ key ∈ added.map (·.1), key ∉ members.map (·.1)) :
    members.KeepsOrder (kept ++ added) := by
  rw [KeepsOrder, List.map_append, List.pairwise_append]
  refine ⟨hkept, ?_, fun _ _ second hsecond hmem => absurd hmem (hadded second hsecond)⟩
  exact List.pairwise_of_forall_mem_list fun _ _ second hsecond hmem =>
    absurd hmem (hadded second hsecond)

theorem mem_keys_filter_iff {key : String} :
    key ∈ (rights.filter fun member => !lefts.contains member.1).map (·.1) ↔
      key ∈ rights.map (·.1) ∧ key ∉ lefts.map (·.1) := by
  simp only [List.mem_map, List.mem_filter, Bool.not_eq_true', contains_eq_false_iff]
  constructor
  · rintro ⟨member, ⟨hmember, hnew⟩, rfl⟩
    exact ⟨⟨member, hmember, rfl⟩, by simpa using hnew⟩
  · rintro ⟨⟨member, hmember, rfl⟩, hnew⟩
    exact ⟨member, ⟨hmember, by simpa using hnew⟩, rfl⟩

/-- The members that are only on the right are put behind those on the left. -/
theorem keepsOrder_merge_iff (hlefts : members.KeepsOrder lefts)
    (hrights : members.KeepsOrder rights) (input : Option Json) :
    members.KeepsOrder (Json.mergeMembers lefts rights input ++
        rights.filter fun member => !lefts.contains member.1) ↔
      ¬members.Displaces lefts rights := by
  have hfiltered : ((rights.filter fun member => !lefts.contains member.1).map (·.1)).Pairwise
      fun first second => second ∈ members.map (·.1) → members.Precedes first second :=
    List.Pairwise.sublist (List.filter_sublist.map _) hrights
  rw [KeepsOrder, List.map_append, Json.keys_mergeMembers, List.pairwise_append]
  constructor
  · rintro ⟨-, -, hacross⟩ ⟨first, hfirst, second, hsecond, hnew, hmem, hnot⟩
    exact hnot (hacross first hfirst second (mem_keys_filter_iff.mpr ⟨hsecond, hnew⟩) hmem)
  · intro hnot
    refine ⟨hlefts, hfiltered, fun first hfirst second hsecond hmem => ?_⟩
    obtain ⟨hsecond, hnew⟩ := mem_keys_filter_iff.mp hsecond
    exact not_not.mp fun hprecedes =>
      hnot ⟨first, hfirst, second, hsecond, hnew, hmem, hprecedes⟩

end Members

namespace Json

/-- Wherever both values are objects, the output keeps the order of the value. -/
def InOrder (value output : Json) : Prop :=
  ∀ path (members outputs : Members), value.follow? path = some (.obj members) →
    output.follow? path = some (.obj outputs) → members.KeepsOrder outputs

/-- At some object of the value, joining both sides puts a member behind others that it precedes. -/
def Displaced (value left right : Json) : Prop :=
  ∃ (path : Path) (members lefts rights : Members), value.follow? path = some (.obj members) ∧
    left.follow? path = some (.obj lefts) ∧ right.follow? path = some (.obj rights) ∧
      members.Displaces lefts rights

variable {value output left right : Json}

theorem follow?_cons_eq_some_iff {segment : Segment} {path : Path} {part : Json} :
    value.follow? (segment :: path) = some part ↔
      ∃ inner, value.enter? segment = some inner ∧ inner.follow? path = some part := by
  rw [follow?_cons]
  exact Option.bind_eq_some_iff

theorem part_of_enter? {segment : Segment} {part : Json} (h : value.enter? segment = some part) :
    part.Part value := by
  cases value with
  | arr items =>
      cases segment with
      | index position => exact .item (List.mem_of_getElem? h)
      | key name => exact nomatch h
  | obj members =>
      cases segment with
      | index position => exact nomatch h
      | key name => exact part_of_lookup h
  | _ => cases segment <;> cases h

theorem inOrder_self (value : Json) : value.InOrder value := by
  intro path members outputs hvalue houtput
  rw [hvalue, Option.some.injEq, obj.injEq] at houtput
  subst houtput
  exact Members.keepsOrder_of_sublist (List.Sublist.refl _)

theorem InOrder.enter (h : value.InOrder output) {segment : Segment} {part result : Json}
    (hvalue : value.enter? segment = some part) (houtput : output.enter? segment = some result) :
    part.InOrder result :=
  fun path members outputs hpart hresult => h (segment :: path) members outputs
    (follow?_cons_eq_some_iff.mpr ⟨part, hvalue, hpart⟩)
    (follow?_cons_eq_some_iff.mpr ⟨result, houtput, hresult⟩)

/-- The members of the value itself, and then its parts. -/
theorem inOrder_of_enter (hhere : ∀ members outputs : Members, value = .obj members →
      output = .obj outputs → members.KeepsOrder outputs)
    (hparts : ∀ segment part result, value.enter? segment = some part →
      output.enter? segment = some result → part.InOrder result) : value.InOrder output := by
  intro path members outputs hvalue houtput
  cases path with
  | nil => exact hhere members outputs (Option.some.inj hvalue) (Option.some.inj houtput)
  | cons segment path =>
      obtain ⟨part, hpart, hvalue⟩ := follow?_cons_eq_some_iff.mp hvalue
      obtain ⟨result, hresult, houtput⟩ := follow?_cons_eq_some_iff.mp houtput
      exact hparts segment part result hpart hresult path members outputs hvalue houtput

theorem Displaced.of_enter {segment : Segment} {part leftPart rightPart : Json}
    (hvalue : value.enter? segment = some part) (hleft : left.enter? segment = some leftPart)
    (hright : right.enter? segment = some rightPart)
    (h : part.Displaced leftPart rightPart) : value.Displaced left right := by
  obtain ⟨path, members, lefts, rights, hpart, hlefts, hrights, hdisplaces⟩ := h
  exact ⟨segment :: path, members, lefts, rights,
    follow?_cons_eq_some_iff.mpr ⟨part, hvalue, hpart⟩,
    follow?_cons_eq_some_iff.mpr ⟨leftPart, hleft, hlefts⟩,
    follow?_cons_eq_some_iff.mpr ⟨rightPart, hright, hrights⟩, hdisplaces⟩

theorem Extends.enter {fixed : String → Prop} (h : value.Extends fixed output) {segment : Segment}
    {part : Json} (hpart : value.enter? segment = some part) :
    ∃ result, output.enter? segment = some result ∧ part.Extends fixed result := by
  cases value with
  | arr items =>
      obtain ⟨outputs, rfl, houtputs⟩ := extends_arr_iff.mp h
      cases segment with
      | key name => cases hpart
      | index position =>
          obtain ⟨hposition, rfl⟩ := List.getElem?_eq_some_iff.mp hpart
          rw [List.forall₂_iff_get] at houtputs
          obtain ⟨hlength, hget⟩ := houtputs
          have hposition' : position < outputs.length := hlength ▸ hposition
          exact ⟨_, List.getElem?_eq_getElem hposition', hget position hposition hposition'⟩
  | obj members =>
      obtain ⟨kept, added, rfl, hkept, -⟩ := extends_obj_iff.mp h
      cases segment with
      | index position => cases hpart
      | key name =>
          have hrel := lookup_of_kept hkept name
          rw [show members.lookup name = some part from hpart] at hrel
          generalize hlookup : kept.lookup name = found at hrel
          cases hrel with
          | some hmember =>
              refine ⟨_, ?_, hmember.value⟩
              show (kept ++ added).lookup name = _
              rw [List.lookup_append, hlookup, Option.some_or]
  | _ => cases segment <;> cases hpart

theorem Extends.follow {fixed : String → Prop} (h : value.Extends fixed output) {path : Path}
    {part : Json} (hpart : value.follow? path = some part) :
    ∃ result, output.follow? path = some result ∧ part.Extends fixed result := by
  induction path generalizing value output with
  | nil =>
      cases hpart
      exact ⟨output, rfl, h⟩
  | cons segment path ih =>
      obtain ⟨inner, hinner, hpart⟩ := follow?_cons_eq_some_iff.mp hpart
      obtain ⟨outer, houter, hextends⟩ := h.enter hinner
      obtain ⟨result, hresult, hextends⟩ := ih hextends hpart
      exact ⟨result, follow?_cons_eq_some_iff.mpr ⟨outer, houter, hresult⟩, hextends⟩

/-- A left side that extends the value drops no member. -/
theorem Extends.not_displaced {fixed : String → Prop} (h : value.Extends fixed left)
    (right : Json) : ¬value.Displaced left right := by
  rintro ⟨path, members, lefts, rights, hvalue, hleft, -, first, -, second, -, hnew, hmem, -⟩
  obtain ⟨result, hresult, hextends⟩ := h.follow hvalue
  rw [hleft, Option.some.injEq] at hresult
  subst hresult
  obtain ⟨kept, added, heq, hkept, -⟩ := extends_obj_iff.mp hextends
  cases heq
  rw [List.map_append, ← keys_eq_of_kept hkept] at hnew
  exact hnew (List.mem_append_left _ hmem)

theorem getElem?_mergeItems {lefts rights : List Json} (h : lefts.length = rights.length)
    (first position : Nat) (input : Option Json) :
    (mergeItems lefts rights first input)[position]? =
      mergeFound (input.bind (·.at? (first + position))) lefts[position]? rights[position]? := by
  induction lefts generalizing rights first position with
  | nil =>
      rw [List.eq_nil_of_length_eq_zero h.symm]
      rfl
  | cons left lefts ih =>
      obtain ⟨right, rights, rfl⟩ := List.exists_cons_of_length_eq_add_one h.symm
      rw [mergeItems]
      cases position with
      | zero => rfl
      | succ position =>
          rw [List.getElem?_cons_succ, List.getElem?_cons_succ, List.getElem?_cons_succ,
            ih (Nat.succ.inj h), Nat.add_right_comm, Nat.add_assoc]

/-- A step into what is joined part by part. -/
theorem enter?_mergeOutputs (h : Joinable left right) (input : Option Json) (segment : Segment) :
    (mergeOutputs left right input).enter? segment =
      mergeFound (input.bind (·.enter? segment)) (left.enter? segment)
        (right.enter? segment) := by
  rcases joined_cases left right with ⟨members, others, rfl, rfl⟩ |
    ⟨items, others, rfl, rfl, hlength⟩ | hnot
  · rw [mergeOutputs_obj]
    cases segment with
    | key name => exact lookup_mergeOutputs members others input name
    | index position => rfl
  · rw [mergeOutputs_items hlength]
    cases segment with
    | key name => rfl
    | index position =>
        have hitems := getElem?_mergeItems hlength 0 position input
        rw [Nat.zero_add] at hitems
        exact hitems
  · exact absurd h hnot

/-- One side is taken as a whole if they cannot be joined part by part. -/
theorem InOrder.chosen (hleft : value.InOrder left) (hright : value.InOrder right)
    (h : ¬Joinable left right) : value.InOrder (Json.mergeOutputs left right (some value)) := by
  rw [mergeOutputs_eq_chosen h]
  rcases chosen_eq_or left right (some value) with heq | heq
  · rwa [heq]
  · rwa [heq]

/-- Two sides that are in order join to an output in order, unless a member is displaced. -/
theorem InOrder.mergeOutputs (hleft : value.InOrder left) (hright : value.InOrder right)
    (h : ¬value.Displaced left right) :
    value.InOrder (Json.mergeOutputs left right (some value)) := by
  intro path members outputs hvalue houtput
  induction path generalizing value left right with
  | nil =>
      cases hvalue
      rcases joined_cases left right with ⟨lefts, rights, rfl, rfl⟩ |
        ⟨items, others, rfl, rfl, hlength⟩ | hnot
      · rw [mergeOutputs_obj, follow?_nil, Option.some.injEq, obj.injEq] at houtput
        subst houtput
        exact (Members.keepsOrder_merge_iff (hleft [] members lefts rfl rfl)
          (hright [] members rights rfl rfl) _).mpr fun hdisplaces =>
            h ⟨[], members, lefts, rights, rfl, rfl, rfl, hdisplaces⟩
      · rw [mergeOutputs_items hlength] at houtput
        exact nomatch houtput
      · exact hleft.chosen hright hnot [] members outputs rfl houtput
  | cons segment path ih =>
      by_cases hjoinable : Joinable left right
      · obtain ⟨part, hpart, hvalue⟩ := follow?_cons_eq_some_iff.mp hvalue
        obtain ⟨result, hresult, houtput⟩ := follow?_cons_eq_some_iff.mp houtput
        rw [enter?_mergeOutputs hjoinable, Option.bind_some, hpart] at hresult
        cases hl : left.enter? segment with
        | none =>
            rw [hl] at hresult
            exact hright.enter hpart hresult path members outputs hvalue houtput
        | some leftPart =>
            cases hr : right.enter? segment with
            | none =>
                rw [hl, hr] at hresult
                cases hresult
                exact hleft.enter hpart hl path members outputs hvalue houtput
            | some rightPart =>
                rw [hl, hr] at hresult
                cases hresult
                exact ih (hleft.enter hpart hl) (hright.enter hpart hr)
                  (fun hdisplaced => h (hdisplaced.of_enter hpart hl hr)) hvalue houtput
      · exact hleft.chosen hright hjoinable (segment :: path) members outputs hvalue houtput

end Json

end EntityContract
