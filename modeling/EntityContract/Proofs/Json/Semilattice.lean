import EntityContract.Proofs.Json.Gathering

/-!
Joining what two sides made of one input. Main statement: if the sides keep all parts of the input
and agree, the join gathers what both have made of it; so it loses no change and no new member, and
the order in which sides are joined does not matter.
-/

namespace EntityContract.Json

variable {input left right third value part : Json} {segment : Segment}

theorem joinable_of_widensTo (hleft : input.WidensTo left) (hright : input.WidensTo right)
    (hinput : ¬input.Scalar) : Joinable left right := by
  rcases scalar_or_parts input with hscalar | ⟨items, rfl⟩ | ⟨members, rfl⟩
  · exact absurd hscalar hinput
  · obtain ⟨lefts, rfl, hlefts⟩ := arr_widensTo_iff.mp hleft
    obtain ⟨rights, rfl, hrights⟩ := arr_widensTo_iff.mp hright
    exact hlefts.length_eq.symm.trans hrights.length_eq
  · obtain ⟨lefts, rfl, -⟩ := obj_widensTo_iff.mp hleft
    obtain ⟨rights, rfl, -⟩ := obj_widensTo_iff.mp hright
    trivial

theorem mergeOutputs_of_scalar (hinput : input.Scalar) (hleft : input.WidensTo left) :
    mergeOutputs left right (some input) = chosen left right (some input) := by
  apply mergeOutputs_eq_chosen
  have hscalar := (scalar_widensTo_iff hinput).mp hleft
  rcases joined_cases left right with ⟨lefts, rights, rfl, -⟩ | ⟨lefts, rights, rfl, -⟩ | hnot
  · exact hscalar.elim
  · exact hscalar.elim
  · exact hnot

/-- A join has every part of the input that both sides have. -/
theorem widensTo_mergeOutputs (hleft : input.WidensTo left) (hright : input.WidensTo right) :
    input.WidensTo (mergeOutputs left right (some input)) := by
  induction input using induct_parts generalizing left right with
  | step input ih =>
      rcases scalar_or_parts input with hscalar | ⟨items, rfl⟩ | ⟨members, rfl⟩
      · rw [mergeOutputs_of_scalar hscalar hleft]
        rcases chosen_eq_or left right (some input) with heq | heq
        · rwa [heq]
        · rwa [heq]
      · obtain ⟨lefts, rfl, hlefts⟩ := arr_widensTo_iff.mp hleft
        obtain ⟨rights, rfl, hrights⟩ := arr_widensTo_iff.mp hright
        rw [mergeOutputs_arr hlefts.length_eq hrights.length_eq]
        exact arr_widensTo_iff.mpr ⟨_, rfl, Pairing.zipWith3 hlefts hrights
          fun item hmem left right hl hr => ih item (.item hmem) hl hr⟩
      · obtain ⟨lefts, rfl, hlefts⟩ := obj_widensTo_iff.mp hleft
        obtain ⟨rights, rfl, hrights⟩ := obj_widensTo_iff.mp hright
        rw [mergeOutputs_obj]
        refine obj_widensTo_iff.mpr ⟨_, rfl, fun key value hvalue => ?_⟩
        obtain ⟨left, hl, hwidens⟩ := hlefts key value hvalue
        obtain ⟨right, hr, hwidens'⟩ := hrights key value hvalue
        refine ⟨mergeOutputs left right (some value), ?_,
          ih value (part_of_lookup hvalue) hwidens hwidens'⟩
        rw [lookup_mergeOutputs, hl, hr, Option.bind_some, get?, hvalue]
        rfl

theorem enter?_mergeOutputs_of_enter? {leftPart rightPart : Json} (hleft : input.WidensTo left)
    (hright : input.WidensTo right) (hpart : input.enter? segment = some part)
    (hl : left.enter? segment = some leftPart) (hr : right.enter? segment = some rightPart) :
    (mergeOutputs left right (some input)).enter? segment =
      some (mergeOutputs leftPart rightPart (some part)) := by
  have hinput : ¬input.Scalar := by
    intro hscalar
    rw [hscalar.enter?_eq_none] at hpart
    exact nomatch hpart
  rw [enter?_mergeOutputs (joinable_of_widensTo hleft hright hinput), Option.bind_some, hpart, hl,
    hr]
  rfl

theorem mergeOutputs_of_same (hleft : left.Proper) (hright : right.Proper)
    (h : left.same right = true) (input : Option Json) :
    (mergeOutputs left right input).same left = true := by
  have hjoin := mergeOutputs_same hleft hleft hright hleft (same_refl hleft)
    (same_symm hleft hright h) input
  rwa [mergeOutputs_self hleft] at hjoin

theorem exists_mergeFound_of_left {other? : Option Json} (hvalue : value.Proper)
    (hother : ∀ other ∈ other?, other.Proper ∧ value.same other = true) :
    ∃ result, mergeFound none (some value) other? = some result ∧ result.same value = true := by
  cases other? with
  | none => exact ⟨value, rfl, same_refl hvalue⟩
  | some other =>
      obtain ⟨hproper, hsame⟩ := hother other rfl
      exact ⟨_, rfl, mergeOutputs_of_same hvalue hproper hsame none⟩

theorem exists_mergeFound_of_right {other? : Option Json} (hvalue : value.Proper)
    (hother : ∀ other ∈ other?, other.Proper ∧ other.same value = true) :
    ∃ result, mergeFound none other? (some value) = some result ∧ result.same value = true := by
  cases other? with
  | none => exact ⟨value, rfl, same_refl hvalue⟩
  | some other =>
      obtain ⟨hproper, hsame⟩ := hother other rfl
      exact ⟨_, rfl, same_trans (mergeOutputs_of_same hproper hvalue hsame none) hsame⟩

/-- Where the input has nothing, what both sides add is equal, so that joining it without an input
changes nothing. -/
theorem collects_mergeOutputs (hleft : left.Proper) (hright : right.Proper)
    (hwidens : input.WidensTo left) (hwidens' : input.WidensTo right)
    (hagree : input.Agrees left right) (hnone : input.enter? segment = none) :
    Collects [left, right] (mergeOutputs left right (some input)) segment := by
  have hequal : ∀ value ∈ left.enter? segment, ∀ other ∈ right.enter? segment,
      value.same other = true := by
    intro value hl other hr
    obtain ⟨key, rfl, hadded⟩ := hwidens.added hnone hl
    obtain ⟨key', hkey, hadded'⟩ := hwidens'.added hnone hr
    cases hkey
    exact hagree.added [] key value other hadded hadded'
  have hmerged : (mergeOutputs left right (some input)).enter? segment =
      mergeFound none (left.enter? segment) (right.enter? segment) := by
    by_cases hscalar : input.Scalar
    · have hnothing : ∀ {side}, input.WidensTo side → side.enter? segment = none := fun hside =>
        ((scalar_widensTo_iff hscalar).mp hside).enter?_eq_none segment
      rw [hnothing hwidens, hnothing hwidens', hnothing (widensTo_mergeOutputs hwidens hwidens')]
      rfl
    · rw [enter?_mergeOutputs (joinable_of_widensTo hwidens hwidens' hscalar), Option.bind_some,
        hnone]
  constructor
  · simp only [List.forall_mem_cons, List.not_mem_nil, false_implies, implies_true, and_true,
      hmerged]
    constructor
    · intro value hl
      rw [hl]
      exact exists_mergeFound_of_left (hleft.part (part_of_enter? hl)) fun other hr =>
        ⟨hright.part (part_of_enter? hr), hequal value hl other hr⟩
    · intro value hr
      rw [hr]
      exact exists_mergeFound_of_right (hright.part (part_of_enter? hr)) fun other hl =>
        ⟨hleft.part (part_of_enter? hl), hequal other hl value hr⟩
  · intro result hresult
    rw [hmerged] at hresult
    cases hl : left.enter? segment with
    | some value => exact ⟨left, List.mem_cons_self, value, hl⟩
    | none =>
        rw [hl] at hresult
        exact ⟨right, by simp, result, hresult⟩

/-- Joining two sides that agree gathers what both have made of the input. -/
theorem gathers_mergeOutputs (hleft : left.Proper) (hright : right.Proper)
    (hwidens : input.WidensTo left) (hwidens' : input.WidensTo right)
    (hagree : input.Agrees left right) :
    Gathers input [left, right] (mergeOutputs left right (some input)) := by
  induction input using induct_parts generalizing left right with
  | step input ih =>
      apply Gathers.of_enter (by simp [hwidens, hwidens']) (by simp [hleft, hright])
        (hleft.mergeOutputs hright _) (by simp)
      · intro segment part hpart
        obtain ⟨leftPart, hl, hleftPart⟩ := hwidens.enter hpart
        obtain ⟨rightPart, hr, hrightPart⟩ := hwidens'.enter hpart
        have hparts : [left, right].filterMap (·.enter? segment) = [leftPart, rightPart] := by
          simp [hl, hr]
        refine ⟨_, enter?_mergeOutputs_of_enter? hwidens hwidens' hpart hl hr, ?_⟩
        rw [hparts]
        exact ih part (part_of_enter? hpart) (hleft.part (part_of_enter? hl))
          (hright.part (part_of_enter? hr)) hleftPart hrightPart (hagree.enter hpart hl hr)
      · intro segment hnone
        exact collects_mergeOutputs hleft hright hwidens hwidens' hagree hnone
      · exact widensTo_mergeOutputs hwidens hwidens'
      · intro hscalar side hside hdiffers
        rw [mergeOutputs_of_scalar hscalar hwidens]
        simp only [List.mem_cons, List.not_mem_nil, or_false] at hside
        -- The right side is chosen only if it alone has changed the scalar; else the sides agree.
        rcases hside with rfl | rfl
        · simp [chosen, hdiffers, same_refl hleft]
        · cases hsame : input.same left with
          | true => simp [chosen, hsame, hdiffers, same_refl hright]
          | false =>
              have hequal := hagree.changed [] _ _ (changed_nil_iff.mpr ⟨hscalar, rfl, hsame⟩)
                (changed_nil_iff.mpr ⟨hscalar, rfl, hdiffers⟩)
              simp [chosen, hsame, hequal]
      · intro hscalar hsame
        rw [mergeOutputs_of_scalar hscalar hwidens]
        have hequal := same_symm hscalar.proper hleft (hsame left List.mem_cons_self)
        simp [chosen, hsame, hequal]

/-- Over one input, joining is a semilattice operation on sides that agree, and it loses nothing
that a side has made of the input. -/
theorem mergeOutputs_semilattice
    (hsides : ∀ side ∈ [left, right, third], side.Proper ∧ input.WidensTo side)
    (hagree : [left, right, third].Pairwise input.Agrees) :
    Gathers input [left, right] (mergeOutputs left right (some input)) ∧
      (mergeOutputs left right (some input)).same (mergeOutputs right left (some input)) = true ∧
      (mergeOutputs (mergeOutputs left right (some input)) third (some input)).same
        (mergeOutputs left (mergeOutputs right third (some input)) (some input)) = true ∧
      mergeOutputs left left (some input) = left := by
  simp only [List.forall_mem_cons, List.not_mem_nil, false_implies, implies_true,
    and_true] at hsides
  obtain ⟨⟨hleft, hwidens⟩, ⟨hright, hwidens'⟩, hthird, hwidens''⟩ := hsides
  simp only [List.pairwise_cons, List.forall_mem_cons, List.not_mem_nil, false_implies,
    implies_true, and_true, List.Pairwise.nil] at hagree
  obtain ⟨⟨hagree, hagree'⟩, hagree''⟩ := hagree
  have hproper := hleft.mergeOutputs hright (some input)
  have hproper' := hright.mergeOutputs hthird (some input)
  have hjoin := gathers_mergeOutputs hleft hright hwidens hwidens' hagree
  have hjoin' := gathers_mergeOutputs hright hthird hwidens' hwidens'' hagree''
  refine ⟨hjoin, ?_, ?_, mergeOutputs_self hleft _⟩
  · have hswapped := gathers_mergeOutputs hright hleft hwidens' hwidens (hagree.symm hleft hright)
    apply hjoin.same (hswapped.congr fun side => by simp [or_comm]) hproper
      (hright.mergeOutputs hleft _)
    simp [hleft, hright]
  · have hagreeJoin : input.Agrees (mergeOutputs left right (some input)) third := by
      apply hjoin.agrees hproper
      simp [hagree', hagree'']
    have hagreeJoin' : input.Agrees (mergeOutputs right third (some input)) left := by
      apply hjoin'.agrees hproper'
      simp [hagree.symm hleft hright, hagree'.symm hleft hthird]
    have hall := hjoin.append hproper (gathers_mergeOutputs hproper hthird hjoin.widens hwidens''
      hagreeJoin)
    have hlast : Gathers input [mergeOutputs right third (some input), left]
        (mergeOutputs left (mergeOutputs right third (some input)) (some input)) :=
      (gathers_mergeOutputs hleft hproper' hwidens hjoin'.widens
        (hagreeJoin'.symm hproper' hleft)).congr fun side => by simp [or_comm]
    have hall' := hjoin'.append hproper' hlast
    apply hall.same (hall'.congr fun side => by simp [or_comm, or_left_comm])
      (hproper.mergeOutputs hthird _) (hleft.mergeOutputs hproper' _)
    simp [hleft, hright, hthird]

/-- A document with a count, an object of flags, and possibly more. -/
def boxDocument (count : Number) (flags rest : Members) : Json :=
  .obj (("count", .num count) :: ("flags", .obj flags) :: rest)

theorem widensTo_boxDocument (count count' : Number) (flags rest : Members) :
    (boxDocument count [] []).WidensTo (boxDocument count' flags rest) := by
  refine obj_widensTo_iff.mpr ⟨_, rfl, fun key value hvalue => ?_⟩
  have hmem := Association.mem_of_lookup hvalue
  simp only [List.mem_cons, Prod.mk.injEq, List.not_mem_nil, or_false] at hmem
  rcases hmem with ⟨rfl, rfl⟩ | ⟨rfl, rfl⟩
  · exact ⟨_, rfl, .scalar trivial trivial⟩
  · exact ⟨_, rfl, obj_widensTo_iff.mpr ⟨_, rfl, fun _ _ h => nomatch h⟩⟩

theorem agrees_boxDocument {count left right : Number} {lefts rights added added' : Members}
    (hcount : count.same left = false → count.same right = false → left.same right = true)
    (hflags : ∀ key value other, lefts.lookup key = some value → rights.lookup key = some other →
      value.same other = true)
    (hadded : ∀ key value other, added.lookup key = some value → added'.lookup key = some other →
      value.same other = true) :
    (boxDocument count [] []).Agrees (boxDocument left lefts added)
      (boxDocument right rights added') := by
  apply agrees_obj
  · intro key part value other hpart hvalue hother
    have hmem := Association.mem_of_lookup hpart
    simp only [List.mem_cons, Prod.mk.injEq, List.not_mem_nil, or_false] at hmem
    rcases hmem with ⟨rfl, rfl⟩ | ⟨rfl, rfl⟩
    · cases hvalue
      cases hother
      have hscalar : (num count).Scalar := trivial
      exact agrees_of_scalar hscalar (by simpa only [same] using hcount)
    · cases hvalue
      cases hother
      exact agrees_obj (fun _ _ _ _ h => nomatch h) fun key value other _ => hflags key value other
  · intro key value other hnone hvalue hother
    have hkey := Association.lookup_eq_none_iff.mp hnone
    simp only [List.map_cons, List.map_nil, List.mem_cons, List.not_mem_nil, or_false,
      not_or] at hkey
    simp only [List.lookup_cons, beq_false_of_ne hkey.1, beq_false_of_ne hkey.2] at hvalue hother
    exact hadded key value other hvalue hother

def boxInput : Json := boxDocument (.float ⟨false, 5 * 2 ^ 50, -50⟩) [] []

def flaggedBox : Json := boxDocument (.float ⟨false, 5 * 2 ^ 50, -50⟩) [("open", .bool false)] []

def countedBox : Json := boxDocument (.int 5) [] []

def labelledBox : Json := boxDocument (.int 5) [("open", .bool false)] [("label", .str "x")]

/-- One side fills in a flag and the other one writes the count as an integer: the join has both. -/
theorem mergeOutputs_semilattice_box :
    Gathers boxInput [flaggedBox, countedBox]
        (boxDocument (.int 5) [("open", .bool false)] []) ∧
      (mergeOutputs flaggedBox countedBox (some boxInput)).same
        (mergeOutputs countedBox flaggedBox (some boxInput)) = true ∧
      (mergeOutputs (mergeOutputs flaggedBox countedBox (some boxInput)) labelledBox
          (some boxInput)).same
        (mergeOutputs flaggedBox (mergeOutputs countedBox labelledBox (some boxInput))
          (some boxInput)) = true ∧
      mergeOutputs flaggedBox flaggedBox (some boxInput) = flaggedBox := by
  have hsides : ∀ side ∈ [flaggedBox, countedBox, labelledBox],
      side.Proper ∧ boxInput.WidensTo side := by
    simp only [List.forall_mem_cons, List.not_mem_nil, false_implies, implies_true, and_true]
    refine ⟨⟨?_, widensTo_boxDocument _ _ _ _⟩, ⟨?_, widensTo_boxDocument _ _ _ _⟩, ?_,
      widensTo_boxDocument _ _ _ _⟩
    · simp [flaggedBox, boxDocument]
    · simp [countedBox, boxDocument]
    · simp [labelledBox, boxDocument]
  have hagree : [flaggedBox, countedBox, labelledBox].Pairwise boxInput.Agrees := by
    simp only [List.pairwise_cons, List.forall_mem_cons, List.not_mem_nil, false_implies,
      implies_true, and_true, List.Pairwise.nil]
    refine ⟨⟨?_, ?_⟩, ?_⟩
    · exact agrees_boxDocument (by decide) (by simp) (by simp)
    · refine agrees_boxDocument (by decide) (fun key value other hvalue hother => ?_) (by simp)
      have hmem := Association.mem_of_lookup hvalue
      simp only [List.mem_singleton, Prod.mk.injEq] at hmem
      obtain ⟨rfl, rfl⟩ := hmem
      cases hother
      rfl
    · exact agrees_boxDocument (by decide) (by simp) (by simp)
  exact mergeOutputs_semilattice hsides hagree

end EntityContract.Json
