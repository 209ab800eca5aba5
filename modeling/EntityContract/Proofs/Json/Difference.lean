import EntityContract.Proofs.Json.Equality
import EntityContract.Proofs.Json.Order

/-!
Where two values differ. They agree off some paths if every other path leads to values of one form,
or nowhere in both; so members may stand in another order, and what is at or below the paths may be
anything.
-/

namespace EntityContract

/-- Neither path leads to the place of the other one or through it. -/
def Path.Apart (path other : Path) : Prop := ¬path <+: other ∧ ¬other <+: path

theorem Path.Apart.cons {path other : Path} (h : path.Apart other) (segment : Segment) :
    Path.Apart (segment :: path) (segment :: other) :=
  ⟨fun hprefix => h.1 (List.cons_prefix_cons.mp hprefix).2,
    fun hprefix => h.2 (List.cons_prefix_cons.mp hprefix).2⟩

theorem Path.apart_of_ne {segment segment' : Segment} (h : segment ≠ segment') (path other : Path) :
    Path.Apart (segment :: path) (segment' :: other) :=
  ⟨fun hprefix => h (List.cons_prefix_cons.mp hprefix).1,
    fun hprefix => h (List.cons_prefix_cons.mp hprefix).1.symm⟩

namespace Json

/-- Objects, arrays of one length, or equal values. -/
def SameForm : Json → Json → Prop
  | .arr items, .arr others => items.length = others.length
  | .obj _, .obj _ => True
  | value, other => value.same other = true

/-- The values differ only at the given paths and below them. -/
def AgreesOff (paths : List Path) (value other : Json) : Prop :=
  ∀ path, (∀ reported ∈ paths, ¬reported <+: path) →
    Option.Rel SameForm (value.follow? path) (other.follow? path)

variable {paths : List Path} {value other : Json}

theorem SameForm.exists_arr {items : List Json} (h : SameForm (.arr items) other) :
    ∃ others, other = .arr others ∧ items.length = others.length := by
  cases other with
  | arr others => exact ⟨others, rfl, h⟩
  | _ => exact absurd h (by simp [SameForm, same])

theorem SameForm.exists_obj {members : Members} (h : SameForm (.obj members) other) :
    ∃ others, other = .obj others := by
  cases other with
  | obj others => exact ⟨others, rfl⟩
  | _ => exact absurd h (by simp [SameForm, same])

theorem AgreesOff.sameForm (h : value.AgreesOff paths other) (hpaths : [] ∉ paths) :
    SameForm value other := by
  have hroot := h [] fun reported hreported hprefix =>
    hpaths (List.prefix_nil.mp hprefix ▸ hreported)
  rw [follow?_nil, follow?_nil, Option.rel_some_some] at hroot
  exact hroot

theorem follow?_singleton (value : Json) (segment : Segment) :
    value.follow? [segment] = value.enter? segment := by
  rw [follow?_cons]
  cases value.enter? segment <;> rfl

theorem AgreesOff.enter? (h : value.AgreesOff paths other) {segment : Segment}
    (hpaths : ∀ reported ∈ paths, ¬reported <+: [segment]) :
    Option.Rel SameForm (value.enter? segment) (other.enter? segment) := by
  rw [← follow?_singleton, ← follow?_singleton]
  exact h [segment] hpaths

/-- The values at one step differ at most where the step leads to a path. -/
theorem AgreesOff.of_enter? (h : value.AgreesOff paths other) {segment : Segment}
    {part otherPart : Json} (hpart : value.enter? segment = some part)
    (hother : other.enter? segment = some otherPart)
    {further : List Path} (hfurther : ∀ reported ∈ paths, ∀ path, reported <+: segment :: path →
      ∃ reported ∈ further, reported <+: path) :
    part.AgreesOff further otherPart := by
  intro path hpath
  have hstep := h (segment :: path) fun reported hreported hprefix =>
    (hfurther reported hreported path hprefix).elim fun _ hfound => hpath _ hfound.1 hfound.2
  rwa [follow?_cons, follow?_cons, hpart, hother, Option.bind_some, Option.bind_some] at hstep

/-- Values that agree everywhere are equal. -/
theorem AgreesOff.same (h : value.AgreesOff [] other) (hvalue : value.Proper)
    (hother : other.Proper) : value.same other = true := by
  induction value using induct_parts generalizing other with
  | step value ih =>
      have hform := h.sameForm List.not_mem_nil
      have hpart : ∀ {segment : Segment} {part otherPart : Json},
          value.enter? segment = some part → other.enter? segment = some otherPart →
            part.same otherPart = true := fun {segment part otherPart} henter henter' =>
        ih part (part_of_enter? henter) (h.of_enter? henter henter' fun _ hreported =>
            absurd hreported List.not_mem_nil) (hvalue.part (part_of_enter? henter))
          (hother.part (part_of_enter? henter'))
      cases value with
      | arr items =>
          obtain ⟨others, rfl, hlength⟩ := hform.exists_arr
          refine same_arr_iff.mpr (List.forall₂_iff_get.mpr ⟨hlength, fun i hi hi' => ?_⟩)
          exact @hpart (.index i) _ _ (List.getElem?_eq_getElem hi) (List.getElem?_eq_getElem hi')
      | obj members =>
          obtain ⟨others, rfl⟩ := hform.exists_obj
          refine (same_obj_iff_lookup hvalue.nodup hother.nodup).mpr fun key => ?_
          have henter : Option.Rel SameForm (members.lookup key) (others.lookup key) :=
            @AgreesOff.enter? [] _ _ h (.key key) fun _ hreported =>
              absurd hreported List.not_mem_nil
          cases hlookup : members.lookup key with
          | none =>
              rw [hlookup] at henter
              generalize others.lookup key = other? at henter ⊢
              cases henter
              exact .none
          | some part =>
              cases hlookup' : others.lookup key with
              | none =>
                  rw [hlookup, hlookup'] at henter
                  exact nomatch henter
              | some otherPart => exact .some (@hpart (.key key) _ _ hlookup hlookup')
      | _ => exact hform

/-- Wherever a path leads in the first value, it leads somewhere in the other one. -/
def Within (value other : Json) : Prop :=
  ∀ path, (value.follow? path).isSome = true → (other.follow? path).isSome = true

theorem within_of_enter? (h : ∀ segment part, value.enter? segment = some part →
    ∃ otherPart, other.enter? segment = some otherPart ∧ part.Within otherPart) :
    value.Within other := by
  intro path hpath
  cases path with
  | nil => rfl
  | cons segment path =>
      rw [follow?_cons] at hpath ⊢
      cases hpart : value.enter? segment with
      | none =>
          rw [hpart] at hpath
          exact absurd hpath Bool.false_ne_true
      | some part =>
          obtain ⟨otherPart, hother, hwithin⟩ := h segment part hpart
          rw [hpart] at hpath
          rw [hother]
          exact hwithin path hpath

theorem within_of_enter?_eq_none (h : ∀ segment, value.enter? segment = none) :
    value.Within other :=
  within_of_enter? fun segment _ hpart => absurd hpart (by simp [h segment])

theorem within_obj {members others : Members}
    (h : ∀ member ∈ members, ∃ part, others.lookup member.1 = some part ∧ member.2.Within part) :
    (obj members).Within (obj others) := by
  refine within_of_enter? fun segment part hpart => ?_
  cases segment with
  | index position => exact nomatch hpart
  | key name => exact h (name, part) (Association.mem_of_lookup hpart)

/-- In equal values the same paths lead somewhere. -/
theorem within_of_same (h : value.same other = true) : value.Within other := by
  induction value generalizing other with
  | arr items ih =>
      obtain ⟨others, rfl, hitems⟩ := exists_of_same_arr h
      refine within_of_enter? fun segment part hpart => ?_
      cases segment with
      | key name => exact nomatch hpart
      | index position =>
          have hsome : items[position]? = some part := hpart
          have hrel := Pairing.getElem? hitems position
          rw [hsome] at hrel
          generalize hother : others[position]? = other? at hrel
          cases hrel with
          | some hsame => exact ⟨_, hother, ih part (List.mem_of_getElem? hsome) hsame⟩
  | obj members ih =>
      obtain ⟨others, rfl, -, hmembers⟩ := exists_of_same_obj h
      refine within_obj fun member hmember => ?_
      obtain ⟨part, hpart, hsame⟩ := hmembers member hmember
      exact ⟨part, hpart, ih member hmember hsame⟩
  | _ => exact within_of_enter?_eq_none fun segment => by cases segment <;> rfl

end Json

end EntityContract
