import EntityContract.Proofs.Json.Difference

/-!
What a side makes of an input when it keeps all parts of it: it may change scalars and add members
to objects. Two sides agree if they make equal values of what both change and of what both add.
-/

namespace EntityContract.Json

/-- The second value has every part of the first one. Its objects may have further members, and its
scalars may be others. -/
inductive WidensTo : Json → Json → Prop
  | scalar {value other : Json} : value.Scalar → other.Scalar → WidensTo value other
  | arr {items others : List Json} :
      items.length = others.length →
      (∀ pair ∈ items.zip others, WidensTo pair.1 pair.2) →
        WidensTo (.arr items) (.arr others)
  | obj {members others : Members} :
      (∀ key ∈ members.map (·.1), key ∈ others.map (·.1)) →
      (∀ key value other, members.lookup key = some value → others.lookup key = some other →
        WidensTo value other) →
        WidensTo (.obj members) (.obj others)

/-- At this path is an object with this key. -/
def HasKey (value : Json) (path : Path) (key : String) : Prop :=
  ∃ members, value.follow? path = some (.obj members) ∧ key ∈ members.map (·.1)

/-- At this path is a value equal to the given one. -/
def Holds (value : Json) (path : Path) (part : Json) : Prop :=
  ∃ found, value.follow? path = some found ∧ found.same part = true

/-- Where the input has a scalar, the side has a value that is not equal to it. -/
def Changed (input side : Json) (path : Path) (value : Json) : Prop :=
  ∃ old, input.follow? path = some old ∧ old.Scalar ∧ side.follow? path = some value ∧
    old.same value = false

/-- Where the input has an object without this key, the side has a member of that key. -/
def Added (input side : Json) (path : Path) (key : String) (value : Json) : Prop :=
  ∃ members, input.follow? path = some (.obj members) ∧ key ∉ members.map (·.1) ∧
    side.follow? (path ++ [.key key]) = some value

/-- Two sides make equal values of what both of them change, and of what both of them add. -/
structure Agrees (input left right : Json) : Prop where
  changed : ∀ path value other, input.Changed left path value →
    input.Changed right path other → value.same other = true
  added : ∀ path key value other, input.Added left path key value →
    input.Added right path key other → value.same other = true

variable {input left right side output value other part : Json} {segment : Segment} {path : Path}
  {key : String}

theorem scalar_or_parts (value : Json) :
    value.Scalar ∨ (∃ items, value = .arr items) ∨ ∃ members, value = .obj members := by
  cases value <;> simp [Scalar]

theorem Scalar.enter?_eq_none (h : value.Scalar) (segment : Segment) :
    value.enter? segment = none := by
  cases value with
  | arr items => exact h.elim
  | obj members => exact h.elim
  | _ => cases segment <;> rfl

theorem Scalar.proper (h : value.Scalar) : value.Proper := by
  cases value with
  | arr items => exact h.elim
  | obj members => exact h.elim
  | _ => simp

theorem Proper.follow? (h : value.Proper) (hpart : value.follow? path = some part) :
    part.Proper := by
  induction path generalizing value with
  | nil => exact Option.some.inj hpart ▸ h
  | cons segment path ih =>
      obtain ⟨inner, hinner, hfollow⟩ := follow?_cons_eq_some_iff.mp hpart
      exact ih (h.part (part_of_enter? hinner)) hfollow

theorem scalar_widensTo_iff (h : value.Scalar) : value.WidensTo output ↔ output.Scalar := by
  constructor
  · intro hwidens
    cases hwidens with
    | scalar _ houtput => exact houtput
    | arr _ _ => exact h.elim
    | obj _ _ => exact h.elim
  · exact .scalar h

theorem arr_widensTo_iff {items : List Json} : (arr items).WidensTo output ↔
    ∃ outputs, output = .arr outputs ∧ List.Forall₂ WidensTo items outputs := by
  constructor
  · intro h
    cases h with
    | scalar hscalar _ => exact hscalar.elim
    | arr hlength hitems =>
        exact ⟨_, rfl, List.forall₂_iff_zip.mpr ⟨hlength, fun hmem => hitems _ hmem⟩⟩
  · rintro ⟨outputs, rfl, h⟩
    obtain ⟨hlength, hitems⟩ := List.forall₂_iff_zip.mp h
    exact .arr hlength fun pair hmem => hitems hmem

theorem obj_widensTo_iff {members : Members} : (obj members).WidensTo output ↔
    ∃ others, output = .obj others ∧ ∀ key value, members.lookup key = some value →
      ∃ other, others.lookup key = some other ∧ value.WidensTo other := by
  constructor
  · intro h
    cases h with
    | scalar hscalar _ => exact hscalar.elim
    | obj hkeys hvalues =>
        refine ⟨_, rfl, fun key value hlookup => ?_⟩
        have hmem := Association.mem_of_lookup hlookup
        have hkey := hkeys key (List.mem_map_of_mem (f := (·.1)) hmem)
        obtain ⟨other, hother⟩ := Association.exists_lookup_of_mem_keys hkey
        exact ⟨other, hother, hvalues key value other hlookup hother⟩
  · rintro ⟨others, rfl, h⟩
    apply WidensTo.obj
    · intro key hkey
      obtain ⟨value, hlookup⟩ := Association.exists_lookup_of_mem_keys hkey
      obtain ⟨other, hother, -⟩ := h key value hlookup
      exact List.mem_map_of_mem (f := (·.1)) (Association.mem_of_lookup hother)
    · intro key value other hlookup hother
      obtain ⟨other', hother', hwidens⟩ := h key value hlookup
      rw [hother, Option.some.injEq] at hother'
      rwa [hother']

theorem WidensTo.enter (h : input.WidensTo side) (hpart : input.enter? segment = some part) :
    ∃ inner, side.enter? segment = some inner ∧ part.WidensTo inner := by
  rcases scalar_or_parts input with hscalar | ⟨items, rfl⟩ | ⟨members, rfl⟩
  · rw [hscalar.enter?_eq_none] at hpart
    exact nomatch hpart
  · obtain ⟨outputs, rfl, houtputs⟩ := arr_widensTo_iff.mp h
    cases segment with
    | key name => exact nomatch hpart
    | index position =>
        have hrel := Pairing.getElem? houtputs position
        rw [show items[position]? = some part from hpart] at hrel
        generalize houtput : outputs[position]? = output? at hrel
        cases hrel with
        | some hwidens => exact ⟨_, houtput, hwidens⟩
  · obtain ⟨others, rfl, hothers⟩ := obj_widensTo_iff.mp h
    cases segment with
    | index position => exact nomatch hpart
    | key name => exact hothers name part hpart

theorem hasKey_nil_iff : value.HasKey [] key ↔ ∃ part, value.enter? (.key key) = some part := by
  constructor
  · rintro ⟨members, hvalue, hkey⟩
    cases hvalue
    exact Association.exists_lookup_of_mem_keys hkey
  · rintro ⟨part, hpart⟩
    cases value with
    | obj members =>
        exact ⟨members, rfl, List.mem_map_of_mem (f := (·.1)) (Association.mem_of_lookup hpart)⟩
    | _ => exact nomatch hpart

theorem hasKey_cons_iff : value.HasKey (segment :: path) key ↔
    ∃ part, value.enter? segment = some part ∧ part.HasKey path key := by
  simp only [HasKey, follow?_cons_eq_some_iff]
  constructor
  · rintro ⟨members, ⟨part, hpart, hfollow⟩, hkey⟩
    exact ⟨part, hpart, members, hfollow, hkey⟩
  · rintro ⟨part, hpart, members, hfollow, hkey⟩
    exact ⟨members, ⟨part, hpart, hfollow⟩, hkey⟩

theorem hasKey_cons_iff_of_enter? (h : value.enter? segment = some part) :
    value.HasKey (segment :: path) key ↔ part.HasKey path key := by
  simp only [hasKey_cons_iff, h, Option.some.injEq, exists_eq_left']

theorem hasKey_iff : value.HasKey path key ↔
    ∃ part, value.follow? (path ++ [.key key]) = some part := by
  induction path generalizing value with
  | nil => rw [hasKey_nil_iff, List.nil_append, follow?_singleton]
  | cons segment path ih =>
      simp only [hasKey_cons_iff, ih, List.cons_append, follow?_cons_eq_some_iff]
      constructor
      · rintro ⟨inner, hinner, part, hpart⟩
        exact ⟨part, inner, hinner, hpart⟩
      · rintro ⟨part, inner, hinner, hpart⟩
        exact ⟨inner, hinner, part, hpart⟩

theorem holds_nil_iff : value.Holds [] part ↔ value.same part = true := by
  simp [Holds, follow?_nil]

theorem holds_cons_iff : value.Holds (segment :: path) part ↔
    ∃ inner, value.enter? segment = some inner ∧ inner.Holds path part := by
  simp only [Holds, follow?_cons_eq_some_iff]
  constructor
  · rintro ⟨found, ⟨inner, hinner, hfollow⟩, hsame⟩
    exact ⟨inner, hinner, found, hfollow, hsame⟩
  · rintro ⟨inner, hinner, found, hfollow, hsame⟩
    exact ⟨found, ⟨inner, hinner, hfollow⟩, hsame⟩

theorem changed_nil_iff : input.Changed side [] value ↔
    input.Scalar ∧ side = value ∧ input.same value = false := by
  simp [Changed, follow?_nil]

theorem changed_cons_iff : input.Changed side (segment :: path) value ↔
    ∃ part, input.enter? segment = some part ∧
      ∃ inner, side.enter? segment = some inner ∧ part.Changed inner path value := by
  simp only [Changed, follow?_cons_eq_some_iff]
  constructor
  · rintro ⟨old, ⟨part, hpart, hold⟩, hscalar, ⟨inner, hinner, hvalue⟩, hdiffers⟩
    exact ⟨part, hpart, inner, hinner, old, hold, hscalar, hvalue, hdiffers⟩
  · rintro ⟨part, hpart, inner, hinner, old, hold, hscalar, hvalue, hdiffers⟩
    exact ⟨old, ⟨part, hpart, hold⟩, hscalar, ⟨inner, hinner, hvalue⟩, hdiffers⟩

theorem added_cons_iff : input.Added side (segment :: path) key value ↔
    ∃ part, input.enter? segment = some part ∧
      ∃ inner, side.enter? segment = some inner ∧ part.Added inner path key value := by
  simp only [Added, List.cons_append, follow?_cons_eq_some_iff]
  constructor
  · rintro ⟨members, ⟨part, hpart, hmembers⟩, hnew, inner, hinner, hvalue⟩
    exact ⟨part, hpart, inner, hinner, members, hmembers, hnew, hvalue⟩
  · rintro ⟨part, hpart, inner, hinner, members, hmembers, hnew, hvalue⟩
    exact ⟨members, ⟨part, hpart, hmembers⟩, hnew, inner, hinner, hvalue⟩

/-- What a side has at a place where the input has nothing is a new member. -/
theorem WidensTo.added (h : input.WidensTo side) (hnone : input.enter? segment = none)
    (hvalue : side.enter? segment = some value) :
    ∃ key, segment = .key key ∧ input.Added side [] key value := by
  rcases scalar_or_parts input with hscalar | ⟨items, rfl⟩ | ⟨members, rfl⟩
  · rw [((scalar_widensTo_iff hscalar).mp h).enter?_eq_none] at hvalue
    exact nomatch hvalue
  · obtain ⟨outputs, rfl, houtputs⟩ := arr_widensTo_iff.mp h
    cases segment with
    | key name => exact nomatch hvalue
    | index position =>
        have hrel := Pairing.getElem? houtputs position
        rw [show items[position]? = none from hnone,
          show outputs[position]? = some value from hvalue] at hrel
        exact nomatch hrel
  · obtain ⟨others, rfl, -⟩ := obj_widensTo_iff.mp h
    cases segment with
    | index position => exact nomatch hvalue
    | key name =>
        refine ⟨name, rfl, members, rfl, Association.lookup_eq_none_iff.mp hnone, ?_⟩
        rw [List.nil_append, follow?_singleton]
        exact hvalue

theorem Added.enter?_eq_none (h : input.Added side [] key value) :
    input.enter? (.key key) = none := by
  obtain ⟨members, hinput, hnew, -⟩ := h
  cases hinput
  exact Association.lookup_eq_none_iff.mpr hnew

theorem Added.enter?_eq_some (h : input.Added side [] key value) :
    side.enter? (.key key) = some value := by
  obtain ⟨members, -, -, hfollow⟩ := h
  rwa [List.nil_append, follow?_singleton] at hfollow

theorem Agrees.symm (hleft : left.Proper) (hright : right.Proper)
    (h : input.Agrees left right) : input.Agrees right left := by
  constructor
  · intro path value other hvalue hother
    have hsame := h.changed path other value hother hvalue
    obtain ⟨-, -, -, hrightValue, -⟩ := hvalue
    obtain ⟨-, -, -, hleftValue, -⟩ := hother
    exact same_symm (hleft.follow? hleftValue) (hright.follow? hrightValue) hsame
  · intro path key value other hvalue hother
    have hsame := h.added path key other value hother hvalue
    obtain ⟨-, -, -, hrightValue⟩ := hvalue
    obtain ⟨-, -, -, hleftValue⟩ := hother
    exact same_symm (hleft.follow? hleftValue) (hright.follow? hrightValue) hsame

theorem Agrees.enter {leftPart rightPart : Json} (h : input.Agrees left right)
    (hpart : input.enter? segment = some part) (hleft : left.enter? segment = some leftPart)
    (hright : right.enter? segment = some rightPart) : part.Agrees leftPart rightPart := by
  constructor
  · intro path value other hvalue hother
    exact h.changed (segment :: path) value other
      (changed_cons_iff.mpr ⟨part, hpart, leftPart, hleft, hvalue⟩)
      (changed_cons_iff.mpr ⟨part, hpart, rightPart, hright, hother⟩)
  · intro path key value other hvalue hother
    exact h.added (segment :: path) key value other
      (added_cons_iff.mpr ⟨part, hpart, leftPart, hleft, hvalue⟩)
      (added_cons_iff.mpr ⟨part, hpart, rightPart, hright, hother⟩)

theorem Agrees.of_enter
    (hchanged : input.Scalar → input.same left = false → input.same right = false →
      left.same right = true)
    (hadded : ∀ key value other, input.Added left [] key value → input.Added right [] key other →
      value.same other = true)
    (hparts : ∀ segment part leftPart rightPart, input.enter? segment = some part →
      left.enter? segment = some leftPart → right.enter? segment = some rightPart →
        part.Agrees leftPart rightPart) : input.Agrees left right := by
  constructor
  · intro path value other hvalue hother
    cases path with
    | nil =>
        obtain ⟨hscalar, rfl, hleft⟩ := changed_nil_iff.mp hvalue
        obtain ⟨-, rfl, hright⟩ := changed_nil_iff.mp hother
        exact hchanged hscalar hleft hright
    | cons segment path =>
        obtain ⟨part, hpart, leftPart, hleft, hvalue⟩ := changed_cons_iff.mp hvalue
        obtain ⟨part', hpart', rightPart, hright, hother⟩ := changed_cons_iff.mp hother
        rw [hpart, Option.some.injEq] at hpart'
        subst hpart'
        exact (hparts segment part leftPart rightPart hpart hleft hright).changed path value other
          hvalue hother
  · intro path key value other hvalue hother
    cases path with
    | nil => exact hadded key value other hvalue hother
    | cons segment path =>
        obtain ⟨part, hpart, leftPart, hleft, hvalue⟩ := added_cons_iff.mp hvalue
        obtain ⟨part', hpart', rightPart, hright, hother⟩ := added_cons_iff.mp hother
        rw [hpart, Option.some.injEq] at hpart'
        subst hpart'
        exact (hparts segment part leftPart rightPart hpart hleft hright).added path key value other
          hvalue hother

theorem agrees_of_scalar (hinput : input.Scalar)
    (h : input.same left = false → input.same right = false → left.same right = true) :
    input.Agrees left right := by
  apply Agrees.of_enter (fun _ => h)
  · rintro key value other ⟨members, hmembers, -⟩ -
    cases hmembers
    exact hinput.elim
  · intro segment part leftPart rightPart hpart
    rw [hinput.enter?_eq_none] at hpart
    exact nomatch hpart

theorem agrees_obj {members lefts rights : Members}
    (hparts : ∀ key part value other, members.lookup key = some part →
      lefts.lookup key = some value → rights.lookup key = some other → part.Agrees value other)
    (hnew : ∀ key value other, members.lookup key = none → lefts.lookup key = some value →
      rights.lookup key = some other → value.same other = true) :
    (obj members).Agrees (.obj lefts) (.obj rights) := by
  apply Agrees.of_enter
  · intro hscalar
    exact hscalar.elim
  · intro key value other hvalue hother
    exact hnew key value other hvalue.enter?_eq_none hvalue.enter?_eq_some hother.enter?_eq_some
  · intro segment part value other hpart hvalue hother
    cases segment with
    | index position => exact nomatch hpart
    | key name => exact hparts name part value other hpart hvalue hother

theorem exists_enter?_of_same (hvalue : value.Proper) (hother : other.Proper)
    (h : value.same other = true) (hpart : value.enter? segment = some part) :
    ∃ part', other.enter? segment = some part' ∧ part.same part' = true := by
  rcases scalar_or_parts value with hscalar | ⟨items, rfl⟩ | ⟨members, rfl⟩
  · rw [hscalar.enter?_eq_none] at hpart
    exact nomatch hpart
  · obtain ⟨others, rfl, hitems⟩ := exists_of_same_arr h
    cases segment with
    | key name => exact nomatch hpart
    | index position =>
        have hrel := Pairing.getElem? hitems position
        rw [show items[position]? = some part from hpart] at hrel
        generalize hother : others[position]? = other? at hrel
        cases hrel with
        | some hsame => exact ⟨_, hother, hsame⟩
  · obtain ⟨others, rfl, -⟩ := exists_of_same_obj h
    cases segment with
    | index position => exact nomatch hpart
    | key name =>
        have hrel := (same_obj_iff_lookup hvalue.nodup hother.nodup).mp h name
        rw [show members.lookup name = some part from hpart] at hrel
        generalize hother : others.lookup name = other? at hrel
        cases hrel with
        | some hsame => exact ⟨_, hother, hsame⟩

theorem HasKey.of_same (h : value.HasKey path key) (hvalue : value.Proper) (hother : other.Proper)
    (hsame : value.same other = true) : other.HasKey path key := by
  induction path generalizing value other with
  | nil =>
      obtain ⟨part, hpart⟩ := hasKey_nil_iff.mp h
      obtain ⟨part', hpart', -⟩ := exists_enter?_of_same hvalue hother hsame hpart
      exact hasKey_nil_iff.mpr ⟨part', hpart'⟩
  | cons segment path ih =>
      obtain ⟨part, hpart, h⟩ := hasKey_cons_iff.mp h
      obtain ⟨part', hpart', hsame⟩ := exists_enter?_of_same hvalue hother hsame hpart
      exact hasKey_cons_iff.mpr ⟨part', hpart', ih h (hvalue.part (part_of_enter? hpart))
        (hother.part (part_of_enter? hpart')) hsame⟩

end EntityContract.Json
