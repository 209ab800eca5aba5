import EntityContract.Proofs.Shape.Structure
import EntityContract.Shape.Merge

/-!
Merging two objects: which fields the result has, and which conditions on shapes it keeps.
-/

namespace EntityContract.Shape

/-- A condition that says nothing about intersections and, of wrappers, only something about
their defaults. Merging keeps such a condition. -/
structure Mergeable (p : Shape → Prop) : Prop where
  intersection : ∀ left right, p (.intersection left right)
  absent : ∀ shape, p (.optional shape none)
  default : ∀ {shape value} other, p (.optional shape (some value)) →
    p (.optional other (some value))

theorem mergeable_local : Mergeable Local where
  intersection := fun _ _ => trivial
  absent := fun _ => trivial
  default := fun _ h => h

section Forall

variable {q : Shape → Prop}
  (hq : ∀ {ours theirs : Shape}, q ours → q theirs → q (mergeField ours theirs))

include hq

/-- What merging two fields keeps, merging a field into others keeps. -/
theorem forall_mergeInto {name : String} {theirs : Shape} {fields : Fields}
    (hfields : ∀ field ∈ fields, q field.2) (htheirs : q theirs) :
    ∀ field ∈ mergeInto name theirs fields, q field.2 := by
  induction fields with
  | nil => simpa [mergeInto] using htheirs
  | cons field fields ih =>
      obtain ⟨other, ours⟩ := field
      rw [List.forall_mem_cons] at hfields
      rw [mergeInto]
      split
      · exact List.forall_mem_cons.mpr ⟨hq hfields.1 htheirs, hfields.2⟩
      · exact List.forall_mem_cons.mpr ⟨hfields.1, ih hfields.2⟩

theorem forall_mergeFields {base overlay : Fields} (hbase : ∀ field ∈ base, q field.2)
    (hoverlay : ∀ field ∈ overlay, q field.2) :
    ∀ field ∈ mergeFields base overlay, q field.2 := by
  rw [mergeFields]
  induction overlay generalizing base with
  | nil => exact hbase
  | cons field overlay ih =>
      rw [List.forall_mem_cons] at hoverlay
      exact ih (forall_mergeInto hq hbase hoverlay.1) hoverlay.2

end Forall

namespace Everywhere

variable {p : Shape → Prop}

theorem both (hp : Mergeable p) {ours theirs : Shape} (hours : ours.Everywhere p)
    (htheirs : theirs.Everywhere p) : (Shape.both ours theirs).Everywhere p := by
  rw [Shape.both]
  split
  · exact hours
  · exact intersection_iff.mpr ⟨hp.intersection _ _, hours, htheirs⟩

theorem orAbsent (hp : Mergeable p) {shape : Shape} (h : shape.Everywhere p) :
    shape.orAbsent.Everywhere p := by
  cases shape <;> first | exact h | exact optional_iff.mpr ⟨hp.absent _, h⟩

theorem withDefault (hp : Mergeable p) {shape other : Shape} {value : Json}
    (h : shape.Everywhere p) (hvalue : p (.optional other (some value))) :
    (shape.withDefault value).Everywhere p := by
  cases shape
  case optional inner default? =>
    exact optional_iff.mpr ⟨hp.default _ hvalue, (optional_iff.mp h).2⟩
  all_goals exact optional_iff.mpr ⟨hp.default _ hvalue, h⟩

theorem mergeField (hp : Mergeable p) {ours theirs : Shape} (hours : ours.Everywhere p)
    (htheirs : theirs.Everywhere p) : (Shape.mergeField ours theirs).Everywhere p := by
  have hboth := both hp hours.present htheirs.present
  simp only [Shape.mergeField]
  split
  · exact hboth
  · split
    · rename_i value hvalue
      obtain ⟨other, hother⟩ : ∃ other, p (.optional other (some value)) := by
        rcases Option.or_eq_some_iff.mp hvalue with hvalue | ⟨-, hvalue⟩
        · exact hours.default? hvalue
        · exact htheirs.default? hvalue
      exact withDefault hp hboth hother
    · exact orAbsent hp hboth

theorem mergeInto (hp : Mergeable p) {name : String} {theirs : Shape} {fields : Fields}
    (hfields : ∀ field ∈ fields, field.2.Everywhere p) (htheirs : theirs.Everywhere p) :
    ∀ field ∈ Shape.mergeInto name theirs fields, field.2.Everywhere p :=
  forall_mergeInto (mergeField hp) hfields htheirs

theorem mergeFields (hp : Mergeable p) {base overlay : Fields}
    (hbase : ∀ field ∈ base, field.2.Everywhere p)
    (hoverlay : ∀ field ∈ overlay, field.2.Everywhere p) :
    ∀ field ∈ Shape.mergeFields base overlay, field.2.Everywhere p :=
  forall_mergeFields (mergeField hp) hbase hoverlay

end Everywhere

theorem orAbsent_of_present {shape : Shape} (h : shape.present = shape) :
    shape.orAbsent = .optional shape none := by
  have hoptional := shape.isOptional_present
  rw [h] at hoptional
  cases shape with
  | optional inner default? => exact nomatch hoptional
  | _ => rfl

theorem withDefault_of_present {shape : Shape} (h : shape.present = shape) (value : Json) :
    shape.withDefault value = .optional shape (some value) := by
  have hoptional := shape.isOptional_present
  rw [h] at hoptional
  cases shape with
  | optional inner default? => exact nomatch hoptional
  | _ => rfl

theorem present_both {ours theirs : Shape} :
    (both ours.present theirs.present).present = both ours.present theirs.present := by
  rw [both]
  split
  · exact present_present ours
  · rfl

/-- A merged field has one wrapper if both sides have, and none otherwise. -/
theorem mergeField_eq (ours theirs : Shape) :
    mergeField ours theirs =
      if ours.isOptional && theirs.isOptional then
        .optional (both ours.present theirs.present) (ours.default?.or theirs.default?)
      else both ours.present theirs.present := by
  have hneither : (!ours.isOptional || !theirs.isOptional) =
      !(ours.isOptional && theirs.isOptional) := (Bool.not_and _ _).symm
  simp only [mergeField, hneither]
  cases ours.isOptional && theirs.isOptional with
  | false => rfl
  | true =>
      cases hdefault : ours.default?.or theirs.default? with
      | none => simpa using orAbsent_of_present present_both
      | some value => simpa using withDefault_of_present present_both value

@[simp] theorem present_mergeField (ours theirs : Shape) :
    (mergeField ours theirs).present = both ours.present theirs.present := by
  rw [mergeField_eq]
  split
  · rw [present_optional, present_both]
  · exact present_both

@[simp] theorem isOptional_mergeField (ours theirs : Shape) :
    (mergeField ours theirs).isOptional = (ours.isOptional && theirs.isOptional) := by
  have hboth : (both ours.present theirs.present).isOptional = false := by
    rw [← present_both]
    exact isOptional_present _
  rw [mergeField_eq]
  cases ours.isOptional && theirs.isOptional with
  | false => exact hboth
  | true => rfl

/-- The default of a field that either side lets be absent. -/
theorem default?_mergeField {ours theirs : Shape} (hours : ours.isOptional = true)
    (htheirs : theirs.isOptional = true) :
    (mergeField ours theirs).default? = ours.default?.or theirs.default? := by
  have hboth : (both ours.present theirs.present).default? = none := by
    rw [← present_both]
    exact default?_of_isOptional_eq_false (isOptional_present _)
  rw [mergeField_eq, hours, htheirs, Bool.and_self, if_pos rfl, default?_optional, hboth,
    Option.or_none]

theorem mergeInto_of_not_mem {name : String} (theirs : Shape) {fields : Fields}
    (h : name ∉ fields.map (·.1)) : mergeInto name theirs fields = fields ++ [(name, theirs)] := by
  induction fields with
  | nil => rfl
  | cons field fields ih =>
      rw [List.map_cons, List.mem_cons, not_or] at h
      obtain ⟨other, ours⟩ := field
      rw [mergeInto, if_neg (Ne.symm h.1), ih h.2, List.cons_append]

theorem keys_mergeInto (name : String) (theirs : Shape) (fields : Fields) :
    (mergeInto name theirs fields).map (·.1) =
      if name ∈ fields.map (·.1) then fields.map (·.1) else fields.map (·.1) ++ [name] := by
  induction fields with
  | nil => rfl
  | cons field fields ih =>
      obtain ⟨other, ours⟩ := field
      rw [mergeInto]
      split
      · rename_i heq
        simp [heq]
      · rename_i hne
        rw [List.map_cons, ih]
        simp only [List.map_cons, List.mem_cons, Ne.symm hne, false_or]
        split <;> rfl

theorem nodup_mergeInto (name : String) (theirs : Shape) {fields : Fields}
    (h : (fields.map (·.1)).Nodup) : ((mergeInto name theirs fields).map (·.1)).Nodup := by
  rw [keys_mergeInto]
  split
  · exact h
  · rename_i hname
    exact h.append (List.nodup_singleton name) (by simpa using hname)

theorem mem_keys_mergeInto_iff {name key : String} {theirs : Shape} {fields : Fields} :
    key ∈ (mergeInto name theirs fields).map (·.1) ↔ key ∈ fields.map (·.1) ∨ key = name := by
  rw [keys_mergeInto]
  split
  · rename_i hname
    exact ⟨Or.inl, fun h => h.elim id fun heq => heq ▸ hname⟩
  · rw [List.mem_append, List.mem_singleton]

theorem mem_keys_mergeFields_iff {base overlay : Fields} {key : String} :
    key ∈ (mergeFields base overlay).map (·.1) ↔
      key ∈ base.map (·.1) ∨ key ∈ overlay.map (·.1) := by
  rw [mergeFields]
  induction overlay generalizing base with
  | nil => simp
  | cons field overlay ih =>
      rw [List.foldl_cons, ih, mem_keys_mergeInto_iff, List.map_cons, List.mem_cons, or_assoc]

theorem nodup_mergeFields {base overlay : Fields} (h : (base.map (·.1)).Nodup) :
    ((mergeFields base overlay).map (·.1)).Nodup := by
  rw [mergeFields]
  induction overlay generalizing base with
  | nil => exact h
  | cons field overlay ih => exact ih (nodup_mergeInto field.1 field.2 h)

/-- Objects without a common name are put one behind the other. -/
theorem mergeFields_eq_append {base overlay : Fields} (hnodup : (overlay.map (·.1)).Nodup)
    (hdisjoint : ∀ name ∈ base.map (·.1), name ∉ overlay.map (·.1)) :
    mergeFields base overlay = base ++ overlay := by
  rw [mergeFields]
  induction overlay generalizing base with
  | nil => rw [List.foldl_nil, List.append_nil]
  | cons field overlay ih =>
      obtain ⟨name, theirs⟩ := field
      rw [List.map_cons, List.nodup_cons] at hnodup
      have hnew : name ∉ base.map (·.1) := fun hmem => hdisjoint name hmem List.mem_cons_self
      have happend : mergeInto name theirs base = base ++ [(name, theirs)] :=
        mergeInto_of_not_mem theirs hnew
      rw [List.foldl_cons, happend, ih hnodup.2, List.append_assoc]
      · rfl
      · intro other hother hmem
        rw [List.map_append] at hother
        rcases List.mem_append.mp hother with hother | hother
        · exact hdisjoint other hother (List.mem_cons_of_mem _ hmem)
        · rw [List.map_singleton, List.mem_singleton] at hother
          exact hnodup.1 (hother ▸ hmem)

/-- What merging a field in does to the field of any name. -/
theorem lookup_mergeInto (name : String) (theirs : Shape) (fields : Fields) (key : String) :
    (mergeInto name theirs fields).lookup key =
      if key = name then
        some (match fields.lookup name with
          | some ours => mergeField ours theirs
          | none => theirs)
      else fields.lookup key := by
  induction fields with
  | nil =>
      by_cases hkey : key = name
      · simp [mergeInto, hkey]
      · simp [mergeInto, hkey]
  | cons field fields ih =>
      obtain ⟨other, ours⟩ := field
      rw [mergeInto]
      split
      · rename_i heq
        subst heq
        by_cases hkey : key = other
        · simp [hkey]
        · simp only [List.lookup_cons, beq_false_of_ne hkey, if_neg hkey]
      · rename_i hne
        by_cases hkey : key = other
        · subst hkey
          simp [hne]
        · have hne' : (name == other) = false := beq_false_of_ne (Ne.symm hne)
          simp only [List.lookup_cons, beq_false_of_ne hkey, ih, hne']

/-- A field of the merged object is the field of the one side, of the other, or both merged. -/
theorem lookup_mergeFields {base overlay : Fields} (h : (overlay.map (·.1)).Nodup) (key : String) :
    (mergeFields base overlay).lookup key =
      match base.lookup key, overlay.lookup key with
      | some ours, some theirs => some (mergeField ours theirs)
      | some ours, none => some ours
      | none, theirs? => theirs? := by
  rw [mergeFields]
  induction overlay generalizing base with
  | nil => cases hbase : base.lookup key <;> simp [hbase]
  | cons field overlay ih =>
      obtain ⟨name, theirs⟩ := field
      rw [List.map_cons, List.nodup_cons] at h
      rw [List.foldl_cons, ih h.2, lookup_mergeInto]
      by_cases hkey : key = name
      · subst hkey
        have hoverlay : overlay.lookup key = none := Association.lookup_eq_none_iff.mpr h.1
        rw [if_pos rfl, hoverlay, List.lookup_cons_self]
        cases base.lookup key <;> rfl
      · rw [if_neg hkey, List.lookup_cons, beq_false_of_ne hkey]

/-- The first default wins, where no side requires the field. -/
theorem default?_mergeFields {base overlay : Fields} (h : (overlay.map (·.1)).Nodup) {key : String}
    (hours : ∀ ours, base.lookup key = some ours → ours.isOptional = true)
    (htheirs : ∀ theirs, overlay.lookup key = some theirs → theirs.isOptional = true) :
    ((mergeFields base overlay).lookup key).bind default? =
      ((base.lookup key).bind default?).or ((overlay.lookup key).bind default?) := by
  rw [lookup_mergeFields h]
  cases hbase : base.lookup key with
  | none => rfl
  | some ours =>
      cases hoverlay : overlay.lookup key with
      | none => exact (Option.or_none).symm
      | some theirs => exact default?_mergeField (hours ours hbase) (htheirs theirs hoverlay)

end EntityContract.Shape
