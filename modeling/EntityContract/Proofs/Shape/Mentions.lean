import EntityContract.Proofs.Shape.Equality
import EntityContract.Proofs.Shape.Merging

/-!
The keys that a shape refers to. Wrappers do not matter, equal shapes refer to the same keys, and a
merged object refers to the keys of both sides.
-/

namespace EntityContract.Shape

variable {key : String}

theorem mem_references_iff {shape : Shape} : key ∈ shape.references ↔ key ∈ shape.mentions :=
  List.mem_eraseDups

theorem mem_mentionsFields_iff {fields : Fields} :
    key ∈ mentionsFields fields ↔ ∃ field ∈ fields, key ∈ field.2.mentions := by
  induction fields with
  | nil => simp [mentionsFields]
  | cons field fields ih => simp [mentionsFields, ih]

theorem mem_mentionsVariants_iff {variants : List Shape} :
    key ∈ mentionsVariants variants ↔ ∃ variant ∈ variants, key ∈ variant.mentions := by
  induction variants with
  | nil => simp [mentionsVariants]
  | cons variant variants ih => simp [mentionsVariants, ih]

@[simp] theorem mentions_present (shape : Shape) : shape.present.mentions = shape.mentions := by
  induction shape with
  | optional inner default? ih => exact ih
  | _ => rfl

/-- Equal shapes refer to the same keys. -/
theorem mem_mentions_of_same {s t : Shape} (h : s.same t = true) (hkey : key ∈ t.mentions) :
    key ∈ s.mentions := by
  induction s generalizing t with
  | array item ih =>
      obtain ⟨y, rfl, hy⟩ := exists_of_same_array h
      exact ih hy hkey
  | record value ih =>
      obtain ⟨y, rfl, hy⟩ := exists_of_same_record h
      exact ih hy hkey
  | object fields policy ih =>
      obtain ⟨ys, rfl, hys⟩ := exists_of_same_object h
      obtain ⟨y, hmem, hkey⟩ := mem_mentionsFields_iff.mp hkey
      obtain ⟨x, hx, -, hsame⟩ := Pairing.exists_of_mem_right hys hmem
      exact mem_mentionsFields_iff.mpr ⟨x, hx, ih x hx hsame hkey⟩
  | optional inner default? ih =>
      obtain ⟨y, other?, rfl, hy, -⟩ := exists_of_same_optional h
      exact ih hy hkey
  | union variants ih =>
      obtain ⟨ys, rfl, hys⟩ := exists_of_same_union h
      obtain ⟨y, hmem, hkey⟩ := mem_mentionsVariants_iff.mp hkey
      obtain ⟨x, hx, hsame⟩ := Pairing.exists_of_mem_right hys hmem
      exact mem_mentionsVariants_iff.mpr ⟨x, hx, ih x hx hsame hkey⟩
  | intersection left right ihLeft ihRight =>
      obtain ⟨left', right', rfl, hleft, hright⟩ := exists_of_same_intersection h
      rcases List.mem_append.mp hkey with hkey | hkey
      · exact List.mem_append_left _ (ihLeft hleft hkey)
      · exact List.mem_append_right _ (ihRight hright hkey)
  | literal value =>
      obtain ⟨other, rfl, -⟩ := exists_of_same_literal h
      exact hkey
  | string format => exact eq_of_same_string h ▸ hkey
  | integer => exact eq_of_same_integer h ▸ hkey
  | number => exact eq_of_same_number h ▸ hkey
  | boolean => exact eq_of_same_boolean h ▸ hkey
  | unknown => exact eq_of_same_unknown h ▸ hkey
  | enum options => exact eq_of_same_enum h ▸ hkey
  | ref key => exact eq_of_same_ref h ▸ hkey

theorem mem_mentions_both_iff {ours theirs : Shape} :
    key ∈ (both ours theirs).mentions ↔ key ∈ ours.mentions ∨ key ∈ theirs.mentions := by
  rw [both]
  split
  · rename_i hsame
    exact ⟨Or.inl, fun h => h.elim id (mem_mentions_of_same hsame)⟩
  · exact List.mem_append

theorem mem_mentions_mergeField_iff {ours theirs : Shape} :
    key ∈ (mergeField ours theirs).mentions ↔ key ∈ ours.mentions ∨ key ∈ theirs.mentions := by
  rw [← mentions_present, present_mergeField, mem_mentions_both_iff, mentions_present,
    mentions_present]

theorem mem_mentionsFields_mergeInto_iff {name : String} {theirs : Shape} {fields : Fields} :
    key ∈ mentionsFields (mergeInto name theirs fields) ↔
      key ∈ mentionsFields fields ∨ key ∈ theirs.mentions := by
  induction fields with
  | nil => simp [mergeInto, mentionsFields]
  | cons field fields ih =>
      obtain ⟨other, ours⟩ := field
      rw [mergeInto]
      split
      · rw [mentionsFields, mentionsFields, List.mem_append, List.mem_append,
          mem_mentions_mergeField_iff]
        exact or_right_comm
      · rw [mentionsFields, mentionsFields, List.mem_append, List.mem_append, ih, or_assoc]

/-- A merged object refers to what its sides refer to. -/
theorem mem_mentionsFields_mergeFields_iff {base overlay : Fields} :
    key ∈ mentionsFields (mergeFields base overlay) ↔
      key ∈ mentionsFields base ∨ key ∈ mentionsFields overlay := by
  rw [mergeFields]
  induction overlay generalizing base with
  | nil => simp [mentionsFields]
  | cons field overlay ih =>
      rw [List.foldl_cons, ih, mem_mentionsFields_mergeInto_iff, mentionsFields, List.mem_append,
        or_assoc]

end EntityContract.Shape
