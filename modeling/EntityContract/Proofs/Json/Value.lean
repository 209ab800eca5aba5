import EntityContract.Json.Parse
import EntityContract.Proofs.Association

/-!
Values in which no object keeps a key twice. Every document that is read is one: repeated keys
are dropped when the written tree becomes a value.
-/

namespace EntityContract

namespace Json

/-- Induction over the values in a value. -/
@[induction_eliminator]
theorem induct {motive : Json → Prop} (null : motive .null)
    (bool : ∀ value, motive (.bool value)) (num : ∀ value, motive (.num value))
    (str : ∀ value, motive (.str value))
    (arr : ∀ items, (∀ item ∈ items, motive item) → motive (.arr items))
    (obj : ∀ members, (∀ member ∈ members, motive member.2) → motive (.obj members)) :
    ∀ value, motive value
  | .null => null
  | .bool value => bool value
  | .num value => num value
  | .str value => str value
  | .arr items => arr items fun item _ => induct null bool num str arr obj item
  | .obj members => obj members fun member _ => induct null bool num str arr obj member.2
termination_by value => sizeOf value
decreasing_by
  · have := List.sizeOf_lt_of_mem ‹item ∈ items›
    simp only [Json.arr.sizeOf_spec]
    omega
  · have := List.sizeOf_lt_of_mem ‹member ∈ members›
    obtain ⟨key, value⟩ := member
    simp only [Json.obj.sizeOf_spec, Prod.mk.sizeOf_spec] at this ⊢
    omega

/-- An element of an array or a member of an object. -/
inductive Part : Json → Json → Prop
  | item {items : List Json} {item : Json} : item ∈ items → Part item (.arr items)
  | member {members : Members} {member : String × Json} :
      member ∈ members → Part member.2 (.obj members)

theorem induct_parts {motive : Json → Prop}
    (step : ∀ value, (∀ part : Json, part.Part value → motive part) → motive value) :
    ∀ value, motive value := by
  intro value
  induction value with
  | arr items ih =>
      refine step _ fun part hpart => ?_
      cases hpart with
      | item hitem => exact ih _ hitem
  | obj members ih =>
      refine step _ fun part hpart => ?_
      cases hpart with
      | member hmember => exact ih _ hmember
  | _ => exact step _ fun part hpart => nomatch hpart

theorem part_of_lookup {members : Members} {key : String} {value : Json}
    (h : members.lookup key = some value) : value.Part (.obj members) :=
  .member (Association.mem_of_lookup h)

mutual

/-- How many arrays and objects the innermost value is in. -/
def depth : Json → Nat
  | .arr items => depthItems items
  | .obj members => depthMembers members
  | _ => 0

def depthItems : List Json → Nat
  | [] => 0
  | item :: items => max (item.depth + 1) (depthItems items)

def depthMembers : Members → Nat
  | [] => 0
  | (_, value) :: members => max (value.depth + 1) (depthMembers members)

end

theorem Part.depth_lt {part value : Json} (h : part.Part value) : part.depth < value.depth := by
  cases h with
  | @item items item hmem =>
      rw [depth.eq_1]
      induction items with
      | nil => exact nomatch hmem
      | cons head items ih =>
          rw [depthItems]
          rcases List.mem_cons.mp hmem with rfl | hmem
          · exact Nat.le_max_left _ _
          · exact Nat.lt_of_lt_of_le (ih hmem) (Nat.le_max_right _ _)
  | @member members member hmem =>
      rw [depth.eq_2]
      induction members with
      | nil => exact nomatch hmem
      | cons head members ih =>
          obtain ⟨key, value⟩ := head
          rw [depthMembers]
          rcases List.mem_cons.mp hmem with rfl | hmem
          · exact Nat.le_max_left _ _
          · exact Nat.lt_of_lt_of_le (ih hmem) (Nat.le_max_right _ _)

mutual

/-- No object in the value keeps a key twice. -/
def Proper : Json → Prop
  | .arr items => ProperItems items
  | .obj members => (members.map (·.1)).Nodup ∧ ProperMembers members
  | _ => True

def ProperItems : List Json → Prop
  | [] => True
  | item :: items => item.Proper ∧ ProperItems items

def ProperMembers : Members → Prop
  | [] => True
  | (_, value) :: members => value.Proper ∧ ProperMembers members

end

attribute [local simp] ProperItems ProperMembers

@[simp] theorem proper_arr {items : List Json} :
    (arr items).Proper ↔ ∀ item ∈ items, item.Proper := by
  rw [Proper]
  induction items with
  | nil => simp
  | cons item items ih => simp [ih]

theorem properMembers_iff {members : Members} :
    ProperMembers members ↔ ∀ member ∈ members, member.2.Proper := by
  induction members with
  | nil => simp
  | cons member members ih => simp [ih]

@[simp] theorem proper_obj {members : Members} :
    (obj members).Proper ↔
      (members.map (·.1)).Nodup ∧ ∀ member ∈ members, member.2.Proper := by
  rw [Proper, properMembers_iff]

@[simp] theorem proper_null : null.Proper := trivial

@[simp] theorem proper_bool (value : Bool) : (bool value).Proper := trivial

@[simp] theorem proper_num (value : Number) : (num value).Proper := trivial

@[simp] theorem proper_str (value : String) : (str value).Proper := trivial

theorem Proper.item {items : List Json} (h : (arr items).Proper) {item : Json}
    (hmem : item ∈ items) : item.Proper := proper_arr.mp h item hmem

theorem Proper.nodup {members : Members} (h : (obj members).Proper) :
    (members.map (·.1)).Nodup := (proper_obj.mp h).1

theorem Proper.member {members : Members} (h : (obj members).Proper) {key : String}
    {value : Json} (hmem : (key, value) ∈ members) : value.Proper :=
  (proper_obj.mp h).2 (key, value) hmem

theorem Proper.part {value part : Json} (h : value.Proper) (hpart : part.Part value) :
    part.Proper := by
  cases hpart with
  | item hitem => exact h.item hitem
  | member hmember => exact h.member hmember

theorem Proper.lookup {members : Members} (h : (obj members).Proper) {key : String}
    {value : Json} (hlookup : members.lookup key = some value) : value.Proper :=
  h.member (Association.mem_of_lookup hlookup)

end Json

namespace Members

theorem contains_iff {members : Members} {key : String} :
    members.contains key = true ↔ key ∈ members.map (·.1) := by
  simp [Members.contains]

theorem contains_eq_false_iff {members : Members} {key : String} :
    members.contains key = false ↔ key ∉ members.map (·.1) := by
  rw [← Bool.not_eq_true, contains_iff]

theorem lookup_erase_of_ne {members : Members} {key name : String} (h : key ≠ name) :
    (Members.erase name members).lookup key = members.lookup key := by
  rw [Members.erase, Association.lookup_filter members (fun key => key != name),
    if_pos (bne_iff_ne.mpr h)]

theorem lookup_erase_self (members : Members) (name : String) :
    (Members.erase name members).lookup name = none := by
  rw [Members.erase, Association.lookup_filter members (fun key => key != name),
    if_neg (by simp)]

/-- A new key goes behind the others. -/
theorem insert_of_not_mem {members : Members} {key : String} (value : Json)
    (h : key ∉ members.map (·.1)) : members.insert key value = members ++ [(key, value)] := by
  induction members with
  | nil => rfl
  | cons member members ih =>
      rw [List.map_cons, List.mem_cons, not_or] at h
      obtain ⟨other, old⟩ := member
      rw [Members.insert, if_neg (Ne.symm h.1), ih h.2, List.cons_append]

theorem foldl_insert_eq_append {kept added : Members} (hnodup : (added.map (·.1)).Nodup)
    (hnew : ∀ key ∈ added.map (·.1), key ∉ kept.map (·.1)) :
    added.foldl (fun kept member => Members.insert member.1 member.2 kept) kept =
      kept ++ added := by
  induction added generalizing kept with
  | nil => rw [List.foldl_nil, List.append_nil]
  | cons member added ih =>
      rw [List.map_cons, List.nodup_cons] at hnodup
      rw [List.map_cons, List.forall_mem_cons] at hnew
      rw [List.foldl_cons, insert_of_not_mem member.2 hnew.1, ih hnodup.2, List.append_assoc]
      · rfl
      · intro key hkey hmem
        rw [List.map_append] at hmem
        rcases List.mem_append.mp hmem with hmem | hmem
        · exact hnew.2 key hkey hmem
        · rw [List.map_singleton, List.mem_singleton] at hmem
          exact hnodup.1 (hmem ▸ hkey)

/-- A key that is there keeps its place. -/
theorem keys_insert_of_mem {members : Members} {key : String} (value : Json)
    (h : key ∈ members.map (·.1)) :
    (members.insert key value).map (·.1) = members.map (·.1) := by
  induction members with
  | nil => simp at h
  | cons member members ih =>
      obtain ⟨other, old⟩ := member
      rw [Members.insert]
      split
      · rfl
      · rename_i hne
        rw [List.map_cons, List.mem_cons] at h
        have hmem := h.resolve_left (Ne.symm hne)
        simp only [List.map_cons, ih hmem]

theorem nodup_insert {members : Members} {key : String} (value : Json)
    (h : (members.map (·.1)).Nodup) : ((members.insert key value).map (·.1)).Nodup := by
  by_cases hmem : key ∈ members.map (·.1)
  · rw [keys_insert_of_mem value hmem]
    exact h
  · rw [insert_of_not_mem value hmem, List.map_append]
    exact h.append (List.nodup_singleton key) (by simpa using hmem)

theorem mem_of_mem_insert {members : Members} {key : String} {value : Json}
    {member : String × Json} (h : member ∈ members.insert key value) :
    member.2 = value ∨ member ∈ members := by
  induction members with
  | nil =>
      rw [Members.insert, List.mem_singleton] at h
      exact Or.inl (by rw [h])
  | cons head members ih =>
      obtain ⟨other, old⟩ := head
      rw [Members.insert] at h
      split at h
      · rcases List.mem_cons.mp h with rfl | h
        · exact Or.inl rfl
        · exact Or.inr (List.mem_cons_of_mem _ h)
      · rcases List.mem_cons.mp h with rfl | h
        · exact Or.inr List.mem_cons_self
        · exact (ih h).imp_right (List.mem_cons_of_mem _)

theorem proper_foldl_insert {written members : Members} (hmembers : (Json.obj members).Proper)
    (hwritten : ∀ member ∈ written, member.2.Proper) :
    (Json.obj (written.foldl (fun members member => Members.insert member.1 member.2 members)
      members)).Proper := by
  induction written generalizing members with
  | nil => exact hmembers
  | cons head written ih =>
      apply ih _ fun member hmem => hwritten member (List.mem_cons_of_mem _ hmem)
      refine Json.proper_obj.mpr ⟨nodup_insert head.2 hmembers.nodup, ?_⟩
      intro member hmem
      rcases mem_of_mem_insert hmem with heq | hmem
      · rw [heq]
        exact hwritten head List.mem_cons_self
      · exact hmembers.member hmem

theorem ofWritten_of_nodup {members : Members} (h : (members.map (·.1)).Nodup) :
    Members.ofWritten members = members :=
  foldl_insert_eq_append h fun _ _ => List.not_mem_nil

/-- The members of a written object are those of a value. -/
theorem proper_ofWritten {written : Members} (h : ∀ member ∈ written, member.2.Proper) :
    (Json.obj (Members.ofWritten written)).Proper := by
  have hempty : (Json.obj []).Proper := by simp
  exact proper_foldl_insert hempty h

end Members

namespace Json

theorem distinctItems_eq_map (items : List Json) : distinctItems items = items.map distinct := by
  induction items with
  | nil => rfl
  | cons item items ih => rw [distinctItems, ih, List.map_cons]

theorem distinctMembers_eq_map (members : Members) :
    distinctMembers members = members.map fun member => (member.1, member.2.distinct) := by
  induction members with
  | nil => rfl
  | cons member members ih => rw [distinctMembers, ih, List.map_cons]

/-- A written tree becomes a value. -/
theorem proper_distinct (value : Json) : value.distinct.Proper := by
  induction value with
  | null => simp [distinct]
  | bool value => simp [distinct]
  | num value => simp [distinct]
  | str value => simp [distinct]
  | arr items ih =>
      rw [distinct, distinctItems_eq_map, proper_arr]
      intro item hmem
      obtain ⟨source, hsource, rfl⟩ := List.mem_map.mp hmem
      exact ih source hsource
  | obj members ih =>
      rw [distinct, distinctMembers_eq_map]
      apply Members.proper_ofWritten
      intro member hmem
      obtain ⟨source, hsource, rfl⟩ := List.mem_map.mp hmem
      exact ih source hsource

/-- Documents that are read keep no key twice. -/
theorem proper_of_ofText? {text : String} {value : Json} (h : ofText? text = some value) :
    value.Proper := by
  obtain ⟨tree, -, rfl⟩ := Option.map_eq_some_iff.mp h
  exact proper_distinct tree

end Json

end EntityContract
