import EntityContract.Proofs.Json.Value
import EntityContract.Proofs.Pairing
import Mathlib.Data.List.Perm.Subperm

/-!
Equality of values is an equivalence. Members of objects are compared by key, so two objects are
equal when looking up any key gives equal values.
-/

namespace EntityContract

namespace Binary64

theorem same_refl (x : Binary64) : x.same x = true := by
  simp [Binary64.same]

theorem same_symm {x y : Binary64} (h : x.same y = true) : y.same x = true := by
  simp only [Binary64.same, Bool.or_eq_true, Bool.and_eq_true, beq_iff_eq] at h ⊢
  exact h.imp Eq.symm And.symm

theorem same_trans {x y z : Binary64} (hxy : x.same y = true) (hyz : y.same z = true) :
    x.same z = true := by
  simp only [Binary64.same, Bool.or_eq_true, Bool.and_eq_true, beq_iff_eq] at hxy hyz ⊢
  rcases hxy with rfl | ⟨hx, hy⟩
  · exact hyz
  · rcases hyz with rfl | ⟨-, hz⟩
    · exact Or.inr ⟨hx, hy⟩
    · exact Or.inr ⟨hx, hz⟩

theorem toInt?_isSome_of_same {x y : Binary64} (h : x.same y = true) :
    x.toInt?.isSome = y.toInt?.isSome := by
  simp only [Binary64.same, Bool.or_eq_true, Bool.and_eq_true, beq_iff_eq] at h
  have hzero : ∀ z : Binary64, z.significand = 0 → z.toInt?.isSome = true := by
    intro z hz
    have htop : z.magnitude.1 = 0 := by
      rw [magnitude, hz]
      cases z.exponent <;> simp
    rw [toInt?]
    dsimp only
    rw [htop, Nat.zero_mod, if_pos rfl]
    rfl
  rcases h with rfl | ⟨hx, hy⟩
  · rfl
  · rw [hzero x hx, hzero y hy]

end Binary64

namespace Number

theorem same_refl (n : Number) : n.same n = true := by
  cases n with
  | int value => simp [Number.same]
  | float value => exact value.same_refl

theorem same_symm {m n : Number} (h : m.same n = true) : n.same m = true := by
  cases m <;> cases n <;> simp only [Number.same, Bool.false_eq_true, beq_iff_eq] at h ⊢
  · exact h.symm
  · exact Binary64.same_symm h

theorem same_trans {l m n : Number} (hlm : l.same m = true) (hmn : m.same n = true) :
    l.same n = true := by
  cases l <;> cases m <;> cases n <;>
    simp only [Number.same, Bool.false_eq_true, beq_iff_eq] at hlm hmn ⊢
  · exact hlm.trans hmn
  · exact Binary64.same_trans hlm hmn

theorem isWhole_of_same {m n : Number} (h : m.same n = true) : m.isWhole = n.isWhole := by
  cases m <;> cases n <;> simp only [Number.same, Bool.false_eq_true] at h
  · rfl
  · exact Binary64.toInt?_isSome_of_same h

end Number

namespace Json

attribute [local simp] same sameItems sameMembers

theorem same_arr_iff {xs ys : List Json} :
    (arr xs).same (arr ys) = true ↔ List.Forall₂ (fun x y => x.same y = true) xs ys := by
  rw [same]
  induction xs generalizing ys with
  | nil => cases ys <;> simp
  | cons x xs ih => cases ys <;> simp [ih]

theorem sameMembers_iff {xs ys : Members} :
    sameMembers xs ys = true ↔
      ∀ member ∈ xs, ∃ y, ys.lookup member.1 = some y ∧ member.2.same y = true := by
  induction xs with
  | nil => simp
  | cons member xs ih =>
      obtain ⟨key, x⟩ := member
      simp only [sameMembers, Bool.and_eq_true, ih, List.forall_mem_cons]
      refine and_congr_left fun _ => ?_
      cases ys.lookup key <;> simp

theorem same_obj_iff {xs ys : Members} :
    (obj xs).same (obj ys) = true ↔ xs.length = ys.length ∧
      ∀ member ∈ xs, ∃ y, ys.lookup member.1 = some y ∧ member.2.same y = true := by
  simp [sameMembers_iff]

theorem same_null_iff {y : Json} : null.same y = true ↔ y = null := by
  cases y <;> simp

theorem same_bool_iff {value : Bool} {y : Json} :
    (bool value).same y = true ↔ y = bool value := by
  cases y with
  | bool other => rw [same, beq_iff_eq, bool.injEq]; exact eq_comm
  | _ => simp

theorem same_str_iff {value : String} {y : Json} :
    (str value).same y = true ↔ y = str value := by
  cases y with
  | str other => rw [same, beq_iff_eq, str.injEq]; exact eq_comm
  | _ => simp

theorem same_num_iff {m : Number} {y : Json} :
    (num m).same y = true ↔ ∃ n, y = num n ∧ m.same n = true := by
  cases y <;> simp

theorem exists_of_same_arr {xs : List Json} {y : Json} (h : (arr xs).same y = true) :
    ∃ ys, y = arr ys ∧ List.Forall₂ (fun x y => x.same y = true) xs ys := by
  cases y with
  | arr ys => exact ⟨ys, rfl, same_arr_iff.mp h⟩
  | _ => simp at h

theorem exists_of_same_obj {xs : Members} {y : Json} (h : (obj xs).same y = true) :
    ∃ ys, y = obj ys ∧ xs.length = ys.length ∧
      ∀ member ∈ xs, ∃ y, ys.lookup member.1 = some y ∧ member.2.same y = true := by
  cases y with
  | obj ys => exact ⟨ys, rfl, same_obj_iff.mp h⟩
  | _ => simp at h

theorem same_refl {v : Json} (hv : v.Proper) : v.same v = true := by
  induction v with
  | null => rfl
  | bool value => simp
  | num value => exact value.same_refl
  | str value => simp
  | arr items ih =>
      rw [same_arr_iff, List.forall₂_same]
      exact fun item hmem => ih item hmem (hv.item hmem)
  | obj members ih =>
      rw [same_obj_iff]
      refine ⟨rfl, fun member hmem => ⟨member.2, ?_, ih member hmem (hv.member hmem)⟩⟩
      exact Association.lookup_of_mem hv.nodup hmem

theorem same_trans {v x y : Json} (hvx : v.same x = true) (hxy : x.same y = true) :
    v.same y = true := by
  induction v generalizing x y with
  | null => rwa [same_null_iff.mp hvx] at hxy
  | bool value => rwa [same_bool_iff.mp hvx] at hxy
  | str value => rwa [same_str_iff.mp hvx] at hxy
  | num value =>
      obtain ⟨m, rfl, hm⟩ := same_num_iff.mp hvx
      obtain ⟨n, rfl, hn⟩ := same_num_iff.mp hxy
      exact same_num_iff.mpr ⟨n, rfl, Number.same_trans hm hn⟩
  | arr items ih =>
      obtain ⟨xs, rfl, hxs⟩ := exists_of_same_arr hvx
      obtain ⟨ys, rfl, hys⟩ := exists_of_same_arr hxy
      exact same_arr_iff.mpr (Pairing.trans hxs hys fun item hmem x y hx hy => ih item hmem hx hy)
  | obj members ih =>
      obtain ⟨xs, rfl, hlength, hxs⟩ := exists_of_same_obj hvx
      obtain ⟨ys, rfl, hlength', hys⟩ := exists_of_same_obj hxy
      rw [same_obj_iff]
      refine ⟨hlength.trans hlength', fun member hmem => ?_⟩
      obtain ⟨x, hx, hsame⟩ := hxs member hmem
      obtain ⟨y, hy, hsame'⟩ := hys (member.1, x) (Association.mem_of_lookup hx)
      exact ⟨y, hy, ih member hmem hsame hsame'⟩

/-- Distinct keys that are all among as many others are those others. -/
theorem keys_subset_of_same {xs ys : Members} (hxs : (xs.map (·.1)).Nodup)
    (hlength : xs.length = ys.length)
    (h : ∀ member ∈ xs, ∃ y, ys.lookup member.1 = some y ∧ member.2.same y = true) :
    ys.map (·.1) ⊆ xs.map (·.1) := by
  have hsubset : xs.map (·.1) ⊆ ys.map (·.1) := by
    intro key hkey
    obtain ⟨member, hmem, rfl⟩ := List.mem_map.mp hkey
    obtain ⟨y, hy, -⟩ := h member hmem
    exact List.mem_map_of_mem (f := (·.1)) (Association.mem_of_lookup hy)
  have hperm := (hxs.subperm hsubset).perm_of_length_le (by simp [hlength])
  exact hperm.symm.subset

theorem same_symm {x y : Json} (hx : x.Proper) (hy : y.Proper) (h : x.same y = true) :
    y.same x = true := by
  induction x generalizing y with
  | null => rw [same_null_iff.mp h]; rfl
  | bool value => rw [same_bool_iff.mp h]; exact same_bool_iff.mpr rfl
  | str value => rw [same_str_iff.mp h]; exact same_str_iff.mpr rfl
  | num value =>
      obtain ⟨n, rfl, hn⟩ := same_num_iff.mp h
      exact same_num_iff.mpr ⟨value, rfl, Number.same_symm hn⟩
  | arr xs ih =>
      obtain ⟨ys, rfl, hys⟩ := exists_of_same_arr h
      exact same_arr_iff.mpr (Pairing.symm hys fun x hxmem y hymem hsame =>
        ih x hxmem (hx.item hxmem) (hy.item hymem) hsame)
  | obj xs ih =>
      obtain ⟨ys, rfl, hlength, hys⟩ := exists_of_same_obj h
      have hkeys := keys_subset_of_same hx.nodup hlength hys
      rw [same_obj_iff]
      refine ⟨hlength.symm, fun member hmem => ?_⟩
      obtain ⟨x, hlookup⟩ := Association.exists_lookup_of_mem_keys
        (hkeys (List.mem_map_of_mem (f := (·.1)) hmem))
      have hxmem := Association.mem_of_lookup hlookup
      obtain ⟨y, hy', hsame⟩ := hys _ hxmem
      have hyeq : y = member.2 :=
        Association.eq_of_mem hy.nodup (Association.mem_of_lookup hy') hmem
      rw [hyeq] at hsame
      exact ⟨x, hlookup, ih _ hxmem (hx.member hxmem) (hy.member hmem) hsame⟩

/-- Objects are equal if looking up any key gives equal values, or nothing on both sides. -/
theorem same_obj_iff_lookup {xs ys : Members} (hxs : (xs.map (·.1)).Nodup)
    (hys : (ys.map (·.1)).Nodup) :
    (obj xs).same (obj ys) = true ↔
      ∀ key, Option.Rel (fun x y => x.same y = true) (xs.lookup key) (ys.lookup key) := by
  rw [same_obj_iff]
  constructor
  · rintro ⟨hlength, h⟩ key
    cases hx : xs.lookup key with
    | some x =>
        obtain ⟨y, hy, hsame⟩ := h _ (Association.mem_of_lookup hx)
        rw [hy]
        exact .some hsame
    | none =>
        have hkey := Association.lookup_eq_none_iff.mp hx
        rw [Association.lookup_eq_none_iff.mpr fun hmem =>
          hkey (keys_subset_of_same hxs hlength h hmem)]
        exact .none
  · intro h
    have hfound : ∀ member ∈ xs, ∃ y, ys.lookup member.1 = some y ∧ member.2.same y = true := by
      intro member hmem
      have hmember := h member.1
      rw [Association.lookup_of_mem hxs hmem] at hmember
      cases hy : ys.lookup member.1 with
      | none =>
          rw [hy] at hmember
          cases hmember
      | some y =>
          rw [hy] at hmember
          cases hmember with
          | some hsame => exact ⟨y, rfl, hsame⟩
    have hkeys : ∀ key, key ∈ xs.map (·.1) ↔ key ∈ ys.map (·.1) := by
      intro key
      rw [← not_iff_not, ← Association.lookup_eq_none_iff, ← Association.lookup_eq_none_iff]
      have hkey := h key
      cases hx : xs.lookup key <;> cases hy : ys.lookup key <;> simp_all
    have hperm := (List.perm_ext_iff_of_nodup hxs hys).mpr hkeys
    exact ⟨by simpa using hperm.length_eq, hfound⟩

theorem exists_member_of_same_obj {xs ys : Members} (hxs : (xs.map (·.1)).Nodup)
    (h : (obj xs).same (obj ys) = true) (hys : (ys.map (·.1)).Nodup) {member : String × Json}
    (hmember : member ∈ ys) : ∃ x, (member.1, x) ∈ xs ∧ x.same member.2 = true := by
  have hfound := (same_obj_iff_lookup hxs hys).mp h member.1
  rw [Association.lookup_of_mem hys hmember] at hfound
  generalize hx : xs.lookup member.1 = x? at hfound
  cases hfound with
  | some hsame => exact ⟨_, Association.mem_of_lookup hx, hsame⟩

end Json

end EntityContract
