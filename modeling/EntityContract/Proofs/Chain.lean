import Mathlib.Data.List.Perm.Subperm
import Mathlib.Logic.Function.Iterate
import Mathlib.Logic.Relation

/-!
Chains of a relation on finitely many elements: without cycles no chain is longer than there are
elements, so a search that goes that deep meets its end, and so does a recursion that calls itself
along the relation.
-/

namespace EntityContract.Chain

open Relation

variable {α β : Type} {next : α → α → Prop}

/-- Every chain from the element has at most `n` members. -/
def Bounded (next : α → α → Prop) : Nat → α → Prop
  | 0, _ => False
  | n + 1, x => ∀ y, next x y → Bounded next n y

theorem Bounded.mono {m n : Nat} {x : α} (h : Bounded next m x) (hmn : m ≤ n) :
    Bounded next n x := by
  induction m generalizing n x with
  | zero => exact h.elim
  | succ m ih =>
      cases n with
      | zero => omega
      | succ n => exact fun y hy => ih (h y hy) (by omega)

theorem Bounded.acc {n : Nat} {x : α} (h : Bounded next n x) :
    Acc (fun y x => next x y) x := by
  induction n generalizing x with
  | zero => exact h.elim
  | succ n ih => exact Acc.intro x fun y hy => ih (h y hy)

theorem not_transGen_self_of_acc {x : α} (h : Acc (fun y x => next x y) x) :
    ¬TransGen next x x := by
  have hirrefl : ∀ x, Acc (TransGen fun y x => next x y) x →
      ¬TransGen (fun y x => next x y) x x := by
    intro x hacc
    induction hacc with
    | intro x _ ih => exact fun hcycle => ih x hcycle hcycle
  intro hcycle
  exact hirrefl x h.transGen (transGen_swap.mpr hcycle)

/-- A chain that comes back to where chains may start never leaves the starting places. -/
theorem transGen_among {starts : List α} (hstarts : ∀ x y, next x y → x ∈ starts) {x y : α}
    (hy : y ∈ starts) (h : TransGen next x y) :
    TransGen (fun x y => y ∈ starts ∧ next x y) x y := by
  induction h using TransGen.head_induction_on with
  | single hstep => exact .single ⟨hy, hstep⟩
  | head hstep hrest ih =>
      obtain ⟨first, hfirst, -⟩ := TransGen.head'_iff.mp hrest
      exact .head ⟨hstarts _ _ hfirst, hstep⟩ ih

theorem bounded_of_visited {nodes : List α} (hnodes : ∀ x y, next x y → x ∈ nodes)
    (hacyclic : ∀ x, ¬TransGen next x x) (n : Nat) (visited : List α) (x : α)
    (hnodup : visited.Nodup) (hvisited : ∀ y ∈ visited, y ∈ nodes ∧ TransGen next y x)
    (hlength : nodes.length < visited.length + n) : Bounded next n x := by
  induction n generalizing visited x with
  | zero =>
      have hle := (hnodup.subperm fun y hy => (hvisited y hy).1).length_le
      omega
  | succ n ih =>
      intro y hy
      have hx : x ∉ visited := fun hx => hacyclic x (hvisited x hx).2
      apply ih (x :: visited) y (List.nodup_cons.mpr ⟨hx, hnodup⟩)
      · intro z hz
        rcases List.mem_cons.mp hz with rfl | hz
        · exact ⟨hnodes z y hy, .single hy⟩
        · exact ⟨(hvisited z hz).1, (hvisited z hz).2.tail hy⟩
      · rw [List.length_cons]
        omega

/-- Without cycles a chain visits every element that has a successor at most once. -/
theorem bounded_of_acyclic {nodes : List α} (hnodes : ∀ x y, next x y → x ∈ nodes)
    (hacyclic : ∀ x, ¬TransGen next x x) (x : α) : Bounded next (nodes.length + 1) x :=
  bounded_of_visited hnodes hacyclic _ [] x List.nodup_nil (by simp) (by simp)

theorem bounded_of_closed_of_visited {nodes : List α} (hclosed : ∀ x y, next x y → y ∈ nodes)
    (hacyclic : ∀ x, ¬TransGen next x x) (n : Nat) (visited : List α) (x : α) (hx : x ∈ nodes)
    (hnodup : visited.Nodup) (hvisited : ∀ y ∈ visited, y ∈ nodes ∧ TransGen next y x)
    (hlength : nodes.length ≤ visited.length + n) : Bounded next n x := by
  have hnew : x ∉ visited := fun hmem => hacyclic x (hvisited x hmem).2
  have hnodup' : (x :: visited).Nodup := List.nodup_cons.mpr ⟨hnew, hnodup⟩
  induction n generalizing visited x with
  | zero =>
      have hsub : x :: visited ⊆ nodes := List.cons_subset.mpr ⟨hx, fun y hy => (hvisited y hy).1⟩
      have hle := (hnodup'.subperm hsub).length_le
      rw [List.length_cons] at hle
      omega
  | succ n ih =>
      intro y hy
      have hvisited' : ∀ z ∈ x :: visited, z ∈ nodes ∧ TransGen next z y := by
        intro z hz
        rcases List.mem_cons.mp hz with rfl | hz
        · exact ⟨hx, .single hy⟩
        · exact ⟨(hvisited z hz).1, (hvisited z hz).2.tail hy⟩
      have hnew' : y ∉ x :: visited := fun hmem => hacyclic y (hvisited' y hmem).2
      apply ih (x :: visited) y (hclosed x y hy) hnodup' hvisited' _ hnew'
        (List.nodup_cons.mpr ⟨hnew', hnodup'⟩)
      rw [List.length_cons]
      omega

/-- Without cycles a chain that stays among some elements visits each at most once. -/
theorem bounded_of_closed {nodes : List α} (hclosed : ∀ x y, next x y → y ∈ nodes)
    (hacyclic : ∀ x, ¬TransGen next x x) {x : α} (hx : x ∈ nodes) : Bounded next nodes.length x :=
  bounded_of_closed_of_visited hclosed hacyclic _ [] x hx List.nodup_nil (by simp) (by simp)

/-- A recursion asks for the results of what follows only. -/
def Along (next : α → α → Prop) (turn : (α → β) → α → β) : Prop :=
  ∀ {f g : α → β} {x : α}, (∀ y, next x y → f y = g y) → turn f x = turn g x

/-- Where chains are bounded, the recursion does not depend on what is answered beyond the bound. -/
theorem Along.iterate_eq {turn : (α → β) → α → β} (h : Along next turn) {n m k : Nat} {x : α}
    (hx : Bounded next n x) (hm : n ≤ m) (hk : n ≤ k) (f g : α → β) :
    turn^[m] f x = turn^[k] g x := by
  induction n generalizing m k x with
  | zero => exact hx.elim
  | succ n ih =>
      obtain ⟨m, rfl⟩ : ∃ i, m = i + 1 := Nat.exists_eq_succ_of_ne_zero (by omega)
      obtain ⟨k, rfl⟩ : ∃ i, k = i + 1 := Nat.exists_eq_succ_of_ne_zero (by omega)
      rw [Function.iterate_succ_apply', Function.iterate_succ_apply']
      exact h fun y hy => ih (hx y hy) (by omega) (by omega)

/-- Whatever satisfies the equation of the recursion is what it brings. -/
theorem Along.iterate_eq_of_fixed {turn : (α → β) → α → β} (h : Along next turn) {n m : Nat}
    {x : α} (hx : Bounded next n x) (hm : n ≤ m) (f : α → β) {result : α → β}
    (hresult : turn result = result) : turn^[m] f x = result x := by
  rw [h.iterate_eq hx hm hm f result, Function.iterate_fixed hresult]

end EntityContract.Chain
