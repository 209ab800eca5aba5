import EntityContract.Proofs.Arena.Delegation

/-!
The names that the objects behind a node declare, without bounds: in a settled arena neither
following entities nor going into intersections is ever cut short.
-/

namespace EntityContract.Arena

variable {arena : Arena} {id : NodeId}

theorem resolve_of_ne_entity (h : ∀ key target, arena.node id ≠ .entity key target) :
    arena.resolve id = id := by
  rw [resolve]
  cases arena.size with
  | zero => rfl
  | succ steps =>
      rw [resolveWithin]
      split
      · rename_i key target hnode
        exact absurd hnode (h key target)
      · rfl

theorem resolveWithin_of_bounded {n m : Nat} (h : Chain.Bounded arena.Delegates (n + 1) id)
    (hnm : n ≤ m) : arena.resolveWithin m id = arena.resolveWithin n id := by
  induction n generalizing m id with
  | zero =>
      cases m with
      | zero => rfl
      | succ m =>
          rw [resolveWithin, resolveWithin]
          split
          · rename_i key target hnode
            exact (h target (.entity hnode)).elim
          · rfl
  | succ n ih =>
      obtain ⟨m, rfl⟩ : ∃ k, m = k + 1 := Nat.exists_eq_succ_of_ne_zero (by omega)
      rw [resolveWithin, resolveWithin]
      split
      · rename_i key target hnode
        exact ih (h target (.entity hnode)) (by omega)
      · rfl

/-- Where following entities ends is no entity. -/
theorem node_resolveWithin_ne_entity {n : Nat} (h : Chain.Bounded arena.Delegates (n + 1) id)
    (key : String) (target : NodeId) :
    arena.node (arena.resolveWithin n id) ≠ .entity key target := by
  induction n generalizing id with
  | zero =>
      intro hnode
      exact (h target (.entity hnode)).elim
  | succ n ih =>
      rw [resolveWithin]
      split
      · rename_i key target hnode
        exact ih (h target (.entity hnode))
      · rename_i hnode
        exact fun heq => hnode key target heq

theorem resolve_of_entity (harena : arena.Settled) {key : String} {target : NodeId}
    (hnode : arena.node id = .entity key target) : arena.resolve id = arena.resolve target := by
  have htarget : Chain.Bounded arena.Delegates arena.size target := harena id target (.entity hnode)
  rw [resolve, resolve]
  cases hsize : arena.size with
  | zero =>
      rw [hsize] at htarget
      exact htarget.elim
  | succ steps =>
      rw [hsize] at htarget
      rw [resolveWithin, hnode]
      exact (resolveWithin_of_bounded htarget (Nat.le_succ steps)).symm

theorem bounded_resolveWithin {n : Nat} (h : Chain.Bounded arena.Delegates n id) (steps : Nat) :
    Chain.Bounded arena.Delegates n (arena.resolveWithin steps id) := by
  induction steps generalizing id with
  | zero => exact h
  | succ steps ih =>
      rw [resolveWithin]
      split
      · rename_i key target hnode
        cases n with
        | zero => exact h.elim
        | succ n =>
            have htarget : Chain.Bounded arena.Delegates n target := h target (.entity hnode)
            exact ih (htarget.mono (Nat.le_succ n))
      · exact h

theorem declaredWithin_of_bounded {n m : Nat} (h : Chain.Bounded arena.Delegates n id)
    (hnm : n ≤ m) : arena.declaredWithin m id = arena.declaredWithin n id := by
  induction n generalizing m id with
  | zero => exact h.elim
  | succ n ih =>
      obtain ⟨m, rfl⟩ : ∃ k, m = k + 1 := Nat.exists_eq_succ_of_ne_zero (by omega)
      have hresolved := bounded_resolveWithin h arena.size
      rw [← resolve] at hresolved
      rw [declaredWithin, declaredWithin, declares, declares]
      cases hnode : arena.node (arena.resolve id) with
      | intersection left right =>
          dsimp only
          rw [ih (hresolved left (.left hnode)) (by omega),
            ih (hresolved right (.right hnode)) (by omega)]
      | _ => rfl

/-- What a node declares is what its objects do: its own names, those of both sides, or those of
the entity's target. -/
theorem declared_eq (harena : arena.Settled) (id : NodeId) :
    arena.declared id =
      match arena.node id with
      | .object fields _ => fields.map (·.name)
      | .intersection left right => arena.declared left ++ arena.declared right
      | .entity _ target => arena.declared target
      | _ => [] := by
  rw [declared, declaredWithin, declares]
  cases hnode : arena.node id with
  | entity key target =>
      rw [resolve_of_entity harena hnode]
      rfl
  | intersection left right =>
      have hleft : Chain.Bounded arena.Delegates arena.size left := harena id left (.left hnode)
      have hright : Chain.Bounded arena.Delegates arena.size right := harena id right (.right hnode)
      rw [resolve_of_ne_entity (by simp [hnode]), hnode]
      dsimp only
      rw [declared, declared, declaredWithin_of_bounded hleft (Nat.le_succ _),
        declaredWithin_of_bounded hright (Nat.le_succ _)]
  | _ =>
      rw [resolve_of_ne_entity (by simp [hnode]), hnode]

end EntityContract.Arena
