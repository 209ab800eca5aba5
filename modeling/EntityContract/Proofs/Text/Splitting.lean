import Mathlib.Data.List.Basic
import EntityContract.Text.Split

/-!
Cutting a text at every occurrence of a character is undone by putting the pieces together, with
the character between them.
-/

namespace EntityContract.Text

variable {separator : Char} {piece : List Char} {pieces : List (List Char)}

theorem split_of_not_mem (h : separator ∉ piece) : split separator piece = [piece] := by
  induction piece with
  | nil => rfl
  | cons c piece ih =>
      rw [List.mem_cons, not_or] at h
      rw [split, ih h.2]
      exact if_neg (Ne.symm h.1)

/-- A text is its pieces, which are cut at all occurrences. -/
theorem exists_split (separator : Char) (text : List Char) :
    ∃ piece pieces, split separator text = piece :: pieces ∧
      text = piece ++ pieces.flatMap (separator :: ·) ∧
        ∀ cut ∈ piece :: pieces, separator ∉ cut := by
  induction text with
  | nil => exact ⟨[], [], rfl, rfl, by simp⟩
  | cons c text ih =>
      obtain ⟨piece, pieces, hsplit, rfl, hpieces⟩ := ih
      rw [split, hsplit]
      dsimp only
      by_cases hc : c = separator
      · subst hc
        exact ⟨[], piece :: pieces, if_pos rfl, rfl,
          List.forall_mem_cons.mpr ⟨List.not_mem_nil, hpieces⟩⟩
      · rw [List.forall_mem_cons] at hpieces
        refine ⟨c :: piece, pieces, if_neg hc, rfl, List.forall_mem_cons.mpr ⟨?_, hpieces.2⟩⟩
        rw [List.mem_cons, not_or]
        exact ⟨Ne.symm hc, hpieces.1⟩

theorem split_append_cons (h : separator ∉ piece) (rest : List Char) :
    split separator (piece ++ separator :: rest) = piece :: split separator rest := by
  obtain ⟨next, pieces, hsplit, -, -⟩ := exists_split separator rest
  induction piece with
  | nil =>
      rw [List.nil_append, split, hsplit]
      exact if_pos rfl
  | cons c piece ih =>
      rw [List.mem_cons, not_or] at h
      rw [List.cons_append, split, ih h.2]
      exact if_neg (Ne.symm h.1)

/-- The pieces that are put together are those that come out. -/
theorem split_append_flatMap (h : ∀ cut ∈ piece :: pieces, separator ∉ cut) :
    split separator (piece ++ pieces.flatMap (separator :: ·)) = piece :: pieces := by
  induction pieces generalizing piece with
  | nil =>
      rw [List.flatMap_nil, List.append_nil]
      exact split_of_not_mem (h piece List.mem_cons_self)
  | cons next pieces ih =>
      rw [List.forall_mem_cons] at h
      rw [List.flatMap_cons, List.cons_append, split_append_cons h.1, ih h.2]

end EntityContract.Text
