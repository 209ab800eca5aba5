import Mathlib.Data.List.Basic
import Mathlib.Tactic.IntervalCases
import EntityContract.Json.Print
import EntityContract.Json.Token

/-!
Texts between quotes. Each character has one escaped form, no form is the start of another one, and
none starts with a quote. So what stands behind a quoted text cannot be taken for a part of it.
-/

namespace EntityContract.Json

/-- The three ways to write a character inside a string. -/
inductive Escaped (c : Char) : List Char → Prop
  | named {name : Char} : unescape? name = some c → Escaped c ['\\', name]
  | coded : c.toNat < 0x20 →
      Escaped c ['\\', 'u', '0', '0', hexDigit (c.toNat / 16), hexDigit (c.toNat % 16)]
  | plain : c ≠ '\\' → c ≠ '"' → Escaped c [c]

theorem escaped_escape (c : Char) : Escaped c (escape c) := by
  unfold escape
  split_ifs with hquote hbackslash hb hf hn hr ht hcontrol
  · exact .named (by rw [hquote]; rfl)
  · exact .named (by rw [hbackslash]; rfl)
  · exact .named (by rw [hb]; rfl)
  · exact .named (by rw [hf]; rfl)
  · exact .named (by rw [hn]; rfl)
  · exact .named (by rw [hr]; rfl)
  · exact .named (by rw [ht]; rfl)
  · exact .coded hcontrol
  · exact .plain hbackslash hquote

theorem hexDigit?_hexDigit {value : Nat} (h : value < 16) :
    Text.hexDigit? (hexDigit value) = some value := by
  interval_cases value <;> rfl

theorem hexDigit_inj {value other : Nat} (hvalue : value < 16) (hother : other < 16)
    (h : hexDigit value = hexDigit other) : value = other := by
  have hread := congrArg Text.hexDigit? h
  rwa [hexDigit?_hexDigit hvalue, hexDigit?_hexDigit hother, Option.some.injEq] at hread

variable {c d : Char} {text other rest rest' : List Char}

theorem Escaped.exists_cons (h : Escaped c text) :
    ∃ first others, text = first :: others ∧ first ≠ '"' := by
  cases h with
  | named _ => exact ⟨_, _, rfl, by decide⟩
  | coded _ => exact ⟨_, _, rfl, by decide⟩
  | plain _ hquote => exact ⟨_, _, rfl, hquote⟩

/-- An escaped form tells the character, and where the form ends. -/
theorem Escaped.append_inj (hc : Escaped c text) (hd : Escaped d other)
    (h : text ++ rest = other ++ rest') : c = d ∧ rest = rest' := by
  have hnamed : unescape? 'u' = none := rfl
  cases hc with
  | named hname =>
      cases hd with
      | named hname' =>
          simp only [List.cons_append, List.nil_append, List.cons.injEq, true_and] at h
          rw [h.1, hname'] at hname
          exact ⟨(Option.some.inj hname).symm, h.2⟩
      | coded _ =>
          simp only [List.cons_append, List.cons.injEq, true_and] at h
          rw [h.1, hnamed] at hname
          exact nomatch hname
      | plain hbackslash _ =>
          exact absurd (List.cons.inj h).1.symm hbackslash
  | coded hlt =>
      cases hd with
      | named hname' =>
          simp only [List.cons_append, List.cons.injEq, true_and] at h
          rw [← h.1, hnamed] at hname'
          exact nomatch hname'
      | coded hlt' =>
          simp only [List.cons_append, List.nil_append, List.cons.injEq, true_and] at h
          obtain ⟨hhigh, hlow, hrest⟩ := h
          have hdiv := hexDigit_inj (by omega) (by omega) hhigh
          have hmod := hexDigit_inj (by omega) (by omega) hlow
          exact ⟨Char.toNat_inj.mp (by omega), hrest⟩
      | plain hbackslash _ =>
          exact absurd (List.cons.inj h).1.symm hbackslash
  | plain hbackslash _ =>
      cases hd with
      | named _ => exact absurd (List.cons.inj h).1 hbackslash
      | coded _ => exact absurd (List.cons.inj h).1 hbackslash
      | plain _ _ => exact List.cons.inj h

/-- The first quote that is not escaped ends the text. -/
theorem flatMap_escape_append_inj
    (h : text.flatMap escape ++ '"' :: rest = other.flatMap escape ++ '"' :: rest') :
    text = other ∧ rest = rest' := by
  induction text generalizing other with
  | nil =>
      cases other with
      | nil => exact ⟨rfl, (List.cons.inj h).2⟩
      | cons d other =>
          obtain ⟨first, others, hform, hquote⟩ := (escaped_escape d).exists_cons
          rw [List.flatMap_cons, hform] at h
          exact absurd (List.cons.inj h).1.symm hquote
  | cons c text ih =>
      cases other with
      | nil =>
          obtain ⟨first, others, hform, hquote⟩ := (escaped_escape c).exists_cons
          rw [List.flatMap_cons, hform] at h
          exact absurd (List.cons.inj h).1 hquote
      | cons d other =>
          rw [List.flatMap_cons, List.flatMap_cons, List.append_assoc, List.append_assoc] at h
          obtain ⟨rfl, htail⟩ := (escaped_escape c).append_inj (escaped_escape d) h
          obtain ⟨rfl, hrest⟩ := ih htail
          exact ⟨rfl, hrest⟩

theorem quote_append_inj {name name' : String}
    (h : (quote name).toList ++ rest = (quote name').toList ++ rest') :
    name = name' ∧ rest = rest' := by
  simp only [quote, String.toList_ofList, List.cons_append, List.append_assoc, List.nil_append,
    List.cons.injEq, true_and] at h
  obtain ⟨hname, hrest⟩ := flatMap_escape_append_inj h
  exact ⟨String.toList_inj.mp hname, hrest⟩

end EntityContract.Json
