import Mathlib.Data.List.Basic
import Mathlib.Tactic.IntervalCases
import EntityContract.Path
import EntityContract.Proofs.Text.Splitting

/-!
JSON pointers (RFC 6901) as they are read, and the steps of a path as they are taken. The pointer
that is written for a path leads where the path does, as long as indexes are used in arrays and
keys in objects: a pointer does not tell the one from the other.
-/

namespace EntityContract

namespace Pointer

/-- The text that a reference token stands for; `~` must start an escape. -/
def unescape? : List Char → Option (List Char)
  | [] => some []
  | '~' :: '0' :: rest => (unescape? rest).map ('~' :: ·)
  | '~' :: '1' :: rest => (unescape? rest).map ('/' :: ·)
  | c :: rest => if c = '~' then none else (unescape? rest).map (c :: ·)

/-- The tokens of a pointer: none for the whole document, else one behind every `/`. -/
def tokens? (pointer : String) : Option (List (List Char)) :=
  match pointer.toList with
  | [] => some []
  | c :: rest => if c = '/' then (Text.split '/' rest).mapM unescape? else none

/-- The index that a token writes, in digits and without leading zeros. -/
def index? (token : List Char) : Option Nat :=
  if token = ['0'] then some 0
  else if token ≠ [] ∧ token.head? ≠ some '0' ∧ token.all Char.isDigit = true then
    some (Nat.ofDigitChars 10 token 0)
  else none

/-- What a token refers to: an element of an array, or a member of an object. -/
def enter? (value : Json) (token : List Char) : Option Json :=
  match value with
  | .arr items => (index? token).bind (items[·]?)
  | .obj members => members.lookup (String.ofList token)
  | _ => none

end Pointer

namespace Json

/-- What a pointer refers to in a document. -/
def pointer? (value : Json) (pointer : String) : Option Json :=
  (Pointer.tokens? pointer).bind (·.foldlM Pointer.enter? value)

/-- One step of a path. -/
def enter? (value : Json) : Segment → Option Json
  | .index position => value.at? position
  | .key name => value.get? name

/-- Where a path leads in a document. -/
def follow? (value : Json) (path : Path) : Option Json := path.foldlM enter? value

theorem follow?_nil (value : Json) : value.follow? [] = some value := rfl

theorem follow?_cons (value : Json) (segment : Segment) (path : Path) :
    value.follow? (segment :: path) = (value.enter? segment).bind (·.follow? path) :=
  List.foldlM_cons

end Json

namespace Pointer

theorem unescape?_cons_of_ne {c : Char} (h : c ≠ '~') (rest : List Char) :
    unescape? (c :: rest) = (unescape? rest).map (c :: ·) := by
  rw [unescape?.eq_4 _ _ (fun _ heq _ => h heq) (fun _ heq _ => h heq), if_neg h]

/-- Escaping is undone. -/
theorem unescape?_flatMap (text : List Char) :
    unescape? (text.flatMap Segment.escapePointer) = some text := by
  induction text with
  | nil => rfl
  | cons c text ih =>
      rw [List.flatMap_cons, Segment.escapePointer]
      split
      · rename_i heq
        simp [unescape?, ih, heq]
      · rename_i htilde
        split
        · rename_i heq
          simp [unescape?, ih, heq]
        · rw [List.singleton_append, unescape?_cons_of_ne htilde, ih]
          rfl

theorem not_mem_flatMap_escapePointer (text : List Char) :
    '/' ∉ text.flatMap Segment.escapePointer := by
  rw [List.mem_flatMap]
  rintro ⟨c, -, hc⟩
  rw [Segment.escapePointer] at hc
  split at hc
  · simp at hc
  · split at hc
    · simp at hc
    · rename_i hslash
      exact hslash (List.mem_singleton.mp hc).symm

/-- The first digit of a positive number is not zero. -/
theorem head?_toDigits_ne {n : Nat} (hn : 0 < n) : (Nat.toDigits 10 n).head? ≠ some '0' := by
  induction n using Nat.strong_induction_on with
  | _ n ih =>
      by_cases hlt : n < 10
      · rw [Nat.toDigits_of_lt_base hlt]
        interval_cases n <;> simp [Nat.digitChar]
      · rw [Nat.toDigits_of_base_le (by omega) (by omega),
          List.head?_append_of_ne_nil _ Nat.toDigits_ne_nil]
        exact ih (n / 10) (by omega) (by omega)

theorem index?_toString (n : Nat) : index? (toString n).toList = some n := by
  rw [Nat.toString_eq_ofList_toDigits, String.toList_ofList, index?]
  rcases Nat.eq_zero_or_pos n with rfl | hn
  · rfl
  · have hhead := head?_toDigits_ne hn
    rw [if_neg (fun heq => hhead (by rw [heq]; rfl)),
      if_pos ⟨Nat.toDigits_ne_nil, hhead, List.all_eq_true.mpr fun c hc =>
        Nat.isDigit_of_mem_toDigits (by omega) (by omega) hc⟩, Nat.ofDigitChars_ten_toDigits]

end Pointer

namespace Segment

/-- The token of a step before characters are escaped. -/
def token : Segment → List Char
  | .index position => (toString position).toList
  | .key name => name.toList

theorem toList_pointerToken (segment : Segment) :
    segment.pointerToken.toList = segment.token.flatMap escapePointer := by
  cases segment with
  | key name => rw [pointerToken, String.toList_ofList, token]
  | index position =>
      have hdigit : ∀ c ∈ Nat.toDigits 10 position, escapePointer c = [c] := by
        intro c hc
        have hdigit := Nat.isDigit_of_mem_toDigits (by omega) (by omega) hc
        rw [escapePointer, if_neg, if_neg]
        · rintro rfl
          exact absurd hdigit (by decide)
        · rintro rfl
          exact absurd hdigit (by decide)
      rw [pointerToken, token, Nat.toString_eq_ofList_toDigits, String.toList_ofList,
        List.flatMap_congr hdigit, List.flatMap_singleton']

end Segment

namespace Path

theorem toList_pointer (path : Path) :
    path.pointer.toList = path.flatMap fun segment => '/' :: segment.token.flatMap
      Segment.escapePointer := by
  rw [pointer]
  induction path with
  | nil => rfl
  | cons segment path ih =>
      rw [List.map_cons, String.join_cons, String.toList_append, ih, String.toList_append,
        Segment.toList_pointerToken, List.flatMap_cons]
      rfl

/-- A pointer is cut where it was put together. -/
theorem split_pointer (segment : Segment) (path : Path) :
    Text.split '/' (segment.token.flatMap Segment.escapePointer ++ path.flatMap fun segment =>
        '/' :: segment.token.flatMap Segment.escapePointer) =
      (segment :: path).map fun segment => segment.token.flatMap Segment.escapePointer := by
  rw [List.map_cons, ← Text.split_append_flatMap, List.flatMap_map]
  rw [← List.map_cons (f := fun segment : Segment => segment.token.flatMap Segment.escapePointer),
    List.forall_mem_map]
  exact fun _ _ => Pointer.not_mem_flatMap_escapePointer _

/-- Reading a pointer gives the steps that were written. -/
theorem tokens?_pointer (path : Path) :
    Pointer.tokens? path.pointer = some (path.map (·.token)) := by
  rw [Pointer.tokens?, toList_pointer]
  cases path with
  | nil => rfl
  | cons segment path =>
      rw [List.flatMap_cons, List.cons_append]
      dsimp only
      rw [if_pos rfl, split_pointer]
      generalize segment :: path = path
      induction path with
      | nil => rfl
      | cons segment path ih =>
          rw [List.map_cons, List.mapM_cons, Pointer.unescape?_flatMap, ih]
          rfl

end Path

namespace Json

theorem pointer?_pointer (value : Json) (path : Path) :
    value.pointer? path.pointer = (path.map (·.token)).foldlM Pointer.enter? value := by
  rw [pointer?, Path.tokens?_pointer]
  rfl

theorem enter?_item (items : List Json) (position : Nat) :
    Pointer.enter? (.arr items) (Segment.index position).token =
      (arr items).enter? (.index position) := by
  rw [Pointer.enter?, Segment.token, Pointer.index?_toString]
  rfl

theorem enter?_member (members : Members) (name : String) :
    Pointer.enter? (.obj members) (Segment.key name).token = (obj members).enter? (.key name) := by
  rw [Pointer.enter?, Segment.token, String.ofList_toList]
  rfl

end Json

end EntityContract
