import EntityContract.Proofs.Json.Pointer
import EntityContract.Proofs.Json.Quoting

/-!
The two written forms of a path. Main statement: no two paths are displayed by one text, and a
pointer gives back the texts of its steps when it is cut at every `/` and escapes are replaced, `~1`
before `~0`.
-/

namespace EntityContract

namespace Text

/-- Replaces a pair of characters by one wherever it occurs, from the left. -/
def replacePair (first second replacement : Char) : List Char → List Char
  | c :: d :: rest =>
    if c = first ∧ d = second then replacement :: replacePair first second replacement rest
    else c :: replacePair first second replacement (d :: rest)
  | rest => rest

variable {first second replacement : Char}

theorem replacePair_pair (rest : List Char) :
    replacePair first second replacement (first :: second :: rest) =
      replacement :: replacePair first second replacement rest := by
  simp [replacePair]

theorem replacePair_cons_of_ne {c : Char} (h : c ≠ first) (rest : List Char) :
    replacePair first second replacement (c :: rest) =
      c :: replacePair first second replacement rest := by
  cases rest <;> simp [replacePair, h]

/-- Behind the first character of a pair stands another one than the second. -/
theorem replacePair_cons_cons_of_ne {c d : Char} (h : d ≠ second) (rest : List Char) :
    replacePair first second replacement (c :: d :: rest) =
      c :: replacePair first second replacement (d :: rest) := by
  simp [replacePair, h]

theorem takeWhile_append_of_head {p : Char → Bool} {run rest : List Char}
    (hrun : ∀ c ∈ run, p c = true) (hrest : ∀ c ∈ rest.head?, p c = false) :
    (run ++ rest).takeWhile p = run := by
  rw [List.takeWhile_append_of_pos hrun]
  cases rest with
  | nil => simp
  | cons c rest => simp [hrest c rfl]

/-- A run of characters of one class ends where another character stands. -/
theorem append_inj_of_class {p : Char → Bool} {run other rest rest' : List Char}
    (hrun : ∀ c ∈ run, p c = true) (hother : ∀ c ∈ other, p c = true)
    (hrest : ∀ c ∈ rest.head?, p c = false) (hrest' : ∀ c ∈ rest'.head?, p c = false)
    (h : run ++ rest = other ++ rest') : run = other ∧ rest = rest' := by
  have hruns := congrArg (List.takeWhile p) h
  rw [takeWhile_append_of_head hrun hrest, takeWhile_append_of_head hother hrest'] at hruns
  subst hruns
  exact ⟨rfl, List.append_cancel_left h⟩

end Text

namespace Segment

/-- The text of a step that is not the first one. -/
inductive Spelled : Segment → List Char → Prop
  | index (position : Nat) :
      Spelled (.index position) ('[' :: (Nat.toDigits 10 position ++ [']']))
  | dotted {name : String} : isIdentifier name = true → Spelled (.key name) ('.' :: name.toList)
  | quoted {name : String} : isIdentifier name = false →
      Spelled (.key name) ('[' :: ((Json.quote name).toList ++ [']']))

theorem toList_display_index (position : Nat) (first : Bool) :
    ((index position).display first).toList = '[' :: (Nat.toDigits 10 position ++ [']']) := by
  simp [display]

theorem toList_display_identifier {name : String} (h : isIdentifier name = true) (first : Bool) :
    ((key name).display first).toList = if first then name.toList else '.' :: name.toList := by
  cases first <;> simp [display, h]

theorem toList_display_quoted {name : String} (h : isIdentifier name = false) (first : Bool) :
    ((key name).display first).toList = '[' :: ((Json.quote name).toList ++ [']']) := by
  simp [display, h]

theorem spelled_display (segment : Segment) : Spelled segment (segment.display false).toList := by
  cases segment with
  | index position =>
      rw [toList_display_index]
      exact .index position
  | key name =>
      cases hname : isIdentifier name with
      | true =>
          rw [toList_display_identifier hname]
          exact .dotted hname
      | false =>
          rw [toList_display_quoted hname]
          exact .quoted hname

theorem isIdentifier_eq_true_iff {name : String} :
    isIdentifier name = true ↔ ∃ c rest, name.toList = c :: rest ∧ isIdentifierStart c = true ∧
      ∀ d ∈ rest, isIdentifierPart d = true := by
  rw [isIdentifier]
  cases name.toList <;> simp

theorem isIdentifierPart_of_mem {name : String} (h : isIdentifier name = true) {c : Char}
    (hc : c ∈ name.toList) : isIdentifierPart c = true := by
  obtain ⟨first, rest, hname, hfirst, hrest⟩ := isIdentifier_eq_true_iff.mp h
  rw [hname] at hc
  rcases List.mem_cons.mp hc with rfl | hc
  · simp only [isIdentifierStart, isIdentifierPart, Char.isAlphanum, Bool.or_eq_true] at hfirst ⊢
    tauto
  · exact hrest c hc

/-- What stands behind a step: nothing, or another step. -/
def Opens (rest : List Char) : Prop := ∀ c ∈ rest.head?, c = '.' ∨ c = '['

variable {segment other : Segment} {text text' rest rest' : List Char}

theorem Spelled.opens (h : Spelled segment text) (rest : List Char) : Opens (text ++ rest) := by
  cases h <;> simp [Opens]

theorem Spelled.ne_nil (h : Spelled segment text) : text ≠ [] := by
  cases h <;> simp

theorem toDigits_ne_quote_cons (position : Nat) (rest : List Char) :
    Nat.toDigits 10 position ++ rest ≠ '"' :: rest' := by
  intro h
  obtain ⟨digit, digits, hdigits⟩ := List.exists_cons_of_ne_nil (Nat.toDigits_ne_nil (b := 10)
    (n := position))
  have hmem : digit ∈ Nat.toDigits 10 position := by simp [hdigits]
  have hdigit := Nat.isDigit_of_mem_toDigits (by omega) (by omega) hmem
  rw [hdigits] at h
  rw [(List.cons.inj h).1] at hdigit
  exact absurd hdigit (by decide)

/-- The text of a step tells the step, and where the next one begins. -/
theorem Spelled.append_inj (hsegment : Spelled segment text) (hother : Spelled other text')
    (hrest : Opens rest) (hrest' : Opens rest') (h : text ++ rest = text' ++ rest') :
    segment = other ∧ rest = rest' := by
  cases hsegment with
  | index position =>
      cases hother with
      | index position' =>
          simp only [List.cons_append, List.append_assoc, List.nil_append, List.cons.injEq,
            true_and] at h
          have hdigit : ∀ n : Nat, ∀ c ∈ Nat.toDigits 10 n, c.isDigit = true := fun n c hc =>
            Nat.isDigit_of_mem_toDigits (by omega) (by omega) hc
          obtain ⟨hdigits, hrests⟩ := Text.append_inj_of_class (hdigit position)
            (hdigit position') (by simp) (by simp) h
          have hvalue := congrArg (Nat.ofDigitChars 10 · 0) hdigits
          simp only [Nat.ofDigitChars_ten_toDigits] at hvalue
          exact ⟨congrArg _ hvalue, (List.cons.inj hrests).2⟩
      | dotted _ => simp at h
      | quoted _ =>
          simp only [Json.quote, List.cons_append, List.append_assoc, List.nil_append,
            String.toList_ofList, List.cons.injEq, true_and] at h
          exact absurd h (toDigits_ne_quote_cons _ _)
  | dotted hname =>
      cases hother with
      | index _ => simp at h
      | dotted hname' =>
          have hends : ∀ {rest : List Char}, Opens rest →
              ∀ c ∈ rest.head?, isIdentifierPart c = false := by
            intro rest hopens c hc
            rcases hopens c hc with rfl | rfl
            · decide
            · decide
          obtain ⟨hnames, hrests⟩ := Text.append_inj_of_class
            (fun c hc => isIdentifierPart_of_mem hname hc)
            (fun c hc => isIdentifierPart_of_mem hname' hc) (hends hrest) (hends hrest')
            (List.cons.inj h).2
          exact ⟨congrArg _ (String.toList_inj.mp hnames), hrests⟩
      | quoted _ => simp at h
  | quoted _ =>
      cases hother with
      | index _ =>
          simp only [Json.quote, List.cons_append, List.append_assoc, List.nil_append,
            String.toList_ofList, List.cons.injEq, true_and] at h
          exact absurd h.symm (toDigits_ne_quote_cons _ _)
      | dotted _ => simp at h
      | quoted _ =>
          simp only [List.cons_append, List.append_assoc, List.cons.injEq, true_and] at h
          obtain ⟨rfl, hrests⟩ := Json.quote_append_inj h
          exact ⟨rfl, (List.cons.inj hrests).2⟩

end Segment

namespace Path

/-- The text of a path in which the first step has its dot too. -/
def steps (path : Path) : List Char := path.flatMap fun segment => (segment.display false).toList

theorem steps_cons (segment : Segment) (path : Path) :
    steps (segment :: path) = (segment.display false).toList ++ steps path :=
  List.flatMap_cons

theorem opens_steps (path : Path) : Segment.Opens path.steps := by
  cases path with
  | nil => simp [steps, Segment.Opens]
  | cons segment path => exact (Segment.spelled_display segment).opens _

theorem steps_injective : Function.Injective steps := by
  intro path
  induction path with
  | nil =>
      intro other h
      cases other with
      | nil => rfl
      | cons segment other =>
          rw [steps_cons] at h
          exact absurd (List.append_eq_nil_iff.mp h.symm).1 (Segment.spelled_display segment).ne_nil
  | cons segment path ih =>
      intro other h
      cases other with
      | nil =>
          rw [steps_cons] at h
          exact absurd (List.append_eq_nil_iff.mp h).1 (Segment.spelled_display segment).ne_nil
      | cons segment' other =>
          rw [steps_cons, steps_cons] at h
          obtain ⟨rfl, hpath⟩ := (Segment.spelled_display segment).append_inj
            (Segment.spelled_display segment') (opens_steps path) (opens_steps other) h
          rw [ih hpath]

theorem toList_display_cons (segment : Segment) (path : Path) :
    (display (segment :: path)).toList = (segment.display true).toList ++ path.steps := by
  rw [display, String.toList_append]
  congr 1
  induction path with
  | nil => rfl
  | cons segment path ih =>
      rw [List.map_cons, String.join_cons, String.toList_append, ih, steps_cons]

/-- Puts the dot back before a leading identifier. -/
def withDot : List Char → List Char
  | [] => []
  | c :: rest => if Segment.isIdentifierStart c then '.' :: c :: rest else c :: rest

theorem withDot_display (path : Path) : withDot path.display.toList = path.steps := by
  cases path with
  | nil => rfl
  | cons segment path =>
      rw [toList_display_cons, steps_cons]
      have hbracket : Segment.isIdentifierStart '[' = false := by decide
      cases segment with
      | index position => simp [Segment.toList_display_index, withDot, hbracket]
      | key name =>
          cases hname : Segment.isIdentifier name with
          | true =>
              obtain ⟨c, rest, hchars, hstart, -⟩ := Segment.isIdentifier_eq_true_iff.mp hname
              simp [Segment.toList_display_identifier hname, hchars, withDot, hstart]
          | false => simp [Segment.toList_display_quoted hname, withDot, hbracket]

/-- No two paths are displayed by one text. -/
theorem display_injective : Function.Injective display := by
  intro path other h
  apply steps_injective
  rw [← withDot_display, ← withDot_display, h]

/-- A dot inside a key is quoted, so it is not taken for a step. -/
example : display [.key "a", .key "b"] = "a.b" ∧ display [.key "a.b"] = "[\"a.b\"]" := by decide

end Path

namespace Pointer

/-- What a token stands for when every `~1` in it becomes `/` and then every `~0` becomes `~`. -/
def replaceEscapes (token : List Char) : List Char :=
  Text.replacePair '~' '0' '~' (Text.replacePair '~' '1' '/' token)

/-- The escaped text once slashes are back. -/
def escapeTilde (c : Char) : List Char := if c = '~' then ['~', '0'] else [c]

theorem replacePair_escapePointer (text : List Char) :
    Text.replacePair '~' '1' '/' (text.flatMap Segment.escapePointer) =
      text.flatMap escapeTilde := by
  induction text with
  | nil => rfl
  | cons c text ih =>
      rw [List.flatMap_cons, List.flatMap_cons, Segment.escapePointer, escapeTilde]
      split_ifs with htilde hslash
      · have hzero : '0' ≠ '1' := by decide
        have hother : '0' ≠ '~' := by decide
        rw [List.cons_append, List.cons_append, List.nil_append,
          Text.replacePair_cons_cons_of_ne hzero, Text.replacePair_cons_of_ne hother, ih]
        rfl
      · rw [List.cons_append, List.cons_append, List.nil_append, Text.replacePair_pair, ih, hslash]
        rfl
      · rw [List.singleton_append, Text.replacePair_cons_of_ne htilde, ih]
        rfl

theorem replacePair_escapeTilde (text : List Char) :
    Text.replacePair '~' '0' '~' (text.flatMap escapeTilde) = text := by
  induction text with
  | nil => rfl
  | cons c text ih =>
      rw [List.flatMap_cons, escapeTilde]
      split_ifs with htilde
      · rw [List.cons_append, List.cons_append, List.nil_append, Text.replacePair_pair, ih, htilde]
      · rw [List.singleton_append, Text.replacePair_cons_of_ne htilde, ih]

/-- Slashes come back before tildes, so no escape is read twice. -/
theorem replaceEscapes_escapePointer (text : List Char) :
    replaceEscapes (text.flatMap Segment.escapePointer) = text := by
  rw [replaceEscapes, replacePair_escapePointer, replacePair_escapeTilde]

end Pointer

namespace Path

/-- A displayed text belongs to one path. A pointer is empty for the root only; else it starts with
a slash, and what follows, cut at every slash, holds the escaped steps. -/
theorem display_injective_and_split_pointer :
    Function.Injective display ∧ ∀ path : Path, (path.pointer = "" ↔ path = []) ∧
      (path = [] ∨ ∃ rest, path.pointer.toList = '/' :: rest ∧
        (Text.split '/' rest).map Pointer.replaceEscapes = path.map Segment.token) := by
  refine ⟨display_injective, fun path => ?_⟩
  cases path with
  | nil => exact ⟨⟨fun _ => rfl, fun _ => rfl⟩, Or.inl rfl⟩
  | cons segment path =>
      have hpointer : (pointer (segment :: path)).toList = '/' ::
          (segment.token.flatMap Segment.escapePointer ++ path.flatMap fun segment =>
            '/' :: segment.token.flatMap Segment.escapePointer) := by
        rw [toList_pointer, List.flatMap_cons, List.cons_append]
      constructor
      · constructor
        · intro hempty
          rw [hempty] at hpointer
          exact nomatch hpointer
        · intro hnil
          exact nomatch hnil
      · refine Or.inr ⟨_, hpointer, ?_⟩
        rw [split_pointer, List.map_map]
        apply List.map_congr_left
        intro segment _
        exact Pointer.replaceEscapes_escapePointer segment.token

end Path

end EntityContract
