import Mathlib.Data.List.TakeDrop
import Mathlib.Data.List.TakeWhile
import EntityContract.Json.Number

/-!
What the texts of numbers say, and that reading them finds it: digits, signed integers, integers of
64 bits, and decimal texts with a point or an exponent.
-/

namespace EntityContract.Number

/-- Decimal digits, at least one, write a number. -/
structure WritesNat (digits : List Char) (value : Nat) : Prop where
  ne_nil : digits ≠ []
  isDigit : ∀ c ∈ digits, c.isDigit = true
  value_eq : Nat.ofDigitChars 10 digits 0 = value

/-- Digits, with a sign or without, write an integer. -/
inductive WritesInt : List Char → Int → Prop
  | unsigned {digits : List Char} {value : Nat} : WritesNat digits value → WritesInt digits value
  | plus {digits : List Char} {value : Nat} :
      WritesNat digits value → WritesInt ('+' :: digits) value
  | minus {digits : List Char} {value : Nat} :
      WritesNat digits value → WritesInt ('-' :: digits) (-value)

/-- The text writes a signed integer of 64 bits. -/
structure WritesInt64 (text : String) (value : Int) : Prop where
  writes : WritesInt text.toList value
  le : -Int.pow 2 63 ≤ value
  lt : value < Int.pow 2 63

/-- The exponent behind the digits of a number, if there is one. -/
inductive WritesPower : List Char → Int → Prop
  | none : WritesPower [] 0
  | marked {mark : Char} {text : List Char} {power : Int} :
      mark = 'e' ∨ mark = 'E' → WritesInt text power → WritesPower (mark :: text) power

/-- Digits, with a point or without, and an exponent or none write the float nearest to them. -/
inductive WritesDecimal (negative : Bool) : List Char → Binary64 → Prop
  | whole {digits rest : List Char} {value : Nat} {power : Int} {x : Binary64} :
      WritesNat digits value → WritesPower rest power →
        Binary64.ofDecimal? negative value power = some x →
          WritesDecimal negative (digits ++ rest) x
  | pointed {whole fraction rest : List Char} {value : Nat} {power : Int} {x : Binary64} :
      WritesNat (whole ++ fraction) value → WritesPower rest power →
        Binary64.ofDecimal? negative value (power - fraction.length) = some x →
          WritesDecimal negative (whole ++ '.' :: (fraction ++ rest)) x

/-- A decimal text, with a sign or without, writes a float. -/
inductive WritesFloat : List Char → Binary64 → Prop
  | unsigned {text : List Char} {x : Binary64} : WritesDecimal false text x → WritesFloat text x
  | plus {text : List Char} {x : Binary64} :
      WritesDecimal false text x → WritesFloat ('+' :: text) x
  | minus {text : List Char} {x : Binary64} :
      WritesDecimal true text x → WritesFloat ('-' :: text) x

theorem digitsValue_eq (digits : List Char) :
    digitsValue digits = Nat.ofDigitChars 10 digits 0 := by
  rw [digitsValue, Nat.ofDigitChars_eq_foldl]
  simp only [Nat.mul_comm]

theorem digits?_eq_some_iff {digits : List Char} {value : Nat} :
    digits? digits = some value ↔ WritesNat digits value := by
  rw [digits?, digitsValue_eq]
  constructor
  · intro h
    split at h
    · rename_i hdigits
      exact ⟨hdigits.1, List.all_eq_true.mp hdigits.2, Option.some.inj h⟩
    · exact nomatch h
  · rintro ⟨hne, hdigits, rfl⟩
    exact if_pos ⟨hne, List.all_eq_true.mpr hdigits⟩

theorem not_writesNat_of_head {c : Char} (hc : c.isDigit = false) {text : List Char} {value : Nat} :
    ¬WritesNat (c :: text) value := fun h =>
  absurd (h.isDigit c List.mem_cons_self) (by simp [hc])

theorem signedDigits?_eq_some_iff {text : List Char} {value : Int} :
    signedDigits? text = some value ↔ WritesInt text value := by
  constructor
  · intro h
    have hvalue : ∀ {digits : List Char} {n : Int},
        ((digits? digits).bind fun value => some (value : Int)) = some n →
          ∃ value : Nat, n = value ∧ WritesNat digits value := by
      intro digits n hn
      obtain ⟨value, hdigits, hn⟩ := Option.bind_eq_some_iff.mp hn
      exact ⟨value, (Option.some.inj hn).symm, digits?_eq_some_iff.mp hdigits⟩
    rw [signedDigits?.eq_def] at h
    split at h
    · obtain ⟨n, hn, rfl⟩ := Option.map_eq_some_iff.mp h
      obtain ⟨value, rfl, hdigits⟩ := hvalue hn
      exact .minus hdigits
    · obtain ⟨n, hn, rfl⟩ := Option.map_eq_some_iff.mp h
      obtain ⟨value, rfl, hdigits⟩ := hvalue hn
      exact .plus hdigits
    · obtain ⟨n, hn, rfl⟩ := Option.map_eq_some_iff.mp h
      obtain ⟨value, rfl, hdigits⟩ := hvalue hn
      exact .unsigned hdigits
  · intro h
    cases h with
    | plus hdigits => rw [signedDigits?, digits?_eq_some_iff.mpr hdigits]; rfl
    | minus hdigits => rw [signedDigits?, digits?_eq_some_iff.mpr hdigits]; rfl
    | unsigned hdigits =>
        rw [signedDigits?.eq_def]
        split
        · exact (not_writesNat_of_head (by decide) hdigits).elim
        · exact (not_writesNat_of_head (by decide) hdigits).elim
        · rw [digits?_eq_some_iff.mpr hdigits]
          rfl

theorem int64?_eq_some_iff {text : String} {value : Int} :
    int64? text.toList = some value ↔ WritesInt64 text value := by
  rw [int64?, Option.filter_eq_some_iff, signedDigits?_eq_some_iff, Bool.and_eq_true,
    decide_eq_true_iff, decide_eq_true_iff]
  exact ⟨fun ⟨hwrites, hle, hlt⟩ => ⟨hwrites, hle, hlt⟩,
    fun ⟨hwrites, hle, hlt⟩ => ⟨hwrites, hle, hlt⟩⟩

theorem exponent?_eq_some_iff {text : List Char} {power : Int} :
    exponent? text = some power ↔ WritesPower text power := by
  constructor
  · intro h
    cases text with
    | nil =>
        cases h
        exact .none
    | cons mark text =>
        rw [exponent?] at h
        split at h
        · rename_i hmark
          exact .marked hmark (signedDigits?_eq_some_iff.mp h)
        · exact nomatch h
  · rintro (_ | ⟨hmark, hpower⟩)
    · rfl
    · rw [exponent?, if_pos hmark, signedDigits?_eq_some_iff.mpr hpower]

/-- Behind the digits of a number there is no further digit and no point. -/
theorem WritesPower.head {rest : List Char} {power : Int} (h : WritesPower rest power) (c : Char)
    (text : List Char) (hc : rest = c :: text) : c.isDigit = false ∧ c ≠ '.' := by
  subst hc
  cases h with
  | marked hmark _ => rcases hmark with rfl | rfl <;> decide

theorem span_isDigit {digits rest : List Char} (hdigits : ∀ c ∈ digits, c.isDigit = true)
    (hrest : ∀ c text, rest = c :: text → c.isDigit = false) :
    (digits ++ rest).span Char.isDigit = (digits, rest) := by
  rw [List.span_eq_takeWhile_dropWhile, List.takeWhile_append_of_pos hdigits,
    List.dropWhile_append_of_pos hdigits]
  cases rest with
  | nil => simp
  | cons c text => simp [hrest c text rfl]

/-- Where reading digits stops. -/
theorem of_span_isDigit {text digits rest : List Char}
    (h : text.span Char.isDigit = (digits, rest)) :
    text = digits ++ rest ∧ ∀ c ∈ digits, c.isDigit = true := by
  rw [List.span_eq_takeWhile_dropWhile, Prod.mk.injEq] at h
  obtain ⟨rfl, rfl⟩ := h
  exact ⟨List.takeWhile_append_dropWhile.symm, fun c hc => List.mem_takeWhile_imp hc⟩

/-- The digits of a mantissa with what is behind them, in the two ways to write them. -/
theorem writesNat_of_mantissa? {text whole fraction rest : List Char}
    (h : mantissa? text = some (whole, fraction, rest)) :
    WritesNat (whole ++ fraction) (digitsValue (whole ++ fraction)) ∧
      (text = whole ++ rest ∧ fraction = [] ∨ text = whole ++ '.' :: (fraction ++ rest)) := by
  rw [mantissa?] at h
  rcases hwhole : text.span Char.isDigit with ⟨digits, behind⟩
  obtain ⟨rfl, hdigits⟩ := of_span_isDigit hwhole
  simp only [hwhole] at h
  split at h
  · rename_i behind'
    rcases hfraction : behind'.span Char.isDigit with ⟨places, behind⟩
    obtain ⟨rfl, hplaces⟩ := of_span_isDigit hfraction
    simp only [hfraction] at h
    split at h
    · exact nomatch h
    · rename_i hne
      cases h
      refine ⟨⟨fun hnil => hne (List.append_eq_nil_iff.mp hnil), fun c hc => ?_,
        (digitsValue_eq _).symm⟩, .inr rfl⟩
      exact (List.mem_append.mp hc).elim (hdigits c) (hplaces c)
  · split at h
    · exact nomatch h
    · rename_i hne
      cases h
      rw [List.append_nil]
      exact ⟨⟨fun hnil => hne ⟨hnil, rfl⟩, hdigits, (digitsValue_eq _).symm⟩, .inl ⟨rfl, rfl⟩⟩

theorem mantissa?_whole {digits rest : List Char} {value : Nat} {power : Int}
    (hdigits : WritesNat digits value) (hrest : WritesPower rest power) :
    mantissa? (digits ++ rest) = some (digits, [], rest) := by
  rw [mantissa?, span_isDigit hdigits.isDigit fun c text hc => (hrest.head c text hc).1]
  cases rest with
  | nil => simp [hdigits.ne_nil]
  | cons c text => simp [hdigits.ne_nil, (hrest.head c text rfl).2]

theorem mantissa?_pointed {whole fraction rest : List Char} {value : Nat} {power : Int}
    (hdigits : WritesNat (whole ++ fraction) value) (hrest : WritesPower rest power) :
    mantissa? (whole ++ '.' :: (fraction ++ rest)) = some (whole, fraction, rest) := by
  obtain ⟨hwhole, hfraction⟩ := List.forall_mem_append.mp hdigits.isDigit
  have hne : ¬(whole = [] ∧ fraction = []) := fun hnil =>
    hdigits.ne_nil (List.append_eq_nil_iff.mpr hnil)
  rw [mantissa?, span_isDigit hwhole (by rintro c text ⟨⟩; rfl)]
  simp only [span_isDigit hfraction fun c text hc => (hrest.head c text hc).1]
  exact if_neg hne

theorem decimal?_eq_some_iff {negative : Bool} {text : List Char} {x : Binary64} :
    decimal? negative text = some x ↔ WritesDecimal negative text x := by
  constructor
  · intro h
    obtain ⟨⟨whole, fraction, rest⟩, hmantissa, hbehind⟩ := Option.bind_eq_some_iff.mp h
    obtain ⟨power, hpower, hx⟩ := Option.bind_eq_some_iff.mp hbehind
    have hrest := exponent?_eq_some_iff.mp hpower
    obtain ⟨hdigits, ⟨rfl, rfl⟩ | rfl⟩ := writesNat_of_mantissa? hmantissa
    · rw [List.append_nil] at hdigits
      exact .whole hdigits hrest (by simpa using hx)
    · exact .pointed hdigits hrest hx
  · intro h
    cases h with
    | whole hdigits hrest hx =>
        rw [decimal?, mantissa?_whole hdigits hrest]
        simp [exponent?_eq_some_iff.mpr hrest, digitsValue_eq, hdigits.value_eq, hx]
    | pointed hdigits hrest hx =>
        rw [decimal?, mantissa?_pointed hdigits hrest]
        simp [exponent?_eq_some_iff.mpr hrest, digitsValue_eq, hdigits.value_eq, hx]

/-- Neither digits nor a point are a sign. -/
theorem not_writesDecimal_of_head {negative : Bool} {c : Char} {text : List Char} {x : Binary64}
    (hc : c.isDigit = false) (hpoint : c ≠ '.') : ¬WritesDecimal negative (c :: text) x := by
  intro h
  generalize hsigned : c :: text = signed at h
  cases h with
  | @whole digits _ _ _ _ hdigits _ _ =>
      cases digits with
      | nil => exact hdigits.ne_nil rfl
      | cons digit digits =>
          cases hsigned
          exact not_writesNat_of_head hc hdigits
  | @pointed whole _ _ _ _ _ hdigits _ _ =>
      cases whole with
      | nil =>
          cases hsigned
          exact hpoint rfl
      | cons digit whole =>
          cases hsigned
          exact not_writesNat_of_head hc hdigits

theorem signedDecimal?_eq_some_iff {text : List Char} {x : Binary64} :
    signedDecimal? text = some x ↔ WritesFloat text x := by
  constructor
  · intro h
    rw [signedDecimal?.eq_def] at h
    split at h
    · exact .minus (decimal?_eq_some_iff.mp h)
    · exact .plus (decimal?_eq_some_iff.mp h)
    · exact .unsigned (decimal?_eq_some_iff.mp h)
  · intro h
    cases h with
    | plus hdecimal => exact decimal?_eq_some_iff.mpr hdecimal
    | minus hdecimal => exact decimal?_eq_some_iff.mpr hdecimal
    | unsigned hdecimal =>
        rw [signedDecimal?.eq_def]
        split
        · exact (not_writesDecimal_of_head (by decide) (by decide) hdecimal).elim
        · exact (not_writesDecimal_of_head (by decide) (by decide) hdecimal).elim
        · exact decimal?_eq_some_iff.mpr hdecimal

end EntityContract.Number
