/-!
Finite binary64 numbers, held exactly: a sign, a significand and a power of two. Rounding goes
to the nearest representable number, a half to the even significand, all in natural numbers.
-/

namespace EntityContract

/-- The number `± significand · 2 ^ exponent`. -/
structure Binary64 where
  negative : Bool
  significand : Nat
  exponent : Int
  deriving DecidableEq, Repr

namespace Binary64

/-- Every significand is below `2 ^ precision`. -/
def precision : Nat := 53

def minExponent : Int := -1074

def maxExponent : Int := 971

/-- One form for each number: the significand fills its `precision` bits, unless the exponent is
already the smallest. -/
def Canonical (x : Binary64) : Prop :=
  x.significand < Nat.pow 2 precision ∧ minExponent ≤ x.exponent ∧ x.exponent ≤ maxExponent ∧
    (Nat.pow 2 (precision - 1) ≤ x.significand ∨ x.exponent = minExponent)

instance (x : Binary64) : Decidable x.Canonical := by
  unfold Canonical
  infer_instance

def zero (negative : Bool) : Binary64 := ⟨negative, 0, minExponent⟩

/-- `numerator / denominator` rounded to an integer, a half to the even one. -/
def roundHalfEven (numerator denominator : Nat) : Nat :=
  let quotient := numerator / denominator
  let rest := 2 * (numerator % denominator)
  if rest < denominator then quotient
  else if denominator < rest then quotient + 1
  else quotient + quotient % 2

/-- `numerator / denominator / 2 ^ exponent`, as a fraction of natural numbers. -/
def scaled (numerator denominator : Nat) : Int → Nat × Nat
  | .ofNat shift => (numerator, denominator * Nat.pow 2 shift)
  | .negSucc shift => (numerator * Nat.pow 2 (shift + 1), denominator)

/-- The exponent at which the significand of `numerator / denominator` fills its bits, or the
smallest one. -/
def exponentOf (numerator denominator : Nat) : Int :=
  let estimate : Int := numerator.log2 - denominator.log2 - (precision - 1 : Nat)
  let (top, bottom) := scaled numerator denominator estimate
  max minExponent (if top < bottom * Nat.pow 2 (precision - 1) then estimate - 1 else estimate)

/-- The number nearest to `± numerator / denominator`; none when it is too large. -/
def ofRatio? (negative : Bool) (numerator denominator : Nat) : Option Binary64 :=
  if numerator = 0 then some (zero negative)
  else
    let exponent := exponentOf numerator denominator
    let (top, bottom) := scaled numerator denominator exponent
    let rounded := roundHalfEven top bottom
    let (significand, exponent) :=
      if rounded = Nat.pow 2 precision then (Nat.pow 2 (precision - 1), exponent + 1)
      else (rounded, exponent)
    if maxExponent < exponent then none else some ⟨negative, significand, exponent⟩

def magnitude (x : Binary64) : Nat × Nat :=
  match x.exponent with
  | .ofNat shift => (x.significand * Nat.pow 2 shift, 1)
  | .negSucc shift => (x.significand, Nat.pow 2 (shift + 1))

def toInt? (x : Binary64) : Option Int :=
  let (top, bottom) := x.magnitude
  if top % bottom = 0 then
    some (if x.negative then -((top / bottom : Nat) : Int) else ((top / bottom : Nat) : Int))
  else none

/-- Equality of values: the two zeros are one number. -/
def same (x y : Binary64) : Bool :=
  x == y || (x.significand == 0 && y.significand == 0)

end Binary64

end EntityContract
