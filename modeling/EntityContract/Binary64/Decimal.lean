import EntityContract.Binary64.Basic

/-!
Binary64 numbers and decimal digits: the number nearest to a decimal text, and the shortest
digits that read back to a number. Of the shortest digit strings the one nearest to the number
is taken, a tie to the even last digit.
-/

namespace EntityContract.Binary64

/-- The number nearest to `± digits · 10 ^ exponent`; none when it is too large. Exponents beyond
any representable number are decided by their size alone. -/
def ofDecimal? (negative : Bool) (digits : Nat) (exponent : Int) : Option Binary64 :=
  let length : Int := (Nat.toDigits 10 digits).length
  if digits = 0 then some (zero negative)
  else if 310 < exponent + length then none
  else if exponent + length < -330 then some (zero negative)
  else match exponent with
    | .ofNat shift => ofRatio? negative (digits * Nat.pow 10 shift) 1
    | .negSucc shift => ofRatio? negative digits (Nat.pow 10 (shift + 1))

/-- `digits · 10 ^ exponent`. -/
structure Decimal where
  digits : Nat
  exponent : Int
  deriving DecidableEq, Repr

namespace Decimal

def ratio (d : Decimal) : Nat × Nat :=
  match d.exponent with
  | .ofNat shift => (d.digits * Nat.pow 10 shift, 1)
  | .negSucc shift => (d.digits, Nat.pow 10 (shift + 1))

def trim (d : Decimal) : Nat → Decimal
  | 0 => d
  | rounds + 1 =>
    if d.digits ≠ 0 ∧ d.digits % 10 = 0 then trim ⟨d.digits / 10, d.exponent + 1⟩ rounds else d

end Decimal

def compareRatio (x y : Nat × Nat) : Ordering := compare (x.1 * y.2) (y.1 * x.2)

/-- A decimal text reads back to `x` when it lies between the midpoints to the two neighbours of
`x`; the midpoints count when the significand is even. -/
def readsBack (x : Binary64) (d : Decimal) : Bool :=
  let quarter := fun (n : Nat) => magnitude ⟨false, n, x.exponent - 2⟩
  let atPower := x.significand == Nat.pow 2 (precision - 1) && x.exponent != minExponent
  let low := quarter (4 * x.significand - (if atPower then 1 else 2))
  let high := quarter (4 * x.significand + 2)
  let inclusive := x.significand % 2 == 0
  let above := compareRatio low d.ratio
  let below := compareRatio d.ratio high
  (above == .lt || (inclusive && above == .eq)) && (below == .lt || (inclusive && below == .eq))

def tenPowerLE (power : Int) (x : Nat × Nat) : Bool :=
  match power with
  | .ofNat shift => Nat.pow 10 shift * x.2 ≤ x.1
  | .negSucc shift => x.2 ≤ x.1 * Nat.pow 10 (shift + 1)

/-- The `power` with `10 ^ power ≤ x < 10 ^ (power + 1)`, from the binary logarithm, which misses
it by at most one. -/
def decimalExponent (x : Nat × Nat) : Int :=
  let estimate : Int := ((x.1.log2 : Int) - x.2.log2) * 30103 / 100000
  if tenPowerLE (estimate + 1) x then estimate + 1
  else if tenPowerLE estimate x then estimate
  else estimate - 1

/-- The two neighbours of `x` on the grid of the multiples of `10 ^ exponent`. -/
def neighbours (x : Nat × Nat) (exponent : Int) : Decimal × Decimal :=
  let floor := match exponent with
    | .ofNat shift => x.1 / (x.2 * Nat.pow 10 shift)
    | .negSucc shift => x.1 * Nat.pow 10 (shift + 1) / x.2
  (⟨floor, exponent⟩, ⟨floor + 1, exponent⟩)

/-- The nearer of two decimals around `x`, the even one if both are as near. -/
def nearer (x : Nat × Nat) (low high : Decimal) : Decimal :=
  let twice := (2 * x.1, x.2)
  let (lowTop, lowBottom) := low.ratio
  let (highTop, highBottom) := high.ratio
  match compareRatio twice (lowTop * highBottom + highTop * lowBottom, lowBottom * highBottom) with
  | .lt => low
  | .gt => high
  | .eq => if low.digits % 2 = 0 then low else high

/-- The shortest decimal that reads back to `x` on a grid of `count` to `count + rounds` digits. -/
def shortestFrom (x : Binary64) (top : Int) : Nat → Nat → Decimal
  | count, 0 => (neighbours x.magnitude (top - count + 1)).1
  | count, rounds + 1 =>
    let (low, high) := neighbours x.magnitude (top - count + 1)
    match x.readsBack low, x.readsBack high with
    | true, true => nearer x.magnitude low high
    | true, false => low
    | false, true => high
    | false, false => shortestFrom x top (count + 1) rounds

/-- The shortest decimal that reads back to `x`; seventeen digits are always enough. -/
def shortest (x : Binary64) : Decimal :=
  if x.significand = 0 then ⟨0, 0⟩
  else (shortestFrom x (decimalExponent x.magnitude) 1 17).trim 20

end EntityContract.Binary64
