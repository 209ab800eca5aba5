/-!
Decoding of Punycode, the ASCII form of an internationalised label. Characters beyond ASCII are
given by the distance from one insertion to the next, a number in base 36 whose digit weights
adapt to what came before.
-/

namespace EntityContract.Punycode

def digitValue? (c : Char) : Option Nat :=
  if 'a' ≤ c ∧ c ≤ 'z' then some (c.toNat - 'a'.toNat)
  else if 'A' ≤ c ∧ c ≤ 'Z' then some (c.toNat - 'A'.toNat)
  else if '0' ≤ c ∧ c ≤ '9' then some (c.toNat - '0'.toNat + 26)
  else none

/-- A digit below the threshold of its place ends a number. -/
def threshold (place bias : Nat) : Nat :=
  if place ≤ bias then 1 else if bias + 26 ≤ place then 26 else place - bias

/-- Divides by 35 until at most 455 is left; counts 36 for each division. -/
def shrink (delta offset : Nat) : Nat × Nat :=
  if 455 < delta then shrink (delta / 35) (offset + 36) else (delta, offset)
termination_by delta
decreasing_by exact Nat.div_lt_self (by omega) (by omega)

/-- The bias after a number: `count` characters are there now. -/
def adapt (delta count : Nat) (first : Bool) : Nat :=
  let delta := if first then delta / 700 else delta / 2
  let (delta, offset) := shrink (delta + delta / count) 0
  offset + 36 * delta / (delta + 38)

/-- A number under way: its value so far, the weight and the place of the next digit. -/
structure Pending where
  value : Nat
  weight : Nat
  place : Nat

/-- What has been decoded: the text, the last inserted code point, where the next insertion is
counted from, the bias, and the digits read of the next number. -/
structure Decoding where
  text : List Char
  code : Nat
  position : Nat
  bias : Nat
  pending : Option Pending

/-- Inserts the character that a finished number stands for. -/
def insertAt (state : Decoding) (delta : Nat) : Option Decoding :=
  let count := state.text.length + 1
  let place := state.position + delta
  let code := state.code + place / count
  if h : code.isValidChar then
    let position := place % count
    some {
      text := state.text.take position ++ Char.ofNatAux code h :: state.text.drop position
      code := code
      position := position + 1
      bias := adapt delta count (state.position == 0)
      pending := none }
  else none

def readDigit (state : Decoding) (c : Char) : Option Decoding := do
  let digit ← digitValue? c
  let pending := state.pending.getD ⟨0, 1, 36⟩
  let value := pending.value + digit * pending.weight
  let limit := threshold pending.place state.bias
  if Nat.pow 2 32 ≤ value then none
  else if digit < limit then insertAt state value
  else some { state with
    pending := some ⟨value, pending.weight * (36 - limit), pending.place + 36⟩ }

/-- The ASCII characters before the last hyphen, and the digits behind it. -/
def split (label : List Char) : List Char × List Char :=
  match label.reverse.span (· ≠ '-') with
  | (_, []) | (_, [_]) => ([], label)
  | (digits, _ :: basic) => (basic.reverse, digits.reverse)

def decode? (label : List Char) : Option (List Char) := do
  let (basic, digits) := split label
  let state ← digits.foldlM readDigit ⟨basic, 128, 0, 72, none⟩
  if state.pending.isSome then none else some state.text

end EntityContract.Punycode
