import EntityContract.Binary64.Decimal

/-!
The numbers of a JSON text. A number written without fraction and exponent is an integer when it
fits 64 bits, signed or unsigned; `-0` and every other number is a binary64 number. The written
form of a number reads back to it.
-/

namespace EntityContract

inductive Number where
  | int (value : Int)
  | float (value : Binary64)
  deriving DecidableEq, Repr

namespace Number

/-- The integers that stay integers when they are read. -/
def inRange (value : Int) : Bool := -Int.pow 2 63 ≤ value && value < Int.pow 2 64

/-- Integers and floats are never equal, and the two zeros are. -/
def same : Number → Number → Bool
  | .int x, .int y => x == y
  | .float x, .float y => x.same y
  | _, _ => false

def isWhole : Number → Bool
  | .int _ => true
  | .float x => x.toInt?.isSome

/-- Whole floats that fit a signed 64-bit integer become one. -/
def normalize (n : Number) : Number :=
  match n with
  | .int _ => n
  | .float x =>
    match x.toInt? with
    | some value => if -Int.pow 2 63 ≤ value ∧ value < Int.pow 2 63 then .int value else n
    | none => n

def digitsValue (digits : List Char) : Nat :=
  digits.foldl (fun value digit => value * 10 + (digit.toNat - '0'.toNat)) 0

/-- Digits and nothing else. -/
def digits? (text : List Char) : Option Nat :=
  if text ≠ [] ∧ text.all Char.isDigit then some (digitsValue text) else none

def signedDigits? : List Char → Option Int
  | '-' :: text => (digits? text).map fun value => -(value : Int)
  | '+' :: text | text => (digits? text).map fun value => (value : Int)

/-- A signed integer of 64 bits. -/
def int64? (text : List Char) : Option Int :=
  (signedDigits? text).filter fun value => -Int.pow 2 63 ≤ value && value < Int.pow 2 63

/-- Digits before and behind a point, at least one of them, and the rest of the text. -/
def mantissa? (text : List Char) : Option (List Char × List Char × List Char) :=
  let (whole, rest) := text.span Char.isDigit
  let (fraction, rest) := match rest with
    | '.' :: rest => rest.span Char.isDigit
    | _ => ([], rest)
  if whole = [] ∧ fraction = [] then none else some (whole, fraction, rest)

/-- The value of the exponent behind a mantissa; no text is exponent zero. -/
def exponent? : List Char → Option Int
  | [] => some 0
  | mark :: rest => if mark = 'e' ∨ mark = 'E' then signedDigits? rest else none

/-- The float nearest to a decimal text without a sign, if it is finite. -/
def decimal? (negative : Bool) (text : List Char) : Option Binary64 := do
  let (whole, fraction, rest) ← mantissa? text
  let power ← exponent? rest
  Binary64.ofDecimal? negative (digitsValue (whole ++ fraction)) (power - fraction.length)

/-- The float nearest to a decimal text, if it is finite. -/
def signedDecimal? : List Char → Option Binary64
  | '-' :: text => decimal? true text
  | '+' :: text | text => decimal? false text

/-- The parts of a number text: digits before the point, the fraction with its point, and the
exponent with its mark. -/
structure Parts where
  whole : List Char
  fraction : Option (List Char)
  exponent : Option (List Char)

def Parts.of (text : List Char) : Parts :=
  let (whole, rest) := text.span Char.isDigit
  let (fraction, rest) := match rest with
    | '.' :: rest => let (digits, rest) := rest.span Char.isDigit; (some digits, rest)
    | _ => (none, rest)
  match rest with
  | [] => ⟨whole, fraction, none⟩
  | mark :: rest => ⟨whole, fraction, some (if mark = 'e' ∨ mark = 'E' then rest else [mark])⟩

/-- A leading zero stands alone. -/
def leadingZero : List Char → Bool
  | '0' :: _ :: _ => true
  | _ => false

end Number

/-- What a number text says: `± digits · 10 ^ (exponent - places)`. Fraction and exponent may be
missing. -/
structure Numeral where
  negative : Bool
  digits : Nat
  places? : Option Nat
  exponent? : Option Int

namespace Numeral

/-- The numeral with these parts: it has at least one digit before the point and after it, no
leading zero, and an integer as exponent. -/
def ofParts? (negative : Bool) (parts : Number.Parts) : Option Numeral :=
  if parts.whole = [] ∨ Number.leadingZero parts.whole ∨ parts.fraction = some [] then none
  else
    let digits := Number.digitsValue (parts.whole ++ parts.fraction.getD [])
    let places := parts.fraction.map List.length
    match parts.exponent with
    | none => some ⟨negative, digits, places, none⟩
    | some text => (Number.signedDigits? text).map fun exponent =>
      ⟨negative, digits, places, some exponent⟩

def ofText? : List Char → Option Numeral
  | '-' :: text => ofParts? true (.of text)
  | text => ofParts? false (.of text)

/-- The number; none if it is beyond all floats. -/
def number? (numeral : Numeral) : Option Number :=
  let value : Int := if numeral.negative then -numeral.digits else numeral.digits
  let isWhole := numeral.places?.isNone && numeral.exponent?.isNone
  let isNegativeZero := numeral.negative && numeral.digits == 0
  if isWhole && Number.inRange value && !isNegativeZero then some (.int value)
  else (Binary64.ofDecimal? numeral.negative numeral.digits
    (numeral.exponent?.getD 0 - numeral.places?.getD 0)).map .float

end Numeral

namespace Number

/-- Floats whose leading digit has one of these decimal exponents are written positionally. -/
def isPositional (top : Int) : Bool := -5 ≤ top && top ≤ 15

/-- `digits` with the point after the digit of exponent zero; `top` is the exponent of the first
digit. At least one digit stands on each side of the point. -/
def positional (digits : List Char) (top : Int) : List Char :=
  match top with
  | .ofNat whole =>
    let padded := digits ++ List.replicate (whole + 1 - digits.length) '0'
    let fraction := padded.drop (whole + 1)
    padded.take (whole + 1) ++ '.' :: (if fraction = [] then ['0'] else fraction)
  | .negSucc zeros => '0' :: '.' :: (List.replicate zeros '0' ++ digits)

/-- `digits` with the point after the first one and the exponent of that digit, always signed. -/
def scientific (digits : List Char) (top : Int) : List Char :=
  let mantissa := match digits with
    | [] => []
    | [digit] => [digit]
    | digit :: rest => digit :: '.' :: rest
  let exponent := match top with
    | .ofNat value => '+' :: Nat.toDigits 10 value
    | .negSucc value => '-' :: Nat.toDigits 10 (value + 1)
  mantissa ++ 'e' :: exponent

def floatChars (x : Binary64) : List Char :=
  let shortest := x.shortest
  let digits := Nat.toDigits 10 shortest.digits
  let top := shortest.exponent + digits.length - 1
  let body := if isPositional top then positional digits top else scientific digits top
  if x.negative then '-' :: body else body

def text : Number → String
  | .int value => toString value
  | .float x => String.ofList (floatChars x)

end Number

end EntityContract
