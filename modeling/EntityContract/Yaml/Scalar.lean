import EntityContract.Json.Basic
import EntityContract.Text.Digit
import EntityContract.Yaml.Error

/-!
What a plain scalar stands for: null, a truth value, a number, or the text itself.
-/

namespace EntityContract.Yaml

/-- The values of scalars; the three numbers that are not finite stand apart. -/
inductive Scalar where
  | null
  | bool (value : Bool)
  | num (value : Number)
  | infinity (negative : Bool)
  | notANumber
  | str (value : String)
  deriving DecidableEq, Repr

namespace Scalar

/-- Equality of values; the two zeros are equal. -/
def same : Scalar → Scalar → Bool
  | .num x, .num y => x.same y
  | x, y => x == y

def isNull (text : String) : Bool := ["~", "null", "Null", "NULL"].contains text

def bool? (text : String) : Option Bool :=
  if ["true", "True", "TRUE"].contains text then some true
  else if ["false", "False", "FALSE"].contains text then some false
  else none

/-! ### Integers -/

/-- A zero before other digits makes a text of digits a mere text. -/
def hasLeadingZero (text : List Char) : Bool :=
  let digits := match text with
    | '-' :: rest => rest
    | '+' :: rest => rest
    | text => text
  match digits with
  | '0' :: rest => rest ≠ [] && rest.all Char.isDigit
  | _ => false

/-- Digits behind a mark of their base. -/
def marked? : List Char → Option Nat
  | '0' :: 'x' :: digits => Text.ofDigits? 16 digits
  | '0' :: 'o' :: digits => Text.ofDigits? 8 digits
  | '0' :: 'b' :: digits => Text.ofDigits? 2 digits
  | _ => none

/-- An integer: digits behind an optional sign, with or without a mark of their base. -/
def int? (text : List Char) : Option Int :=
  let decimal? := fun digits => if hasLeadingZero text then none else Text.ofDigits? 10 digits
  match text with
  | '-' :: digits => ((marked? digits).or (decimal? digits)).map fun value => -(value : Int)
  | '+' :: digits => ((marked? digits).or (decimal? digits)).map fun value => (value : Int)
  | digits => ((marked? digits).or (decimal? digits)).map fun value => (value : Int)

/-- Integers that fit 128 bits. -/
def isWide (value : Int) : Bool := -Int.pow 2 127 ≤ value && value < Int.pow 2 128

/-- The integer that a text stands for. One that fits 64 bits, signed or not, is a number, and one
that fits 128 bits is refused; wider ones are no integers. -/
def integer? (text : String) : Except YamlError (Option Int) :=
  match int? text.toList with
  | none => .ok none
  | some value =>
    if Number.inRange value then .ok (some value)
    else if isWide value then .error (.hugeInteger text)
    else .ok none

/-! ### Floats -/

def float? (text : String) : Option Scalar :=
  let unsigned := if text.startsWith "+" then String.ofList (text.toList.drop 1) else text
  if [".inf", ".Inf", ".INF"].contains unsigned then some (.infinity false)
  else if ["-.inf", "-.Inf", "-.INF"].contains text then some (.infinity true)
  else if [".nan", ".NaN", ".NAN"].contains text then some .notANumber
  else (Number.signedDecimal? text.toList).map fun value => .num (.float value)

def ofPlain (text : String) : Except YamlError Scalar := do
  if text.isEmpty || isNull text then return .null
  else if let some value := bool? text then return .bool value
  else if let some value ← integer? text then return .num (.int value)
  else if hasLeadingZero text.toList then return .str text
  else return (float? text).getD (.str text)

/-! ### Tags -/

def coreTag (name : String) : String := "tag:yaml.org,2002:" ++ name

/-- The value of a scalar. A core tag says what the text is; otherwise only plain texts stand for
something else than themselves, and they do so without a tag or with a local one. -/
def ofTagged (tag : Option String) (plain : Bool) (text : String) : Except YamlError Scalar :=
  match tag with
  | none => if plain then ofPlain text else .ok (.str text)
  | some tag =>
    if tag = coreTag "bool" then
      match bool? text with
      | some value => .ok (.bool value)
      | none => .error (.untyped text "a boolean")
    else if tag = coreTag "int" then do
      match ← integer? text with
      | some value => return .num (.int value)
      | none => throw (.untyped text "an integer")
    else if tag = coreTag "float" then
      match float? text with
      | some value => .ok value
      | none => .error (.untyped text "a float")
    else if tag = coreTag "null" then
      if isNull text then .ok .null else .error (.untyped text "null")
    else if tag.startsWith "!" && plain then ofPlain text
    else .ok (.str text)

end Scalar

end EntityContract.Yaml
