import EntityContract.Uri.Domain

/-!
Network addresses as hosts of a URL, of both versions.
-/

namespace EntityContract.Uri

def digitsIn (base : Nat) (digits : List Char) : Option Nat :=
  digits.foldlM (fun value digit => do
    let code := digit.toNat
    let next ←
      if '0' ≤ digit ∧ digit ≤ '9' then some (code - '0'.toNat)
      else if 'a' ≤ digit ∧ digit ≤ 'f' then some (code - 'a'.toNat + 10)
      else if 'A' ≤ digit ∧ digit ≤ 'F' then some (code - 'A'.toNat + 10)
      else none
    if next < base then some (value * base + next) else none) 0

/-- A part of a version 4 address: decimal, octal after a zero, hexadecimal after `0x`; the mark
alone is zero. -/
def addressNumber? : List Char → Option Nat
  | [] => none
  | '0' :: 'x' :: digits | '0' :: 'X' :: digits => digitsIn 16 digits
  | '0' :: digit :: digits => digitsIn 8 (digit :: digits)
  | digits => digitsIn 10 digits

/-- A host whose last label, a final full stop apart, is a number is read as an address. -/
def endsInNumber (host : List Char) : Bool :=
  let labels := (Text.split '.' host).reverse
  let isNumber := fun label =>
    (label ≠ [] ∧ label.all Char.isDigit) ∨ (addressNumber? label).isSome
  match labels with
  | [] :: label :: _ => isNumber label
  | label :: _ => isNumber label
  | [] => false

/-- At most four numbers; the last one fills the bytes that the others leave, which are one byte
each. -/
def isAddressV4 (host : List Char) : Bool :=
  let parts := Text.split '.' host
  let parts := if parts.getLast? = some [] then parts.dropLast else parts
  match parts.mapM addressNumber? with
  | none => false
  | some numbers =>
    match numbers.reverse with
    | [] => false
    | last :: others =>
      others.length ≤ 3 && others.all (· ≤ 255) && last < Nat.pow 256 (4 - others.length)

/-- Up to four hexadecimal digits. -/
def isGroup (group : List Char) : Bool :=
  group ≠ [] && group.length ≤ 4 && (digitsIn 16 group).isSome

/-- A number of one byte without a leading zero. -/
def isByte (text : List Char) : Bool :=
  match text with
  | [] => false
  | '0' :: _ :: _ => false
  | digits => (digitsIn 10 digits).any (· ≤ 255)

/-- Four bytes in decimal at the end of a version 6 address. -/
def isDottedQuad (text : List Char) : Bool :=
  let bytes := Text.split '.' text
  bytes.length == 4 && bytes.all isByte

/-- How many sixteen-bit groups the parts between colons make; a dotted quad, which can only come
last, makes two. -/
def groupCount? : List (List Char) → Option Nat
  | [] => some 0
  | [last] => if isGroup last then some 1 else if isDottedQuad last then some 2 else none
  | group :: rest => if isGroup group then (groupCount? rest).map (· + 1) else none

/-- The texts before and after the first two colons in a row. -/
def splitAtGap : List Char → Option (List Char × List Char)
  | ':' :: ':' :: rest => some ([], rest)
  | c :: rest => (splitAtGap rest).map fun (before, after) => (c :: before, after)
  | [] => none

/-- The parts of one side of a gap; an empty side has none. -/
def groupsOf (text : List Char) : List (List Char) :=
  if text = [] then [] else Text.split ':' text

/-- Eight groups, or at most seven with one gap that stands for the others. -/
def isAddressV6 (text : List Char) : Bool :=
  match splitAtGap text with
  | none => groupCount? (groupsOf text) == some 8
  | some (before, after) =>
    (groupsOf before).all isGroup &&
      (groupCount? (groupsOf after)).any fun count => (groupsOf before).length + count ≤ 7

end EntityContract.Uri
