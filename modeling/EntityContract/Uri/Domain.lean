import EntityContract.Text.Split
import EntityContract.Uri.Punycode

/-!
Domain names in a URL: percent escapes are decoded, characters are mapped to the ones that a name
may hold, and labels in Punycode have to stand for something that is not ASCII.
-/

namespace EntityContract.Uri

/-- ASCII characters that no domain name holds. -/
def isForbiddenInDomain (c : Char) : Bool :=
  c.toNat ≤ 0x20 || c.toNat == 0x7F || "%#/:<>?@[\\]^|".toList.contains c

/-- Characters without meaning in a name. -/
def isIgnoredInDomain (c : Char) : Bool :=
  c.toNat == 0xAD || c.toNat == 0x200B || c.toNat == 0x2060 || c.toNat == 0xFEFF ||
    (0xFE00 ≤ c.toNat && c.toNat ≤ 0xFE0F)

/-- Spaces beyond ASCII. -/
def isWideSpace (c : Char) : Bool :=
  let code := c.toNat
  code == 0xA0 || (0x2000 ≤ code && code ≤ 0x200A) || code == 0x202F || code == 0x205F ||
    code == 0x3000

/-- The form in which a name holds a character: lower case, narrow, one kind of full stop, and one
kind of space. -/
def mapDomainChar (c : Char) : Char :=
  let code := c.toNat
  if code == 0x3002 || code == 0xFF61 then '.'
  else if isWideSpace c then ' '
  else if 0xFF01 ≤ code && code ≤ 0xFF5E then (Char.ofNat (code - 0xFEE0)).toLower
  else c.toLower

/-- Characters beyond ASCII that no name is written with: controls, marks that steer the layout,
and code points that stand for no character. -/
def isDisallowedInDomain (c : Char) : Bool :=
  let code := c.toNat
  (0x80 ≤ code && code ≤ 0x9F) || code == 0x200E || code == 0x200F ||
    (0x2028 ≤ code && code ≤ 0x202E) || (0x2066 ≤ code && code ≤ 0x206F) ||
    (0xE000 ≤ code && code ≤ 0xF8FF) || (0xFDD0 ≤ code && code ≤ 0xFDEF) ||
    (0xFFF9 ≤ code && code ≤ 0xFFFF) || 0xF0000 ≤ code || code % 0x10000 ≥ 0xFFFE

/-- Characters beyond ASCII that a mapped name cannot hold: disallowed ones, and those that are
mapped to others or ignored. -/
def isUnmappable (c : Char) : Bool :=
  let code := c.toNat
  isDisallowedInDomain c || isWideSpace c || isIgnoredInDomain c ||
    [0xA8, 0xAA, 0xAF].contains code ||
    (0xB2 ≤ code && code ≤ 0xB5) || (0xB8 ≤ code && code ≤ 0xBA) ||
    (0xBC ≤ code && code ≤ 0xBE) || (0xC0 ≤ code && code ≤ 0xDE && code != 0xD7) ||
    (0x100 ≤ code && code ≤ 0x137 && code % 2 == 0) ||
    (0x139 ≤ code && code ≤ 0x148 && code % 2 == 1) ||
    (0x14A ≤ code && code ≤ 0x177 && code % 2 == 0) ||
    [0x132, 0x133, 0x13F, 0x140, 0x149, 0x178, 0x179, 0x17B, 0x17D, 0x17F].contains code ||
    (0x391 ≤ code && code ≤ 0x3A9) || (0x400 ≤ code && code ≤ 0x42F) ||
    (0x2061 ≤ code && code ≤ 0x2065) || code == 0x3002 || (0xFF00 ≤ code && code ≤ 0xFFF8)

/-- A label in Punycode stands for a text that is not all ASCII and is mapped already; any other
label is fine. -/
def isLabel (label : List Char) : Bool :=
  match label with
  | 'x' :: 'n' :: '-' :: '-' :: encoded =>
    match Punycode.decode? encoded with
    | some text => text.any (128 ≤ ·.toNat) && !text.any isUnmappable
    | none => false
  | _ => true

def hexValue? (byte : UInt8) : Option UInt8 :=
  if 0x30 ≤ byte ∧ byte ≤ 0x39 then some (byte - 0x30)
  else if 0x61 ≤ byte ∧ byte ≤ 0x66 then some (byte - 0x61 + 10)
  else if 0x41 ≤ byte ∧ byte ≤ 0x46 then some (byte - 0x41 + 10)
  else none

/-- Percent escapes become the bytes that they name; a percent sign that starts no escape stays. -/
def percentDecode : List UInt8 → List UInt8
  | 0x25 :: high :: low :: rest =>
    match hexValue? high, hexValue? low with
    | some high, some low => (high * 16 + low) :: percentDecode rest
    | _, _ => 0x25 :: percentDecode (high :: low :: rest)
  | byte :: rest => byte :: percentDecode rest
  | [] => []

/-- The name that a host text stands for; none if there is no such name. -/
def domain? (host : List Char) : Option (List Char) := do
  let bytes := percentDecode (String.ofList host).toUTF8.toList
  let text ← String.fromUTF8? ⟨bytes.toArray⟩
  let name := (text.toList.filter (!isIgnoredInDomain ·)).map mapDomainChar
  if name.any fun c => isForbiddenInDomain c || isDisallowedInDomain c then none
  else if (Text.split '.' name).all isLabel then some name
  else none

end EntityContract.Uri
