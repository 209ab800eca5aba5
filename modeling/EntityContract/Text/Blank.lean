/-!
White space, as the Unicode property of that name lists it.
-/

namespace EntityContract

/-- Does the character have the property `White_Space`? -/
def isWhiteSpace (c : Char) : Bool :=
  let code := c.toNat
  (0x09 ≤ code && code ≤ 0x0D) || code == 0x20 || code == 0x85 || code == 0xA0 ||
    code == 0x1680 || (0x2000 ≤ code && code ≤ 0x200A) || code == 0x2028 || code == 0x2029 ||
    code == 0x202F || code == 0x205F || code == 0x3000

def isBlankText (text : String) : Bool := text.toList.all isWhiteSpace

end EntityContract
