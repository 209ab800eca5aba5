import EntityContract.Json.Print

/-!
Texts in double quotes for a diagnostic: characters that cannot be seen are written by their code.
-/

namespace EntityContract.Quoted

/-- Controls, invisible marks and combining characters. -/
def isHidden (c : Char) : Bool :=
  let code := c.toNat
  code < 0x20 || (0x7F ≤ code && code ≤ 0x9F) || code == 0xAD || (0x300 ≤ code && code ≤ 0x36F) ||
    (0x200B ≤ code && code ≤ 0x200F) || (0x2028 ≤ code && code ≤ 0x202E) ||
    (0x2060 ≤ code && code ≤ 0x206F) || code == 0xFEFF || (0xE000 ≤ code && code ≤ 0xF8FF)

def escape (c : Char) : List Char :=
  if c = '"' then ['\\', '"']
  else if c = '\\' then ['\\', '\\']
  else if c = '\x00' then ['\\', '0']
  else if c = '\t' then ['\\', 't']
  else if c = '\n' then ['\\', 'n']
  else if c = '\r' then ['\\', 'r']
  else if isHidden c then '\\' :: 'u' :: '\x7b' :: (Nat.toDigits 16 c.toNat ++ ['\x7d'])
  else [c]

def text (content : String) : String :=
  String.ofList ('"' :: (content.toList.flatMap escape ++ ['"']))

end EntityContract.Quoted
