import EntityContract.Json.Basic
import EntityContract.Text.Digit

/-!
The tokens of a JSON text. The text is read one character at a time; what has been read of an
unfinished token is the mode of the reader.
-/

namespace EntityContract.Json

inductive Token where
  | openArray
  | closeArray
  | openObject
  | closeObject
  | colon
  | comma
  | scalar (value : Json)
  /-- A number beyond all floats. -/
  | hugeNumber
  /-- A string with half of a surrogate pair. -/
  | brokenText

/-- The code units of a string under way, newest first: a code point for a plain character, and
the unit written in a four-digit escape. -/
abbrev Units := List Nat

/-- What has been read of a token. -/
inductive Mode where
  | between
  | word (chars : List Char)
  | text (units : Units)
  | escape (units : Units)
  | hex (units : Units) (value missing : Nat)

def isHighSurrogate (unit : Nat) : Bool := 0xD800 ≤ unit && unit < 0xDC00

def isLowSurrogate (unit : Nat) : Bool := 0xDC00 ≤ unit && unit < 0xE000

/-- The characters of code units in order; surrogates only in pairs. -/
def joinSurrogates? : Units → Option (List Char)
  | [] => some []
  | high :: low :: rest =>
    if isHighSurrogate high then
      if isLowSurrogate low then
        (joinSurrogates? rest).map
          (Char.ofNat (0x10000 + (high - 0xD800) * 0x400 + (low - 0xDC00)) :: ·)
      else none
    else if isLowSurrogate high then none
    else (joinSurrogates? (low :: rest)).map (Char.ofNat high :: ·)
  | [unit] =>
    if isHighSurrogate unit || isLowSurrogate unit then none else some [Char.ofNat unit]

def isBlank (c : Char) : Bool := c = ' ' || c = '\n' || c = '\r' || c = '\t'

def isWordChar (c : Char) : Bool := c.isAlphanum || c = '-' || c = '+' || c = '.'

def Token.ofNumeral (numeral : Numeral) : Token :=
  match numeral.number? with
  | some number => .scalar (.num number)
  | none => .hugeNumber

def Token.ofWord? (chars : List Char) : Option Token :=
  if chars = ['n', 'u', 'l', 'l'] then some (.scalar .null)
  else if chars = ['t', 'r', 'u', 'e'] then some (.scalar (.bool true))
  else if chars = ['f', 'a', 'l', 's', 'e'] then some (.scalar (.bool false))
  else (Numeral.ofText? chars).map .ofNumeral

def Token.ofUnits (units : Units) : Token :=
  match joinSurrogates? units with
  | some chars => .scalar (.str (String.ofList chars))
  | none => .brokenText

def punctuation? (c : Char) : Option Token :=
  if c = '[' then some .openArray
  else if c = ']' then some .closeArray
  else if c = '\x7b' then some .openObject
  else if c = '\x7d' then some .closeObject
  else if c = ':' then some .colon
  else if c = ',' then some .comma
  else none

def unescape? (c : Char) : Option Char :=
  if c = '"' ∨ c = '\\' ∨ c = '/' then some c
  else if c = 'b' then some '\x08'
  else if c = 'f' then some '\x0c'
  else if c = 'n' then some '\n'
  else if c = 'r' then some '\r'
  else if c = 't' then some '\t'
  else none

/-- The finished tokens, newest first, and the mode. -/
abbrev Reading := List Token × Mode

/-- Reads a character that is not part of a token under way. -/
def readBetween (tokens : List Token) (c : Char) : Option Reading :=
  if isBlank c then some (tokens, .between)
  else if c = '"' then some (tokens, .text [])
  else if isWordChar c then some (tokens, .word [c])
  else (punctuation? c).map fun token => (token :: tokens, .between)

def readChar : Reading → Char → Option Reading
  | (tokens, .between), c => readBetween tokens c
  | (tokens, .word chars), c =>
    if isWordChar c then some (tokens, .word (c :: chars))
    else (Token.ofWord? chars.reverse).bind fun token => readBetween (token :: tokens) c
  | (tokens, .text units), c =>
    if c = '"' then some (.ofUnits units.reverse :: tokens, .between)
    else if c = '\\' then some (tokens, .escape units)
    else if c.toNat < 0x20 then none
    else some (tokens, .text (c.toNat :: units))
  | (tokens, .escape units), c =>
    if c = 'u' then some (tokens, .hex units 0 3)
    else (unescape? c).map fun plain => (tokens, .text (plain.toNat :: units))
  | (tokens, .hex units value missing), c =>
    (Text.hexDigit? c).map fun digit =>
      match missing with
      | 0 => (tokens, .text ((value * 16 + digit) :: units))
      | missing + 1 => (tokens, .hex units (value * 16 + digit) missing)

/-- The tokens of a text in order; none if the text ends inside a string or holds something that
is no token. -/
def tokens? (text : List Char) : Option (List Token) :=
  (text.foldlM readChar ([], .between)).bind fun
    | (tokens, .between) => some tokens.reverse
    | (tokens, .word chars) =>
      (Token.ofWord? chars.reverse).map fun token => (token :: tokens).reverse
    | _ => none

end EntityContract.Json
