import EntityContract.Yaml.Scalar

/-!
The written forms of scalars in a block mapping. A text is written plainly if it reads back as
itself, otherwise in single quotes; in double quotes if it holds characters that cannot be written
as they are, and as a literal block if it has several lines.
-/

namespace EntityContract.Yaml.Printed

def isPrintable (c : Char) : Bool :=
  let code := c.toNat
  code == 0x0A || (0x20 ≤ code && code ≤ 0x7E) || (0xA0 ≤ code && code ≤ 0xD7FF) ||
    (0xE000 ≤ code && code ≤ 0xFFFD && code != 0xFEFF)

/-- Line feeds, carriage returns, next lines, and line and paragraph separators. -/
def isAnyBreak (c : Char) : Bool := isBreak c || c = '\r' || c.toNat = 0x85

def endsBefore : List Char → Bool
  | [] => true
  | c :: _ => isBlank c || isAnyBreak c

def startsLikeBoundary (text : List Char) : Bool :=
  text.take 3 == ['-', '-', '-'] || text.take 3 == ['.', '.', '.']

/-- Would a plain text that begins like this be read as something else? -/
def startsAsIndicator : List Char → Bool
  | [] => false
  | c :: rest =>
    "#,[]\x7b\x7d&*!|>'\"%@\x60".toList.contains c ||
      ((c = '?' || c = ':' || c = '-') && endsBefore rest) || startsLikeBoundary (c :: rest)

/-- Is there a colon before, or a number sign behind, the end of a word? -/
def hasInnerIndicator : List Char → Bool
  | c :: d :: rest =>
    (c = ':' && endsBefore (d :: rest)) || (endsBefore [c] && d = '#') ||
      hasInnerIndicator (d :: rest)
  | [c] => c = ':'
  | [] => false

/-- Does a blank stand next to a line break, first the one and then the other? -/
def hasPair (first second : Char → Bool) : List Char → Bool
  | c :: d :: rest => (first c && second d) || hasPair first second (d :: rest)
  | _ => false

def isSpace (c : Char) : Bool := c = ' '

def hasOuterSpace (text : List Char) : Bool :=
  let outer := fun c => isSpace c || isAnyBreak c
  text.head?.any outer || text.getLast?.any outer

def isPlain (text : List Char) : Bool :=
  text.all isPrintable && !text.any isAnyBreak && !hasOuterSpace text && !startsAsIndicator text &&
    !hasInnerIndicator text

def isQuotable (text : List Char) : Bool :=
  text.all isPrintable && !hasPair isSpace isAnyBreak text && !hasPair isAnyBreak isSpace text

def isBlock (text : List Char) : Bool :=
  text.all isPrintable && !hasPair isSpace isAnyBreak text && !text.getLast?.any isSpace

/-- Does a plain text stand for itself and not for another value? -/
def readsAsText (text : String) : Bool :=
  !Scalar.hasLeadingZero text.toList &&
    match Scalar.ofPlain text with
    | .ok (.str _) => true
    | _ => false

/-! ### The forms -/

/-- Lines under so many spaces; empty lines are not indented. -/
def indented (indent : Nat) (lineStart : Bool) : List Char → List Char
  | [] => []
  | c :: rest =>
    if isAnyBreak c then c :: indented indent true rest
    else (if lineStart then List.replicate indent ' ' else []) ++ c :: indented indent false rest

/-- A text in single quotes, its lines under so many spaces. -/
def singleQuoted (indent : Nat) (text : List Char) : List Char :=
  let doubled := text.flatMap fun c => if c = '\'' then ['\'', '\''] else [c]
  let closing := if text.getLast?.any isAnyBreak then List.replicate indent ' ' else []
  '\'' :: (indented indent false doubled ++ (closing ++ ['\'']))

def hexDigits (count code : Nat) : List Char :=
  let digits := (Nat.toDigits 16 code).map Char.toUpper
  List.replicate (count - digits.length) '0' ++ digits

def escape (c : Char) : List Char :=
  let code := c.toNat
  if c = '"' then ['\\', '"']
  else if c = '\\' then ['\\', '\\']
  else if isPrintable c && !isAnyBreak c then [c]
  else if code = 0x00 then ['\\', '0']
  else if code = 0x07 then ['\\', 'a']
  else if code = 0x08 then ['\\', 'b']
  else if code = 0x09 then ['\\', 't']
  else if code = 0x0A then ['\\', 'n']
  else if code = 0x0B then ['\\', 'v']
  else if code = 0x0C then ['\\', 'f']
  else if code = 0x0D then ['\\', 'r']
  else if code = 0x1B then ['\\', 'e']
  else if code = 0x85 then ['\\', 'N']
  else if code = 0x2028 then ['\\', 'L']
  else if code = 0x2029 then ['\\', 'P']
  else if code ≤ 0xFF then '\\' :: 'x' :: hexDigits 2 code
  else if code ≤ 0xFFFF then '\\' :: 'u' :: hexDigits 4 code
  else '\\' :: 'U' :: hexDigits 8 code

def doubleQuoted (text : List Char) : List Char := '"' :: (text.flatMap escape ++ ['"'])

/-- The mark that tells how many line breaks end a block: none, one, or more. -/
def chompingMark (text : List Char) : List Char :=
  match text.reverse with
  | [] => ['-']
  | [last] => if isAnyBreak last then ['+'] else ['-']
  | last :: before :: _ =>
    if !isAnyBreak last then ['-'] else if isAnyBreak before then ['+'] else []

/-- A literal block. A text that begins with a space or an empty line states its indentation. -/
def literalBlock (indent : Nat) (text : List Char) : List Char :=
  let stated := if text.head?.any (fun c => isSpace c || isAnyBreak c) then ['2'] else []
  '|' :: (stated ++ (chompingMark text ++ '\n' :: indented indent true text))

/-- The written form of a text as a value whose lines are indented by so many spaces. -/
def text (indent : Nat) (value : String) : String :=
  let chars := value.toList
  String.ofList
    (if chars.contains '\n' then
      if isBlock chars then literalBlock indent chars else doubleQuoted chars
    else if isPlain chars && readsAsText value then chars
    else if isQuotable chars then singleQuoted indent chars
    else doubleQuoted chars)

end EntityContract.Yaml.Printed
