/-!
The characters of a YAML text: which are allowed, which separate words and lines, and where in the
text a character stands.
-/

namespace EntityContract.Yaml

/-- May the character occur in a text? Controls may not, but for tab, line feed, carriage return
and next line. -/
def isAllowed (c : Char) : Bool :=
  let code := c.toNat
  c = '\t' || c = '\n' || c = '\r' || (0x20 ≤ code && code ≤ 0x7E) || code == 0x85 ||
    (0xA0 ≤ code && code ≤ 0xD7FF) || (0xE000 ≤ code && code ≤ 0xFFFD) || 0x10000 ≤ code

/-- Writes every end of a line as a line feed, but for the line and paragraph separators, which
are kept apart. -/
def normalizeBreaks : List Char → List Char
  | [] => []
  | '\r' :: '\n' :: rest => '\n' :: normalizeBreaks rest
  | c :: rest => (if c = '\r' ∨ c.toNat = 0x85 then '\n' else c) :: normalizeBreaks rest

def isBreak (c : Char) : Bool := c = '\n' || c.toNat = 0x2028 || c.toNat = 0x2029

def isBlank (c : Char) : Bool := c = ' ' || c = '\t'

def endsWord : List Char → Bool
  | [] => true
  | c :: _ => isBlank c || isBreak c

/-- Characters of names: of anchors, directives and tag handles. -/
def isNameChar (c : Char) : Bool := c.isAlphanum || c = '_' || c = '-'

/-- The characters that open and close collections and separate entries inside brackets. -/
def isFlowIndicator (c : Char) : Bool :=
  c = ',' || c = '[' || c = ']' || c = '\x7b' || c = '\x7d'

/-- Does the text begin with the mark between documents, three hyphens or three points? -/
def startsWithBoundary : List Char → Bool
  | '-' :: '-' :: '-' :: rest => endsWord rest
  | '.' :: '.' :: '.' :: rest => endsWord rest
  | _ => false

/-- A place in a text; the first line and column are zero. -/
structure Mark where
  line : Nat
  column : Nat
  offset : Nat
  deriving DecidableEq, Repr

namespace Mark

def start : Mark := ⟨0, 0, 0⟩

def past (mark : Mark) (c : Char) : Mark :=
  if isBreak c then ⟨mark.line + 1, 0, mark.offset + 1⟩
  else ⟨mark.line, mark.column + 1, mark.offset + 1⟩

/-- The place behind so many characters of the same line. -/
def advance (mark : Mark) (count : Nat) : Mark :=
  ⟨mark.line, mark.column + count, mark.offset + count⟩

def startsLine (mark : Mark) : Bool := mark.column == 0

end Mark

/-- What was read at the beginning of a text, and the text behind it with its place. -/
structure Scanned (α : Type) where
  value : α
  rest : List Char
  mark : Mark

/-- The characters of a class at the beginning of a text, and the rest. -/
def scanClass (p : Char → Bool) (text : List Char) (mark : Mark) : Scanned (List Char) :=
  let chars := text.takeWhile p
  ⟨chars, text.drop chars.length, mark.advance chars.length⟩

/-- Skips blanks and a comment up to and with the end of the line; nothing else may follow. -/
def skipLine? (text : List Char) (mark : Mark) : Option (List Char × Mark) :=
  let gap := scanClass isBlank text mark
  let comment := match gap.rest with
    | '#' :: _ => scanClass (fun c => !isBreak c) gap.rest gap.mark
    | _ => gap
  match comment.rest with
  | [] => some ([], comment.mark)
  | c :: rest => if isBreak c then some (rest, comment.mark.past c) else none

end EntityContract.Yaml
