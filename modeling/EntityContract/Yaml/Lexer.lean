import EntityContract.Yaml.Block
import EntityContract.Yaml.Plain
import EntityContract.Yaml.Quoted
import EntityContract.Yaml.Token

/-!
From the characters of a text to its tokens. Block collections open and close with the columns of
their entries. That a node is a key shows only at the colon behind it, so the reader remembers
where a key may have started and puts the key token there once the colon comes.
-/

namespace EntityContract.Yaml

/-- A place where a key may start: how many tokens stand before it, and whether nothing but a key
may start there. -/
structure KeyStart where
  tokenCount : Nat
  required : Bool
  mark : Mark

/-- The rest of a text with its place, the tokens before it, newest first, and what the next tokens
depend on: the columns of the open block collections, the places where a key may have started in
this collection and in the bracketed ones around it, and whether a key may start here. -/
structure Lexer where
  rest : List Char
  mark : Mark
  tokens : List Token
  blocks : List Nat
  key : Option KeyStart
  outerKeys : List (Option KeyStart)
  keyAllowed : Bool

namespace Lexer

/-- Keys are on one line and not longer than this. -/
def longestKey : Nat := 1024

def start (text : List Char) : Lexer := ⟨text, .start, [], [], none, [], true⟩

/-- Inside brackets columns have no meaning. -/
def inFlow (lexer : Lexer) : Bool := !lexer.outerKeys.isEmpty

/-- The least column of what belongs to the innermost block collection. -/
def least (lexer : Lexer) : Nat := (lexer.blocks.head?.map (· + 1)).getD 0

def emit (token : Token) (lexer : Lexer) : Lexer := { lexer with tokens := token :: lexer.tokens }

def skip (count : Nat) (lexer : Lexer) : Lexer :=
  { lexer with rest := lexer.rest.drop count, mark := lexer.mark.advance count }

/-- Takes a token that was read and the text behind it. -/
def take {α : Type} (scanned : Scanned α) (token : α → Token) (lexer : Lexer) : Lexer :=
  { lexer.emit (token scanned.value) with rest := scanned.rest, mark := scanned.mark }

def fail {α : Type} (lexer : Lexer) (flaw : Flaw) : Except YamlError α :=
  .error (.flawed flaw lexer.mark)

/-! ### Possible keys -/

/-- No key starts where one might have. -/
def forgetKey (lexer : Lexer) : Except YamlError Lexer :=
  if lexer.key.any (·.required) then lexer.fail .missingColon
  else .ok { lexer with key := none }

/-- Remembers this place, if a key may start here. It has to, if an entry of the innermost block
mapping is due. -/
def saveKey (lexer : Lexer) : Except YamlError Lexer :=
  if lexer.keyAllowed then do
    let lexer ← lexer.forgetKey
    let required := !lexer.inFlow && lexer.blocks.head? == some lexer.mark.column
    return { lexer with key := some ⟨lexer.tokens.length, required, lexer.mark⟩ }
  else .ok lexer

/-- Too far back for a key that ends here? -/
def isStale (lexer : Lexer) (key : KeyStart) : Bool :=
  key.mark.line < lexer.mark.line || key.mark.offset + longestKey < lexer.mark.offset

def dropStaleKeys (lexer : Lexer) : Except YamlError Lexer :=
  let stale := (lexer.key :: lexer.outerKeys).any fun key =>
    key.any fun key => key.required && lexer.isStale key
  let fresh := fun key : Option KeyStart => key.filter fun key => !lexer.isStale key
  if stale then lexer.fail .missingColon
  else .ok { lexer with key := fresh lexer.key, outerKeys := lexer.outerKeys.map fresh }

/-! ### Block collections -/

def opensBlock (lexer : Lexer) (column : Nat) : Bool := !lexer.inFlow && lexer.least ≤ column

/-- Opens the block collection of an entry at this column, if it is not open. -/
def openBlock (token : Token) (lexer : Lexer) : Lexer :=
  if lexer.opensBlock lexer.mark.column then
    { lexer.emit token with blocks := lexer.mark.column :: lexer.blocks }
  else lexer

/-- The columns that stay open, and the tokens with an end for each other one. -/
def endBlocks (stays : Nat → Bool) (tokens : List Token) : List Nat → List Nat × List Token
  | [] => ([], tokens)
  | column :: columns =>
    if stays column then (column :: columns, tokens)
    else endBlocks stays (.blockEnd :: tokens) columns

/-- Closes the block collections whose columns do not stay. -/
def closeBlocks (stays : Nat → Bool) (lexer : Lexer) : Lexer :=
  if lexer.inFlow then lexer
  else
    let (blocks, tokens) := endBlocks stays lexer.tokens lexer.blocks
    { lexer with blocks := blocks, tokens := tokens }

def closeAllBlocks (lexer : Lexer) : Lexer := lexer.closeBlocks fun _ => false

/-! ### Between tokens -/

/-- Skips blanks, comments and ends of lines. Tabs do not count as blanks where a key may start in
a block collection; behind an end of line it may. A mark of byte order may begin the text. -/
def skipGap (inFlow keyAllowed inComment : Bool) : List Char → Mark → List Char × Mark × Bool
  | [], mark => ([], mark, keyAllowed)
  | c :: rest, mark =>
    if isBreak c then skipGap inFlow (keyAllowed || !inFlow) false rest (mark.past c)
    else if inComment || c = ' ' || (c = '\t' && (inFlow || !keyAllowed)) ||
        (c = '\ufeff' && mark.offset == 0) then
      skipGap inFlow keyAllowed inComment rest (mark.past c)
    else if c = '#' then skipGap inFlow keyAllowed true rest (mark.past c)
    else (c :: rest, mark, keyAllowed)

/-- Goes to the next token and closes what ends before it. -/
def settle (lexer : Lexer) : Except YamlError Lexer := do
  let (rest, mark, keyAllowed) := skipGap lexer.inFlow lexer.keyAllowed false lexer.rest lexer.mark
  let lexer ← dropStaleKeys { lexer with rest := rest, mark := mark, keyAllowed := keyAllowed }
  return lexer.closeBlocks (· ≤ mark.column)

/-! ### The tokens -/

def readDirective (lexer : Lexer) : Except YamlError Lexer := do
  let lexer ← lexer.closeAllBlocks.forgetKey
  let directive ← Token.scanDirective (lexer.rest.drop 1) (lexer.mark.advance 1)
  return { lexer.take directive id with keyAllowed := false }

def readBoundary (lexer : Lexer) : Except YamlError Lexer := do
  let lexer ← lexer.closeAllBlocks.forgetKey
  let token := if lexer.rest.head? = some '-' then .documentStart else .documentEnd
  return { (lexer.skip 3).emit token with keyAllowed := false }

def openFlow (token : Token) (lexer : Lexer) : Except YamlError Lexer := do
  let lexer ← lexer.saveKey
  return { (lexer.skip 1).emit token with
    key := none, outerKeys := lexer.key :: lexer.outerKeys, keyAllowed := true }

def closeFlow (token : Token) (lexer : Lexer) : Except YamlError Lexer := do
  let lexer ← lexer.forgetKey
  return { (lexer.skip 1).emit token with
    key := lexer.outerKeys.head?.join, outerKeys := lexer.outerKeys.tail, keyAllowed := false }

def readComma (lexer : Lexer) : Except YamlError Lexer := do
  return { ((← lexer.forgetKey).skip 1).emit .comma with keyAllowed := true }

def readEntry (lexer : Lexer) : Except YamlError Lexer := do
  if !lexer.inFlow && !lexer.keyAllowed then lexer.fail .misplacedEntry
  let lexer ← (lexer.openBlock .blockSequence).forgetKey
  return { (lexer.skip 1).emit .entry with keyAllowed := true }

def readKey (lexer : Lexer) : Except YamlError Lexer := do
  if !lexer.inFlow && !lexer.keyAllowed then lexer.fail .misplacedKey
  let lexer ← (lexer.openBlock .blockMapping).forgetKey
  return { (lexer.skip 1).emit .key with keyAllowed := !lexer.inFlow }

/-- What started at the remembered place is a key, and the first one of its mapping if the column
says so. -/
def insertKey (start : KeyStart) (lexer : Lexer) : Lexer :=
  let recent := lexer.tokens.length - start.tokenCount
  let column := start.mark.column
  let opens := lexer.opensBlock column
  { lexer with
    tokens := lexer.tokens.take recent ++
      (.key :: ((if opens then [.blockMapping] else []) ++ lexer.tokens.drop recent))
    blocks := if opens then column :: lexer.blocks else lexer.blocks
    key := none
    keyAllowed := false }

def readValue (lexer : Lexer) : Except YamlError Lexer := do
  let lexer ← match lexer.key with
    | some start => pure (lexer.insertKey start)
    | none => do
      if !lexer.inFlow && !lexer.keyAllowed then lexer.fail .misplacedValue
      pure { lexer.openBlock .blockMapping with keyAllowed := !lexer.inFlow }
  return (lexer.skip 1).emit .value

/-- Reads a token that may be a key, or stand before one. -/
def readNode {α : Type} (scan : Except YamlError (Scanned α)) (token : α → Token)
    (keyAllowed : α → Bool) (lexer : Lexer) : Except YamlError Lexer := do
  let lexer ← lexer.saveKey
  let scanned ← scan
  return { lexer.take scanned token with keyAllowed := keyAllowed scanned.value }

def readBlockText (literal : Bool) (lexer : Lexer) : Except YamlError Lexer := do
  let lexer ← lexer.forgetKey
  let text ← BlockText.scan literal lexer.least (lexer.rest.drop 1) (lexer.mark.advance 1)
  return { lexer.take text (.scalar (if literal then .literal else .folded)) with
    keyAllowed := true }

def isIndicator (c : Char) : Bool := "-?:,[]\x7b\x7d#&*!|>'\"%@\x60".toList.contains c

/-- May a plain text begin here? A hyphen, and outside brackets a question mark or a colon, may
begin one if no blank follows. -/
def startsPlain (inFlow : Bool) (c : Char) (rest : List Char) : Bool :=
  !(isBlank c || isBreak c || isIndicator c) || (c = '-' && !endsWord rest) ||
    (!inFlow && (c = '?' || c = ':') && !endsWord rest)

def readToken (c : Char) (rest : List Char) (lexer : Lexer) : Except YamlError Lexer :=
  let behind := lexer.mark.advance 1
  let never {α : Type} : α → Bool := fun _ => false
  if lexer.mark.startsLine && c = '%' then lexer.readDirective
  else if lexer.mark.startsLine && startsWithBoundary (c :: rest) then lexer.readBoundary
  else if c = '[' then lexer.openFlow .flowSequence
  else if c = '\x7b' then lexer.openFlow .flowMapping
  else if c = ']' then lexer.closeFlow .flowSequenceEnd
  else if c = '\x7d' then lexer.closeFlow .flowMappingEnd
  else if c = ',' then lexer.readComma
  else if c = '-' && endsWord rest then lexer.readEntry
  else if c = '?' && (lexer.inFlow || endsWord rest) then lexer.readKey
  else if c = ':' && (lexer.inFlow || endsWord rest) then lexer.readValue
  else if c = '*' then lexer.readNode (Token.scanAnchor rest behind) .aliasOf never
  else if c = '&' then lexer.readNode (Token.scanAnchor rest behind) .anchor never
  else if c = '!' then lexer.readNode (Token.scanTag lexer.inFlow rest behind) .tag never
  else if (c = '|' || c = '>') && !lexer.inFlow then lexer.readBlockText (c = '|')
  else if c = '\'' || c = '"' then
    lexer.readNode (QuotedText.scan (c = '\'') [] (.plain .none) rest behind)
      (.scalar .quoted) never
  else if startsPlain lexer.inFlow c rest then
    lexer.readNode (PlainText.scan lexer.inFlow lexer.least [] .none lexer.rest lexer.mark)
      (fun plain => .scalar .plain plain.text) (·.brokenBehind)
  else lexer.fail .unexpectedCharacter

def finish (lexer : Lexer) : Except YamlError (List Token) := do
  let lexer ← lexer.closeAllBlocks.forgetKey
  return (lexer.emit .textEnd).tokens.reverse

/-- Reads at most so many tokens; every token takes at least one character of the text. -/
def run : Nat → Lexer → Except YamlError (List Token)
  | 0, lexer => lexer.finish
  | count + 1, lexer => do
    let lexer ← lexer.settle
    match lexer.rest with
    | [] => lexer.finish
    | c :: rest => run count (← lexer.readToken c rest)

end Lexer

def Token.ofText (text : String) : Except YamlError (List Token) :=
  match text.toList.find? fun c => !isAllowed c with
  | some c => .error (.illegalCharacter c)
  | none =>
    let chars := normalizeBreaks text.toList
    Lexer.run chars.length (.start chars)

end EntityContract.Yaml
