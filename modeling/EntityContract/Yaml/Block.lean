import EntityContract.Yaml.Fold

/-!
Block texts: the lines under a `|` or `>` that are indented more than the collection around them.
Literal texts keep their line breaks; folded ones turn a break between two lines that do not start
with a blank into a space.
-/

namespace EntityContract.Yaml

/-- What becomes of the line breaks at the end: all are dropped, one is kept, or all are kept. -/
inductive Chomping where
  | strip
  | clip
  | keep
  deriving DecidableEq, Repr

namespace BlockText

/-- The header of a block text: its chomping and the indentation that it states. -/
structure Header where
  chomping : Chomping
  indentation : Option Nat
  deriving DecidableEq, Repr

def chomping? (c : Char) : Option Chomping :=
  if c = '+' then some .keep else if c = '-' then some .strip else none

def indentation? (c : Char) : Option Nat :=
  if '1' ≤ c ∧ c ≤ '9' then some (c.toNat - '0'.toNat) else none

/-- The header at the beginning of a text: each part at most once, in either order. -/
def readHeader (text : List Char) (mark : Mark) : Scanned Header :=
  match text with
  | [] => ⟨⟨.clip, none⟩, [], mark⟩
  | c :: rest =>
    match chomping? c, indentation? c with
    | some chomping, _ =>
      match rest with
      | d :: rest' =>
        match indentation? d with
        | some count => ⟨⟨chomping, some count⟩, rest', mark.advance 2⟩
        | none => ⟨⟨chomping, none⟩, rest, mark.advance 1⟩
      | [] => ⟨⟨chomping, none⟩, rest, mark.advance 1⟩
    | none, some count =>
      match rest with
      | d :: rest' =>
        match chomping? d with
        | some chomping => ⟨⟨chomping, some count⟩, rest', mark.advance 2⟩
        | none => ⟨⟨.clip, some count⟩, rest, mark.advance 1⟩
      | [] => ⟨⟨.clip, some count⟩, rest, mark.advance 1⟩
    | none, none => ⟨⟨.clip, none⟩, text, mark⟩

/-- The lines that were read: the text so far, newest first, the break behind its last line, the
breaks of the empty lines after that, newest first, and whether the last line starts with a
blank. -/
structure Lines where
  text : List Char
  ending : Option Char
  empty : List Char
  startsBlank : Bool

namespace Lines

def start : Lines := ⟨[], none, [], false⟩

/-- Joins what is pending to the text before a line that starts with `c`. -/
def join (literal : Bool) (c : Char) (lines : Lines) : List Char :=
  let folds := !literal && lines.ending == some '\n' && !lines.startsBlank && !isBlank c
  let between := if folds then (if lines.empty = [] then [' '] else []) else lines.ending.toList
  lines.empty ++ (between ++ lines.text)

def finish (chomping : Chomping) (lines : Lines) : String :=
  let chars := match chomping with
    | .strip => lines.text
    | .clip => lines.ending.toList ++ lines.text
    | .keep => lines.empty ++ (lines.ending.toList ++ lines.text)
  String.ofList chars.reverse

end Lines

/-- Where the reader stands: in a line, or before one, in which case it knows the indentation of
the text or the widest indentation seen so far. -/
inductive Mode where
  | line (indent : Nat)
  | before (indent : Nat)
  | searching (widest : Nat)

/-- Reads on behind some lines. An indentation that is not stated is the widest one up to the first
line that is not empty, but at least `least`. -/
def scanLines (literal : Bool) (chomping : Chomping) (least : Nat) (lines : Lines) (mode : Mode) :
    List Char → Mark → Except YamlError (Scanned String)
  | [], mark => .ok ⟨lines.finish chomping, [], mark⟩
  | c :: rest, mark =>
    let next := mark.past c
    let firstChar (indent : Nat) (read : Unit → Except YamlError (Scanned String)) :=
      if mark.column = indent then read () else .ok ⟨lines.finish chomping, c :: rest, mark⟩
    let opened : Lines := ⟨c :: lines.join literal c, none, [], isBlank c⟩
    match mode with
    | .line indent =>
      if isBreak c then
        scanLines literal chomping least { lines with ending := some c } (.before indent) rest next
      else scanLines literal chomping least { lines with text := c :: lines.text } mode rest next
    | .before indent =>
      if c = ' ' && mark.column < indent then scanLines literal chomping least lines mode rest next
      else if c = '\t' && mark.column < indent then .error (.flawed .tabAsIndentation mark)
      else if isBreak c then
        scanLines literal chomping least { lines with empty := c :: lines.empty } mode rest next
      else firstChar indent fun _ =>
        scanLines literal chomping least opened (.line indent) rest next
    | .searching widest =>
      let widest := max widest mark.column
      if c = ' ' then scanLines literal chomping least lines mode rest next
      else if c = '\t' then .error (.flawed .tabAsIndentation mark)
      else if isBreak c then
        scanLines literal chomping least { lines with empty := c :: lines.empty }
          (.searching widest) rest next
      else firstChar (max widest least) fun _ =>
        scanLines literal chomping least opened (.line (max widest least)) rest next

/-- Reads a block text behind its indicator; `outer` is the least column of what belongs to the
collection around it. -/
def scan (literal : Bool) (outer : Nat) (text : List Char) (mark : Mark) :
    Except YamlError (Scanned String) :=
  let header := readHeader text mark
  match skipLine? header.rest header.mark with
  | none => .error (.flawed .badHeader header.mark)
  | some (rest, mark) =>
    let mode := match header.value.indentation with
      | some count => Mode.before (outer - 1 + count)
      | none => .searching 0
    scanLines literal header.value.chomping (max outer 1) .start mode rest mark

end BlockText

end EntityContract.Yaml
