import EntityContract.Text.Digit
import EntityContract.Yaml.Error

/-!
The tokens of a YAML text, and those of them that stand on one line: directives, anchors, aliases
and tags.
-/

namespace EntityContract.Yaml

inductive ScalarStyle where
  | plain
  | quoted
  | literal
  | folded
  deriving DecidableEq, Repr

/-- A tag as it is written: the handle and what follows it. -/
structure WrittenTag where
  handle : String
  suffix : String
  deriving DecidableEq, Repr

inductive Token where
  | version (major minor : Nat)
  | tagHandle (handle uri : String)
  | documentStart
  | documentEnd
  | textEnd
  | blockSequence
  | blockMapping
  | blockEnd
  | flowSequence
  | flowSequenceEnd
  | flowMapping
  | flowMappingEnd
  | entry
  | comma
  | key
  | value
  | aliasOf (name : String)
  | anchor (name : String)
  | tag (tag : WrittenTag)
  | scalar (style : ScalarStyle) (text : String)
  deriving DecidableEq, Repr

namespace Token

/-! ### Anchors -/

def endsAnchor : List Char → Bool
  | [] => true
  | c :: rest => endsWord (c :: rest) || "?:,]\x7d%@\x60".toList.contains c

def scanAnchor (text : List Char) (mark : Mark) : Except YamlError (Scanned String) :=
  let name := scanClass isNameChar text mark
  if name.value = [] ∨ !endsAnchor name.rest then .error (.flawed .badAnchor mark)
  else .ok ⟨String.ofList name.value, name.rest, name.mark⟩

/-! ### Tags -/

/-- Characters of the part of a tag behind its handle. Brackets and commas may stand only where
something else tells the end of the tag. -/
def isUriChar (delimited : Bool) (c : Char) : Bool :=
  isNameChar c || ";/?:@&=+$.!~*'()".toList.contains c ||
    (delimited && (c = ',' || c = '[' || c = ']'))

/-- How many bytes of a character follow its first byte, and the bits that the first byte holds. -/
def leadByte? (byte : Nat) : Option (Nat × Nat) :=
  if byte < 0x80 then some (0, byte)
  else if 0xC0 ≤ byte ∧ byte < 0xE0 then some (1, byte - 0xC0)
  else if 0xE0 ≤ byte ∧ byte < 0xF0 then some (2, byte - 0xE0)
  else if 0xF0 ≤ byte ∧ byte < 0xF8 then some (3, byte - 0xF0)
  else none

/-- Reads the part of a tag behind its handle. A byte `%XX` is part of a character; `missing` bytes
of the character with the bits `code` are still to come. -/
def scanUri (delimited : Bool) (chars : List Char) (code missing : Nat) :
    List Char → Mark → Except YamlError (Scanned (List Char))
  | [], mark => if missing = 0 then .ok ⟨chars.reverse, [], mark⟩ else .error (.flawed .badTag mark)
  | '%' :: high :: low :: rest, mark =>
    match Text.hexDigit? high, Text.hexDigit? low with
    | some high, some low =>
      let byte := high * 16 + low
      match missing with
      | 0 =>
        match leadByte? byte with
        | some (0, code) => scanUri delimited (Char.ofNat code :: chars) 0 0 rest (mark.advance 3)
        | some (more, code) => scanUri delimited chars code more rest (mark.advance 3)
        | none => .error (.flawed .badTag mark)
      | missing + 1 =>
        if 0x80 ≤ byte ∧ byte < 0xC0 then
          let code := code * 64 + (byte - 0x80)
          if missing = 0 then
            scanUri delimited (Char.ofNat code :: chars) 0 0 rest (mark.advance 3)
          else scanUri delimited chars code missing rest (mark.advance 3)
        else .error (.flawed .badTag mark)
    | _, _ => .error (.flawed .badTag mark)
  | c :: rest, mark =>
    if c = '%' ∨ (isUriChar delimited c ∧ missing ≠ 0) then .error (.flawed .badTag mark)
    else if isUriChar delimited c then
      scanUri delimited (c :: chars) 0 0 rest (mark.past c)
    else if missing = 0 then .ok ⟨chars.reverse, c :: rest, mark⟩
    else .error (.flawed .badTag mark)

def scanVerbatim (text : List Char) (mark : Mark) : Except YamlError (Scanned WrittenTag) := do
  let uri ← scanUri true [] 0 0 text mark
  match uri.value, uri.rest with
  | _ :: _, '>' :: rest =>
    .ok ⟨⟨"", String.ofList uri.value⟩, rest, uri.mark.advance 1⟩
  | _, _ => .error (.flawed .badTag uri.mark)

/-- The tag behind its first `!`: a name and a second `!` are a handle, otherwise the handle is the
first `!` alone. A mere `!` is a tag without handle. -/
def scanShorthand (text : List Char) (mark : Mark) : Except YamlError (Scanned WrittenTag) := do
  let name := scanClass isNameChar text mark
  match name.rest with
  | '!' :: rest =>
    let uri ← scanUri false [] 0 0 rest (name.mark.advance 1)
    if uri.value = [] then .error (.flawed .badTag uri.mark)
    else .ok ⟨⟨String.ofList ('!' :: (name.value ++ ['!'])), String.ofList uri.value⟩,
      uri.rest, uri.mark⟩
  | _ =>
    let uri ← scanUri false name.value.reverse 0 0 name.rest name.mark
    if uri.value = [] then .ok ⟨⟨"", "!"⟩, uri.rest, uri.mark⟩
    else .ok ⟨⟨"!", String.ofList uri.value⟩, uri.rest, uri.mark⟩

def scanTag (inFlow : Bool) (text : List Char) (mark : Mark) :
    Except YamlError (Scanned WrittenTag) := do
  let tag ← match text with
    | '<' :: rest => scanVerbatim rest (mark.advance 1)
    | _ => scanShorthand text mark
  if endsWord tag.rest || (inFlow && tag.rest.head? == some ',') then .ok tag
  else .error (.flawed .badTag tag.mark)

/-! ### Directives -/

/-- A number of at most nine digits. -/
def scanNumber? (text : List Char) (mark : Mark) : Option (Scanned Nat) :=
  let digits := scanClass Char.isDigit text mark
  if 9 < digits.value.length then none
  else (Text.ofDigits? 10 digits.value).map fun value => ⟨value, digits.rest, digits.mark⟩

/-- The value of `%YAML`: two numbers with a point in between. -/
def scanVersion? (text : List Char) (mark : Mark) : Option (Scanned Token) := do
  let major ← scanNumber? text mark
  match major.rest with
  | '.' :: rest =>
    let minor ← scanNumber? rest (major.mark.advance 1)
    return ⟨.version major.value minor.value, minor.rest, minor.mark⟩
  | _ => none

/-- A handle in a directive: one `!`, or a name between two. -/
def scanHandle? (text : List Char) (mark : Mark) : Option (Scanned String) :=
  match text with
  | '!' :: rest =>
    let name := scanClass isNameChar rest (mark.advance 1)
    match name.rest with
    | '!' :: rest =>
      some ⟨String.ofList ('!' :: (name.value ++ ['!'])), rest, name.mark.advance 1⟩
    | _ => if name.value = [] then some ⟨"!", name.rest, name.mark⟩ else none
  | _ => none

/-- The value of `%TAG`: a handle and what it stands for. -/
def scanTagHandle? (text : List Char) (mark : Mark) : Option (Scanned Token) := do
  let handle ← scanHandle? text mark
  let gap := scanClass isBlank handle.rest handle.mark
  let uri ← (scanUri true [] 0 0 gap.rest gap.mark).toOption
  if gap.value = [] ∨ uri.value = [] ∨ !endsWord uri.rest then none
  else return ⟨.tagHandle handle.value (String.ofList uri.value), uri.rest, uri.mark⟩

def scanDirective (text : List Char) (mark : Mark) : Except YamlError (Scanned Token) :=
  let name := scanClass isNameChar text mark
  let gap := scanClass isBlank name.rest name.mark
  let read :=
    if !endsWord name.rest then none
    else if name.value = "YAML".toList then scanVersion? gap.rest gap.mark
    else if name.value = "TAG".toList then scanTagHandle? gap.rest gap.mark
    else none
  match read.bind fun token => (skipLine? token.rest token.mark).map (token.value, ·) with
  | some (token, rest, mark) => .ok ⟨token, rest, mark⟩
  | none => .error (.flawed .badDirective mark)

end Token

end EntityContract.Yaml
