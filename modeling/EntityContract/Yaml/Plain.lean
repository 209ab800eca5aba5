import EntityContract.Yaml.Fold

/-!
Plain texts: texts without quotes. They end before a comment, a colon that ends a key, a boundary
between documents and a line that is indented less; inside brackets they also end before the
indicators of collections.
-/

namespace EntityContract.Yaml

/-- A plain text, and whether the line was broken behind it. -/
structure PlainText where
  text : String
  brokenBehind : Bool

namespace PlainText

def isKeyColon (c : Char) (rest : List Char) : Bool := c = ':' && endsWord rest

/-- Inside brackets a colon must not stand right before an indicator. -/
def isAmbiguousColon (c : Char) : List Char → Bool
  | next :: _ => c = ':' && (isFlowIndicator next || next = '?')
  | [] => false

def endsBeforeWord (inFlow : Bool) (indent : Nat) (c : Char) (rest : List Char) (mark : Mark) :
    Bool :=
  (!inFlow && mark.column < indent) || (mark.startsLine && startsWithBoundary (c :: rest)) ||
    c = '#'

/-- Reads on behind `text`, newest first, and a gap. -/
def scan (inFlow : Bool) (indent : Nat) (text : List Char) (gap : Gap) :
    List Char → Mark → Except YamlError (Scanned PlainText)
  | [], mark => .ok ⟨⟨String.ofList text.reverse, gap.hasBreak⟩, [], mark⟩
  | c :: rest, mark =>
    if isBlank c then
      if c = '\t' && gap.hasBreak && mark.column < indent then
        .error (.flawed .tabAsIndentation mark)
      else scan inFlow indent text (gap.addBlank c) rest (mark.past c)
    else if isBreak c then scan inFlow indent text (gap.addBreak c) rest (mark.past c)
    else if !gap.isNone && endsBeforeWord inFlow indent c rest mark then
      .ok ⟨⟨String.ofList text.reverse, gap.hasBreak⟩, c :: rest, mark⟩
    else if inFlow && isAmbiguousColon c rest then .error (.flawed .ambiguousColon mark)
    else if isKeyColon c rest || (inFlow && isFlowIndicator c) then
      .ok ⟨⟨String.ofList text.reverse, gap.hasBreak⟩, c :: rest, mark⟩
    else scan inFlow indent (c :: (gap.fold ++ text)) .none rest (mark.past c)

end PlainText

end EntityContract.Yaml
