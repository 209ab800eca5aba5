import EntityContract.Text.Digit
import EntityContract.Yaml.Fold

/-!
Texts in quotes. Between single quotes a quote is written twice; between double quotes there are
escapes. Lines are folded in both.
-/

namespace EntityContract.Yaml.QuotedText

/-- What has been read last: a part of the text, the first of two single quotes, a backslash, or
a part of the digits of a character code. -/
inductive Mode where
  | plain (gap : Gap)
  | quote
  | escape
  | code (value missing : Nat)

def unescape? (c : Char) : Option Char :=
  if c = '"' ∨ c = '\\' ∨ c = '/' ∨ c = ' ' ∨ c = '\t' then some c
  else if c = '0' then some '\x00'
  else if c = 'a' then some '\x07'
  else if c = 'b' then some '\x08'
  else if c = 't' then some '\t'
  else if c = 'n' then some '\n'
  else if c = 'v' then some '\x0b'
  else if c = 'f' then some '\x0c'
  else if c = 'r' then some '\r'
  else if c = 'e' then some '\x1b'
  else if c = 'N' then some '\u0085'
  else if c = '_' then some '\u00a0'
  else if c = 'L' then some '\u2028'
  else if c = 'P' then some '\u2029'
  else none

/-- How many digits follow the letter of a character code. -/
def codeLength? (c : Char) : Option Nat :=
  if c = 'x' then some 2
  else if c = 'u' then some 4
  else if c = 'U' then some 8
  else none

/-- The character of a code; surrogates and codes beyond the last character have none. -/
def charOfCode? (code : Nat) : Option Char :=
  if code.isValidChar then some (Char.ofNat code) else none

/-- Reads on behind `text`, newest first, up to and with the closing quote. -/
def scan (single : Bool) (text : List Char) (mode : Mode) :
    List Char → Mark → Except YamlError (Scanned String)
  | [], mark =>
    match mode with
    | .quote => .ok ⟨String.ofList text.reverse, [], mark⟩
    | _ => .error (.flawed .unclosedText mark)
  | c :: rest, mark =>
    let next := mark.past c
    match mode with
    | .quote =>
      if c = '\'' then scan single ('\'' :: text) (.plain .none) rest next
      else .ok ⟨String.ofList text.reverse, c :: rest, mark⟩
    | .escape =>
      if isBreak c then scan single text (.plain (.breaks none [])) rest next
      else match unescape? c, codeLength? c with
        | some plain, _ => scan single (plain :: text) (.plain .none) rest next
        | none, some length => scan single text (.code 0 (length - 1)) rest next
        | none, none => .error (.flawed .unknownEscape mark)
    | .code value missing =>
      match Text.hexDigit? c, missing with
      | none, _ => .error (.flawed .unknownEscape mark)
      | some digit, missing + 1 => scan single text (.code (value * 16 + digit) missing) rest next
      | some digit, 0 =>
        match charOfCode? (value * 16 + digit) with
        | some plain => scan single (plain :: text) (.plain .none) rest next
        | none => .error (.flawed .unknownEscape mark)
    | .plain gap =>
      if isBlank c then scan single text (.plain (gap.addBlank c)) rest next
      else if isBreak c then scan single text (.plain (gap.addBreak c)) rest next
      else if mark.startsLine && startsWithBoundary (c :: rest) then
        .error (.flawed .boundaryInText mark)
      else
        let text := gap.fold ++ text
        if single then
          if c = '\'' then scan single text .quote rest next
          else scan single (c :: text) (.plain .none) rest next
        else if c = '"' then .ok ⟨String.ofList text.reverse, rest, next⟩
        else if c = '\\' then scan single text .escape rest next
        else scan single (c :: text) (.plain .none) rest next

end EntityContract.Yaml.QuotedText
