import EntityContract.Uri.Address

/-!
Absolute URLs: which texts are one, and what is wrong with the others. A URL has a scheme; the
special schemes need a host, and every host has to be well formed. User names, paths, queries and
fragments are never wrong.
-/

namespace EntityContract

inductive UriError where
  | relative
  | emptyHost
  | invalidPort
  | invalidAddressV4
  | invalidAddressV6
  | invalidDomainCharacter
  | invalidDomain
  deriving DecidableEq, Repr

def UriError.message : UriError → String
  | .relative => "relative URL without a base"
  | .emptyHost => "empty host"
  | .invalidPort => "invalid port number"
  | .invalidAddressV4 => "invalid IPv4 address"
  | .invalidAddressV6 => "invalid IPv6 address"
  | .invalidDomainCharacter => "invalid domain character"
  | .invalidDomain => "invalid international domain name"

namespace Uri

/-- How a scheme is followed by its host. -/
inductive SchemeKind where
  | file
  | special
  | other
  deriving DecidableEq

def SchemeKind.ofName (name : List Char) : SchemeKind :=
  let name := String.ofList (name.map Char.toLower)
  if name == "file" then .file
  else if ["http", "https", "ws", "wss", "ftp"].contains name then .special
  else .other

/-- Slashes go both ways after a special scheme. -/
def isSlash (kind : SchemeKind) (c : Char) : Bool := c = '/' || (c = '\\' && kind ≠ .other)

def endsAuthority (kind : SchemeKind) (c : Char) : Bool :=
  isSlash kind c || c = '?' || c = '#'

def isSchemeChar (c : Char) : Bool := c.isAlphanum || c = '+' || c = '-' || c = '.'

def scheme? (text : List Char) : Option (List Char × List Char) :=
  match text with
  | first :: _ =>
    match text.span isSchemeChar with
    | (name, ':' :: rest) => if first.isAlpha then some (name, rest) else none
    | _ => none
  | [] => none

def bracketed (host : List Char) : Except UriError Unit :=
  match host.getLast? with
  | some ']' =>
    if isAddressV6 (host.dropLast.drop 1) then .ok () else .error .invalidAddressV6
  | _ => .error .invalidAddressV6

/-- The host of a special scheme: a name or an address. -/
def checkHost (host : List Char) : Except UriError Unit :=
  match host with
  | '[' :: _ => bracketed host
  | _ =>
    match domain? host with
    | none => .error .invalidDomain
    | some [] => .error .emptyHost
    | some name =>
      if endsInNumber name ∧ ¬isAddressV4 name then .error .invalidAddressV4 else .ok ()

def isForbiddenInHost (c : Char) : Bool :=
  "\x00\t\n\r #/:<>?@[\\]^|".toList.contains c

/-- The host of any other scheme, which is not interpreted. -/
def checkOpaqueHost (host : List Char) : Except UriError Unit :=
  match host with
  | '[' :: _ => bracketed host
  | _ => if host.any isForbiddenInHost then .error .invalidDomainCharacter else .ok ()

/-- The host and what follows it: a colon outside brackets ends it. -/
def spanHost : Bool → List Char → List Char × List Char
  | _, [] => ([], [])
  | inside, c :: rest =>
    if c = ':' ∧ !inside then ([], c :: rest)
    else
      let inside := c = '[' || (inside && c ≠ ']')
      let (host, rest) := spanHost inside rest
      (c :: host, rest)

/-- A port: digits up to where the authority ends, at most 65535. -/
def checkPort (text : List Char) : Except UriError Unit :=
  let digits := text.takeWhile fun c => !(endsAuthority .special c)
  if digits.all Char.isDigit then
    if (digitsIn 10 digits).any (· ≤ 65535) then .ok () else .error .invalidPort
  else .error .invalidPort

/-- The text before the last `@`, if there is one, and the text behind it. -/
def splitUser (authority : List Char) : Option (List Char) × List Char :=
  match authority.reverse.span (· ≠ '@') with
  | (_, []) => (none, authority)
  | (host, _ :: user) => (some user.reverse, host.reverse)

/-- An authority: user, host and port. A user or a port needs a host. -/
def checkAuthority (kind : SchemeKind) (text : List Char) : Except UriError Unit := do
  let authority := text.takeWhile fun c => !endsAuthority kind c
  let following := text.drop authority.length
  let (user, place) := splitUser authority
  if user = some [] ∧ place = [] ∧ following ≠ [] then .error .emptyHost
  let (host, rest) := spanHost false place
  if kind = .special then
    if host = [] then .error .emptyHost else checkHost host
  else
    checkOpaqueHost host
    if host = [] ∧ rest ≠ [] then .error .emptyHost
  match rest with
  | [] => pure ()
  | _ :: port => checkPort port
  if host = [] ∧ user.any (fun user => user ≠ [] ∧ user ≠ [':']) then .error .emptyHost

/-- A drive letter stands in the place of a host. -/
def isDrive : List Char → Bool
  | [letter, mark] => letter.isAlpha && (mark = ':' || mark = '|')
  | _ => false

def checkFile (text : List Char) : Except UriError Unit :=
  match text with
  | first :: second :: rest =>
    if isSlash .file first ∧ isSlash .file second then
      let host := rest.takeWhile fun c => !endsAuthority .file c
      if host = [] ∨ isDrive host then .ok () else checkHost host
    else .ok ()
  | _ => .ok ()

/-- A text without the control characters and spaces around it, and without tabs and line breaks. -/
def clean (text : List Char) : List Char :=
  let isOuter := fun (c : Char) => c.toNat ≤ 0x20
  let inner := ((text.dropWhile isOuter).reverse.dropWhile isOuter).reverse
  inner.filter fun c => c ≠ '\t' ∧ c ≠ '\n' ∧ c ≠ '\r'

def check (text : String) : Except UriError Unit :=
  match scheme? (clean text.toList) with
  | none => .error .relative
  | some (name, rest) =>
    match SchemeKind.ofName name with
    | .file => checkFile rest
    | .special => checkAuthority .special (rest.dropWhile (isSlash .special))
    | .other =>
      match rest with
      | '/' :: '/' :: rest => checkAuthority .other rest
      | _ => .ok ()

end Uri

end EntityContract
