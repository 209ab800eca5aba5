import EntityContract.Json.Number

/-!
JSON values. Objects keep their members in the order in which they were written; equality of
values does not see that order.
-/

namespace EntityContract

inductive Json where
  | null
  | bool (value : Bool)
  | num (value : Number)
  | str (value : String)
  | arr (items : List Json)
  | obj (members : List (String × Json))
  deriving Repr, Inhabited

abbrev Members := List (String × Json)

namespace Members

def contains (key : String) (members : Members) : Bool := members.any (·.1 == key)

/-- Sets the value of `key` where it stands, or appends it. -/
def insert (key : String) (value : Json) : Members → Members
  | [] => [(key, value)]
  | (other, old) :: rest =>
    if other = key then (other, value) :: rest else (other, old) :: insert key value rest

def erase (key : String) (members : Members) : Members := members.filter (·.1 != key)

/-- The members of a written object: a repeated key keeps its first place and its last value. -/
def ofWritten (written : Members) : Members :=
  written.foldl (fun members member => insert member.1 member.2 members) []

end Members

namespace Json

def int (value : Int) : Json := .num (.int value)

mutual

/-- Equality of values: members in any order, numbers by kind and value. -/
def same : Json → Json → Bool
  | .null, .null => true
  | .bool x, .bool y => x == y
  | .num x, .num y => x.same y
  | .str x, .str y => x == y
  | .arr xs, .arr ys => sameItems xs ys
  | .obj xs, .obj ys => xs.length == ys.length && sameMembers xs ys
  | _, _ => false

def sameItems : List Json → List Json → Bool
  | [], [] => true
  | x :: xs, y :: ys => same x y && sameItems xs ys
  | _, _ => false

/-- Each member of the first object has an equal one in the second. -/
def sameMembers : Members → Members → Bool
  | [], _ => true
  | (key, x) :: xs, ys =>
    (match ys.lookup key with
      | some y => same x y
      | none => false) && sameMembers xs ys

end

mutual

/-- The value that a written tree stands for: no object keeps a key twice. -/
def distinct : Json → Json
  | .arr items => .arr (distinctItems items)
  | .obj members => .obj (Members.ofWritten (distinctMembers members))
  | value => value

def distinctItems : List Json → List Json
  | [] => []
  | item :: items => distinct item :: distinctItems items

def distinctMembers : Members → Members
  | [] => []
  | (key, value) :: members => (key, distinct value) :: distinctMembers members

end

def get? (key : String) : Json → Option Json
  | .obj members => members.lookup key
  | _ => none

def at? (index : Nat) : Json → Option Json
  | .arr items => items[index]?
  | _ => none

def members? : Json → Option Members
  | .obj members => some members
  | _ => none

def items? : Json → Option (List Json)
  | .arr items => some items
  | _ => none

def text? : Json → Option String
  | .str text => some text
  | _ => none

def isObject (value : Json) : Bool := value.members?.isSome

/-- The name of the type of a value; whole numbers are integers whichever way they are written. -/
def typeName : Json → String
  | .null => "null"
  | .bool _ => "boolean"
  | .num n => if n.isWhole then "integer" else "number"
  | .str _ => "string"
  | .arr _ => "array"
  | .obj _ => "object"

end Json

end EntityContract
