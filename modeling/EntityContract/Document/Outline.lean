import EntityContract.Json.Parse
import EntityContract.Yaml.Json
import EntityContract.Yaml.Record

/-!
The outline of a schema document: its definitions as they are written, those with the same name
included. All else in the text is passed over. A text whose outline is not of the expected form has
none.
-/

namespace EntityContract.Outline

/-- The names and definitions under `schemas` in `components`, if both are there. -/
abbrev Definitions := Option Members

/-! ### JSON -/

/-- The member `name`, if there is one: `none` when the name is written twice. -/
def single? (name : String) (members : Members) : Option (Option Json) :=
  match members.filter (·.1 == name) with
  | [] => some none
  | [(_, value)] => some (some value)
  | _ => none

/-- The only part of an outline object: its member `name`, or the only element of an array. -/
def part? (name : String) : Json → Option (Option Json)
  | .obj members => single? name members
  | .arr [] => some none
  | .arr [value] => some (some value)
  | _ => none

def ofJson? (tree : Json) : Option Definitions := do
  match ← part? "components" tree with
  | none | some .null => return none
  | some components =>
    match ← part? "schemas" components with
    | none => return none
    | some (.obj schemas) => return some (schemas.map fun (name, value) => (name, value.distinct))
    | some _ => none

/-- A token with a value in place of one without. -/
def valued : Json.Token → Json.Token
  | .hugeNumber => .scalar .null
  | .brokenText => .scalar (.str "")
  | token => token

def openBehind (opened : Nat) : Json.Token → Nat
  | .openArray | .openObject => opened + 1
  | .closeArray | .closeObject => opened - 1
  | _ => opened

/-- The tokens of the first value, given how many of its containers are open, and the tokens
behind it. -/
def spanValue : Nat → List Json.Token → List Json.Token × List Json.Token
  | _, [] => ([], [])
  | opened, token :: rest =>
    if openBehind opened token = 0 then ([token], rest)
    else
      let (value, behind) := spanValue (openBehind opened token) rest
      (token :: value, behind)

theorem length_spanValue_le (opened : Nat) (tokens : List Json.Token) :
    (spanValue opened tokens).2.length ≤ tokens.length := by
  induction tokens generalizing opened with
  | nil => simp [spanValue]
  | cons token rest ih =>
    rw [spanValue]
    split
    · simp
    · exact Nat.le_succ_of_le (ih _)

/-- The inside of an object with null for the value of every member but `name`. -/
def condenseMembers (name : String) (condense : List Json.Token → List Json.Token) :
    List Json.Token → List Json.Token
  | .scalar (.str key) :: .colon :: rest =>
    let value := (spanValue 0 rest).1
    .scalar (.str key) :: .colon :: (if key = name then condense value else [.scalar .null]) ++
      condenseMembers name condense (spanValue 0 rest).2
  | token :: rest => token :: condenseMembers name condense rest
  | [] => []
termination_by tokens => tokens.length
decreasing_by
  · have := length_spanValue_le 0 rest
    simp only [List.length_cons]
    omega
  · simp

/-- A value with null for all that is no part of the outline. -/
def condense (name : String) (inner : List Json.Token → List Json.Token) :
    List Json.Token → List Json.Token
  | .openObject :: rest => .openObject :: condenseMembers name inner rest
  | .openArray :: rest => .openArray :: inner (spanValue 0 rest).1 ++ (spanValue 0 rest).2
  | tokens => tokens

/-- The outline of a JSON text. Outside of it the text may nest deeper than a document, and hold
numbers and strings without a value. -/
def ofJsonText? (text : String) : Option Definitions := do
  let tokens ← Json.tokens? text.toList
  match Json.tree? Json.documentDepth tokens with
  | some tree => ofJson? tree
  | none =>
    let _ ← Json.tree? tokens.length (tokens.map valued)
    ofJson? (← Json.tree? Json.documentDepth
      (condense "components" (condense "schemas" id) tokens))

/-! ### YAML -/

def entries (document : Yaml.Document) (depth : Nat) (node : Yaml.Node Nat) :
    Yaml.Following Members := do
  let (fields, depth) ← document.fields depth node
  fields.mapM fun (name, value) => do
    return (name, (← (← document.expand depth value).json).distinct)

def ofYaml (document : Yaml.Document) : Yaml.Following Definitions := do
  let (fields, depth) ← document.rootFields
  match ← fields.single? "components" with
  | none => return none
  | some components =>
    if ← document.isNull components then return none
    let (fields, depth) ← document.fields depth components
    match ← fields.single? "schemas" with
    | none => return none
    | some schemas => return some (← entries document depth schemas)

/-- The outline of a YAML text; none if the text has none. -/
def ofYamlText? (text : String) : Option Definitions :=
  match (do ((ofYaml (← Yaml.Document.ofText text)).run' 0)) with
  | .ok definitions => some definitions
  | .error _ => none

end EntityContract.Outline
