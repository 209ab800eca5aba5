import EntityContract.Yaml.Token

/-!
The nodes of a YAML text. Tokens are folded over the collections that are still open; a node that
the tokens leave out is an empty plain scalar.
-/

namespace EntityContract.Yaml

/-- What may stand before a node; `α` is how a node is named for the aliases of it. -/
structure Properties (α : Type) where
  anchor : Option α
  tag : Option String
  deriving DecidableEq, Repr

def Properties.none {α : Type} : Properties α := ⟨Option.none, Option.none⟩

inductive Node (α : Type) where
  | scalar (properties : Properties α) (style : ScalarStyle) (text : String)
  | aliasOf (anchor : α)
  | sequence (properties : Properties α) (items : List (Node α))
  | mapping (properties : Properties α) (pairs : List (Node α × Node α))
  deriving Repr, Inhabited

namespace Node

/-- The scalar in the place of a node that is left out. -/
def blank {α : Type} (properties : Properties α) : Node α := .scalar properties .plain ""

/-- Nodes as they are written, with anchors by their names. -/
abbrev Written := Node String

/-- A sequence is written in lines under a column of its own, in lines under the column of the
mapping around it, or in brackets. -/
inductive SequenceForm where
  | block
  | loose
  | flow
  deriving DecidableEq, Repr

inductive MappingForm where
  | block
  | flow
  deriving DecidableEq, Repr

/-- The part of a mapping that comes next: a key, the value of a key, or a key that stands in
braces without a value. -/
inductive Slot where
  | key
  | value (key : Written)
  | loneKey

/-- A collection that is still open, its finished parts newest first; `pair` is a mapping with one
entry that is written without braces as an entry of a sequence in brackets. -/
inductive Frame where
  | sequence (form : SequenceForm) (properties : Properties String) (items : List Written)
  | mapping (form : MappingForm) (properties : Properties String) (pairs : List (Written × Written))
      (slot : Slot)
  | pair (slot : Slot)

/-- The collections that may be written in a place. -/
inductive Room where
  | flow
  | block
  | blockOrLoose
  deriving DecidableEq, Repr

/-- Where the reader stands: before the document and its directives, behind the mark that starts
it, where a node must come, where one may come, at an entry in brackets, between the parts of the
innermost collection, or behind the document. -/
inductive Place where
  | opening (version : Bool)
  | root
  | node (room : Room) (properties : Properties String)
  | option (room : Room)
  | item
  | between
  | finished
  | closed

structure Reader where
  place : Place
  frames : List Frame
  handles : List (String × String)
  root : Option Written

namespace Reader

def start : Reader := ⟨.opening false, [], [], none⟩

/-- Puts a node into the innermost open collection; without one it is the root. -/
def attach (reader : Reader) (node : Written) : List Frame → Reader
  | [] => { reader with place := .finished, frames := [], root := some node }
  | .sequence form properties items :: frames =>
    { reader with place := .between, frames := .sequence form properties (node :: items) :: frames }
  | .mapping form properties pairs .key :: frames =>
    { reader with
      place := .between, frames := .mapping form properties pairs (.value node) :: frames }
  | .mapping form properties pairs (.value key) :: frames =>
    { reader with
      place := .between, frames := .mapping form properties ((key, node) :: pairs) .key :: frames }
  | .mapping form properties pairs .loneKey :: frames =>
    { reader with
      place := .between
      frames := .mapping form properties ((node, blank .none) :: pairs) .key :: frames }
  | .pair (.value key) :: frames => attach reader (.mapping .none [(key, node)]) frames
  | .pair _ :: frames => { reader with place := .between, frames := .pair (.value node) :: frames }

/-- The innermost open collection is left out a node. -/
def attachBlank (reader : Reader) (properties : Properties String) : Reader :=
  reader.attach (blank properties) reader.frames

def close (reader : Reader) : Reader :=
  match reader.frames with
  | .sequence _ properties items :: frames =>
    reader.attach (.sequence properties items.reverse) frames
  | .mapping _ properties pairs _ :: frames =>
    reader.attach (.mapping properties pairs.reverse) frames
  | _ => reader

def push (reader : Reader) (frame : Frame) (place : Place) : Reader :=
  { reader with frames := frame :: reader.frames, place := place }

/-! ### Nodes that are left out -/

/-- Does the token show that the node that may come in this collection is left out? -/
def leavesOut : Option Frame → Token → Bool
  | some (.sequence .block _ _), token => token == .entry || token == .blockEnd
  | some (.sequence .loose _ _), token =>
    token == .entry || token == .key || token == .value || token == .blockEnd
  | some (.mapping .block _ _ _), token => token == .key || token == .value || token == .blockEnd
  | some (.mapping .flow _ _ (.value _)), token => token == .comma || token == .flowMappingEnd
  | some (.mapping .flow _ _ _), token =>
    token == .value || token == .comma || token == .flowMappingEnd
  | some (.pair (.value _)), token => token == .comma || token == .flowSequenceEnd
  | some (.pair _), token => token == .value || token == .comma || token == .flowSequenceEnd
  | _, _ => false

def leavesOutRoot : Token → Bool
  | .version _ _ | .tagHandle _ _ | .documentStart | .documentEnd | .textEnd => true
  | _ => false

def isContent (room : Room) : Token → Bool
  | .scalar _ _ | .flowSequence | .flowMapping => true
  | .blockSequence | .blockMapping => room != .flow
  | .entry => room == .blockOrLoose
  | _ => false

/-- Does the token add to the properties? Each of the two stands at most once. -/
def isProperty (properties : Properties String) : Token → Bool
  | .anchor _ => properties.anchor.isNone
  | .tag _ => properties.tag.isNone
  | _ => false

/-- Puts an empty scalar where the token shows that a node is left out. -/
def settleNode (reader : Reader) (token : Token) : Reader :=
  match reader.place with
  | .root => if leavesOutRoot token then reader.attachBlank .none else reader
  | .option _ => if leavesOut reader.frames.head? token then reader.attachBlank .none else reader
  | .node room properties =>
    if properties ≠ .none ∧ !isProperty properties token ∧ !isContent room token then
      reader.attachBlank properties
    else reader
  | _ => reader

/-- A sequence without a column of its own ends where no entry follows. -/
def settleLoose (reader : Reader) (token : Token) : Reader :=
  match reader.place, reader.frames with
  | .between, .sequence .loose _ _ :: _ => if token == .entry then reader else reader.close
  | _, _ => reader

/-- A key without a colon behind it has an empty value. -/
def settleValue (reader : Reader) (token : Token) : Reader :=
  match reader.place, reader.frames with
  | .between, .mapping _ _ _ (.value _) :: _ | .between, .pair (.value _) :: _ =>
    if token == .value then reader else reader.attachBlank .none
  | _, _ => reader

def settle (reader : Reader) (token : Token) : Reader :=
  ((reader.settleNode token).settleLoose token).settleValue token

/-! ### Tags -/

/-- What a handle stands for when no directive says so. -/
def defaultHandles : List (String × String) := [("!", "!"), ("!!", "tag:yaml.org,2002:")]

def resolve (reader : Reader) (tag : WrittenTag) : Except YamlError String :=
  if tag.handle = "" then .ok tag.suffix
  else match (reader.handles ++ defaultHandles).lookup tag.handle with
    | some uri => .ok (uri ++ tag.suffix)
    | none => .error (.undefinedHandle tag.handle)

/-! ### Tokens -/

/-- Takes a token of a node. A scalar whose tag is a mere `!` counts as one without tag. -/
def takeContent (reader : Reader) (room : Room) (properties : Properties String) :
    Token → Except YamlError Reader
  | .aliasOf anchor =>
    if properties = .none then .ok (reader.attach (.aliasOf anchor) reader.frames)
    else .error .badStructure
  | .anchor name =>
    if properties.anchor.isNone then
      .ok { reader with place := .node room { properties with anchor := some name } }
    else .error .badStructure
  | .tag tag =>
    if properties.tag.isNone then do
      let tag ← reader.resolve tag
      return { reader with place := .node room { properties with tag := some tag } }
    else .error .badStructure
  | .scalar style text =>
    let tag := properties.tag.filter (· != "!")
    .ok (reader.attach (.scalar { properties with tag := tag } style text) reader.frames)
  | .flowSequence => .ok (reader.push (.sequence .flow properties []) .item)
  | .flowMapping => .ok (reader.push (.mapping .flow properties [] .key) .item)
  | .blockSequence =>
    if room = .flow then .error .badStructure
    else .ok (reader.push (.sequence .block properties []) .between)
  | .blockMapping =>
    if room = .flow then .error .badStructure
    else .ok (reader.push (.mapping .block properties [] .key) .between)
  | .entry =>
    if room = .blockOrLoose then .ok (reader.push (.sequence .loose properties []) (.option .block))
    else .error .badStructure
  | _ => .error .badStructure

/-- Takes a token between the parts of the innermost collection. -/
def takeBetween (reader : Reader) (token : Token) : Except YamlError Reader :=
  match reader.frames, token with
  | .sequence .block _ _ :: _, .entry => .ok { reader with place := .option .block }
  | .sequence .block _ _ :: _, .blockEnd => .ok reader.close
  | .sequence .loose _ _ :: _, .entry => .ok { reader with place := .option .block }
  | .sequence .flow _ _ :: _, .comma => .ok { reader with place := .item }
  | .sequence .flow _ _ :: _, .flowSequenceEnd => .ok reader.close
  | .mapping .block _ _ (.value _) :: _, .value =>
    .ok { reader with place := .option .blockOrLoose }
  | .mapping .flow _ _ (.value _) :: _, .value => .ok { reader with place := .option .flow }
  | .mapping .block _ _ _ :: _, .key => .ok { reader with place := .option .blockOrLoose }
  | .mapping .block _ _ _ :: _, .blockEnd => .ok reader.close
  | .mapping .flow _ _ _ :: _, .comma => .ok { reader with place := .item }
  | .mapping .flow _ _ _ :: _, .flowMappingEnd => .ok reader.close
  | .pair (.value _) :: _, .value => .ok { reader with place := .option .flow }
  | _, _ => .error .badStructure

def takeItem (reader : Reader) (token : Token) : Except YamlError Reader :=
  match reader.frames, token with
  | .sequence .flow _ _ :: _, .flowSequenceEnd => .ok reader.close
  | .sequence .flow _ _ :: _, .key => .ok (reader.push (.pair .key) (.option .flow))
  | .sequence .flow _ _ :: _, token => reader.takeContent .flow .none token
  | .mapping .flow _ _ _ :: _, .flowMappingEnd => .ok reader.close
  | .mapping .flow _ _ _ :: _, .key => .ok { reader with place := .option .flow }
  | .mapping .flow properties pairs _ :: frames, token =>
    takeContent { reader with frames := .mapping .flow properties pairs .loneKey :: frames }
      .flow .none token
  | _, _ => .error .badStructure

/-- Takes a token before the document. Without directives the document needs no mark. -/
def takeOpening (reader : Reader) (version : Bool) : Token → Except YamlError Reader
  | .version major minor =>
    if version ∨ major ≠ 1 ∨ (minor ≠ 1 ∧ minor ≠ 2) then .error .badDirectives
    else .ok { reader with place := .opening true }
  | .tagHandle handle uri =>
    if (reader.handles.lookup handle).isSome then .error .badDirectives
    else .ok { reader with handles := (handle, uri) :: reader.handles }
  | .documentStart => .ok { reader with place := .root }
  | token =>
    if version ∨ reader.handles ≠ [] then .error .badDirectives
    else if token = .textEnd then .ok { reader with place := .closed }
    else reader.takeContent .block .none token

/-- Is the key of a pair in a sequence left out? The token that shows it is passed over. -/
def passesOver (reader : Reader) (token : Token) : Bool :=
  match reader.place, reader.frames with
  | .option _, .pair .key :: _ => leavesOut reader.frames.head? token
  | _, _ => false

def take (reader : Reader) (token : Token) : Except YamlError Reader :=
  if reader.passesOver token then .ok (reader.attachBlank .none)
  else
    let reader := reader.settle token
    match reader.place with
    | .opening version => reader.takeOpening version token
    | .root => reader.takeContent .block .none token
    | .node room properties => reader.takeContent room properties token
    | .option room => reader.takeContent room .none token
    | .item => reader.takeItem token
    | .between => reader.takeBetween token
    | .finished =>
      match token with
      | .documentEnd => .ok reader
      | .textEnd => .ok { reader with place := .closed }
      | .documentStart => .error .moreThanOneDocument
      | _ => .error .badStructure
    | .closed => .error .badStructure

end Reader

/-- The root node of the document that the tokens write; none if there is no document. -/
def ofTokens (tokens : List Token) : Except YamlError (Option Written) := do
  let reader ← tokens.foldlM Reader.take .start
  match reader.place with
  | .closed => return reader.root
  | _ => .error .badStructure

end Node

end EntityContract.Yaml
