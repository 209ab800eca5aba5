import EntityContract.Json.Token

/-!
Reading a JSON text: its tokens are folded over the containers that are still open. The tree has
every member as it is written, also under a repeated key; `distinct` gives the value.
-/

namespace EntityContract.Json

/-- A container that is still open, its finished parts newest first. -/
inductive Frame where
  | items (done : List Json)
  | member (done : Members) (key : String)

/-- Where the reader stands: before an element or member value, before a key, behind a key, or
behind a value. `first` allows the container to close at once. -/
inductive Place where
  | value (first : Bool) (frames : List Frame)
  | key (first : Bool) (done : Members) (frames : List Frame)
  | colon (done : Members) (key : String) (frames : List Frame)
  | behind (value : Json) (frames : List Frame)

/-- Takes one token; at most `depth` containers are open at a time. -/
def readToken (depth : Nat) : Place → Token → Option Place
  | .value _ frames, .scalar value => some (.behind value frames)
  | .value _ frames, .openArray =>
    if frames.length < depth then some (.value true (.items [] :: frames)) else none
  | .value _ frames, .openObject =>
    if frames.length < depth then some (.key true [] frames) else none
  | .value true (.items [] :: frames), .closeArray => some (.behind (.arr []) frames)
  | .key _ done frames, .scalar (.str key) => some (.colon done key frames)
  | .key true [] frames, .closeObject => some (.behind (.obj []) frames)
  | .colon done key frames, .colon => some (.value false (.member done key :: frames))
  | .behind value (.items done :: frames), .comma =>
    some (.value false (.items (value :: done) :: frames))
  | .behind value (.items done :: frames), .closeArray =>
    some (.behind (.arr (value :: done).reverse) frames)
  | .behind value (.member done key :: frames), .comma =>
    some (.key false ((key, value) :: done) frames)
  | .behind value (.member done key :: frames), .closeObject =>
    some (.behind (.obj ((key, value) :: done).reverse) frames)
  | _, _ => none

/-- The tree that tokens make, with at most `depth` containers inside each other. -/
def tree? (depth : Nat) (tokens : List Token) : Option Json := do
  match ← tokens.foldlM (readToken depth) (.value false []) with
  | .behind value [] => some value
  | _ => none

def written? (depth : Nat) (text : String) : Option Json := do tree? depth (← tokens? text.toList)

/-- Containers may be nested this deeply in a document. -/
def documentDepth : Nat := 127

def ofText? (text : String) : Option Json := (written? documentDepth text).map distinct

end EntityContract.Json
