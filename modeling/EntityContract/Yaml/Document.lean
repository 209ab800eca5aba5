import EntityContract.Yaml.Lexer
import EntityContract.Yaml.Node

/-!
Documents: nodes whose aliases are followed. An anchor is numbered by how many different names
stand before it, and an alias has the number that its name had last; it stands for the last node of
the document with this number.
-/

namespace EntityContract.Yaml

/-- The names of anchors with their last numbers, each name once. -/
abbrev AnchorNumbers := List (String × Nat)

namespace AnchorNumbers

def add (name : String) (numbers : AnchorNumbers) : AnchorNumbers :=
  (name, numbers.length) :: numbers.filter (·.1 != name)

def addProperties (properties : Properties String) (numbers : AnchorNumbers) :
    Properties Nat × AnchorNumbers :=
  match properties.anchor with
  | some name => (⟨some numbers.length, properties.tag⟩, numbers.add name)
  | none => (⟨none, properties.tag⟩, numbers)

end AnchorNumbers

namespace Node

mutual

/-- The node with numbers for names; every alias needs an anchor before it. -/
def number (numbers : AnchorNumbers) : Written → Except YamlError (Node Nat × AnchorNumbers)
  | .scalar properties style text =>
    let (properties, numbers) := numbers.addProperties properties
    .ok (.scalar properties style text, numbers)
  | .aliasOf anchor =>
    match numbers.lookup anchor with
    | some number => .ok (.aliasOf number, numbers)
    | none => .error (.undefinedAnchor anchor)
  | .sequence properties items =>
    let (properties, numbers) := numbers.addProperties properties
    (numberItems numbers items).map fun (items, numbers) => (.sequence properties items, numbers)
  | .mapping properties pairs =>
    let (properties, numbers) := numbers.addProperties properties
    (numberPairs numbers pairs).map fun (pairs, numbers) => (.mapping properties pairs, numbers)

def numberItems (numbers : AnchorNumbers) :
    List Written → Except YamlError (List (Node Nat) × AnchorNumbers)
  | [] => .ok ([], numbers)
  | item :: items => do
    let (item, numbers) ← number numbers item
    let (items, numbers) ← numberItems numbers items
    return (item :: items, numbers)

def numberPairs (numbers : AnchorNumbers) :
    List (Written × Written) → Except YamlError (List (Node Nat × Node Nat) × AnchorNumbers)
  | [] => .ok ([], numbers)
  | (key, value) :: pairs => do
    let (key, numbers) ← number numbers key
    let (value, numbers) ← number numbers value
    let (pairs, numbers) ← numberPairs numbers pairs
    return ((key, value) :: pairs, numbers)

end

mutual

def anchored : Node Nat → List (Nat × Node Nat)
  | .scalar properties style text =>
    properties.anchor.toList.map (·, .scalar properties style text)
  | .aliasOf _ => []
  | .sequence properties items =>
    properties.anchor.toList.map (·, .sequence properties items) ++ anchoredItems items
  | .mapping properties pairs =>
    properties.anchor.toList.map (·, .mapping properties pairs) ++ anchoredPairs pairs

def anchoredItems : List (Node Nat) → List (Nat × Node Nat)
  | [] => []
  | item :: items => anchored item ++ anchoredItems items

def anchoredPairs : List (Node Nat × Node Nat) → List (Nat × Node Nat)
  | [] => []
  | (key, value) :: pairs => anchored key ++ (anchored value ++ anchoredPairs pairs)

end

mutual

/-- How many scalars, aliases, and beginnings and ends of collections a node has. -/
def size : Node Nat → Nat
  | .scalar _ _ _ => 1
  | .aliasOf _ => 1
  | .sequence _ items => 2 + sizeItems items
  | .mapping _ pairs => 2 + sizePairs pairs

def sizeItems : List (Node Nat) → Nat
  | [] => 0
  | item :: items => size item + sizeItems items

def sizePairs : List (Node Nat × Node Nat) → Nat
  | [] => 0
  | (key, value) :: pairs => size key + size value + sizePairs pairs

end

end Node

/-- A node without aliases. -/
inductive Tree where
  | scalar (tag : Option String) (style : ScalarStyle) (text : String)
  | sequence (tag : Option String) (items : List Tree)
  | mapping (tag : Option String) (pairs : List (Tree × Tree))
  deriving Repr, Inhabited

/-- The root of a document, none if the text is empty, and its nodes with anchors, the last one
first. -/
structure Document where
  root : Option (Node Nat)
  anchored : List (Nat × Node Nat)

/-- Work on a document that counts the aliases it follows. -/
abbrev Following (α : Type) := StateT Nat (Except YamlError) α

namespace Document

/-- Collections may be nested this deeply. -/
def depth : Nat := 128

/-- For every part of the document so many aliases may be followed. -/
def aliasesPerPart : Nat := 100

def size (document : Document) : Nat := (document.root.map Node.size).getD 1

/-- The node itself, or the one that an alias stands for. -/
def follow (document : Document) : Node Nat → Following (Node Nat)
  | .aliasOf number => do
    let followed := (← get) + 1
    if document.size * aliasesPerPart < followed then throw .tooManyAliases
    set followed
    match document.anchored.lookup number with
    | some node => return node
    | none => throw (.undefinedAnchor (toString number))
  | node => return node

/-- The node with all aliases followed; at most `depth` collections are inside each other. -/
def expand (document : Document) (depth : Nat) (node : Node Nat) : Following Tree := do
  match ← document.follow node with
  | .scalar properties style text => return .scalar properties.tag style text
  | .aliasOf number => throw (.undefinedAnchor (toString number))
  | .sequence properties items =>
    match depth with
    | 0 => throw .tooDeep
    | depth + 1 => return .sequence properties.tag (← items.mapM (document.expand depth))
  | .mapping properties pairs =>
    match depth with
    | 0 => throw .tooDeep
    | depth + 1 =>
      return .mapping properties.tag (← pairs.mapM fun (key, value) => do
        return (← document.expand depth key, ← document.expand depth value))

def ofText (text : String) : Except YamlError Document := do
  match ← Node.ofTokens (← Token.ofText text) with
  | none => return ⟨none, []⟩
  | some root =>
    let (root, _) ← root.number []
    return ⟨some root, root.anchored.reverse⟩

/-- The tree of a document; none if the text is empty. -/
def tree? (document : Document) : Except YamlError (Option Tree) :=
  match document.root with
  | none => .ok none
  | some root => ((document.expand depth root).run 0).map fun (tree, _) => some tree

end Document

end EntityContract.Yaml
