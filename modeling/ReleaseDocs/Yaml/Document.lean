import ReleaseDocs.Yaml.Node
import ReleaseDocs.Yaml.TokenStream

namespace ReleaseDocs.Yaml

namespace Node

abbrev Anchors := List (List Char × Nat)

/-- The names after one more anchor, which gets as its number how many names there were before. A
name that is given again loses its old number. -/
def Anchors.add (anchors : Anchors) (name : List Char) : Anchors :=
  (name, anchors.length) :: anchors.filter fun entry => entry.1 != name

/-- The number of an anchor, if there is one, and the names after it. -/
def Anchors.label (anchors : Anchors) : Option (List Char) → Option Nat × Anchors
  | none => (none, anchors)
  | some name => (some anchors.length, anchors.add name)

mutual

/-- The node with numbers in place of names, unless it refers to a name without an anchor before
it. -/
def number? (anchors : Anchors) : Node (List Char) → Option (Node Nat × Anchors)
  | .scalar anchor text plain =>
      let (label, anchors) := anchors.label anchor
      some (.scalar label text plain, anchors)
  | .sequence anchor items => do
      let (label, anchors) := anchors.label anchor
      let (items, anchors) ← numberItems? anchors items
      some (.sequence label items, anchors)
  | .mapping anchor entries => do
      let (label, anchors) := anchors.label anchor
      let (entries, anchors) ← numberEntries? anchors entries
      some (.mapping label entries, anchors)
  | .reference name => do
      let target ← anchors.lookup name
      some (.reference target, anchors)

def numberItems? (anchors : Anchors) : List (Node (List Char)) → Option (List (Node Nat) × Anchors)
  | [] => some ([], anchors)
  | item :: items => do
      let (item, anchors) ← number? anchors item
      let (items, anchors) ← numberItems? anchors items
      some (item :: items, anchors)

def numberEntries? (anchors : Anchors) :
    List (Node (List Char) × Node (List Char)) → Option (List (Node Nat × Node Nat) × Anchors)
  | [] => some ([], anchors)
  | (key, value) :: entries => do
      let (key, anchors) ← number? anchors key
      let (value, anchors) ← number? anchors value
      let (entries, anchors) ← numberEntries? anchors entries
      some ((key, value) :: entries, anchors)

end

mutual

def anchored {α : Type} : Node α → List (α × Node α)
  | .scalar anchor text plain => anchor.toList.map (·, .scalar anchor text plain)
  | .sequence anchor items =>
      anchor.toList.map (·, .sequence anchor items) ++ anchoredItems items
  | .mapping anchor entries =>
      anchor.toList.map (·, .mapping anchor entries) ++ anchoredEntries entries
  | .reference _ => []

def anchoredItems {α : Type} : List (Node α) → List (α × Node α)
  | [] => []
  | item :: items => anchored item ++ anchoredItems items

def anchoredEntries {α : Type} : List (Node α × Node α) → List (α × Node α)
  | [] => []
  | (key, value) :: entries => anchored key ++ anchored value ++ anchoredEntries entries

end

end Node

structure Document where
  root : Node Nat
  targets : List (Nat × Node Nat)

namespace Document

def follow? (document : Document) : Node Nat → Option (Node Nat)
  | .reference target => document.targets.reverse.lookup target
  | node => some node

/-- The directives at the start of a document: how many version directives there are, the handles
that are declared, and the tokens behind. -/
def directives? : List Token → Option (Nat × List (List Char) × List Token)
  | .versionDirective major minor :: rest => do
      let (count, handles, rest) ← directives? rest
      if major = 1 ∧ (minor = 1 ∨ minor = 2) ∧ count = 0 then some (1, handles, rest) else none
  | .tagDirective handle :: rest => do
      let (count, handles, rest) ← directives? rest
      if handles.contains handle then none else some (count, handle :: handles, rest)
  | rest => some (0, [], rest)

/-- Whether a document ends, or another one starts, with the next token. -/
def atBoundary : List Token → Bool
  | [] => true
  | .versionDirective .. :: _ => true
  | .tagDirective _ :: _ => true
  | .documentStart :: _ => true
  | .documentEnd :: _ => true
  | _ => false

/-- The root of the only document that the tokens hold. Without a start marker there are no
directives and the root must not be left out. -/
def root? (tokens : List Token) : Option Node.Named := do
  let (directives, handles, rest) ← directives? tokens
  let (root, rest) ←
    match rest with
    | .documentStart :: rest =>
        if atBoundary rest then some (Node.absent, rest)
        else (Node.read? true false rest).map fun (root, rest) => (root, rest.val)
    | rest =>
        if directives = 0 ∧ handles = [] then
          (Node.read? true false rest).map fun (root, rest) => (root, rest.val)
        else none
  let known (token : Token) : Bool :=
    match token with
    | .tag (some handle) => (['!'] :: ['!', '!'] :: handles).contains handle
    | _ => true
  if (rest.all (· == .documentEnd)) && tokens.all known then some root else none

/-- The document of a text without tokens holds nothing. -/
def ofTokens? (tokens : List Token) : Option Document := do
  if tokens.isEmpty then some ⟨Node.scalar none [] true, []⟩
  else
    let (root, _) ← Node.number? [] (← root? tokens)
    some ⟨root, root.anchored⟩

def ofText? (text : List Char) : Option Document := do
  ofTokens? (← tokens? text)

end Document

end ReleaseDocs.Yaml
