import ReleaseDocs.Yaml.Token

namespace ReleaseDocs.Yaml

/-- A node whose anchors and references are labels of type `α`. -/
inductive Node (α : Type) where
  | scalar (anchor : Option α) (text : List Char) (plain : Bool)
  | sequence (anchor : Option α) (items : List (Node α))
  | mapping (anchor : Option α) (entries : List (Node α × Node α))
  | reference (target : α)

namespace Node

abbrev Named := Node (List Char)

def absent : Named := .scalar none [] true

/-- The tokens behind something that was read, fewer than there were. -/
abbrev Rest (tokens : List Token) := { rest : List Token // rest.length < tokens.length }

/-- Whether the content of a node starts here. Block collections count only where a block node may
stand, and entries without a start of their own only where `indentless` allows them. -/
def startsContent (block indentless : Bool) : List Token → Bool
  | .blockEntry :: _ => indentless
  | .scalar .. :: _ => true
  | .flowSequenceStart :: _ => true
  | .flowMappingStart :: _ => true
  | .blockSequenceStart :: _ => block
  | .blockMappingStart :: _ => block
  | _ => false

def endsItem : List Token → Bool
  | .blockEntry :: _ => true
  | .blockEnd :: _ => true
  | _ => false

def endsEntry : List Token → Bool
  | .key :: _ => true
  | .value :: _ => true
  | .blockEnd :: _ => true
  | _ => false

def endsIndentless (tokens : List Token) : Bool :=
  endsEntry tokens || endsItem tokens

def endsFlowItem : List Token → Bool
  | .value :: _ => true
  | .flowEntry :: _ => true
  | .flowSequenceEnd :: _ => true
  | _ => false

def endsFlowEntry : List Token → Bool
  | .value :: _ => true
  | .flowEntry :: _ => true
  | .flowMappingEnd :: _ => true
  | _ => false

mutual

/-- The node at the start of the tokens: a reference, or content behind at most one anchor and at
most one tag. A node with one of these may have no content. -/
def read? (block indentless : Bool) (tokens : List Token) : Option (Named × Rest tokens) :=
  match tokens with
  | .reference name :: rest => some (.reference name, ⟨rest, by grind⟩)
  | .anchor name :: .tag _ :: rest =>
      if startsContent block indentless rest then do
        let (node, ⟨after, h⟩) ← content? (some name) rest
        some (node, ⟨after, by grind⟩)
      else some (.scalar (some name) [] true, ⟨rest, by grind⟩)
  | .tag _ :: .anchor name :: rest =>
      if startsContent block indentless rest then do
        let (node, ⟨after, h⟩) ← content? (some name) rest
        some (node, ⟨after, by grind⟩)
      else some (.scalar (some name) [] true, ⟨rest, by grind⟩)
  | .anchor name :: rest =>
      if startsContent block indentless rest then do
        let (node, ⟨after, h⟩) ← content? (some name) rest
        some (node, ⟨after, by grind⟩)
      else some (.scalar (some name) [] true, ⟨rest, by grind⟩)
  | .tag _ :: rest =>
      if startsContent block indentless rest then do
        let (node, ⟨after, h⟩) ← content? none rest
        some (node, ⟨after, by grind⟩)
      else some (absent, ⟨rest, by grind⟩)
  | tokens => if startsContent block indentless tokens then content? none tokens else none
termination_by (tokens.length, 1)

def content? (anchor : Option (List Char)) (tokens : List Token) :
    Option (Named × Rest tokens) :=
  match tokens with
  | .scalar text plain :: rest => some (.scalar anchor text plain, ⟨rest, by grind⟩)
  | .flowSequenceStart :: rest => do
      let (items, ⟨after, h⟩) ← flowItems? true rest
      some (.sequence anchor items, ⟨after, by grind⟩)
  | .flowMappingStart :: rest => do
      let (entries, ⟨after, h⟩) ← flowEntries? true rest
      some (.mapping anchor entries, ⟨after, by grind⟩)
  | .blockSequenceStart :: rest => do
      let (items, ⟨after, h⟩) ← blockItems? rest
      some (.sequence anchor items, ⟨after, by grind⟩)
  | .blockMappingStart :: rest => do
      let (entries, ⟨after, h⟩) ← blockEntries? rest
      some (.mapping anchor entries, ⟨after, by grind⟩)
  | .blockEntry :: rest => do
      let (item, ⟨after, h⟩) ← itemBefore? endsIndentless rest
      let (items, ⟨after, h⟩) ← indentlessItems? after
      some (.sequence anchor (item :: items), ⟨after, by grind⟩)
  | _ => none
termination_by (tokens.length, 0)

/-- A block node, or none where `ends` says that it is left out. -/
def itemBefore? (ends : List Token → Bool) (tokens : List Token) :
    Option (Named × { rest : List Token // rest.length ≤ tokens.length }) :=
  if ends tokens then some (absent, ⟨tokens, Nat.le_refl _⟩)
  else do
    let (item, ⟨rest, h⟩) ← read? true false tokens
    some (item, ⟨rest, by omega⟩)
termination_by (tokens.length, 2)

def blockItems? (tokens : List Token) : Option (List Named × Rest tokens) :=
  match tokens with
  | .blockEntry :: rest => do
      let (item, ⟨after, h⟩) ← itemBefore? endsItem rest
      let (items, ⟨after, h⟩) ← blockItems? after
      some (item :: items, ⟨after, by grind⟩)
  | .blockEnd :: rest => some ([], ⟨rest, by grind⟩)
  | _ => none
termination_by (tokens.length, 3)

/-- The further items of a sequence without a start of its own; whatever is no entry ends it. -/
def indentlessItems? (tokens : List Token) :
    Option (List Named × { rest : List Token // rest.length ≤ tokens.length }) :=
  match tokens with
  | .blockEntry :: rest => do
      let (item, ⟨after, h⟩) ← itemBefore? endsIndentless rest
      let (items, ⟨after, h⟩) ← indentlessItems? after
      some (item :: items, ⟨after, by grind⟩)
  | tokens => some ([], ⟨tokens, Nat.le_refl _⟩)
termination_by (tokens.length, 3)

/-- A node of a block mapping, which may be a sequence without a start of its own. -/
def entryNode? (tokens : List Token) :
    Option (Named × { rest : List Token // rest.length ≤ tokens.length }) :=
  if endsEntry tokens then some (absent, ⟨tokens, Nat.le_refl _⟩)
  else do
    let (node, ⟨rest, h⟩) ← read? true true tokens
    some (node, ⟨rest, by omega⟩)
termination_by (tokens.length, 2)

def blockEntries? (tokens : List Token) : Option (List (Named × Named) × Rest tokens) :=
  match tokens with
  | .key :: rest => do
      let (key, ⟨after, hkey⟩) ← entryNode? rest
      match after, hkey with
      | .value :: after, hkey => do
          have : after.length < rest.length := by grind
          let (value, ⟨after, h⟩) ← entryNode? after
          let (entries, ⟨after, h⟩) ← blockEntries? after
          some ((key, value) :: entries, ⟨after, by grind⟩)
      | after, hkey => do
          let (entries, ⟨after, h⟩) ← blockEntries? after
          some ((key, absent) :: entries, ⟨after, by grind⟩)
  | .blockEnd :: rest => some ([], ⟨rest, by grind⟩)
  | _ => none
termination_by (tokens.length, 3)

/-- A node within brackets or braces, or none where `ends` says that it is left out. -/
def flowNode? (ends : List Token → Bool) (tokens : List Token) :
    Option (Named × { rest : List Token // rest.length ≤ tokens.length }) :=
  if ends tokens then some (absent, ⟨tokens, Nat.le_refl _⟩)
  else do
    let (node, ⟨rest, h⟩) ← read? false false tokens
    some (node, ⟨rest, by omega⟩)
termination_by (tokens.length, 2)

/-- The value of a flow entry, if a colon is here. -/
def flowValue? (ends : List Token → Bool) (tokens : List Token) :
    Option (Named × { rest : List Token // rest.length ≤ tokens.length }) :=
  match tokens with
  | .value :: rest => do
      let (value, ⟨after, h⟩) ← flowNode? ends rest
      some (value, ⟨after, by grind⟩)
  | tokens => some (absent, ⟨tokens, Nat.le_refl _⟩)
termination_by (tokens.length, 2)

/-- One item within brackets, which may be a single entry of a mapping. A key that is left out
takes the next token with it. -/
def flowItem? (tokens : List Token) : Option (Named × Rest tokens) :=
  match tokens with
  | .key :: rest =>
      if endsFlowItem rest then
        match rest with
        | [] => none
        | _ :: after => do
            let (value, ⟨after, h⟩) ← flowValue? endsFlowItem after
            some (.mapping none [(absent, value)], ⟨after, by grind⟩)
      else do
        let (key, ⟨after, h⟩) ← read? false false rest
        let (value, ⟨after, h⟩) ← flowValue? endsFlowItem after
        some (.mapping none [(key, value)], ⟨after, by grind⟩)
  | tokens => read? false false tokens
termination_by (tokens.length, 3)

def flowItems? (first : Bool) (tokens : List Token) : Option (List Named × Rest tokens) :=
  match tokens with
  | .flowSequenceEnd :: rest => some ([], ⟨rest, by grind⟩)
  | .flowEntry :: .flowSequenceEnd :: rest =>
      if first then none else some ([], ⟨rest, by grind⟩)
  | .flowEntry :: rest =>
      if first then none
      else do
        let (item, ⟨after, h⟩) ← flowItem? rest
        let (items, ⟨after, h⟩) ← flowItems? false after
        some (item :: items, ⟨after, by grind⟩)
  | tokens =>
      if first then do
        let (item, ⟨after, h⟩) ← flowItem? tokens
        let (items, ⟨after, h⟩) ← flowItems? false after
        some (item :: items, ⟨after, by omega⟩)
      else none
termination_by (tokens.length, 4)

/-- One entry within braces; a node without a colon is a key without a value. -/
def flowEntry? (tokens : List Token) : Option ((Named × Named) × Rest tokens) :=
  match tokens with
  | .key :: rest => do
      let (key, ⟨after, h⟩) ← flowNode? endsFlowEntry rest
      let (value, ⟨after, h⟩) ← flowValue? endsFlowEntry after
      some ((key, value), ⟨after, by grind⟩)
  | tokens => do
      let (key, rest) ← read? false false tokens
      some ((key, absent), rest)
termination_by (tokens.length, 3)

def flowEntries? (first : Bool) (tokens : List Token) :
    Option (List (Named × Named) × Rest tokens) :=
  match tokens with
  | .flowMappingEnd :: rest => some ([], ⟨rest, by grind⟩)
  | .flowEntry :: .flowMappingEnd :: rest =>
      if first then none else some ([], ⟨rest, by grind⟩)
  | .flowEntry :: rest =>
      if first then none
      else do
        let (entry, ⟨after, h⟩) ← flowEntry? rest
        let (entries, ⟨after, h⟩) ← flowEntries? false after
        some (entry :: entries, ⟨after, by grind⟩)
  | tokens =>
      if first then do
        let (entry, ⟨after, h⟩) ← flowEntry? tokens
        let (entries, ⟨after, h⟩) ← flowEntries? false after
        some (entry :: entries, ⟨after, by omega⟩)
      else none
termination_by (tokens.length, 4)

end

end Node

end ReleaseDocs.Yaml
