import ReleaseDocs.Toml.Inline

namespace ReleaseDocs.Toml

open Reader

inductive Statement where
  | entry (path : List String) (key : String) (value : Value)
  /-- The header of a table. -/
  | table (path : List String) (key : String)
  /-- The header of one more of several tables. -/
  | element (path : List String) (key : String)
  | nothing

def header (opening closing : String) : Reader (List String × String) := do
  literal opening
  let key ← key
  literal closing
  lineEnd
  return key

def entry : Reader Statement := do
  let (path, key, value) ← keyValue (value (nestingBound - 1))
  lineEnd
  return .entry path key value

def blankLine : Reader Statement := do
  newline <|> (do comment; lineEnd)
  return .nothing

def statement : Reader Statement := do
  let said ← blankLine <|>
    (do let (path, key) ← header "[[" "]]"; return .element path key) <|>
    (do let (path, key) ← header "[" "]"; return .table path key) <|>
    entry
  spacing
  return said

/-- The statements of a text, which may start with a byte order mark. -/
def statements : Reader (List Statement) := do
  let _ ← maybe (literal "\uFEFF")
  spacing
  let said ← repeated statement
  atEnd
  return said

/-- A document while it is read: all its tables, and the path to the one that is open. -/
structure Draft where
  root : Table := []
  opened : List String := []

def Draft.apply? (draft : Draft) : Statement → Option Draft
  | .nothing => some draft
  | .entry path key value => do
      let root ← Table.alter? .implied (Table.insert? path key value) .header draft.root
        draft.opened
      some { draft with root := root }
  | .table path key => do
      some ⟨← draft.root.addHeader? path key, path ++ [key]⟩
  | .element path key => do
      some ⟨← draft.root.addElement? path key, path ++ [key]⟩

/-- The table that a text describes, if it is a TOML document. -/
def Table.ofText? (text : String) : Option Table := do
  let (said, _) ← statements.run text.toList
  let draft ← said.foldlM Draft.apply? {}
  some draft.root

end ReleaseDocs.Toml
