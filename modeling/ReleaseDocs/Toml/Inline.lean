import ReleaseDocs.Toml.Text
import ReleaseDocs.Toml.Value

namespace ReleaseDocs.Toml

open Reader

def atom : Reader Value :=
  .string <$> string <|>
  (do literal "true"; return .boolean true) <|>
  (do literal "false"; return .boolean false) <|>
  .moment <$> moment <|> .fraction <$> fraction <|> .integer <$> integer

/-- Values in brackets; a comma may follow the last, and line ends may stand anywhere. -/
def array (value : Reader Value) : Reader (List Value) := do
  literal "["
  let element := do layout; let element ← value; layout; return element
  let elements ← maybe (do
    let elements ← separated (literal ",") element
    let _ ← maybe (literal ",")
    return elements)
  layout
  literal "]"
  return elements.getD []

def keyValue (value : Reader Value) : Reader (List String × String × Value) := do
  let (path, key) ← key
  literal "="
  spacing
  return (path, key, ← value)

/-- Keys and values in braces, in one line and without a comma behind the last. -/
def bracedTable (value : Reader Value) : Reader Table := do
  literal "\x7b"
  let entries ← maybe
    (separated (literal ",") (do let entry ← keyValue value; spacing; return entry))
  spacing
  literal "\x7d"
  (entries.getD []).foldlM
    (fun table (path, key, value) => StateT.lift (table.insert? path key value .braces)) []

/-- A value with at most so many arrays and tables in one another. -/
def value : (depth : Nat) → Reader Value
  | 0 => atom
  | depth + 1 =>
      atom <|> .array <$> array (value depth) <|> .table .braces <$> bracedTable (value depth)

end ReleaseDocs.Toml
