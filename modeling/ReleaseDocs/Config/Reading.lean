import ReleaseDocs.Config
import ReleaseDocs.FileTree
import ReleaseDocs.Toml.Document

namespace ReleaseDocs

namespace Toml.Value

def text? : Value → Option String
  | string text => some text
  | _ => none

def boolean? : Value → Option Bool
  | boolean value => some value
  | _ => none

/-- The elements of a list, in brackets or as tables of one header. -/
def elements? : Value → Option (List Value)
  | array elements => some elements
  | tables elements => some (elements.map (table .header))
  | _ => none

def texts? (value : Value) : Option (List String) := do
  (← value.elements?).mapM text?

/-- The fields of a record. A table names them and a list gives them in the order of `names`; a
date or time counts as a table without any. -/
def record? (names : List String) : Value → Option Table
  | table _ entries => some entries
  | moment _ => some []
  | value => value.elements?.map names.zip

end Toml.Value

def Toml.Table.field? {α : Type} (table : Toml.Table) (name : String)
    (decode : Toml.Value → Option α) (default : α) : Option α :=
  match table.lookup name with
  | none => some default
  | some value => decode value

namespace CatalogConfig

def ofValue? (value : Toml.Value) : Option CatalogConfig := do
  let table ← value.record? ["url", "package_repository", "languages"]
  let given : CatalogConfig := {}
  some
    { url := ← table.field? "url" Toml.Value.text? given.url
      packageRepository :=
        ← table.field? "package_repository" Toml.Value.text? given.packageRepository
      languages := ← table.field? "languages" Toml.Value.texts? given.languages }

end CatalogConfig

namespace BehaviorConfig

def ofValue? (value : Toml.Value) : Option BehaviorConfig := do
  let table ← value.record? ["fetch_tags", "show_commit"]
  let given : BehaviorConfig := {}
  some
    { fetchTags := ← table.field? "fetch_tags" Toml.Value.boolean? given.fetchTags
      showCommit := ← table.field? "show_commit" Toml.Value.boolean? given.showCommit }

end BehaviorConfig

namespace Config

/-- The configuration that a table describes, if its fields have the right types. -/
def ofTable? (table : Toml.Table) : Option Config := do
  let given : Config := {}
  some
    { remote := ← table.field? "remote" Toml.Value.text? given.remote
      catalog := ← table.field? "catalog" CatalogConfig.ofValue? given.catalog
      behavior := ← table.field? "behavior" BehaviorConfig.ofValue? given.behavior }

def ofText (text : String) : Except ConfigFault Config :=
  match Toml.Table.ofText? text with
  | none => .error (.malformed "not a TOML document")
  | some table =>
      match ofTable? table with
      | none => .error (.malformed "a field has the wrong type")
      | some config =>
          match config.fault? with
          | some fault => .error fault
          | none => .ok config

/-- Reads the configuration in a file; what is wrong with it is reported with the path. -/
def ofFile (tree : FileTree) (path : Path) : Except DocsError Config :=
  match tree.readText path with
  | .error fault => .error (.file path fault)
  | .ok text => (ofText text).mapError fun fault => .config (.inFile path fault)

end Config

end ReleaseDocs
