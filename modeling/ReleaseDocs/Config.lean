import ReleaseDocs.Error

namespace ReleaseDocs

/-- Where the catalog publishes functions and their example packages. -/
structure CatalogConfig where
  /-- The site whose links name the minor version. -/
  url : String := "https://catalog.kpt.dev"
  /-- The repository that references to example packages start with. -/
  packageRepository : String :=
    "https://github.com/GoogleContainerTools/kpt-functions-catalog.git"
  /-- The languages that release tags are published under. -/
  languages : List String := ["go", "ts"]
deriving DecidableEq, Repr, Inhabited

structure BehaviorConfig where
  fetchTags : Bool := true
  showCommit : Bool := true
deriving DecidableEq, Repr, Inhabited

structure Config where
  remote : String := "origin"
  catalog : CatalogConfig := {}
  behavior : BehaviorConfig := {}
deriving DecidableEq, Repr, Inhabited

/-- The fault of a configuration without languages, or with one that is no single path segment. -/
def Config.fault? (config : Config) : Option ConfigFault :=
  if config.catalog.languages.isEmpty then some .noLanguages
  else if config.catalog.languages.any fun language => language.toList.contains '/' then
    some .nestedLanguage
  else none

end ReleaseDocs
