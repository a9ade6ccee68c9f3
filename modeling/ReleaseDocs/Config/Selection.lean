import ReleaseDocs.Config.Reading

namespace ReleaseDocs

/-- Where an operator may keep a configuration file. -/
structure ConfigPlaces where
  /-- The path in the variable `UPDATE_FUNCTION_DOCS_CONFIG`, if it is set. -/
  named : Option Path := none
  /-- The path in the variable `XDG_CONFIG_HOME`, if it is set. -/
  userDirectory : Option Path := none
  /-- The operator's home directory; empty if there is none. -/
  home : Path
deriving DecidableEq, Repr

namespace ConfigPlaces

def fileName : String :=
  "update-function-docs.toml"

/-- The operator's configuration directory, if there is one; a relative path does not name one. -/
def configDirectory? (places : ConfigPlaces) : Option Path :=
  match places.userDirectory.filter Path.isAbsolute with
  | some directory => some directory
  | none => if places.home.text.isEmpty then none else some (places.home.join ".config")

/-- The paths of a configuration file that the operator does not name, the first one first. -/
def defaultPaths (places : ConfigPlaces) : List Path :=
  Path.join ⟨"."⟩ fileName :: places.configDirectory?.toList.map (·.join fileName)

/-- The path of the configuration file that applies. A path that the operator names applies even if
nothing is there. -/
def select? (places : ConfigPlaces) (tree : FileTree) : Option Path :=
  match places.named with
  | some path => some path
  | none => places.defaultPaths.find? tree.exists?

end ConfigPlaces

/-- The configuration that applies: that of the selected file, or the defaults if there is none. -/
def Config.load (places : ConfigPlaces) (tree : FileTree) : Except DocsError Config :=
  match places.select? tree with
  | some path => Config.ofFile tree path
  | none => .ok {}

end ReleaseDocs
