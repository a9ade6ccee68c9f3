namespace ReleaseDocs

/-- A path as an operator reads it; an empty path names nothing. -/
structure Path where
  text : String
deriving DecidableEq, Repr, Inhabited

namespace Path

def isAbsolute (path : Path) : Bool :=
  path.text.toList.head? == some '/'

/-- The path of `child` seen from `base`. An absolute child replaces the base, and an empty base
gives the child; otherwise the base gets a slash unless it ends with one, also before an empty
child. -/
def join (base : Path) (child : String) : Path :=
  if isAbsolute ⟨child⟩ then ⟨child⟩
  else if base.text.isEmpty || base.text.toList.getLast? == some '/' then ⟨base.text ++ child⟩
  else ⟨base.text ++ "/" ++ child⟩

end Path

inductive FileFault where
  | missing
  | isDirectory
  | notDirectory
  | notUnicode
  | other (detail : String)
deriving DecidableEq, Repr

def FileFault.message : FileFault → String
  | missing => "No such file or directory (os error 2)"
  | isDirectory => "Is a directory (os error 21)"
  | notDirectory => "Not a directory (os error 20)"
  | notUnicode => "stream did not contain valid UTF-8"
  | other detail => detail

inductive ConfigFault where
  /-- The text is no document of the expected shape. -/
  | malformed (detail : String)
  | noLanguages
  | nestedLanguage
  /-- The fault was found in the file at `path`. -/
  | inFile (path : Path) (fault : ConfigFault)
deriving DecidableEq, Repr

def ConfigFault.message : ConfigFault → String
  | malformed detail => "Configuration error: " ++ detail
  | noLanguages => "Configuration error: catalog.languages must not be empty"
  | nestedLanguage =>
      "Configuration error: catalog.languages entries must be single path segments"
  | inFile path fault => "Configuration error: " ++ path.text ++ ": " ++ fault.message

theorem ConfigFault.message_inFile (path : Path) (fault : ConfigFault) :
    (inFile path fault).message =
      "Configuration error: " ++ path.text ++ ": " ++ fault.message :=
  rfl

inductive DocsError where
  | invalidBranchFormat (name : String)
  | missingIdentifier
  | noMatchingRelease (function minor : String)
  | functionPathNotFound (tried : List Path)
  | exampleDirectoryMissing (path : Path)
  | dirtyWorkingTree
  | docsUpToDate (release : String)
  | versionControl (operation detail : String)
  | metadata (path : Path) (detail : String)
  | config (fault : ConfigFault)
  | file (path : Path) (fault : FileFault)
deriving DecidableEq, Repr

def DocsError.message : DocsError → String
  | invalidBranchFormat name =>
      "Invalid branch format: '" ++ name ++
        "' - expected <prefix>/<function>/v<major>.<minor>"
  | missingIdentifier => "Missing function name and/or minor version"
  | noMatchingRelease function minor =>
      "Could not find matching tag for release " ++ function ++ "/" ++ minor
  | functionPathNotFound tried =>
      "Function doc paths not found, tried: " ++ ", ".intercalate (tried.map Path.text)
  | exampleDirectoryMissing path => "Example dir does not exist: " ++ path.text
  | dirtyWorkingTree => "Dirty repo: commit or stash local changes before updating docs"
  | docsUpToDate release => "Docs up to date for " ++ release
  | versionControl operation detail => "Git " ++ operation ++ " failed: " ++ detail
  | metadata path detail => "Invalid metadata in " ++ path.text ++ ": " ++ detail
  | config fault => fault.message
  | file path fault => "I/O error on " ++ path.text ++ ": " ++ fault.message

inductive Warning where
  /-- The tag mentions the release but does not have the shape of a release tag. -/
  | tagMismatch (tag : String) (languages : List String)
  /-- The tag has the shape of a release tag, but its version is not a semantic version. -/
  | unparsableTag (tag reason : String)
  | docUnchanged (path : Path)
deriving DecidableEq, Repr

def Warning.message : Warning → String
  | tagMismatch tag languages =>
      "Tag '" ++ tag ++ "' does not match <prefix>/<" ++ "|".intercalate languages ++
        ">/<function>/vX.Y.Z, skipped"
  | unparsableTag tag reason => "Cannot parse tag '" ++ tag ++ "': " ++ reason
  | docUnchanged path => path.text ++ " already up to date"

end ReleaseDocs
