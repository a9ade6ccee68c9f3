import ReleaseDocs.Catalog.Discovery
import ReleaseDocs.LatestPatch
import ReleaseDocs.Repository

namespace ReleaseDocs

/-- A release, and what the operator should know about the tags it was selected from. -/
structure Resolution where
  release : Release
  warnings : List Warning
deriving DecidableEq, Repr

namespace Resolution

/-- Resolves a branch with the tags of a repository whose working tree is at `root`. Language and
version come from the same tag. -/
def ofTags (tree : FileTree) (root : Path) (languages : List String) (branch : ReleaseBranch)
    (tags : List String) : Except DocsError Resolution := do
  let latest ← LatestPatch.select languages branch tags
  let location ← FunctionLocation.discover tree root latest.tag.language branch.function
  .ok
    { release :=
        { function := branch.function
          minor := branch.minor
          language := latest.tag.language
          patch := latest.version
          functionPath := location.functionPath
          isContrib := location.area.isContrib
          examples := location.examples }
      warnings := latest.warnings }

def ofBranch (tree : FileTree) (languages : List String) (branch : ReleaseBranch) :
    Repository.Action Resolution := fun r =>
  let (tags, after) := r.listTags
  (tags.bind fun tags => ofTags tree r.root languages branch tags, after)

def ofName (tree : FileTree) (languages : List String) (name : String) :
    Repository.Action Resolution := fun r =>
  match ReleaseBranch.parse name with
  | .error e => (.error e, r)
  | .ok branch => ofBranch tree languages branch r

end Resolution

end ReleaseDocs
