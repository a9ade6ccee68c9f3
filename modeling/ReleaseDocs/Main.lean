import ReleaseDocs.Config.Selection
import ReleaseDocs.Workflow

namespace ReleaseDocs.CommandLine

def root : Path := ⟨"."⟩

/-- The tree with what is at the path: a file, a directory, or nothing. -/
def load (tree : FileTree) (path : Path) : IO FileTree := do
  match ← (IO.FS.readBinFile path.text).toBaseIO with
  | .ok content => return tree.createFile path content.toList
  | .error (.inappropriateType ..) => return tree.createDirectory path
  | .error _ => return tree

def loadFunction (tree : FileTree) (functionPath : Path) : IO FileTree :=
  [functionPath, functionPath.join "README.md", functionPath.join Metadata.fileName].foldlM
    load tree

def loadExamples (area : Area) (tree : FileTree) (functionPath : Path) : IO FileTree :=
  match Metadata.load tree functionPath with
  | .error _ => return tree
  | .ok metadata =>
      (metadata.exampleNames.map (area.examplesRoot root).join).foldlM
        (fun tree path => do load (← load tree path) (path.join "README.md")) tree

/-- The tree with all that the release of a branch may consist of. -/
def loadCatalog (config : Config) (branch : ReleaseBranch) (tree : FileTree) : IO FileTree :=
  config.catalog.languages.foldlM
    (fun tree language =>
      Area.all.foldlM
        (fun tree area => do
          let functionPath := area.functionPath root language branch.function
          loadExamples area (← loadFunction tree functionPath) functionPath)
        tree)
    tree

/-- Writes the files of the first tree whose bytes are others in the second. -/
def store (before after : FileTree) : IO Unit :=
  for (location, _) in before.entries do
    match before.lookup? location, after.lookup? location with
    | some (.file old), some (.file new) =>
        if old ≠ new then
          let path := "/".intercalate (location.drop before.working.length)
          IO.FS.writeBinFile path ⟨new.toArray⟩
    | _, _ => pure ()

partial def readLines (input : IO.FS.Stream) : IO (List String) := do
  let line ← input.getLine
  if line.isEmpty then
    return []
  else
    return line :: (← readLines input)

def configPlaces : IO ConfigPlaces := do
  return {
    named := (← IO.getEnv "UPDATE_FUNCTION_DOCS_CONFIG").map Path.mk
    userDirectory := (← IO.getEnv "XDG_CONFIG_HOME").map Path.mk
    home := ⟨(← IO.getEnv "HOME").getD ""⟩ }

def update (name : String) (tags : List String) : ExceptT DocsError IO WorkflowResult := do
  let places ← configPlaces
  let start := FileTree.empty ["working directory"]
  let configTree ← ((places.named.toList ++ places.defaultPaths).foldlM load start : IO FileTree)
  let config ← ofExcept (Config.load places configTree)
  let branch ← ofExcept (ReleaseBranch.parse name)
  let tree ← (loadCatalog config branch start : IO FileTree)
  let session : Session :=
    { tree := tree, repository := { root := root, tags := tags, cleanStates := [true, false] } }
  let config := { config with behavior.showCommit := false }
  let (outcome, session) := (Workflow.runBranch config branch).run.run session
  (← IO.getStdout).putStr (session.printed .output)
  (← IO.getStderr).putStr (session.printed .error)
  store tree session.tree
  ofExcept outcome

end ReleaseDocs.CommandLine

open ReleaseDocs in
def main (arguments : List String) : IO UInt32 := do
  match arguments with
  | [name] =>
      let tags ← CommandLine.readLines (← IO.getStdin)
      match ← (CommandLine.update name tags).run with
      | .ok result =>
          (← IO.getStdout).putStr
            (Notice.success (toString result.changedFiles ++ " file(s) updated")).text
          return 0
      | .error e =>
          (← IO.getStderr).putStr (Notice.error e.message).text
          return 1
  | _ =>
      IO.eprintln "usage: release-docs RELEASE_BRANCH"
      return 2
