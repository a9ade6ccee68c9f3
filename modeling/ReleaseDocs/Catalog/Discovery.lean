import ReleaseDocs.Catalog.Metadata
import ReleaseDocs.Release

namespace ReleaseDocs

structure FunctionLocation where
  area : Area
  functionPath : Path
  examples : List Example
deriving DecidableEq, Repr

namespace FunctionLocation

/-- The first area that holds a directory of the function. -/
def locate (tree : FileTree) (root : Path) (language function : String) :
    Except DocsError (Area × Path) :=
  let candidates := Area.all.map fun area => (area, area.functionPath root language function)
  match candidates.find? fun (_, path) => tree.isDirectory path with
  | some found => .ok found
  | none => .error (.functionPathNotFound (candidates.map Prod.snd))

/-- The examples of the given names, each of which must be a directory; the first that is none
counts as missing. -/
def findExamples (tree : FileTree) (examplesRoot : Path) :
    List String → Except DocsError (List Example)
  | [] => .ok []
  | name :: names =>
      let path := examplesRoot.join name
      if tree.isDirectory path then
        (findExamples tree examplesRoot names).map (⟨name, path⟩ :: ·)
      else .error (.exampleDirectoryMissing path)

/-- Finds a function in the catalog at `root`. The area that has its directory is kept to: its
metadata and its examples must be there. -/
def discover (tree : FileTree) (root : Path) (language function : String) :
    Except DocsError FunctionLocation := do
  let (area, functionPath) ← locate tree root language function
  let metadata ← Metadata.load tree functionPath
  let examples ← findExamples tree (area.examplesRoot root) metadata.exampleNames
  .ok ⟨area, functionPath, examples⟩

end FunctionLocation

end ReleaseDocs
