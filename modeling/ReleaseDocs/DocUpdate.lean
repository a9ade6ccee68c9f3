import ReleaseDocs.Error
import ReleaseDocs.FileTree
import ReleaseDocs.Reference.Rules

/-!
The update of a release's documents in a file tree. The document of the function comes first, then
those of its examples; the first one that cannot be brought up to date ends the pass, and what was
written before it stays.
-/

namespace ReleaseDocs

structure DocUpdate where
  path : Path
  changed : Bool
deriving DecidableEq, Repr

structure UpdateReport where
  updates : List DocUpdate
deriving DecidableEq, Repr

namespace UpdateReport

def changedFiles (report : UpdateReport) : List Path :=
  (report.updates.filter DocUpdate.changed).map DocUpdate.path

def hasChanges (report : UpdateReport) : Bool :=
  report.updates.any DocUpdate.changed

def warnings (report : UpdateReport) : List Warning :=
  (report.updates.filter fun update => !update.changed).map fun update =>
    .docUnchanged update.path

end UpdateReport

namespace RefreshRules

/-- Brings one document up to date; it is written only if its bytes change. -/
def updateDoc (rules : RefreshRules) (tree : FileTree) (path : Path) :
    Except DocsError (DocUpdate × FileTree) :=
  match tree.readBytes path with
  | .error fault => .error (.file path fault)
  | .ok before =>
      let after := rules.apply before
      if after = before then .ok (⟨path, false⟩, tree)
      else
        match tree.writeBytes path after with
        | .error fault => .error (.file path fault)
        | .ok tree => .ok (⟨path, true⟩, tree)

/-- Brings the documents up to date one after the other, up to the first that fails. The tree is
the one that the pass leaves behind, also when it fails. -/
def updateDocs (rules : RefreshRules) (tree : FileTree) :
    List Path → Except DocsError (List DocUpdate) × FileTree
  | [] => (.ok [], tree)
  | path :: paths =>
      match rules.updateDoc tree path with
      | .error e => (.error e, tree)
      | .ok (update, tree) =>
          let (updates, tree) := rules.updateDocs tree paths
          (updates.map (update :: ·), tree)

end RefreshRules

def Release.updateDocs (release : Release) (catalog : CatalogConfig) (tree : FileTree) :
    Except DocsError UpdateReport × FileTree :=
  let (updates, tree) :=
    (RefreshRules.ofRelease release catalog).updateDocs tree release.docFiles
  (updates.map UpdateReport.mk, tree)

end ReleaseDocs
