import ReleaseDocs.Workflow

namespace ReleaseDocs

/-- The errors that tell of a release that cannot be resolved or a document that cannot be
rewritten. The others tell of the name, of the repository or of documents that are up to date. -/
def DocsError.IsFault : DocsError → Prop
  | invalidBranchFormat _ | dirtyWorkingTree | docsUpToDate _ | versionControl .. => False
  | _ => True

/-- A result whose error, if it has one, is a fault. -/
def OnlyFaults {α : Type} (result : Except DocsError α) : Prop :=
  ∀ e, result = .error e → e.IsFault

namespace OnlyFaults

variable {α β : Type}

theorem ok (a : α) : OnlyFaults (.ok a) :=
  nofun

theorem error {e : DocsError} (h : e.IsFault) : OnlyFaults (.error e : Except DocsError α) := by
  rintro _ ⟨⟩
  exact h

theorem bind {x : Except DocsError α} {f : α → Except DocsError β} (hx : OnlyFaults x)
    (hf : ∀ a, OnlyFaults (f a)) : OnlyFaults (x >>= f) := by
  cases x with
  | error e => exact error (hx e rfl)
  | ok a => exact hf a

theorem map {x : Except DocsError α} (f : α → β) (hx : OnlyFaults x) : OnlyFaults (x.map f) := by
  cases x with
  | error e => exact error (hx e rfl)
  | ok a => exact ok (f a)

end OnlyFaults

theorem LatestPatch.onlyFaults_select (languages : List String) (branch : ReleaseBranch)
    (tags : List String) : OnlyFaults (select languages branch tags) := by
  unfold select
  split
  · exact OnlyFaults.error trivial
  · simp only
    split
    · exact OnlyFaults.error trivial
    · exact OnlyFaults.ok _

theorem Metadata.onlyFaults_load (tree : FileTree) (functionPath : Path) :
    OnlyFaults (load tree functionPath) := by
  unfold load
  simp only
  split
  · exact OnlyFaults.error trivial
  · unfold parse
    split
    · exact OnlyFaults.ok _
    · split
      · exact OnlyFaults.ok _
      · exact OnlyFaults.error trivial

namespace FunctionLocation

variable (tree : FileTree) (root : Path)

theorem onlyFaults_locate (language function : String) :
    OnlyFaults (locate tree root language function) := by
  unfold locate
  simp only
  split
  · exact OnlyFaults.ok _
  · exact OnlyFaults.error trivial

theorem onlyFaults_findExamples (names : List String) :
    OnlyFaults (findExamples tree root names) := by
  induction names with
  | nil => exact OnlyFaults.ok _
  | cons name names ih =>
      unfold findExamples
      simp only
      split
      · exact ih.map _
      · exact OnlyFaults.error trivial

theorem onlyFaults_discover (language function : String) :
    OnlyFaults (discover tree root language function) := by
  refine (onlyFaults_locate tree root language function).bind ?_
  rintro ⟨area, functionPath⟩
  refine (Metadata.onlyFaults_load tree functionPath).bind fun metadata => ?_
  exact (onlyFaults_findExamples tree _ _).bind fun examples => OnlyFaults.ok _

end FunctionLocation

theorem Resolution.onlyFaults_ofTags (tree : FileTree) (root : Path) (languages : List String)
    (branch : ReleaseBranch) (tags : List String) :
    OnlyFaults (ofTags tree root languages branch tags) := by
  refine (LatestPatch.onlyFaults_select languages branch tags).bind fun latest => ?_
  exact (FunctionLocation.onlyFaults_discover tree root _ _).bind fun location => OnlyFaults.ok _

namespace RefreshRules

theorem onlyFaults_updateDoc (rules : RefreshRules) (tree : FileTree) (path : Path) :
    OnlyFaults (rules.updateDoc tree path) := by
  unfold updateDoc
  split
  · exact OnlyFaults.error trivial
  · simp only
    split
    · exact OnlyFaults.ok _
    · split
      · exact OnlyFaults.error trivial
      · exact OnlyFaults.ok _

theorem onlyFaults_updateDocs (rules : RefreshRules) (tree : FileTree) (paths : List Path) :
    OnlyFaults (rules.updateDocs tree paths).1 := by
  induction paths generalizing tree with
  | nil => exact OnlyFaults.ok _
  | cons path paths ih =>
      have hdoc := rules.onlyFaults_updateDoc tree path
      unfold updateDocs
      cases h : rules.updateDoc tree path with
      | error e => exact OnlyFaults.error (hdoc e h)
      | ok result => exact (ih result.2).map _

end RefreshRules

theorem Release.onlyFaults_updateDocs (release : Release) (catalog : CatalogConfig)
    (tree : FileTree) : OnlyFaults (release.updateDocs catalog tree).1 :=
  (RefreshRules.onlyFaults_updateDocs _ tree release.docFiles).map _

end ReleaseDocs
