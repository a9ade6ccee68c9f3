import ReleaseDocs.Proofs.FileFrame
import ReleaseDocs.Proofs.Paths

namespace ReleaseDocs

namespace FileTree

theorem locate_join_ne {tree : FileTree} {base other : Path} {name name' : String}
    (hname : IsPlainName name) (hname' : IsPlainName name') (hne : name ≠ name')
    {location : Location} (h : tree.locate (base.join name) = .ok location) :
    tree.locate (other.join name') ≠ .ok location := by
  intro h'
  obtain ⟨above, rfl⟩ := exists_locate_join hname h
  obtain ⟨above', heq⟩ := exists_locate_join hname' h'
  exact hne (by simpa using (List.append_inj' heq rfl).2)

end FileTree

namespace Release

open FileTree

variable (release : Release) (catalog : CatalogConfig) (tree : FileTree)

theorem exists_join_of_mem_docFiles {path : Path} (h : path ∈ release.docFiles) :
    ∃ base : Path, path = base.join "README.md" := by
  rcases List.mem_cons.mp h with rfl | h
  · exact ⟨_, rfl⟩
  · obtain ⟨e, -, rfl⟩ := List.mem_map.mp h
    exact ⟨e.path, rfl⟩

theorem tree_updateDocs : (release.updateDocs catalog tree).2 =
    ((RefreshRules.ofRelease release catalog).updateDocs tree release.docFiles).2 := by
  rw [updateDocs]

theorem sameShape_updateDocs : SameShape tree (release.updateDocs catalog tree).2 := by
  rw [tree_updateDocs]
  exact RefreshRules.sameShape_updateDocs _ _ _

theorem load_updateDocs (functionPath : Path) :
    Metadata.load (release.updateDocs catalog tree).2 functionPath =
      Metadata.load tree functionPath := by
  have hmetadata : IsPlainName Metadata.fileName := ⟨by decide, by decide, by decide, by decide⟩
  have hreadme : IsPlainName "README.md" := ⟨by decide, by decide, by decide, by decide⟩
  have hfind : (release.updateDocs catalog tree).2.find (functionPath.join Metadata.fileName) =
      tree.find (functionPath.join Metadata.fileName) := by
    unfold find
    rw [(release.sameShape_updateDocs catalog tree).locate_eq]
    cases hlocate : tree.locate (functionPath.join Metadata.fileName) with
    | error fault => rfl
    | ok location =>
      have hne : ∀ path ∈ release.docFiles, tree.locate path ≠ .ok location := by
        intro path hpath
        obtain ⟨base, rfl⟩ := release.exists_join_of_mem_docFiles hpath
        exact locate_join_ne hmetadata hreadme (by decide) hlocate
      have hlookup := RefreshRules.lookup?_updateDocs_of_ne
        (RefreshRules.ofRelease release catalog) hne
      simp only [bind, Except.bind, tree_updateDocs, hlookup]
  simp only [Metadata.load, readText, readBytes, hfind]

/-- An update of documents changes nothing that a function is found by. -/
theorem discover_updateDocs (root : Path) (language function : String) :
    FunctionLocation.discover (release.updateDocs catalog tree).2 root language function =
      FunctionLocation.discover tree root language function := by
  have hdirectory := (release.sameShape_updateDocs catalog tree).isDirectory_eq
  have hexamples (examplesRoot : Path) (names : List String) :
      FunctionLocation.findExamples (release.updateDocs catalog tree).2 examplesRoot names =
        FunctionLocation.findExamples tree examplesRoot names := by
    induction names with
    | nil => rfl
    | cons name names ih => simp only [FunctionLocation.findExamples, hdirectory, ih]
  have hlocate : FunctionLocation.locate (release.updateDocs catalog tree).2 root language
      function = FunctionLocation.locate tree root language function := by
    unfold FunctionLocation.locate
    simp only [hdirectory]
  simp only [FunctionLocation.discover, hlocate, load_updateDocs, hexamples]

theorem ofTags_updateDocs (root : Path) (languages : List String) (branch : ReleaseBranch)
    (tags : List String) :
    Resolution.ofTags (release.updateDocs catalog tree).2 root languages branch tags =
      Resolution.ofTags tree root languages branch tags := by
  simp only [Resolution.ofTags, discover_updateDocs]

end Release

/-- The documents can be read and the rules of the release leave them as they are. -/
def Release.UpToDate (release : Release) (catalog : CatalogConfig) (tree : FileTree) : Prop :=
  ∀ path ∈ release.docFiles, ∃ content, tree.readBytes path = .ok content ∧
    (RefreshRules.ofRelease release catalog).apply content = content

theorem Release.UpToDate.updateDocs {release : Release} {catalog : CatalogConfig} {tree : FileTree}
    (h : release.UpToDate catalog tree) : ∃ report,
      release.updateDocs catalog tree = (.ok report, tree) ∧ report.hasChanges = false := by
  refine ⟨⟨release.docFiles.map fun path => ⟨path, false⟩⟩, ?_, ?_⟩
  · simp only [Release.updateDocs, RefreshRules.updateDocs_of_upToDate h, Except.map]
  · simp [UpdateReport.hasChanges]

namespace Workflow

open Run

/-- A run from a session finds the release, and that its documents are up to date. -/
structure FindsUpToDate (config : Config) (name : String) (release : Release) (s : Session)
    (answer : Except DocsError WorkflowResult) (after : Session) : Prop where
  resolves : ∃ found, resolutionOf config name s = .ok found ∧ found.release = release
  answer : answer = .error (.docsUpToDate release.qualifiedName)
  calls : after.repository.calls = s.repository.calls ++
    ([.status] ++ (if config.behavior.fetchTags then [.fetch config.remote] else []) ++
      [.checkout name, .tag])
  commits : after.repository.commits = s.repository.commits
  tree : after.tree = s.tree

variable {config : Config} {name : String} {branch : ReleaseBranch} {s after : Session}
  {answer : Except DocsError WorkflowResult} {found : Resolution}

theorem preparation_eq (config : Config) (name : String) :
    preparation config name =
      [.status] ++ (if config.behavior.fetchTags then [.fetch config.remote] else []) ++
        [.checkout name, .tag] := by
  simp [preparation, checkOutCalls]

theorem findsUpToDate_of_ending (hparse : ReleaseBranch.parse name = .ok branch)
    (hcalls : ∀ call ∈ preparation config name, ¬ s.repository.Fails call)
    (hclean : s.repository.nextClean = true) (hfound : resolution config branch s = .ok found)
    (hdocs : found.release.UpToDate config.catalog s.tree)
    (h : Ending config branch s answer after) :
    FindsUpToDate config name found.release s answer after := by
  obtain rfl := ReleaseBranch.name_of_parse hparse
  obtain ⟨report, hupdate, hsame⟩ := hdocs.updateDocs
  have hunchanged {found' : Resolution} {report' : UpdateReport} {tree : FileTree}
      (hrefreshes : Refreshes config branch s found' report' tree) :
      found' = found ∧ tree = s.tree ∧ report'.hasChanges = false := by
    obtain rfl : found' = found := Except.ok.inj (hrefreshes.resolves.symm.trans hfound)
    obtain ⟨hreport, rfl⟩ := Prod.mk.inj (hrefreshes.updates.symm.trans hupdate)
    obtain rfl := Except.ok.inj hreport
    exact ⟨rfl, rfl, hsame⟩
  cases h with
  | unprepared interrupts clean =>
    obtain ⟨later, hsplit⟩ := interrupts.split
    exact absurd interrupts.fails (hcalls _ (by simp [hsplit]))
  | dirty status dirty => exact absurd (hclean.symm.trans dirty) nofun
  | unresolved calls clean fault => exact absurd (hfound.symm.trans fault) nofun
  | unreadable calls clean resolves fault =>
    obtain rfl := Except.ok.inj (resolves.symm.trans hfound)
    exact absurd (congrArg Prod.fst (hupdate.symm.trans fault)) nofun
  | unchanged refreshes same =>
    obtain ⟨rfl, rfl, -⟩ := hunchanged refreshes
    refine ⟨⟨_, (resolutionOf_of_parse config s hparse).trans hfound, rfl⟩, rfl, ?_, ?_, rfl⟩
    · rw [← preparation_eq]
      exact s.calls_performAll _
    · exact s.commits_performAll_of_ne_commit fun call => ne_commit_of_mem_preparation
  | stillClean refreshes changes clean =>
    exact absurd ((hunchanged refreshes).2.2.symm.trans changes) nofun
  | unpublished refreshes changes dirty interrupts =>
    exact absurd ((hunchanged refreshes).2.2.symm.trans changes) nofun
  | published refreshes changes dirty calls =>
    exact absurd ((hunchanged refreshes).2.2.symm.trans changes) nofun

theorem run_eq_ok {result : WorkflowResult}
    (h : (run config name).run.run s = (.ok result, after)) :
    ∃ branch found report, ReleaseBranch.parse name = .ok branch ∧
      Refreshes config branch s found report after.tree ∧ result.release = found.release := by
  cases hparse : ReleaseBranch.parse name with
  | error e =>
    rw [run, hparse, run_bind_of_error (run_ofExcept (.error e) s)] at h
    cases h
  | ok branch =>
    rw [run_of_parse config s hparse] at h
    have hending := ending_runBranch config branch s
    rw [h] at hending
    obtain ⟨found, report, hrefreshes, -, hrelease, -⟩ := refreshes_of_ending hending
    exact ⟨branch, found, report, rfl, hrefreshes, hrelease⟩

/-- A second run from what a successful one left, on a clean working tree, finds the release up to
date if the rules leave its documents as they are now. -/
theorem findsUpToDate_run {result : WorkflowResult}
    (hrun : (run config name).run.run s = (.ok result, after))
    (hdocs : ∀ path ∈ result.release.docFiles, ∀ content,
      after.tree.readBytes path = .ok content →
        (RefreshRules.ofRelease result.release config.catalog).apply content = content)
    {t : Session} (htree : t.tree = after.tree) (hroot : t.repository.root = s.repository.root)
    (htags : t.repository.tags = s.repository.tags)
    (hfailing : t.repository.failing = s.repository.failing)
    (hclean : t.repository.nextClean = true) :
    FindsUpToDate config name result.release t ((run config name).run.run t).1
      ((run config name).run.run t).2 := by
  obtain ⟨branch, found, report, hparse, hrefreshes, hrelease⟩ := run_eq_ok hrun
  have hafter : after.tree = (found.release.updateDocs config.catalog s.tree).2 := by
    rw [hrefreshes.updates]
  have hcalls : ∀ call ∈ preparation config name, ¬ t.repository.Fails call := by
    have hfails : t.repository.Fails = s.repository.Fails := by
      funext call
      rw [Repository.Fails, Repository.Fails, hfailing]
    rw [hfails, ← ReleaseBranch.name_of_parse hparse]
    exact hrefreshes.calls
  have hfound : resolution config branch t = .ok found := by
    rw [resolution, htree, hafter, hroot, htags, Release.ofTags_updateDocs]
    exact hrefreshes.resolves
  have hupToDate : found.release.UpToDate config.catalog t.tree := by
    intro path hpath
    rw [htree]
    obtain ⟨content, hread⟩ := RefreshRules.exists_readBytes_of_updateDocs
      (Release.updateDocs_eq_ok hrefreshes.updates) path hpath
    rw [hrelease] at hdocs
    exact ⟨content, hread, hdocs path hpath content hread⟩
  rw [run_of_parse config t hparse, hrelease]
  exact findsUpToDate_of_ending hparse hcalls hclean hfound hupToDate
    (ending_runBranch config branch t)

/-- A catalog with one function, whose document names an older patch. -/
def coreCatalog : FileTree where
  working := []
  entries := [(["functions"], .directory), (["functions", "go"], .directory),
    (["functions", "go", "fn"], .directory),
    (["functions", "go", "fn", "README.md"], .file (utf8Bytes "fn:v1.0.2")),
    (["functions", "go", "fn", "metadata.yaml"], .file [])]

/-- A session in which the working tree is clean at first and is not after an update. -/
def coreSession : Session where
  tree := coreCatalog
  repository := { root := ⟨"/"⟩, tags := ["go/fn/v1.0.3"], cleanStates := [true, false] }

def coreRelease : Release :=
  ⟨"fn", ⟨1, 0⟩, "go", ⟨1, 0, 3⟩, ⟨"/functions/go/fn"⟩, false, []⟩

theorem findsUpToDate_run_again : ∃ result after,
    (run {} "fn/v1.0").run.run coreSession = (.ok result, after) ∧
      FindsUpToDate {} "fn/v1.0" result.release after ((run {} "fn/v1.0").run.run after).1
        ((run {} "fn/v1.0").run.run after).2 := by
  have hfirst : ((run {} "fn/v1.0").run.run coreSession).1.map WorkflowResult.release =
        .ok coreRelease ∧
      ((run {} "fn/v1.0").run.run coreSession).2.tree.readBytes ⟨"/functions/go/fn/README.md"⟩ =
        .ok (utf8Bytes "fn:v1.0.3") ∧
      ((run {} "fn/v1.0").run.run coreSession).2.repository.root = ⟨"/"⟩ ∧
      ((run {} "fn/v1.0").run.run coreSession).2.repository.tags = ["go/fn/v1.0.3"] ∧
      ((run {} "fn/v1.0").run.run coreSession).2.repository.failing = none ∧
      ((run {} "fn/v1.0").run.run coreSession).2.repository.nextClean = true := by
    decide +kernel
  have hpaths : coreRelease.docFiles = [⟨"/functions/go/fn/README.md"⟩] := by decide +kernel
  have happly : (RefreshRules.ofRelease coreRelease {}).apply (utf8Bytes "fn:v1.0.3") =
      utf8Bytes "fn:v1.0.3" := by decide +kernel
  rcases hrun : (run {} "fn/v1.0").run.run coreSession with ⟨e | result, after⟩
  · rw [hrun] at hfirst
    exact absurd hfirst.1 nofun
  rw [hrun] at hfirst
  obtain ⟨hrelease, hread, hroot, htags, hfailing, hclean⟩ := hfirst
  replace hrelease : result.release = coreRelease := Except.ok.inj hrelease
  refine ⟨result, after, rfl, findsUpToDate_run hrun ?_ rfl hroot htags hfailing hclean⟩
  rw [hrelease]
  intro path hpath content hcontent
  rw [hpaths, List.mem_singleton] at hpath
  rw [hpath, hread] at hcontent
  rw [← Except.ok.inj hcontent]
  exact happly

end Workflow

end ReleaseDocs
