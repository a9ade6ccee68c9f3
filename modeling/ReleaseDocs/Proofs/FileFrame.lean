import ReleaseDocs.Proofs.CallOrder
import ReleaseDocs.Proofs.DocFrame

namespace ReleaseDocs

namespace Workflow

open Run

/-- A run ends before it looks at a document: the name does not resolve, the working tree is not
clean, or one of the calls up to the list of tags fails. -/
def StopsBeforeDocs (config : Config) (name : String) (s : Session) : Prop :=
  (∃ e, resolutionOf config name s = .error e) ∨ s.repository.nextClean = false ∨
    ∃ call ∈ preparation config name, s.repository.Fails call

/-- What a successful run has done to the documents of a release. -/
structure Publishes (config : Config) (release : Release) (tree after : FileTree)
    (changedFiles : Nat) : Prop where
  rewritten : ∀ path ∈ release.docFiles, ∃ location before, tree.locate path = .ok location ∧
    tree.lookup? location = some (.file before) ∧
    after.lookup? location =
      some (.file ((RefreshRules.ofRelease release config.catalog).apply before))
  differs : ∃ path ∈ release.docFiles, ∃ location ∈ tree.changes after,
    tree.locate path = .ok location
  count : (tree.changes after).encard = changedFiles

/-- What a run from a session that ends with an answer and leaves a session has done to the
files. -/
structure FileFrame (config : Config) (name : String) (s : Session)
    (answer : Except DocsError WorkflowResult) (after : Session) : Prop where
  shape : s.tree.SameShape after.tree
  documents : ∀ location ∈ s.tree.changes after.tree,
    ∃ found, resolutionOf config name s = .ok found ∧
      ∃ path ∈ found.release.docFiles, s.tree.locate path = .ok location
  rewritten : ∀ found, resolutionOf config name s = .ok found →
    s.tree.Apart found.release.docFiles → ∀ path ∈ found.release.docFiles, ∀ location before,
      s.tree.locate path = .ok location → s.tree.lookup? location = some (.file before) →
        after.tree.lookup? location = some (.file before) ∨
          after.tree.lookup? location = some
            (.file ((RefreshRules.ofRelease found.release config.catalog).apply before))
  untouched : StopsBeforeDocs config name s → after.tree = s.tree
  succeeds : ∀ result, answer = .ok result →
    ∃ found, resolutionOf config name s = .ok found ∧ result.release = found.release ∧
      (s.tree.Apart found.release.docFiles →
        Publishes config found.release s.tree after.tree result.changedFiles)

variable {config : Config} {name : String} {branch : ReleaseBranch} {s after : Session}
  {answer : Except DocsError WorkflowResult} {found : Resolution} {report : UpdateReport}
  {tree last : FileTree}

theorem not_stopsBeforeDocs (hresolves : resolutionOf config name s = .ok found)
    (hclean : s.repository.nextClean = true)
    (hcalls : ∀ call ∈ preparation config name, ¬ s.repository.Fails call) :
    ¬ StopsBeforeDocs config name s := by
  rintro (⟨e, he⟩ | hdirty | ⟨call, hcall, hfails⟩)
  · simp [hresolves] at he
  · simp [hclean] at hdirty
  · exact hcalls call hcall hfails

theorem publishes_of_updateDocs (hapart : tree.Apart found.release.docFiles)
    (h : found.release.updateDocs config.catalog tree = (.ok report, last))
    (hchanges : report.hasChanges = true) :
    Publishes config found.release tree last report.changedFiles.length := by
  obtain ⟨hpaths, hrewritten, hcount⟩ :=
    RefreshRules.rewrites_updateDocs hapart (Release.updateDocs_eq_ok h)
  refine ⟨?_, ?_, ?_⟩
  · intro path hpath
    rw [← hpaths] at hpath
    obtain ⟨update, hupdate, rfl⟩ := List.mem_map.mp hpath
    obtain ⟨location, before, hlocate, hbefore, hafter, -⟩ := hrewritten update hupdate
    exact ⟨location, before, hlocate, hbefore, hafter⟩
  · obtain ⟨update, hupdate, hchanged⟩ := List.any_eq_true.mp hchanges
    obtain ⟨location, before, hlocate, hbefore, hafter, hiff⟩ := hrewritten update hupdate
    refine ⟨update.path, hpaths ▸ List.mem_map_of_mem hupdate, location, ?_, hlocate⟩
    simpa [FileTree.changes, hafter, hbefore] using hiff.mp hchanged
  · simpa [UpdateReport.changedFiles] using hcount

theorem tree_of_ending (h : Ending config branch s answer after) :
    (∀ result, answer ≠ .ok result) ∧ after.tree = s.tree ∨
      ∃ found, resolution config branch s = .ok found ∧ s.repository.nextClean = true ∧
        (∀ call ∈ preparation config branch.name, ¬ s.repository.Fails call) ∧
        after.tree = (found.release.updateDocs config.catalog s.tree).2 := by
  cases h with
  | unprepared interrupts clean => exact Or.inl ⟨nofun, s.tree_performAll _⟩
  | dirty status dirty => exact Or.inl ⟨nofun, rfl⟩
  | unresolved calls clean fault => exact Or.inl ⟨nofun, s.tree_performAll _⟩
  | unreadable calls clean resolves fault =>
    exact Or.inr ⟨_, resolves, clean, calls, by rw [fault]; rfl⟩
  | unchanged refreshes same =>
    exact Or.inr ⟨_, refreshes.resolves, refreshes.clean, refreshes.calls,
      by rw [refreshes.updates]; rfl⟩
  | stillClean refreshes changes clean =>
    exact Or.inr ⟨_, refreshes.resolves, refreshes.clean, refreshes.calls,
      by rw [refreshes.updates]; rfl⟩
  | unpublished refreshes changes dirty interrupts =>
    refine Or.inr ⟨_, refreshes.resolves, refreshes.clean, refreshes.calls, ?_⟩
    rw [refreshes.updates, Session.tree_attempt, Session.tree_performAll]
    rfl
  | published refreshes changes dirty calls =>
    refine Or.inr ⟨_, refreshes.resolves, refreshes.clean, refreshes.calls, ?_⟩
    rw [refreshes.updates, Session.tree_saying, Session.tree_performAll]
    rfl

theorem refreshes_of_ending {result : WorkflowResult}
    (h : Ending config branch s (.ok result) after) :
    ∃ found report, Refreshes config branch s found report after.tree ∧
      report.hasChanges = true ∧ result.release = found.release ∧
      result.changedFiles = report.changedFiles.length := by
  cases h with
  | published refreshes changes dirty calls =>
    rw [Session.tree_saying, Session.tree_performAll]
    exact ⟨_, _, refreshes, changes, rfl, rfl⟩

theorem fileFrame_of_tree_eq (hanswer : ∀ result, answer ≠ .ok result)
    (htree : after.tree = s.tree) : FileFrame config name s answer after := by
  refine ⟨?_, ?_, ?_, fun _ => htree, ?_⟩
  · rw [htree]
    exact FileTree.SameShape.refl s.tree
  · intro location hlocation
    exact absurd (by rw [htree]) hlocation
  · intro found _ _ path _ location before _ hlookup
    exact Or.inl (htree ▸ hlookup)
  · intro result hresult
    exact absurd hresult (hanswer result)

theorem fileFrame_of_ending (hparse : ReleaseBranch.parse name = .ok branch)
    (h : Ending config branch s answer after) : FileFrame config name s answer after := by
  have hresolution := resolutionOf_of_parse config s hparse
  obtain rfl := ReleaseBranch.name_of_parse hparse
  rcases tree_of_ending h with ⟨hanswer, htree⟩ | ⟨found, hfound, hclean, hcalls, htree⟩
  · exact fileFrame_of_tree_eq hanswer htree
  have hresolves := hresolution.trans hfound
  have htree' : after.tree =
      ((RefreshRules.ofRelease found.release config.catalog).updateDocs s.tree
        found.release.docFiles).2 := htree
  refine ⟨?_, ?_, ?_, ?_, ?_⟩
  · rw [htree']
    exact RefreshRules.sameShape_updateDocs _ _ _
  · intro location hlocation
    refine ⟨found, hresolves, ?_⟩
    by_contra hnone
    push Not at hnone
    refine hlocation ?_
    rw [htree', RefreshRules.lookup?_updateDocs_of_ne _ hnone]
  · intro other hother hapart path hpath location before hlocate hlookup
    obtain rfl : found = other := by simpa [hresolves] using hother
    rw [htree']
    exact RefreshRules.lookup?_updateDocs_of_apart hapart hpath hlocate hlookup
  · exact fun hstops => absurd hstops (not_stopsBeforeDocs hresolves hclean hcalls)
  · rintro result rfl
    obtain ⟨found', report, hrefreshes, hchanges, hrelease, hcount⟩ := refreshes_of_ending h
    refine ⟨found', hresolution.trans hrefreshes.resolves, hrelease, fun hapart => ?_⟩
    rw [hcount]
    exact publishes_of_updateDocs hapart hrefreshes.updates hchanges

theorem fileFrame_run (config : Config) (name : String) (s : Session) :
    FileFrame config name s ((run config name).run.run s).1 ((run config name).run.run s).2 := by
  unfold run
  cases hparse : ReleaseBranch.parse name with
  | error e =>
    rw [run_bind_of_error (run_ofExcept (.error e) s)]
    exact fileFrame_of_tree_eq nofun rfl
  | ok branch =>
    rw [run_bind_of_ok (run_ofExcept (.ok branch) s)]
    exact fileFrame_of_ending hparse (ending_runBranch config branch s)

end Workflow

end ReleaseDocs
