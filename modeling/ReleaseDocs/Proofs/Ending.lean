import ReleaseDocs.Proofs.Session

/-!
How a run ends.

`Workflow.Ending` lists every end of a run with its answer and the session it leaves, and
`ending_runBranch` says that there are no others. Laws of whole runs are read off the cases.
-/

namespace ReleaseDocs

/-- A sequence of calls that is cut short at the first one of the failing operation. -/
structure Repository.Interrupts (r : Repository) (calls earlier : List Call) (call : Call) :
    Prop where
  split : ∃ later, calls = earlier ++ call :: later
  fails : r.Fails call
  before : ∀ other ∈ earlier, ¬ r.Fails other

namespace Repository.Interrupts

variable {r : Repository} {calls earlier : List Call} {call : Call}

theorem head (calls : List Call) (h : r.Fails call) : r.Interrupts (call :: calls) [] call :=
  ⟨⟨calls, rfl⟩, h, by simp⟩

theorem cons {first : Call} (hfirst : ¬ r.Fails first) (h : r.Interrupts calls earlier call) :
    r.Interrupts (first :: calls) (first :: earlier) call := by
  obtain ⟨⟨later, rfl⟩, hfails, hbefore⟩ := h
  exact ⟨⟨later, rfl⟩, hfails, by simpa using ⟨hfirst, hbefore⟩⟩

theorem append (h : r.Interrupts calls earlier call) (more : List Call) :
    r.Interrupts (calls ++ more) earlier call := by
  obtain ⟨⟨later, rfl⟩, hfails, hbefore⟩ := h
  exact ⟨⟨later ++ more, by simp⟩, hfails, hbefore⟩

theorem append_left {front : List Call} (hfront : ∀ other ∈ front, ¬ r.Fails other)
    (h : r.Interrupts calls earlier call) :
    r.Interrupts (front ++ calls) (front ++ earlier) call := by
  obtain ⟨⟨later, rfl⟩, hfails, hbefore⟩ := h
  refine ⟨⟨later, by simp⟩, hfails, fun other hother => ?_⟩
  rcases List.mem_append.mp hother with hother | hother
  · exact hfront other hother
  · exact hbefore other hother

theorem congr {q : Repository} (hfails : r.Fails = q.Fails)
    (h : r.Interrupts calls earlier call) : q.Interrupts calls earlier call :=
  ⟨h.split, hfails ▸ h.fails, hfails ▸ h.before⟩

end Repository.Interrupts

namespace Workflow

open Run

def checkOutCalls (config : Config) (name : String) : List Call :=
  .status :: ((if config.behavior.fetchTags then [.fetch config.remote] else []) ++
    [.checkout name])

/-- The calls before the documents are looked at. -/
def preparation (config : Config) (name : String) : List Call :=
  checkOutCalls config name ++ [.tag]

def commitCalls (config : Config) (message : String) : List Call :=
  .add :: .commit message :: if config.behavior.showCommit then [.head] else []

def publication (config : Config) (message : String) : List Call :=
  .status :: commitCalls config message

def resolution (config : Config) (branch : ReleaseBranch) (s : Session) :
    Except DocsError Resolution :=
  Resolution.ofTags s.tree s.repository.root config.catalog.languages branch s.repository.tags

/-- The session when the branch is resolved and nothing is updated yet. -/
def resolved (config : Config) (branch : ReleaseBranch) (s : Session) (found : Resolution) :
    Session :=
  (s.performAll (preparation config branch.name)).saying
    (found.warnings.map Notice.warning ++ [.release found.release])

/-- The session when all documents were updated. -/
def refreshed (config : Config) (branch : ReleaseBranch) (s : Session) (found : Resolution)
    (report : UpdateReport) (tree : FileTree) : Session :=
  ((resolved config branch s found).withTree tree).saying (report.updates.map Notice.docUpdate)

def newCommit (s : Session) (release : Release) : Commit :=
  ⟨Repository.hashOf (s.repository.commits.length + 1), release.commitMessage, "Mock Author", []⟩

def shownCommit (config : Config) (commit : Commit) : Option Commit :=
  if config.behavior.showCommit then some commit else none

/-- What holds when all documents were updated. -/
structure Refreshes (config : Config) (branch : ReleaseBranch) (s : Session) (found : Resolution)
    (report : UpdateReport) (tree : FileTree) : Prop where
  calls : ∀ call ∈ preparation config branch.name, ¬ s.repository.Fails call
  clean : s.repository.nextClean = true
  resolves : resolution config branch s = .ok found
  updates : found.release.updateDocs config.catalog s.tree = (.ok report, tree)

/-- The ends of a run from a session, each with its answer and the session that it leaves. -/
inductive Ending (config : Config) (branch : ReleaseBranch) (s : Session) :
    Except DocsError WorkflowResult → Session → Prop
  | unprepared {earlier : List Call} {call : Call}
      (interrupts : s.repository.Interrupts (preparation config branch.name) earlier call)
      (clean : earlier ≠ [] → s.repository.nextClean = true) :
      Ending config branch s (.error (.versionControl call.operation.name "mock failure"))
        ((s.performAll earlier).attempt call)
  | dirty (status : ¬ s.repository.Fails .status) (dirty : s.repository.nextClean = false) :
      Ending config branch s (.error .dirtyWorkingTree) (s.perform .status)
  | unresolved {e : DocsError}
      (calls : ∀ call ∈ preparation config branch.name, ¬ s.repository.Fails call)
      (clean : s.repository.nextClean = true) (fault : resolution config branch s = .error e) :
      Ending config branch s (.error e) (s.performAll (preparation config branch.name))
  | unreadable {found : Resolution} {e : DocsError} {tree : FileTree}
      (calls : ∀ call ∈ preparation config branch.name, ¬ s.repository.Fails call)
      (clean : s.repository.nextClean = true) (resolves : resolution config branch s = .ok found)
      (fault : found.release.updateDocs config.catalog s.tree = (.error e, tree)) :
      Ending config branch s (.error e) ((resolved config branch s found).withTree tree)
  | unchanged {found : Resolution} {report : UpdateReport} {tree : FileTree}
      (refreshes : Refreshes config branch s found report tree)
      (same : report.hasChanges = false) :
      Ending config branch s (.error (.docsUpToDate found.release.qualifiedName))
        (refreshed config branch s found report tree)
  | stillClean {found : Resolution} {report : UpdateReport} {tree : FileTree}
      (refreshes : Refreshes config branch s found report tree)
      (changes : report.hasChanges = true)
      (clean : (refreshed config branch s found report tree).repository.nextClean = true) :
      Ending config branch s (.error (.docsUpToDate found.release.qualifiedName))
        ((refreshed config branch s found report tree).perform .status)
  | unpublished {found : Resolution} {report : UpdateReport} {tree : FileTree}
      {earlier : List Call} {call : Call}
      (refreshes : Refreshes config branch s found report tree)
      (changes : report.hasChanges = true)
      (dirty : (refreshed config branch s found report tree).repository.nextClean = false)
      (interrupts : s.repository.Interrupts (publication config found.release.commitMessage)
        (.status :: earlier) call) :
      Ending config branch s (.error (.versionControl call.operation.name "mock failure"))
        (((refreshed config branch s found report tree).performAll (.status :: earlier)).attempt
          call)
  | published {found : Resolution} {report : UpdateReport} {tree : FileTree}
      (refreshes : Refreshes config branch s found report tree)
      (changes : report.hasChanges = true)
      (dirty : (refreshed config branch s found report tree).repository.nextClean = false)
      (calls : ∀ call ∈ publication config found.release.commitMessage, ¬ s.repository.Fails call) :
      Ending config branch s
        (.ok ⟨found.release, (newCommit s found.release).hash, report.changedFiles.length,
          shownCommit config (newCommit s found.release)⟩)
        (((refreshed config branch s found report tree).performAll
            (publication config found.release.commitMessage)).saying
          ((shownCommit config (newCommit s found.release)).toList.map Notice.commit))

/-- An action makes the calls one after the other; one of the failing operation ends it, and
without one it gives the answer. -/
def Makes {α : Type} (action : Run α) (calls : List Call) (answer : Session → α) : Prop :=
  ∀ s : Session,
    (∃ earlier call, s.repository.Interrupts calls earlier call ∧
      action.run.run s = (.error (.versionControl call.operation.name "mock failure"),
        (s.performAll earlier).attempt call)) ∨
    (∀ call ∈ calls, ¬ s.repository.Fails call) ∧
      action.run.run s = (.ok (answer s), s.performAll calls)

theorem fails_performAll (s : Session) (calls : List Call) :
    (s.performAll calls).repository.Fails = s.repository.Fails := by
  funext call
  simp [Repository.Fails]

namespace Makes

variable {α β : Type}

theorem announce {call : Call} {action : Repository.Action α} (answer : Repository → α)
    (h : ∀ r : Repository,
      action (r.logged call) = (.ok (answer r), (r.logged call).perform call)) :
    Makes (announce call (Repository.record call action)) [call] fun s => answer s.repository := by
  intro s
  by_cases hfails : s.repository.Fails call
  · exact Or.inl ⟨[], call, Repository.Interrupts.head [] hfails, run_announce_of_fails hfails⟩
  · refine Or.inr ⟨by simpa using hfails, ?_⟩
    exact run_announce_of_not_fails hfails (h s.repository)

theorem bind {x : Run α} {f : α → Run β} {calls more : List Call} {a : Session → α}
    {b : α → Session → β} (hx : Makes x calls a) (hf : ∀ v, Makes (f v) more (b v)) :
    Makes (x >>= f) (calls ++ more) fun s => b (a s) (s.performAll calls) := by
  intro s
  rcases hx s with ⟨earlier, call, hinterrupts, hrun⟩ | ⟨hcalls, hrun⟩
  · exact Or.inl ⟨earlier, call, hinterrupts.append more, run_bind_of_error hrun⟩
  · rw [run_bind_of_ok hrun]
    rcases hf (a s) (s.performAll calls) with ⟨earlier, call, hinterrupts, hrun⟩ | ⟨hmore, hrun⟩
    · refine Or.inl ⟨calls ++ earlier, call, ?_, ?_⟩
      · exact (hinterrupts.congr (fails_performAll s calls)).append_left hcalls
      · rw [hrun, Session.performAll_append]
    · rw [fails_performAll] at hmore
      refine Or.inr ⟨?_, ?_⟩
      · intro call hcall
        rcases List.mem_append.mp hcall with hcall | hcall
        · exact hcalls call hcall
        · exact hmore call hcall
      · rw [hrun, Session.performAll_append]

end Makes

theorem makes_goToBranch (config : Config) (branch : ReleaseBranch) :
    Makes
      (if config.behavior.fetchTags then do
        Run.announce (.fetch config.remote) (Repository.fetchTags config.remote)
        Run.announce (.checkout branch.name) (Repository.checkout branch.name)
      else
        Run.announce (.checkout branch.name) (Repository.checkout branch.name))
      ((if config.behavior.fetchTags then [.fetch config.remote] else []) ++
        [.checkout branch.name])
      fun _ => () := by
  have hcheckout : Makes (Run.announce (.checkout branch.name) (Repository.checkout branch.name))
      [.checkout branch.name] fun _ => () := Makes.announce (fun _ => ()) fun _ => rfl
  have hfetch : Makes
      (Run.announce (.fetch config.remote) (Repository.fetchTags config.remote))
      [.fetch config.remote] fun _ => () := Makes.announce (fun _ => ()) fun _ => rfl
  cases config.behavior.fetchTags with
  | false => exact hcheckout
  | true => exact hfetch.bind fun _ => hcheckout

theorem run_checkOut (config : Config) (branch : ReleaseBranch) (s : Session) :
    (∃ earlier call, s.repository.Interrupts (checkOutCalls config branch.name) earlier call ∧
      (earlier ≠ [] → s.repository.nextClean = true) ∧
      (checkOut config branch).run.run s =
        (.error (.versionControl call.operation.name "mock failure"),
          (s.performAll earlier).attempt call)) ∨
    (¬ s.repository.Fails .status ∧ s.repository.nextClean = false ∧
      (checkOut config branch).run.run s = (.error .dirtyWorkingTree, s.perform .status)) ∨
    ((∀ call ∈ checkOutCalls config branch.name, ¬ s.repository.Fails call) ∧
      s.repository.nextClean = true ∧
      (checkOut config branch).run.run s =
        (.ok (), s.performAll (checkOutCalls config branch.name))) := by
  by_cases hstatus : s.repository.Fails .status
  · refine Or.inl ⟨[], .status, Repository.Interrupts.head _ hstatus, by simp, ?_⟩
    exact run_bind_of_error (run_announce_of_fails hstatus)
  · have hrun := run_announce_isClean hstatus
    cases hclean : s.repository.nextClean with
    | false =>
      rw [hclean] at hrun
      exact Or.inr (Or.inl ⟨hstatus, rfl, run_bind_of_ok hrun⟩)
    | true =>
      rw [hclean] at hrun
      have hgo : (checkOut config branch).run.run s = _ := run_bind_of_ok hrun
      rcases makes_goToBranch config branch (s.perform .status) with
        ⟨earlier, call, hinterrupts, hends⟩ | ⟨hcalls, hends⟩
      · have hinterrupts' := hinterrupts.congr (fails_performAll s [.status])
        exact Or.inl ⟨.status :: earlier, call, hinterrupts'.cons hstatus, fun _ => rfl,
          hgo.trans hends⟩
      · have hcalls' : ∀ call ∈ _, ¬ (s.performAll [.status]).repository.Fails call := hcalls
        rw [fails_performAll] at hcalls'
        refine Or.inr (Or.inr ⟨?_, rfl, hgo.trans hends⟩)
        exact List.forall_mem_cons.mpr ⟨hstatus, hcalls'⟩

theorem run_resolve (config : Config) (branch : ReleaseBranch) (s : Session) :
    (resolve config branch).run.run s =
      if s.repository.Fails .tag then
        (.error (.versionControl Operation.tag.name "mock failure"), s.attempt .tag)
      else
        match resolution config branch s with
        | .error e => (.error e, s.perform .tag)
        | .ok found =>
            (.ok found.release,
              (s.perform .tag).saying
                (found.warnings.map Notice.warning ++ [.release found.release])) := by
  have hask := @run_announce _ .tag
    (Resolution.ofBranch s.tree config.catalog.languages branch) s
  unfold resolve
  rw [run_bind_of_ok (run_get s)]
  by_cases htag : s.repository.Fails .tag
  · have hlist : s.repository.listTags = _ := Repository.record_of_fails _ htag
    rw [if_pos htag, run_bind_of_error]
    rw [hask (by simp [Resolution.ofBranch, hlist])]
    simp [Resolution.ofBranch, hlist, Except.bind, Call.operation, Session.attempt]
  · have hlist : s.repository.listTags = _ := Repository.record_of_not_fails _ htag
    have hrun := hask (by simp [Resolution.ofBranch, hlist])
    have hanswer : (announce .tag (Resolution.ofBranch s.tree config.catalog.languages
        branch)).run.run s = (resolution config branch s, s.perform .tag) := by
      rw [hrun]
      simp only [Resolution.ofBranch, hlist]
      rfl
    rw [if_neg htag, run_bind, hanswer]
    cases resolution config branch s with
    | error e => rfl
    | ok found =>
      simp only
      rw [run_bind_of_ok (run_sayAll _ _), run_bind_of_ok (run_say _ _), Session.saying_append]
      rfl

theorem run_refresh (config : Config) (release : Release) (s : Session)  :
    (refresh config release).run.run s =
      match release.updateDocs config.catalog s.tree with
      | (.error e, tree) => (.error e, s.withTree tree)
      | (.ok report, tree) =>
          let t := (s.withTree tree).saying (report.updates.map Notice.docUpdate)
          if report.hasChanges then
            if s.repository.Fails .status then
              (.error (.versionControl Operation.status.name "mock failure"), t.attempt .status)
            else if s.repository.nextClean then
              (.error (.docsUpToDate release.qualifiedName), t.perform .status)
            else (.ok report, t.perform .status)
          else (.error (.docsUpToDate release.qualifiedName), t) := by
  unfold refresh
  rw [run_bind, run_updateDocs]
  rcases release.updateDocs config.catalog s.tree with ⟨e | report, tree⟩
  · rfl
  · simp only
    rw [run_bind_of_ok (run_sayAll _ _)]
    cases report.hasChanges with
    | false => rfl
    | true =>
      simp only [Bool.not_true, Bool.false_eq_true, if_false, if_true]
      by_cases hstatus : s.repository.Fails .status
      · rw [if_pos hstatus]
        exact run_bind_of_error (run_announce_of_fails hstatus)
      · have hasked : (announce .status Repository.isClean).run.run
            ((s.withTree tree).saying (report.updates.map Notice.docUpdate)) =
              (.ok s.repository.nextClean, _) := run_announce_isClean hstatus
        rw [if_neg hstatus, run_bind_of_ok hasked]
        cases s.repository.nextClean <;> rfl

theorem run_publish (config : Config) (release : Release) (s : Session) :
    (∃ earlier call,
      s.repository.Interrupts (commitCalls config release.commitMessage) earlier call ∧
      (publish config release).run.run s =
        (.error (.versionControl call.operation.name "mock failure"),
          (s.performAll earlier).attempt call)) ∨
    (∀ call ∈ commitCalls config release.commitMessage, ¬ s.repository.Fails call) ∧
      (publish config release).run.run s =
        (.ok ((newCommit s release).hash, shownCommit config (newCommit s release)),
          (s.performAll (commitCalls config release.commitMessage)).saying
            ((shownCommit config (newCommit s release)).toList.map Notice.commit)) := by
  let message := release.commitMessage
  by_cases hadd : s.repository.Fails .add
  · refine Or.inl ⟨[], .add, Repository.Interrupts.head _ hadd, ?_⟩
    exact run_bind_of_error (run_announce_of_fails hadd)
  have hstage : (announce .add Repository.stageTracked).run.run s = (.ok (), s.perform .add) :=
    run_announce_of_not_fails hadd rfl
  have hpublish : (publish config release).run.run s = _ := run_bind_of_ok hstage
  by_cases hcommit : s.repository.Fails (.commit message)
  · refine Or.inl ⟨[.add], .commit message, (Repository.Interrupts.head _ hcommit).cons hadd, ?_⟩
    exact hpublish.trans (run_bind_of_error (run_announce_of_fails hcommit))
  have hmade : (announce (.commit message) (Repository.commit message)).run.run (s.perform .add) =
      (.ok (newCommit s release).hash, (s.perform .add).perform (.commit message)) :=
    run_announce_of_not_fails hcommit rfl
  replace hpublish := hpublish.trans (run_bind_of_ok hmade)
  cases hshow : config.behavior.showCommit with
  | false =>
    simp only [hshow, Bool.false_eq_true, if_false] at hpublish
    simp only [commitCalls, shownCommit, hshow, Bool.false_eq_true, if_false]
    refine Or.inr ⟨?_, hpublish.trans ?_⟩
    · simpa using ⟨hadd, hcommit⟩
    · rw [Option.toList_none, List.map_nil, Session.saying_nil]
      rfl
  | true =>
    simp only [hshow, if_true] at hpublish
    simp only [commitCalls, shownCommit, hshow, if_true]
    by_cases hhead : s.repository.Fails .head
    · refine Or.inl ⟨[.add, .commit message], .head, ?_, ?_⟩
      · exact ((Repository.Interrupts.head _ hhead).cons hcommit).cons hadd
      · exact hpublish.trans (run_bind_of_error (run_announce_of_fails hhead))
    · refine Or.inr ⟨by simpa using ⟨hadd, hcommit, hhead⟩, hpublish.trans ?_⟩
      have hlast : ((s.perform .add).perform (.commit message)).repository.commits.getLast? =
          some (newCommit s release) := List.getLast?_concat
      exact run_bind_of_ok (run_announce_showHead hhead hlast)

theorem ne_commit_of_mem_preparation {config : Config} {name : String} {call : Call}
    (h : call ∈ preparation config name) : call.operation ≠ .commit := by
  simp only [preparation, checkOutCalls, List.mem_append, List.mem_cons, List.mem_ite_nil_right,
    List.not_mem_nil, or_false] at h
  rcases h with (rfl | ⟨-, rfl⟩ | rfl) | rfl <;> simp [Call.operation]

/-- The commit that a run makes does not depend on what was done to the session before it. -/
theorem newCommit_refreshed (config : Config) (branch : ReleaseBranch) (s : Session)
    (found : Resolution) (report : UpdateReport) (tree : FileTree) (release : Release) :
    newCommit ((refreshed config branch s found report tree).perform .status) release =
      newCommit s release := by
  have hcommits : (s.performAll (preparation config branch.name)).repository.commits = _ :=
    s.commits_performAll_of_ne_commit fun _ => ne_commit_of_mem_preparation
  simp only [newCommit]
  change (⟨Repository.hashOf
    ((s.performAll (preparation config branch.name)).repository.commits.length + 1), _, _, _⟩ :
      Commit) = _
  rw [hcommits]

section Resolved

variable {config : Config} {branch : ReleaseBranch} {s : Session} {found : Resolution}

/-- What a run does once the documents are refreshed. -/
def finishRefreshed (config : Config) (release : Release) (report : UpdateReport) :
    Run WorkflowResult := do
  let (hash, shown) ← publish config release
  return ⟨release, hash, report.changedFiles.length, shown⟩

/-- What a run does once the branch is resolved. -/
def finish (config : Config) (release : Release) : Run WorkflowResult := do
  let report ← refresh config release
  let (hash, shown) ← publish config release
  return ⟨release, hash, report.changedFiles.length, shown⟩

theorem ending_of_refreshed {report : UpdateReport} {tree : FileTree}
    (hrefreshes : Refreshes config branch s found report tree)
    (hchanges : report.hasChanges = true)
    (hstill : (resolved config branch s found).repository.nextClean = false)
    (hstatus : ¬ s.repository.Fails .status) :
    Ending config branch s
      ((finishRefreshed config found.release report).run.run
        ((refreshed config branch s found report tree).perform .status)).1
      ((finishRefreshed config found.release report).run.run
        ((refreshed config branch s found report tree).perform .status)).2 := by
  have hfails : ((refreshed config branch s found report tree).perform .status).repository.Fails =
      s.repository.Fails := fails_performAll s (preparation config branch.name)
  have hpublish := run_publish config found.release
    ((refreshed config branch s found report tree).perform .status)
  rw [newCommit_refreshed, hfails] at hpublish
  unfold finishRefreshed
  rcases hpublish with ⟨earlier, call, hinterrupts, hrun⟩ | ⟨hmade, hrun⟩
  · rw [run_bind_of_error hrun]
    exact .unpublished hrefreshes hchanges hstill ((hinterrupts.congr hfails).cons hstatus)
  · rw [run_bind_of_ok hrun]
    have hcalls : ∀ call ∈ publication config found.release.commitMessage,
        ¬ s.repository.Fails call := List.forall_mem_cons.mpr ⟨hstatus, hmade⟩
    rw [← Session.performAll_cons]
    exact .published hrefreshes hchanges hstill hcalls

theorem ending_of_resolved
    (hcalls : ∀ call ∈ preparation config branch.name, ¬ s.repository.Fails call)
    (hclean : s.repository.nextClean = true) (hfound : resolution config branch s = .ok found) :
    Ending config branch s
      ((finish config found.release).run.run (resolved config branch s found)).1
      ((finish config found.release).run.run (resolved config branch s found)).2 := by
  have hrefresh := run_refresh config found.release (resolved config branch s found)
  have htree : (resolved config branch s found).tree = s.tree :=
    s.tree_performAll (preparation config branch.name)
  have hfails : (resolved config branch s found).repository.Fails = s.repository.Fails :=
    fails_performAll s (preparation config branch.name)
  simp only [htree, hfails] at hrefresh
  unfold finish
  rcases hupdate : found.release.updateDocs config.catalog s.tree with ⟨e | report, tree⟩
  · rw [hupdate] at hrefresh
    rw [run_bind_of_error hrefresh]
    exact .unreadable hcalls hclean hfound hupdate
  have hrefreshes : Refreshes config branch s found report tree :=
    ⟨hcalls, hclean, hfound, hupdate⟩
  simp only [hupdate] at hrefresh
  cases hchanges : report.hasChanges with
  | false =>
    simp only [hchanges, Bool.false_eq_true, if_false] at hrefresh
    rw [run_bind_of_error hrefresh]
    exact .unchanged hrefreshes hchanges
  | true =>
    simp only [hchanges, if_true] at hrefresh
    by_cases hstatus : s.repository.Fails .status
    · exact absurd hstatus (hcalls .status (by simp [preparation, checkOutCalls]))
    rw [if_neg hstatus] at hrefresh
    cases hstill : (resolved config branch s found).repository.nextClean with
    | true =>
      simp only [hstill, if_true] at hrefresh
      rw [run_bind_of_error hrefresh]
      exact .stillClean hrefreshes hchanges hstill
    | false =>
      simp only [hstill, Bool.false_eq_true, if_false] at hrefresh
      replace hrefresh : (refresh config found.release).run.run (resolved config branch s found) =
          (.ok report, (refreshed config branch s found report tree).perform .status) := hrefresh
      rw [run_bind_of_ok hrefresh]
      exact ending_of_refreshed hrefreshes hchanges hstill hstatus

end Resolved

theorem ending_runBranch (config : Config) (branch : ReleaseBranch) (s : Session) :
    Ending config branch s ((runBranch config branch).run.run s).1
      ((runBranch config branch).run.run s).2 := by
  unfold runBranch
  rcases run_checkOut config branch s with
    ⟨earlier, call, hinterrupts, hclean, hrun⟩ | ⟨hstatus, hdirty, hrun⟩ | ⟨hcalls, hclean, hrun⟩
  · rw [run_bind_of_error hrun]
    exact .unprepared (hinterrupts.append [.tag]) hclean
  · rw [run_bind_of_error hrun]
    exact .dirty hstatus hdirty
  rw [run_bind_of_ok hrun]
  have hresolve := run_resolve config branch (s.performAll (checkOutCalls config branch.name))
  simp only [fails_performAll] at hresolve
  by_cases htag : s.repository.Fails .tag
  · rw [if_pos htag] at hresolve
    rw [run_bind_of_error hresolve]
    have hinterrupts := (Repository.Interrupts.head [] htag).append_left hcalls
    rw [List.append_nil] at hinterrupts
    exact .unprepared hinterrupts fun _ => hclean
  have hprepared : ∀ call ∈ preparation config branch.name, ¬ s.repository.Fails call := by
    rw [preparation, List.forall_mem_append]
    exact ⟨hcalls, by simpa using htag⟩
  have hperform : (s.performAll (checkOutCalls config branch.name)).perform .tag =
      s.performAll (preparation config branch.name) := (s.performAll_append _ [.tag]).symm
  have hresolution : resolution config branch (s.performAll (checkOutCalls config branch.name)) =
      resolution config branch s := by simp [resolution]
  rw [if_neg htag, hperform, hresolution] at hresolve
  cases hfound : resolution config branch s with
  | error e =>
    rw [hfound] at hresolve
    rw [run_bind_of_error hresolve]
    exact .unresolved hprepared hclean hfound
  | ok found =>
    rw [hfound] at hresolve
    rw [run_bind_of_ok hresolve]
    exact ending_of_resolved hprepared hclean hfound

end Workflow

end ReleaseDocs
