import ReleaseDocs.Proofs.BranchSpelling
import ReleaseDocs.Proofs.Ending
import ReleaseDocs.Proofs.Faults

namespace ReleaseDocs

namespace Workflow

open Run

/-- The calls of a run that nothing ends early. -/
def plan (config : Config) (name message : String) : List Call :=
  [.status] ++ (if config.behavior.fetchTags then [.fetch config.remote] else []) ++
    [.checkout name, .tag, .status, .add, .commit message] ++
    (if config.behavior.showCommit then [.head] else [])

def resolutionOf (config : Config) (name : String) (s : Session) : Except DocsError Resolution := do
  let branch ← ReleaseBranch.parse name
  resolution config branch s

/-- What an error says about the calls that were made before it. -/
def Explains (config : Config) (name : String) (s : Session) (trace : List Call) :
    DocsError → Prop
  | .versionControl operation _ =>
      ∃ earlier call, trace = earlier ++ [call] ∧ s.repository.Fails call ∧
        operation = call.operation.name
  | .invalidBranchFormat _ => trace = []
  | .dirtyWorkingTree => trace = [.status]
  | .docsUpToDate _ =>
      ∃ found report tree, resolutionOf config name s = .ok found ∧
        found.release.updateDocs config.catalog s.tree = (.ok report, tree) ∧
        (report.hasChanges = false ∧ trace = preparation config name ∨
          report.hasChanges = true ∧ s.repository.cleanStates.tail.headD true = true ∧
            trace = preparation config name ++ [.status])
  | _ => trace = preparation config name

/-- A message is that of the release that the name resolves to, if it resolves. -/
def IsMessage (config : Config) (name : String) (s : Session) (message : String) : Prop :=
  ∀ found, resolutionOf config name s = .ok found → found.release.commitMessage = message

/-- How a run from a session that ends with an answer and leaves a session has called the
repository. -/
structure CallOrder (config : Config) (name : String) (s : Session)
    (answer : Except DocsError WorkflowResult) (after : Session) (trace : List Call) : Prop where
  logged : after.repository.calls = s.repository.calls ++ trace
  planned : ∀ message, IsMessage config name s message → trace <+: plan config name message
  succeeds_iff : ∀ message, IsMessage config name s message →
    ((∃ result, answer = .ok result) ↔
      trace = plan config name message ∧ ∀ call ∈ trace, ¬ s.repository.Fails call)
  explained : ∀ e, answer = .error e → Explains config name s trace e
  committed : ∀ message, .commit message ∈ trace → ¬ s.repository.Fails (.commit message) →
    after.repository.commits = s.repository.commits ++
      [⟨Repository.hashOf (s.repository.commits.length + 1), message, "Mock Author", []⟩]
  uncommitted : (∀ message, .commit message ∈ trace → s.repository.Fails (.commit message)) →
    after.repository.commits = s.repository.commits

variable {config : Config} {name message : String} {s after : Session}

theorem plan_eq (config : Config) (name message : String) :
    plan config name message = preparation config name ++ publication config message := by
  simp [plan, preparation, checkOutCalls, publication, commitCalls]

theorem exists_isMessage (config : Config) (name : String) (s : Session) :
    ∃ message, IsMessage config name s message := by
  cases h : resolutionOf config name s with
  | error e => exact ⟨"", fun found hfound => by simp [h] at hfound⟩
  | ok found =>
      refine ⟨found.release.commitMessage, fun other hother => ?_⟩
      obtain rfl : found = other := by simpa [h] using hother
      rfl

def beforeCommit (config : Config) (name : String) : List Call :=
  preparation config name ++ [.status, .add]

def afterCommit (config : Config) : List Call :=
  if config.behavior.showCommit then [.head] else []

theorem plan_eq_commit (config : Config) (name message : String) :
    plan config name message =
      beforeCommit config name ++ .commit message :: afterCommit config := by
  simp [plan_eq, publication, commitCalls, beforeCommit, afterCommit]

theorem ne_commit_of_mem_beforeCommit {call : Call} (h : call ∈ beforeCommit config name) :
    call.operation ≠ .commit := by
  rcases List.mem_append.mp h with h | h
  · exact ne_commit_of_mem_preparation h
  · simp only [List.mem_cons, List.not_mem_nil, or_false] at h
    rcases h with rfl | rfl <;> simp [Call.operation]

theorem ne_commit_of_mem_afterCommit {call : Call} (h : call ∈ afterCommit config) :
    call.operation ≠ .commit := by
  rw [afterCommit, List.mem_ite_nil_right, List.mem_singleton] at h
  obtain ⟨-, rfl⟩ := h
  simp [Call.operation]

theorem prefix_plan {calls : List Call} (h : calls <+: plan config name message) :
    calls <+: beforeCommit config name ∨
      ∃ later, later <+: afterCommit config ∧
        calls = beforeCommit config name ++ .commit message :: later := by
  have hplan : plan config name message =
      (beforeCommit config name ++ [.commit message]) ++ afterCommit config := by
    simp [plan_eq_commit]
  rw [hplan] at h
  rcases List.prefix_or_prefix_of_prefix h (List.prefix_append _ _) with hcalls | ⟨later, rfl⟩
  · rcases List.prefix_concat_iff.mp hcalls with rfl | hcalls
    · exact Or.inr ⟨[], List.nil_prefix, rfl⟩
    · exact Or.inl hcalls
  · exact Or.inr ⟨later, (List.prefix_append_right_inj _).mp h, by simp⟩

theorem commits_of_prefix_plan {calls : List Call} (h : calls <+: plan config name message) :
    (∀ m, .commit m ∈ calls → m = message ∧
      (s.performAll calls).repository.commits = s.repository.commits ++
        [⟨Repository.hashOf (s.repository.commits.length + 1), message, "Mock Author", []⟩]) ∧
    ((∀ m, .commit m ∉ calls) →
      (s.performAll calls).repository.commits = s.repository.commits) := by
  rcases prefix_plan h with h | ⟨later, hlater, rfl⟩
  · have hcalls : ∀ call ∈ calls, call.operation ≠ .commit := fun call hcall =>
      ne_commit_of_mem_beforeCommit (h.mem hcall)
    exact ⟨fun m hm => absurd rfl (hcalls _ hm), fun _ => s.commits_performAll_of_ne_commit hcalls⟩
  · replace hlater : ∀ call ∈ later, call.operation ≠ .commit := fun call hcall =>
      ne_commit_of_mem_afterCommit (hlater.mem hcall)
    have hearlier : ∀ call ∈ beforeCommit config name, call.operation ≠ .commit := fun _ =>
      ne_commit_of_mem_beforeCommit
    have hcommits := s.commits_performAll_commit message hearlier hlater
    refine ⟨fun m hm => ⟨?_, hcommits⟩, fun hnone => absurd ?_ (hnone message)⟩
    · rcases List.mem_append.mp hm with hm | hm
      · exact absurd rfl (hearlier _ hm)
      · rcases List.mem_cons.mp hm with hm | hm
        · simpa using hm
        · exact absurd rfl (hlater _ hm)
    · simp

theorem explains_of_isFault {e : DocsError} (h : e.IsFault) :
    Explains config name s (preparation config name) e := by
  cases e <;> first | rfl | exact h.elim

namespace CallOrder

theorem interrupted {earlier : List Call} {call : Call}
    (hplan : ∀ message, IsMessage config name s message →
      s.repository.Interrupts (plan config name message) earlier call)
    (hafter : after.repository = (s.performAll earlier).repository.logged call) :
    CallOrder config name s (.error (.versionControl call.operation.name "mock failure")) after
      (earlier ++ [call]) := by
  obtain ⟨message, hmessage⟩ := exists_isMessage config name s
  obtain ⟨⟨later, hsplit⟩, hfails, hbefore⟩ := hplan message hmessage
  have hfront : earlier <+: plan config name message := ⟨call :: later, hsplit.symm⟩
  obtain ⟨hcommit, hnone⟩ := commits_of_prefix_plan hfront (s := s)
  have hcommits : after.repository.commits = (s.performAll earlier).repository.commits := by
    rw [hafter]
    rfl
  refine ⟨?_, ?_, ?_, ?_, ?_, ?_⟩
  · simp [hafter, Repository.logged]
  · intro m hm
    obtain ⟨later, hsplit⟩ := (hplan m hm).split
    exact ⟨later, by simp [hsplit]⟩
  · intro m hm
    constructor
    · rintro ⟨result, hresult⟩
      cases hresult
    · rintro ⟨-, hcalls⟩
      exact absurd hfails (hcalls call (by simp))
  · intro e he
    cases he
    exact ⟨earlier, call, rfl, hfails, rfl⟩
  · intro m hm hsucceeds
    rcases List.mem_append.mp hm with hm | hm
    · obtain ⟨rfl, hmade⟩ := hcommit m hm
      exact hcommits.trans hmade
    · obtain rfl := List.mem_singleton.mp hm
      exact absurd hfails hsucceeds
  · intro h
    refine hcommits.trans (hnone fun m hm => ?_)
    exact hbefore _ hm (h m (List.mem_append_left _ hm))

theorem stopped {e : DocsError} {trace : List Call}
    (hplan : trace <+: preparation config name ++ [.status])
    (hafter : after.repository = (s.performAll trace).repository)
    (hexplains : Explains config name s trace e) :
    CallOrder config name s (.error e) after trace := by
  have hbefore : trace <+: beforeCommit config name := by
    refine hplan.trans ⟨[.add], ?_⟩
    simp [beforeCommit]
  have hcalls : ∀ call ∈ trace, call.operation ≠ .commit := fun call hcall =>
    ne_commit_of_mem_beforeCommit (hbefore.mem hcall)
  refine ⟨?_, ?_, ?_, ?_, ?_, ?_⟩
  · simp [hafter]
  · intro m hm
    rw [plan_eq_commit]
    exact hbefore.trans (List.prefix_append _ _)
  · intro m hm
    constructor
    · rintro ⟨result, hresult⟩
      cases hresult
    · rintro ⟨rfl, -⟩
      have hlength := hbefore.length_le
      simp only [plan_eq_commit, List.length_append, List.length_cons] at hlength
      omega
  · intro e he
    cases he
    exact hexplains
  · intro m hm
    exact absurd rfl (hcalls _ hm)
  · intro _
    rw [hafter, s.commits_performAll_of_ne_commit hcalls]

theorem published {result : WorkflowResult} {found : Resolution}
    (hfound : resolutionOf config name s = .ok found)
    (hcalls : ∀ call ∈ plan config name found.release.commitMessage, ¬ s.repository.Fails call)
    (hafter : after.repository =
      (s.performAll (plan config name found.release.commitMessage)).repository) :
    CallOrder config name s (.ok result) after (plan config name found.release.commitMessage) := by
  obtain ⟨hcommit, -⟩ :=
    commits_of_prefix_plan (s := s) (plan config name found.release.commitMessage).prefix_rfl
  refine ⟨?_, ?_, ?_, ?_, ?_, ?_⟩
  · simp [hafter]
  · intro m hm
    obtain rfl := hm found hfound
    exact List.prefix_rfl
  · intro m hm
    obtain rfl := hm found hfound
    exact ⟨fun _ => ⟨rfl, hcalls⟩, fun _ => ⟨result, rfl⟩⟩
  · intro e he
    cases he
  · intro m hm _
    obtain ⟨rfl, hmade⟩ := hcommit m hm
    rw [hafter, hmade]
  · intro h
    have hmem : Call.commit found.release.commitMessage ∈
        plan config name found.release.commitMessage := by simp [plan_eq_commit]
    exact absurd (h _ hmem) (hcalls _ hmem)

end CallOrder

theorem nextClean_performAll_preparation (config : Config) (name : String) (s : Session) :
    (s.performAll (preparation config name)).repository.nextClean =
      s.repository.cleanStates.tail.headD true := by
  simp only [preparation, checkOutCalls]
  cases config.behavior.fetchTags <;> rfl

theorem repository_performAll_refreshed (config : Config) (branch : ReleaseBranch) (s : Session)
    (found : Resolution) (report : UpdateReport) (tree : FileTree) (calls : List Call) :
    ((refreshed config branch s found report tree).performAll calls).repository =
      (s.performAll (preparation config branch.name ++ calls)).repository := by
  rw [Session.performAll_append]
  refine Session.repository_performAll_congr ?_ calls
  rfl

theorem resolutionOf_of_parse (config : Config) (s : Session) {branch : ReleaseBranch}
    (h : ReleaseBranch.parse name = .ok branch) :
    resolutionOf config name s = resolution config branch s := by
  rw [resolutionOf, h]
  rfl

theorem run_of_parse (config : Config) (s : Session) {branch : ReleaseBranch}
    (h : ReleaseBranch.parse name = .ok branch) :
    (run config name).run.run s = (runBranch config branch).run.run s := by
  rw [run, h, run_bind_of_ok (run_ofExcept (.ok branch) s)]

theorem callOrder_of_ending {branch : ReleaseBranch} {answer : Except DocsError WorkflowResult}
    (hparse : ReleaseBranch.parse name = .ok branch) (h : Ending config branch s answer after) :
    ∃ trace, CallOrder config name s answer after trace := by
  have hresolution := resolutionOf_of_parse config s hparse
  obtain rfl := ReleaseBranch.name_of_parse hparse
  have hfront : preparation config branch.name <+: preparation config branch.name ++ [.status] :=
    List.prefix_append _ _
  cases h with
  | unprepared interrupts clean =>
    refine ⟨_, .interrupted (fun message _ => ?_) rfl⟩
    rw [plan_eq]
    exact interrupts.append _
  | dirty status dirty =>
    exact ⟨[.status], .stopped ⟨_, rfl⟩ rfl rfl⟩
  | unresolved calls clean fault =>
    have hfault := Resolution.onlyFaults_ofTags _ _ _ _ _ _ fault
    exact ⟨_, .stopped hfront rfl (explains_of_isFault hfault)⟩
  | unreadable calls clean resolves fault =>
    have hfault := Release.onlyFaults_updateDocs _ _ _ _ (congrArg Prod.fst fault)
    exact ⟨_, .stopped hfront rfl (explains_of_isFault hfault)⟩
  | unchanged refreshes same =>
    exact ⟨_, .stopped hfront rfl ⟨_, _, _, hresolution.trans refreshes.resolves,
      refreshes.updates, Or.inl ⟨same, rfl⟩⟩⟩
  | @stillClean found report tree refreshes changes clean =>
    have hclean := (nextClean_performAll_preparation config branch.name s).symm.trans clean
    have hafter := repository_performAll_refreshed config branch s found report tree [.status]
    exact ⟨_, .stopped List.prefix_rfl hafter ⟨_, _, _, hresolution.trans refreshes.resolves,
      refreshes.updates, Or.inr ⟨changes, hclean, rfl⟩⟩⟩
  | @unpublished found report tree earlier call refreshes changes dirty interrupts =>
    refine ⟨(preparation config branch.name ++ .status :: earlier) ++ [call],
      .interrupted (fun message hmessage => ?_) ?_⟩
    · rw [plan_eq, ← hmessage _ (hresolution.trans refreshes.resolves)]
      exact interrupts.append_left refreshes.calls
    · rw [Session.repository_attempt, repository_performAll_refreshed]
  | @published found report tree refreshes changes dirty calls =>
    refine ⟨_, .published (hresolution.trans refreshes.resolves) ?_ ?_⟩
    · rw [plan_eq, List.forall_mem_append]
      exact ⟨refreshes.calls, calls⟩
    · rw [plan_eq, Session.repository_saying]
      exact repository_performAll_refreshed config branch s found report tree _

theorem callOrder_run (config : Config) (name : String) (s : Session) :
    ∃ trace, CallOrder config name s ((run config name).run.run s).1
      ((run config name).run.run s).2 trace := by
  unfold run
  cases hparse : ReleaseBranch.parse name with
  | error e =>
    rw [run_bind_of_error (run_ofExcept (.error e) s)]
    obtain rfl := ReleaseBranch.eq_of_parse_error hparse
    exact ⟨[], .stopped List.nil_prefix rfl rfl⟩
  | ok branch =>
    rw [run_bind_of_ok (run_ofExcept (.ok branch) s)]
    exact callOrder_of_ending hparse (ending_runBranch config branch s)

end Workflow

end ReleaseDocs
