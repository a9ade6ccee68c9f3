import ReleaseDocs.Workflow

namespace ReleaseDocs

namespace Repository

def logged (r : Repository) (call : Call) : Repository :=
  { r with calls := r.calls ++ [call] }

/-- What a call that does not fail does, apart from the log. -/
def perform (r : Repository) : Call → Repository
  | .status => { r with cleanStates := r.cleanStates.tail }
  | .commit message =>
      { r with
        commits := r.commits ++ [⟨hashOf (r.commits.length + 1), message, "Mock Author", []⟩] }
  | _ => r

def Fails (r : Repository) (call : Call) : Prop :=
  r.failing = some call.operation

instance (r : Repository) (call : Call) : Decidable (r.Fails call) :=
  inferInstanceAs (Decidable (_ = _))

def nextClean (r : Repository) : Bool :=
  r.cleanStates.headD true

theorem record_of_fails {α : Type} {r : Repository} {call : Call} (answer : Action α)
    (h : r.Fails call) :
    record call answer r =
      (.error (.versionControl call.operation.name "mock failure"), r.logged call) := by
  rw [Fails] at h
  simp [record, h, logged]

theorem record_of_not_fails {α : Type} {r : Repository} {call : Call} (answer : Action α)
    (h : ¬ r.Fails call) : record call answer r = answer (r.logged call) := by
  rw [Fails] at h
  simp [record, h, logged]

theorem isClean_of_not_fails {r : Repository} (h : ¬ r.Fails .status) :
    r.isClean = (.ok r.nextClean, (r.logged .status).perform .status) := by
  refine (record_of_not_fails _ h).trans ?_
  obtain ⟨root, tags, cleanStates, failing, calls, commits⟩ := r
  cases cleanStates <;> rfl

theorem showHead_of_not_fails {r : Repository} (h : ¬ r.Fails .head) :
    r.showHead =
      (r.commits.getLast?.elim (.error (.versionControl Operation.head.name "no commits")) .ok,
        (r.logged .head).perform .head) := by
  refine (record_of_not_fails _ h).trans ?_
  simp only [logged]
  cases r.commits.getLast? <;> rfl

@[simp] theorem calls_perform (r : Repository) (call : Call) :
    (r.perform call).calls = r.calls := by
  cases call <;> rfl

@[simp] theorem failing_perform (r : Repository) (call : Call) :
    (r.perform call).failing = r.failing := by
  cases call <;> rfl

@[simp] theorem root_perform (r : Repository) (call : Call) : (r.perform call).root = r.root := by
  cases call <;> rfl

@[simp] theorem tags_perform (r : Repository) (call : Call) : (r.perform call).tags = r.tags := by
  cases call <;> rfl

end Repository

namespace Session

def attempt (s : Session) (call : Call) : Session :=
  { s with
    repository := s.repository.logged call
    events := s.events ++ [.said call.announcement, .called call] }

/-- The session after a call that was announced and did not fail. -/
def perform (s : Session) (call : Call) : Session :=
  { s.attempt call with repository := (s.repository.logged call).perform call }

/-- The session after several calls none of which failed. -/
def performAll (s : Session) (calls : List Call) : Session :=
  calls.foldl perform s

def saying (s : Session) (notices : List Notice) : Session :=
  { s with events := s.events ++ notices.map Event.said }

def withTree (s : Session) (tree : FileTree) : Session :=
  { s with tree := tree }

variable (s : Session)

@[simp] theorem repository_saying (notices : List Notice) :
    (s.saying notices).repository = s.repository := rfl

@[simp] theorem tree_saying (notices : List Notice) : (s.saying notices).tree = s.tree := rfl

@[simp] theorem repository_attempt (call : Call) :
    (s.attempt call).repository = s.repository.logged call := rfl

@[simp] theorem tree_attempt (call : Call) : (s.attempt call).tree = s.tree := rfl

@[simp] theorem performAll_nil : s.performAll [] = s := rfl

@[simp] theorem performAll_cons (call : Call) (calls : List Call) :
    s.performAll (call :: calls) = (s.perform call).performAll calls := rfl

@[simp] theorem saying_nil : s.saying [] = s := by
  simp [saying]

theorem saying_append (notices more : List Notice) :
    s.saying (notices ++ more) = (s.saying notices).saying more := by
  simp [saying]

theorem performAll_append (calls more : List Call) :
    s.performAll (calls ++ more) = (s.performAll calls).performAll more :=
  List.foldl_append

@[simp] theorem tree_performAll (calls : List Call) : (s.performAll calls).tree = s.tree := by
  induction calls generalizing s with
  | nil => rfl
  | cons call calls ih => exact ih _

section View

variable {α : Type} {view : Event → Option α} (hcalled : ∀ call, view (.called call) = none)
  (hsaid : ∀ call : Call, view (.said call.announcement) = none)
include hcalled hsaid

theorem filterMap_events_attempt (call : Call) :
    (s.attempt call).events.filterMap view = s.events.filterMap view := by
  simp [attempt, hcalled, hsaid]

theorem filterMap_events_performAll (calls : List Call) :
    (s.performAll calls).events.filterMap view = s.events.filterMap view := by
  induction calls generalizing s with
  | nil => rfl
  | cons call calls ih => exact (ih _).trans (s.filterMap_events_attempt hcalled hsaid call)

end View

@[simp] theorem calls_performAll (calls : List Call) :
    (s.performAll calls).repository.calls = s.repository.calls ++ calls := by
  induction calls generalizing s with
  | nil => simp
  | cons call calls ih => simp [ih, perform, Repository.logged]

@[simp] theorem failing_performAll (calls : List Call) :
    (s.performAll calls).repository.failing = s.repository.failing := by
  induction calls generalizing s with
  | nil => rfl
  | cons call calls ih => simp [ih, perform, Repository.logged]

@[simp] theorem root_performAll (calls : List Call) :
    (s.performAll calls).repository.root = s.repository.root := by
  induction calls generalizing s with
  | nil => rfl
  | cons call calls ih => simp [ih, perform, Repository.logged]

@[simp] theorem tags_performAll (calls : List Call) :
    (s.performAll calls).repository.tags = s.repository.tags := by
  induction calls generalizing s with
  | nil => rfl
  | cons call calls ih => simp [ih, perform, Repository.logged]

theorem repository_performAll_congr {s t : Session} (h : s.repository = t.repository)
    (calls : List Call) : (s.performAll calls).repository = (t.performAll calls).repository := by
  induction calls generalizing s t with
  | nil => exact h
  | cons call calls ih => exact ih (by simp [perform, h])

theorem commits_performAll_of_ne_commit {calls : List Call}
    (h : ∀ call ∈ calls, call.operation ≠ .commit) :
    (s.performAll calls).repository.commits = s.repository.commits := by
  induction calls generalizing s with
  | nil => rfl
  | cons call calls ih =>
      rw [performAll_cons, ih _ fun other hother => h other (List.mem_cons_of_mem _ hother)]
      have hcall := h call List.mem_cons_self
      cases call <;> simp_all [perform, Repository.logged, Repository.perform, Call.operation]

theorem commits_performAll_commit {earlier later : List Call} (message : String)
    (hearlier : ∀ call ∈ earlier, call.operation ≠ .commit)
    (hlater : ∀ call ∈ later, call.operation ≠ .commit) :
    (s.performAll (earlier ++ .commit message :: later)).repository.commits =
      s.repository.commits ++
        [⟨Repository.hashOf (s.repository.commits.length + 1), message, "Mock Author", []⟩] := by
  rw [performAll_append, performAll_cons, commits_performAll_of_ne_commit _ hlater,
    ← s.commits_performAll_of_ne_commit hearlier]
  rfl

end Session

namespace Run

variable {α β : Type}

theorem run_bind (x : Run α) (f : α → Run β) (s : Session) :
    (x >>= f).run.run s =
      match x.run.run s with
      | (.ok a, t) => (f a).run.run t
      | (.error e, t) => (.error e, t) := by
  simp only [ExceptT.run_bind, StateT.run_bind]
  rcases x.run.run s with ⟨a | e, t⟩ <;> rfl

theorem run_bind_of_ok {x : Run α} {f : α → Run β} {s t : Session} {a : α}
    (h : x.run.run s = (.ok a, t)) : (x >>= f).run.run s = (f a).run.run t := by
  rw [run_bind, h]

theorem run_bind_of_error {x : Run α} {f : α → Run β} {s t : Session} {e : DocsError}
    (h : x.run.run s = (.error e, t)) : (x >>= f).run.run s = (.error e, t) := by
  rw [run_bind, h]

theorem run_say (notice : Notice) (s : Session) :
    (say notice).run.run s = (.ok (), s.saying [notice]) := rfl

theorem run_sayAll (notices : List Notice) (s : Session) :
    (sayAll notices).run.run s = (.ok (), s.saying notices) := rfl

theorem run_get (s : Session) : (get : Run Session).run.run s = (.ok s, s) := rfl

theorem run_set (s t : Session) : (set t : Run PUnit).run.run s = (.ok ⟨⟩, t) := rfl

theorem run_ofExcept (answer : Except DocsError α) (s : Session) :
    (ofExcept answer : Run α).run.run s = (answer, s) := by
  cases answer <;> rfl

theorem run_ask (action : Repository.Action α) (s : Session) :
    (ask action).run.run s =
      ((action s.repository).1,
        { s with
          repository := (action s.repository).2
          events := s.events ++
            ((action s.repository).2.calls.drop s.repository.calls.length).map Event.called }) := by
  unfold ask
  rw [run_bind_of_ok (run_get s), run_bind_of_ok (run_set s _), run_ofExcept]

theorem run_updateDocs (release : Release) (catalog : CatalogConfig) (s : Session) :
    (updateDocs release catalog).run.run s =
      ((release.updateDocs catalog s.tree).1,
        s.withTree (release.updateDocs catalog s.tree).2) := by
  unfold updateDocs
  rw [run_bind_of_ok (run_get s), run_bind_of_ok (run_set s _), run_ofExcept]
  rfl

theorem run_announce {call : Call} {action : Repository.Action α} {s : Session}
    (h : (action s.repository).2.calls = (s.repository.logged call).calls) :
    (announce call action).run.run s =
      ((action s.repository).1, { s.attempt call with repository := (action s.repository).2 }) := by
  unfold announce
  rw [run_bind_of_ok (run_say _ s), run_ask]
  simp [Session.saying, Session.attempt, Repository.logged, h]

variable {s : Session} {call : Call}

theorem run_announce_of_fails {answer : Repository.Action α} (h : s.repository.Fails call) :
    (announce call (Repository.record call answer)).run.run s =
      (.error (.versionControl call.operation.name "mock failure"), s.attempt call) := by
  rw [run_announce (by rw [Repository.record_of_fails answer h]),
    Repository.record_of_fails answer h]
  rfl

theorem run_announce_of_not_fails {answer : Repository.Action α} {a : α}
    (h : ¬ s.repository.Fails call)
    (hanswer : answer (s.repository.logged call) =
      (.ok a, (s.repository.logged call).perform call)) :
    (announce call (Repository.record call answer)).run.run s = (.ok a, s.perform call) := by
  have hrecord := (Repository.record_of_not_fails answer h).trans hanswer
  rw [run_announce (by rw [hrecord]; simp), hrecord]
  rfl

theorem run_announce_isClean (h : ¬ s.repository.Fails .status) :
    (announce .status Repository.isClean).run.run s =
      (.ok s.repository.nextClean, s.perform .status) := by
  have hclean := Repository.isClean_of_not_fails h
  rw [run_announce (by rw [hclean, Repository.calls_perform]), hclean]
  rfl

theorem run_announce_showHead {commit : Commit} (h : ¬ s.repository.Fails .head)
    (hlast : s.repository.commits.getLast? = some commit) :
    (announce .head Repository.showHead).run.run s = (.ok commit, s.perform .head) := by
  have hhead := Repository.showHead_of_not_fails h
  rw [run_announce (by rw [hhead, Repository.calls_perform]), hhead, hlast]
  rfl

end Run

end ReleaseDocs
