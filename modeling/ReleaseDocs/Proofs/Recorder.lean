import Mathlib.Data.List.GetD
import Mathlib.Data.List.Nodup
import ReleaseDocs.Proofs.Hexadecimal
import ReleaseDocs.Proofs.Session

/-!
A repository over any history of requests.

The state of the repository is settled by the history: each part of it by the requests that concern
this part, and by which of them failed. One request is one step, so a history is run by induction,
and every answer can be read off the history in front of it.
-/

namespace ReleaseDocs

theorem Operation.ofName?_eq_some_iff {name : String} {operation : Operation} :
    ofName? name = some operation ↔ operation.name = name := by
  constructor
  · intro h
    have hname := List.find?_some h
    exact beq_iff_eq.mp hname
  · rintro rfl
    cases operation <;> decide

namespace Repository

/-- What can be asked of a repository: to set up its answers, for its place, or for an operation. -/
inductive Request where
  | addTag (tag : String)
  | failOn (name : String)
  | prepareCleanStates (states : List Bool)
  | root
  | call (call : Call)
deriving DecidableEq

inductive Answer where
  | done
  | root (path : Path)
  | tags (tags : List String)
  | clean (state : Bool)
  | hash (hash : String)
  | commit (commit : Commit)

def Answer.clean? : Answer → Option Bool
  | clean state => some state
  | _ => none

def answering {α : Type} (f : α → Answer) (action : Action α) : Action Answer := fun r =>
  ((action r).1.map f, (action r).2)

def ofCall : Call → Action Answer
  | .fetch remote => answering (fun _ => .done) (fetchTags remote)
  | .checkout revision => answering (fun _ => .done) (checkout revision)
  | .tag => answering .tags listTags
  | .status => answering .clean isClean
  | .add => answering (fun _ => .done) stageTracked
  | .commit message => answering .hash (commit message)
  | .head => answering .commit showHead

namespace Request

def ask : Request → Action Answer
  | addTag tag => fun r => (.ok .done, r.addTag tag)
  | failOn name => fun r => (.ok .done, r.failOn (Operation.ofName? name))
  | prepareCleanStates states => fun r => (.ok .done, r.prepareCleanStates states)
  | root => fun r => (.ok (.root r.root), r)
  | call c => ofCall c

@[simp] def tag? : Request → Option String
  | addTag tag => some tag
  | _ => none

@[simp] def failing? : Request → Option String
  | failOn name => some name
  | _ => none

@[simp] def states : Request → List Bool
  | prepareCleanStates states => states
  | _ => []

@[simp] def call? : Request → Option Call
  | call c => some c
  | _ => none

@[simp] def message? : Request → Option String
  | call (.commit message) => some message
  | _ => none

end Request

/-- The requests made so far, the latest one in front. -/
abbrev History := List Request

def after (root : Path) : History → Repository
  | [] => { root := root }
  | request :: earlier => (request.ask (after root earlier)).2

/-- The answers about the working tree that were given while one was still prepared. -/
def given (root : Path) : History → List Bool
  | [] => []
  | request :: earlier =>
      if (after root earlier).cleanStates = [] then given root earlier
      else given root earlier ++
        ((request.ask (after root earlier)).1.toOption.bind Answer.clean?).toList

namespace History

@[simp] def tags : History → List String
  | [] => []
  | request :: earlier => tags earlier ++ request.tag?.toList

/-- All answers about the working tree that were ever prepared. -/
@[simp] def prepared : History → List Bool
  | [] => []
  | request :: earlier => prepared earlier ++ request.states

@[simp] def calls : History → List Call
  | [] => []
  | request :: earlier => calls earlier ++ request.call?.toList

/-- The name in the latest request that makes an operation fail. -/
@[simp] def failing : History → Option String
  | [] => none
  | request :: earlier => request.failing?.or (failing earlier)

def Fails (history : History) (operation : Operation) : Prop :=
  failing history = some operation.name

instance (history : History) (operation : Operation) : Decidable (history.Fails operation) :=
  inferInstanceAs (Decidable (_ = _))

/-- How many of the prepared answers have been given: one for each question about the working tree
that did not fail, as long as there were any left. -/
def taken : History → Nat
  | [] => 0
  | request :: earlier =>
      if request = .call .status ∧ ¬ Fails earlier .status ∧
          taken earlier < (prepared earlier).length then
        taken earlier + 1
      else taken earlier

def messages : History → List String
  | [] => []
  | request :: earlier =>
      if Fails earlier .commit then messages earlier
      else messages earlier ++ request.message?.toList

def commits (history : History) : List Commit :=
  history.messages.mapIdx fun i message => ⟨hashOf (i + 1), message, "Mock Author", []⟩

def repository (history : History) (root : Path) : Repository where
  root := root
  tags := history.tags
  cleanStates := history.prepared.drop history.taken
  failing := history.failing.bind Operation.ofName?
  calls := history.calls
  commits := history.commits

/-- The answer to a call that does not fail; there is no last commit before the first one. -/
def answer? (history : History) : Call → Option Answer
  | .fetch _ | .checkout _ | .add => some .done
  | .tag => some (.tags history.tags)
  | .status => some (.clean (history.prepared.getD history.taken true))
  | .commit _ => some (.hash (hashOf (history.messages.length + 1)))
  | .head => history.commits.getLast?.map .commit

theorem taken_le_length_prepared (history : History) :
    history.taken ≤ history.prepared.length := by
  induction history with
  | nil => exact Nat.le_refl 0
  | cons request earlier ih =>
    rw [taken, prepared, List.length_append]
    split <;> omega

section Call

variable {earlier : History} {call : Call}

theorem not_asks_of_fails (h : earlier.Fails call.operation) :
    ¬ (Request.call call = .call .status ∧ ¬ earlier.Fails .status) := by
  rintro ⟨hcall, hstatus⟩
  cases hcall
  exact hstatus h

theorem taken_call_of_fails (h : earlier.Fails call.operation) :
    taken (.call call :: earlier) = earlier.taken :=
  if_neg fun htakes => not_asks_of_fails h ⟨htakes.1, htakes.2.1⟩

theorem messages_call_of_fails (h : earlier.Fails call.operation) :
    messages (.call call :: earlier) = earlier.messages := by
  rw [messages]
  split
  · rfl
  · cases call with
    | commit message => contradiction
    | _ => exact List.append_nil _

theorem drop_taken_status (h : ¬ earlier.Fails .status) :
    earlier.prepared.drop (taken (.call .status :: earlier)) =
      (earlier.prepared.drop earlier.taken).tail := by
  rw [List.tail_drop, taken]
  by_cases hleft : earlier.taken < earlier.prepared.length
  · rw [if_pos ⟨rfl, h, hleft⟩]
  · rw [if_neg fun htakes => hleft htakes.2.2, List.drop_of_length_le (by omega),
      List.drop_of_length_le (by omega)]

theorem messages_commit (message : String) (h : ¬ earlier.Fails .commit) :
    messages (.call (.commit message) :: earlier) = earlier.messages ++ [message] :=
  if_neg h

end Call

@[simp] theorem length_commits (history : History) :
    history.commits.length = history.messages.length := by
  rw [commits, List.length_mapIdx]

theorem commits_eq_nil_iff {history : History} : history.commits = [] ↔ history.messages = [] := by
  rw [commits, List.mapIdx_eq_nil_iff]

theorem answer?_eq_none_iff {history : History} {call : Call} :
    history.answer? call = none ↔ call = .head ∧ history.messages = [] := by
  cases call <;> simp [answer?, commits_eq_nil_iff]

theorem isHexadecimal_hash (history : History) (i : Nat) (h : i < history.commits.length) :
    IsHexadecimal 40 (i + 1) history.commits[i].hash := by
  have hcommit : history.commits[i].hash = hashOf (i + 1) := by simp [commits]
  rw [hcommit]
  exact isHexadecimal_padded (by decide) (i + 1)

example : hashOf 26 = "000000000000000000000000000000000000001a" := by decide +kernel

theorem nodup_hashes (history : History) : (history.commits.map Commit.hash).Nodup := by
  rw [List.nodup_iff_injective_getElem]
  intro i j hij
  simp only [List.getElem_map] at hij
  have hi := history.isHexadecimal_hash i (by simpa using i.isLt)
  have hj := history.isHexadecimal_hash j (by simpa using j.isLt)
  rw [← hij] at hj
  exact Fin.ext (Nat.succ.inj (hi.eq_of_text hj))

theorem fails_repository_iff (root : Path) {history : History} {call : Call} :
    (history.repository root).Fails call ↔ history.Fails call.operation := by
  change history.failing.bind Operation.ofName? = _ ↔ history.failing = _
  rw [Option.bind_eq_some_iff]
  constructor
  · rintro ⟨name, hfailing, hname⟩
    rw [hfailing, Operation.ofName?_eq_some_iff.mp hname]
  · intro hfailing
    exact ⟨_, hfailing, Operation.ofName?_eq_some_iff.mpr rfl⟩

end History

section Calls

variable {α : Type} {f : α → Answer} {action : Action α} {r : Repository} {call : Call}

theorem answering_of_fails (h : r.Fails call) :
    answering f (record call action) r =
      (.error (.versionControl call.operation.name "mock failure"), r.logged call) := by
  rw [answering, record_of_fails action h]
  rfl

theorem answering_of_not_fails (h : ¬ r.Fails call) :
    answering f (record call action) r = answering f action (r.logged call) := by
  rw [answering, record_of_not_fails action h]
  rfl

theorem ofCall_of_fails (h : r.Fails call) :
    ofCall call r =
      (.error (.versionControl call.operation.name "mock failure"), r.logged call) := by
  cases call <;> exact answering_of_fails h

theorem ofCall_status (h : ¬ r.Fails .status) :
    ofCall .status r = (.ok (.clean r.nextClean), (r.logged .status).perform .status) := by
  rw [ofCall, answering, isClean_of_not_fails h]
  rfl

theorem ofCall_head (h : ¬ r.Fails .head) :
    ofCall .head r =
      ((r.commits.getLast?.map Answer.commit).elim
        (.error (.versionControl Operation.head.name "no commits")) .ok,
          (r.logged .head).perform .head) := by
  rw [ofCall, answering, showHead_of_not_fails h]
  cases r.commits.getLast? <;> rfl

theorem repository_ofCall_of_not_fails (h : ¬ r.Fails call) :
    (ofCall call r).2 = (r.logged call).perform call := by
  cases call with
  | status => rw [ofCall_status h]
  | head => rw [ofCall_head h]
  | _ => exact congrArg Prod.snd (answering_of_not_fails h)

end Calls

/-- One request takes the repository that a history accounts for to that of the longer history. -/
theorem repository_ask (root : Path) (earlier : History) (request : Request) :
    (request.ask (earlier.repository root)).2 = History.repository (request :: earlier) root := by
  cases request with
  | addTag tag =>
    simp [Request.ask, addTag, History.repository, History.commits, History.taken,
      History.messages]
  | failOn name =>
    simp [Request.ask, failOn, History.repository, History.commits, History.taken,
      History.messages]
  | prepareCleanStates states =>
    simp [Request.ask, prepareCleanStates, History.repository, History.commits, History.taken,
      History.messages, List.drop_append_of_le_length earlier.taken_le_length_prepared]
  | root =>
    simp [Request.ask, History.repository, History.commits, History.taken, History.messages]
  | call call =>
    by_cases hfails : earlier.Fails call.operation
    · rw [Request.ask, ofCall_of_fails ((History.fails_repository_iff root).mpr hfails)]
      simp [logged, History.repository, History.commits, History.taken_call_of_fails hfails,
        History.messages_call_of_fails hfails]
    · rw [Request.ask, repository_ofCall_of_not_fails (mt (History.fails_repository_iff root).mp hfails)]
      cases call with
      | status =>
        simp [logged, perform, History.repository, History.commits,
          History.drop_taken_status hfails, History.messages]
      | commit message =>
        simp [logged, perform, History.repository, History.commits, History.taken,
          History.messages_commit message hfails]
      | _ =>
        simp [logged, perform, History.repository, History.commits, History.taken,
          History.messages]

theorem after_eq_repository (root : Path) (history : History) :
    after root history = history.repository root := by
  induction history with
  | nil => rfl
  | cons request earlier ih =>
    rw [after, ih]
    exact repository_ask root earlier request

theorem answer_ofCall_of_not_fails (root : Path) {history : History} {call : Call}
    (h : ¬ history.Fails call.operation) :
    (ofCall call (history.repository root)).1 =
      (history.answer? call).elim (.error (.versionControl call.operation.name "no commits"))
        .ok := by
  replace h := mt (History.fails_repository_iff root).mp h
  cases call with
  | status =>
    have hnext : (history.repository root).nextClean =
        history.prepared.getD history.taken true := by
      rw [nextClean, List.headD_eq_head?_getD, List.getD_eq_getElem?_getD]
      exact congrArg (Option.getD · true) List.head?_drop
    rw [ofCall_status h, hnext]
    rfl
  | commit message =>
    refine (congrArg Prod.fst (answering_of_not_fails h)).trans ?_
    change Except.ok (Answer.hash (hashOf (history.commits.length + 1))) = _
    rw [History.length_commits]
    rfl
  | head =>
    rw [ofCall_head h]
    rfl
  | _ => exact congrArg Prod.fst (answering_of_not_fails h)

theorem clean?_ask (root : Path) (history : History) (request : Request) :
    (request.ask (history.repository root)).1.toOption.bind Answer.clean? =
      if request = .call .status ∧ ¬ history.Fails .status then
        some (history.prepared.getD history.taken true)
      else none := by
  cases request with
  | call call =>
    by_cases hfails : history.Fails call.operation
    · rw [Request.ask, ofCall_of_fails ((History.fails_repository_iff root).mpr hfails),
        if_neg (History.not_asks_of_fails hfails)]
      rfl
    · rw [Request.ask, answer_ofCall_of_not_fails root hfails]
      cases call with
      | status => exact (if_pos ⟨rfl, hfails⟩).symm
      | head =>
        rw [History.answer?]
        cases history.commits.getLast? <;> rfl
      | _ => rfl
  | _ => rfl

theorem given_cons (root : Path) (earlier : History) (request : Request) :
    given root (request :: earlier) =
      if request = .call .status ∧ ¬ earlier.Fails .status ∧
          earlier.taken < earlier.prepared.length then
        given root earlier ++ [earlier.prepared.getD earlier.taken true]
      else given root earlier := by
  have hstates : (earlier.repository root).cleanStates = [] ↔
      ¬ earlier.taken < earlier.prepared.length :=
    List.drop_eq_nil_iff.trans Nat.not_lt.symm
  rw [given, after_eq_repository, clean?_ask]
  by_cases hleft : earlier.taken < earlier.prepared.length
  · rw [if_neg fun hnone => hstates.mp hnone hleft]
    simp only [hleft, and_true]
    split <;> simp
  · rw [if_pos (hstates.mpr hleft), if_neg fun htakes => hleft htakes.2.2]

theorem given_eq_take_prepared (root : Path) (history : History) :
    given root history = history.prepared.take history.taken := by
  induction history with
  | nil => rfl
  | cons request earlier ih =>
    rw [given_cons, ih, History.prepared, History.taken]
    split
    · rename_i htakes
      obtain ⟨-, -, hleft⟩ := htakes
      rw [List.take_append_of_le_length hleft, List.getD_eq_getElem _ _ hleft,
        List.take_append_getElem]
    · rw [List.take_append_of_le_length (History.taken_le_length_prepared earlier)]

-- The question in between fails and takes no answer; the last one finds none left.
example :
    given ⟨"/"⟩ [.call .status, .call .status, .failOn "", .call .status, .failOn "status",
      .call .status, .prepareCleanStates [false, true]] = [false, true] := by decide +kernel

theorem calls_ask (root : Path) (history : History) (request : Request) :
    (request.ask (after root history)).2.calls =
      (after root history).calls ++ request.call?.toList := by
  rw [after_eq_repository, repository_ask]
  rfl

theorem calls_prefix_after (root : Path) (history later : History) :
    (after root history).calls <+: (after root (later ++ history)).calls := by
  induction later with
  | nil => exact List.prefix_rfl
  | cons request later ih =>
    refine ih.trans ?_
    rw [List.cons_append, after, calls_ask]
    exact List.prefix_append _ _

/-- What a new repository has become after a history, and what it does next. -/
structure Records (root : Path) (history : History) : Prop where
  state : after root history = history.repository root
  log : ∀ request : Request, (request.ask (after root history)).2.calls =
    (after root history).calls ++ request.call?.toList
  appendOnly : ∀ later : History,
    (after root history).calls <+: (after root (later ++ history)).calls
  place : Request.root.ask (after root history) = (.ok (.root root), after root history)
  failure : ∀ call : Call, history.Fails call.operation →
    (Request.call call).ask (after root history) =
      (.error (.versionControl call.operation.name "mock failure"),
        (after root history).logged call)
  answers : ∀ call answer, ((Request.call call).ask (after root history)).1 = .ok answer ↔
    ¬ history.Fails call.operation ∧ history.answer? call = some answer
  errors : ∀ call, (∃ text, ((Request.call call).ask (after root history)).1 =
      .error (.versionControl call.operation.name text)) ↔
    history.Fails call.operation ∨ call = .head ∧ history.messages = []
  order : given root history = history.prepared.take history.taken
  hashes : ∀ i (h : i < history.commits.length), IsHexadecimal 40 (i + 1) history.commits[i].hash
  distinct : (history.commits.map Commit.hash).Nodup

/-- After every history a repository has recorded exactly what was asked of it. -/
theorem records_after (root : Path) (history : History) : Records root history := by
  have hstate := after_eq_repository root history
  have hfailure (call : Call) (hfails : history.Fails call.operation) :=
    ofCall_of_fails ((History.fails_repository_iff root).mpr hfails)
  refine ⟨hstate, calls_ask root history, calls_prefix_after root history, ?place, ?failure,
    ?answers, ?errors, given_eq_take_prepared root history, history.isHexadecimal_hash,
    history.nodup_hashes⟩
  case place =>
    rw [hstate]
    rfl
  case failure =>
    rw [hstate]
    exact hfailure
  case answers =>
    intro call answer
    rw [hstate]
    by_cases hfails : history.Fails call.operation
    · simp [Request.ask, hfailure call hfails, hfails]
    · rw [Request.ask, answer_ofCall_of_not_fails root hfails]
      cases history.answer? call <;> simp [hfails]
  case errors =>
    intro call
    rw [hstate, ← History.answer?_eq_none_iff]
    by_cases hfails : history.Fails call.operation
    · simp [Request.ask, hfailure call hfails, hfails]
    · rw [Request.ask, answer_ofCall_of_not_fails root hfails]
      cases history.answer? call <;> simp [hfails]

end Repository

end ReleaseDocs
