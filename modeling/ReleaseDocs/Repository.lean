import ReleaseDocs.Error

/-!
A repository that records the operations asked of it. Its answers are prepared: the tags it lists,
whether its working tree is clean, and one operation that fails.
-/

namespace ReleaseDocs

structure FileChange where
  path : String
  insertions : Nat
  deletions : Nat
deriving DecidableEq, Repr

structure Commit where
  hash : String
  message : String
  author : String
  files : List FileChange
deriving DecidableEq, Repr

inductive Operation where
  | fetch
  | checkout
  | tag
  | status
  | add
  | commit
  | head
deriving DecidableEq, Repr

namespace Operation

def name : Operation → String
  | fetch => "fetch"
  | checkout => "checkout"
  | tag => "tag"
  | status => "status"
  | add => "add"
  | commit => "commit"
  | head => "show"

def all : List Operation :=
  [fetch, checkout, tag, status, add, commit, head]

def ofName? (name : String) : Option Operation :=
  all.find? fun operation => operation.name == name

end Operation

inductive Call where
  | fetch (remote : String)
  | checkout (revision : String)
  | tag
  | status
  | add
  | commit (message : String)
  | head
deriving DecidableEq, Repr

namespace Call

def operation : Call → Operation
  | fetch _ => .fetch
  | checkout _ => .checkout
  | tag => .tag
  | status => .status
  | add => .add
  | commit _ => .commit
  | head => .head

/-- The call as it is logged: the name of its operation, then its argument if it has one. -/
def text : Call → String
  | fetch remote => "fetch " ++ remote
  | checkout revision => "checkout " ++ revision
  | commit message => "commit " ++ message
  | call => call.operation.name

end Call

structure Repository where
  root : Path
  tags : List String := []
  /-- The answers still prepared for questions about the working tree. -/
  cleanStates : List Bool := []
  failing : Option Operation := none
  calls : List Call := []
  commits : List Commit := []
deriving DecidableEq, Repr

namespace Repository

/-- An operation of a repository: an answer or an error, and in both cases a repository. -/
abbrev Action (α : Type) := Repository → Except DocsError α × Repository

def addTag (tag : String) (r : Repository) : Repository :=
  { r with tags := r.tags ++ [tag] }

def failOn (operation : Option Operation) (r : Repository) : Repository :=
  { r with failing := operation }

def prepareCleanStates (states : List Bool) (r : Repository) : Repository :=
  { r with cleanStates := r.cleanStates ++ states }

/-- Logs a call and then goes on with `answer`, unless its operation is the failing one. -/
def record {α : Type} (call : Call) (answer : Action α) : Action α := fun r =>
  let logged := { r with calls := r.calls ++ [call] }
  if r.failing = some call.operation then
    (.error (.versionControl call.operation.name "mock failure"), logged)
  else answer logged

def fetchTags (remote : String) : Action Unit :=
  record (.fetch remote) fun r => (.ok (), r)

def checkout (revision : String) : Action Unit :=
  record (.checkout revision) fun r => (.ok (), r)

def listTags : Action (List String) :=
  record .tag fun r => (.ok r.tags, r)

/-- The next prepared answer; with none left the working tree is clean. -/
def isClean : Action Bool :=
  record .status fun r =>
    match r.cleanStates with
    | [] => (.ok true, r)
    | state :: states => (.ok state, { r with cleanStates := states })

def stageTracked : Action Unit :=
  record .add fun r => (.ok (), r)

/-- The hash of the `n`-th commit: `n` in forty hexadecimal digits. -/
def hashOf (n : Nat) : String :=
  let digits := Nat.toDigits 16 n
  String.ofList (List.replicate (40 - digits.length) '0' ++ digits)

def commit (message : String) : Action String :=
  record (.commit message) fun r =>
    let hash := hashOf (r.commits.length + 1)
    (.ok hash, { r with commits := r.commits ++ [⟨hash, message, "Mock Author", []⟩] })

def showHead : Action Commit :=
  record .head fun r =>
    match r.commits.getLast? with
    | some commit => (.ok commit, r)
    | none => (.error (.versionControl Operation.head.name "no commits"), r)

end Repository

end ReleaseDocs
