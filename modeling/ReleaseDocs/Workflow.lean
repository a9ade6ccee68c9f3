import ReleaseDocs.Config
import ReleaseDocs.Notice
import ReleaseDocs.Resolution

/-!
The update of a release branch: check that the working tree is clean, fetch tags, check out the
branch, resolve it, update the documents, stage and commit them, and show the commit. Every step
succeeds or ends the run; what earlier steps did stays.
-/

namespace ReleaseDocs

/-- What happened during a run: notices to the operator and calls of the repository. -/
inductive Event where
  | said (notice : Notice)
  | called (call : Call)
deriving DecidableEq, Repr

namespace Event

def call? : Event → Option Call
  | called call => some call
  | said _ => none

/-- The text of a notice on the channel, and nothing for any other event. -/
def textOn (channel : Channel) : Event → String
  | said notice => if notice.channel = channel then notice.text else ""
  | called _ => ""

end Event

/-- The state of a run: the working tree, the repository, and what has happened so far. -/
structure Session where
  tree : FileTree
  repository : Repository
  events : List Event := []
deriving DecidableEq, Repr

namespace Session

def printed (session : Session) (channel : Channel) : String :=
  String.join (session.events.map (Event.textOn channel))

def calls (session : Session) : List Call :=
  session.events.filterMap Event.call?

end Session

/-- A part of a run: an answer or an error, and in both cases a state. -/
abbrev Run (α : Type) := ExceptT DocsError (StateM Session) α

namespace Run

def say (notice : Notice) : Run Unit :=
  modify fun s => { s with events := s.events ++ [.said notice] }

def sayAll (notices : List Notice) : Run Unit :=
  modify fun s => { s with events := s.events ++ notices.map Event.said }

/-- Asks the repository; the calls that it logs become events. -/
def ask {α : Type} (action : Repository.Action α) : Run α := do
  let s ← get
  let (answer, repository) := action s.repository
  let logged := repository.calls.drop s.repository.calls.length
  set { s with repository := repository, events := s.events ++ logged.map Event.called }
  ofExcept answer

def announce {α : Type} (call : Call) (action : Repository.Action α) : Run α := do
  say call.announcement
  ask action

def updateDocs (release : Release) (catalog : CatalogConfig) : Run UpdateReport := do
  let s ← get
  let (report, tree) := release.updateDocs catalog s.tree
  set { s with tree := tree }
  ofExcept report

end Run

/-- What a successful run leaves behind. -/
structure WorkflowResult where
  release : Release
  commit : String
  changedFiles : Nat
  /-- The commit, if the run shows it. -/
  shown : Option Commit
deriving DecidableEq, Repr

namespace Workflow

open Run

/-- Goes to the branch: the working tree must be clean, and tags are fetched if the configuration
says so. -/
def checkOut (config : Config) (branch : ReleaseBranch) : Run Unit := do
  let clean ← announce .status Repository.isClean
  if !clean then
    throw .dirtyWorkingTree
  if config.behavior.fetchTags then
    announce (.fetch config.remote) (Repository.fetchTags config.remote)
  announce (.checkout branch.name) (Repository.checkout branch.name)

def resolve (config : Config) (branch : ReleaseBranch) : Run Release := do
  let s ← get
  let resolution ← announce .tag (Resolution.ofBranch s.tree config.catalog.languages branch)
  sayAll (resolution.warnings.map Notice.warning)
  say (.release resolution.release)
  return resolution.release

/-- Updates the documents; neither a pass that changes nothing nor a working tree that is still
clean afterwards leaves anything to commit. -/
def refresh (config : Config) (release : Release) : Run UpdateReport := do
  let report ← updateDocs release config.catalog
  sayAll (report.updates.map Notice.docUpdate)
  if !report.hasChanges then
    throw (.docsUpToDate release.qualifiedName)
  let clean ← announce .status Repository.isClean
  if clean then
    throw (.docsUpToDate release.qualifiedName)
  return report

/-- Stages and commits the documents, and shows the commit if the configuration says so. -/
def publish (config : Config) (release : Release) : Run (String × Option Commit) := do
  announce .add Repository.stageTracked
  let message := release.commitMessage
  let hash ← announce (.commit message) (Repository.commit message)
  if config.behavior.showCommit then
    let commit ← announce .head Repository.showHead
    say (.commit commit)
    return (hash, some commit)
  else
    return (hash, none)

def runBranch (config : Config) (branch : ReleaseBranch) : Run WorkflowResult := do
  checkOut config branch
  let release ← resolve config branch
  let report ← refresh config release
  let (hash, shown) ← publish config release
  return ⟨release, hash, report.changedFiles.length, shown⟩

def run (config : Config) (name : String) : Run WorkflowResult := do
  let branch ← ofExcept (ReleaseBranch.parse name)
  runBranch config branch

end Workflow

end ReleaseDocs
