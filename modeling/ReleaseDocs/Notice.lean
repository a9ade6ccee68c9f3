import ReleaseDocs.DocUpdate
import ReleaseDocs.Repository
import ReleaseDocs.Text.Fields
import ReleaseDocs.Text.Quoted

namespace ReleaseDocs

inductive Channel where
  | output
  | error
deriving DecidableEq, Repr

inductive Notice where
  | error (message : String)
  | success (message : String)
  | status (message : String)
  /-- A command of the version control, announced before it is run. -/
  | command (text : String)
  | warning (warning : Warning)
  | release (release : Release)
  | docUpdate (update : DocUpdate)
  | commit (commit : Commit)
deriving DecidableEq, Repr

/-- One attribute of the release per line; the line after the last is not ended. -/
def Release.summary (release : Release) : String :=
  "\n".intercalate <|
    ["Function:       " ++ release.function,
      "Language:       " ++ release.language,
      "Minor version:  " ++ release.minor.text,
      "Latest patch:   " ++ release.patch.text,
      "Catalog area:   " ++ release.area.name,
      "Function path:  " ++ release.functionPath.text] ++
    (if release.examples.isEmpty then ["Examples:       (none)"]
    else "Examples:" :: release.exampleNames.map ("  - " ++ ·))

def FileChange.summary (change : FileChange) : String :=
  " " ++ change.path ++ " | +" ++ toString change.insertions ++ " -" ++ toString change.deletions
    ++ "\n"

/-- Hash, author and message of the commit, then the files that it changes, if any. -/
def Commit.summary (commit : Commit) : String :=
  "commit " ++ commit.hash ++ "\nAuthor: " ++ commit.author ++ "\n\n    " ++ trimEnd commit.message
    ++ "\n" ++
    (if commit.files.isEmpty then ""
    else "\n" ++ String.join (commit.files.map FileChange.summary))

namespace Notice

def channel : Notice → Channel
  | error _ => .error
  | warning _ => .error
  | _ => .output

/-- The notice as it is printed, with the end of its last line. -/
def text : Notice → String
  | error message => "ERROR: " ++ message ++ "\n"
  | success message => "✓ " ++ message ++ "\n"
  | status message => "→ " ++ message ++ "\n"
  | command line => line ++ "\n"
  | warning w => "⚠ WARNING: " ++ w.message ++ "\n"
  | release r =>
      "\nResolved release:\n" ++
        String.join ((lines r.summary).map fun line => "  " ++ line ++ "\n")
  | docUpdate update =>
      if update.changed then "✓ Updated " ++ update.path.text ++ "\n"
      else "→ Unchanged " ++ update.path.text ++ "\n"
  | commit c => "\n" ++ c.summary ++ "\n"

end Notice

def Call.announcement : Call → Notice
  | fetch remote => .command ("git fetch " ++ remote ++ " --tags")
  | checkout revision => .command ("git checkout " ++ revision)
  | tag => .command "git tag"
  | status => .status "Checking working tree is clean"
  | add => .command "git add -u"
  | commit message => .command ("git commit -m " ++ quoted message)
  | head => .command "git show"

end ReleaseDocs
