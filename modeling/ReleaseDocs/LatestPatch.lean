import ReleaseDocs.Branch
import ReleaseDocs.Error
import ReleaseDocs.Tag

namespace ReleaseDocs

/-- The tag of the highest patch, its version, and the tags that had to be skipped. -/
structure LatestPatch where
  tag : ReleaseTag
  version : PatchVersion
  warnings : List Warning
deriving DecidableEq, Repr

inductive TagFinding where
  /-- The tag does not mention the release, or belongs to another one. -/
  | unrelated
  | skipped (warning : Warning)
  | candidate (tag : ReleaseTag) (version : PatchVersion)
deriving DecidableEq, Repr

/-- Judges a tag by its text: what does not contain the fragment of the branch is unrelated. -/
def TagFinding.ofTag (languages : List String) (branch : ReleaseBranch) (tag : String) :
    TagFinding :=
  let name := trim tag
  if name.isEmpty || !occursIn branch.fragment.toList name.toList then .unrelated
  else
    match ReleaseTag.parse? languages name with
    | none => .skipped (.tagMismatch name languages)
    | some release =>
        match release.patch? with
        | none =>
            .skipped (.unparsableTag name ("'" ++ release.version ++ "' is not a semantic version"))
        | some version =>
            if release.function = branch.function ∧ branch.minor.contains version = true then
              .candidate release version
            else .unrelated

def TagFinding.warning? : TagFinding → Option Warning
  | skipped warning => some warning
  | _ => none

def TagFinding.candidate? : TagFinding → Option (ReleaseTag × PatchVersion)
  | candidate tag version => some (tag, version)
  | _ => none

namespace LatestPatch

/-- The first of the candidates with the highest version, given the best one so far. -/
def newest (best : ReleaseTag × PatchVersion) :
    List (ReleaseTag × PatchVersion) → ReleaseTag × PatchVersion
  | [] => best
  | candidate :: rest =>
      newest (if candidate.2.isNewer best.2 then candidate else best) rest

/-- Selects the highest patch of the branch's release; of equal ones the first listed wins. -/
def select (languages : List String) (branch : ReleaseBranch) (tags : List String) :
    Except DocsError LatestPatch :=
  if branch.function.isEmpty then .error .missingIdentifier
  else
    let findings := tags.map (TagFinding.ofTag languages branch)
    match findings.filterMap TagFinding.candidate? with
    | [] => .error (.noMatchingRelease branch.function branch.minor.text)
    | first :: rest =>
        let (tag, version) := newest first rest
        .ok ⟨tag, version, findings.filterMap TagFinding.warning?⟩

end LatestPatch

end ReleaseDocs
