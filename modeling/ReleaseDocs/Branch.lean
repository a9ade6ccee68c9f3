import ReleaseDocs.Text.CharClass
import ReleaseDocs.Version

namespace ReleaseDocs

structure ReleaseBranch where
  name : String
  function : String
  minor : MinorVersion
deriving DecidableEq, Repr

namespace ReleaseBranch

/-- The function and the version token that end a name, each as it is written. Any segments may
stand before them that hold no line feed. -/
def captures? (name : List Char) : Option (List Char × List Char) :=
  match (fields '/' name).reverse with
  | token :: function :: segments =>
      if isVersionText 2 token && isName function &&
          segments.all fun segment => !segment.contains '\n' then
        some (function, token)
      else none
  | _ => none

/-- Reads a name. Digits of any script make a version token, but a minor version is written in
ASCII digits and below 2^64; either way the error tells the whole name. -/
def parse (name : String) : Except DocsError ReleaseBranch :=
  match captures? name.toList with
  | none => .error (.invalidBranchFormat name)
  | some (function, token) =>
      match MinorVersion.parse (String.ofList token) with
      | .error _ => .error (.invalidBranchFormat name)
      | .ok minor => .ok ⟨name, String.ofList function, minor⟩

/-- The text that every tag of the release contains. -/
def fragment (branch : ReleaseBranch) : String :=
  branch.function ++ "/" ++ branch.minor.text

end ReleaseBranch

end ReleaseDocs
