import ReleaseDocs.Text.CharClass
import ReleaseDocs.Text.Reading
import ReleaseDocs.Version

namespace ReleaseDocs

structure ReleaseTag where
  name : String
  language : String
  function : String
  version : String
deriving DecidableEq, Repr

namespace ReleaseTag

def isVersionToken (cs : List Char) : Bool :=
  isVersionText 3 cs

/-- The function and the version of a text that is a slash, a function, a slash and a version. -/
def functionAndVersion? (text : List Char) : Option (List Char × List Char) :=
  match fields '/' text with
  | [[], function, version] =>
      if isName function && isVersionToken version then some (function, version) else none
  | _ => none

/-- The parts of a text that starts with a language; the first language of the list that fits
counts. -/
def startingWithLanguage? (languages : List String) (text : List Char) :
    Option (String × List Char × List Char) :=
  languages.findSome? fun language => do
    let rest ← after? language.toList text
    let (function, version) ← functionAndVersion? rest
    some (language, function, version)

/-- The parts of the first place after a slash at which a language starts. -/
def afterSlash? (languages : List String) : List Char → Option (String × List Char × List Char)
  | [] => none
  | c :: text =>
      if c = '/' then
        (startingWithLanguage? languages text).or (afterSlash? languages text)
      else afterSlash? languages text

/-- The parts of a tag: a language may start the tag or follow any slash, and the leftmost place
wins. No language at all counts as one that is empty. -/
def parts? (languages : List String) (tag : List Char) :
    Option (String × List Char × List Char) :=
  let languages := if languages.isEmpty then [""] else languages
  (startingWithLanguage? languages tag).or (afterSlash? languages tag)

/-- Reads a tag without the white space around it. -/
def parse? (languages : List String) (tag : String) : Option ReleaseTag :=
  let name := trim tag
  (parts? languages name.toList).map fun (language, function, version) =>
    ⟨name, language, String.ofList function, String.ofList version⟩

/-- The patch version, if the token is a semantic version. -/
def patch? (tag : ReleaseTag) : Option PatchVersion :=
  PatchVersion.parse? tag.version

end ReleaseTag

end ReleaseDocs
