import ReleaseDocs.Error
import ReleaseDocs.Version

namespace ReleaseDocs

/-- The part of the catalog that a function belongs to: the core or the community's. -/
inductive Area where
  | core
  | contrib
deriving DecidableEq, Repr

namespace Area

def all : List Area := [core, contrib]

def name : Area → String
  | core => "core"
  | contrib => "contrib"

def base : Area → Path → Path
  | core, root => root
  | contrib, root => root.join "contrib"

def functionPath (area : Area) (root : Path) (language function : String) : Path :=
  (((area.base root).join "functions").join language).join function

def examplesRoot (area : Area) (root : Path) : Path :=
  (area.base root).join "examples"

/-- The examples directory as it stands in package references, seen from the repository. -/
def examplesSubpath : Area → String
  | core => "examples"
  | contrib => "contrib/examples"

def isContrib : Area → Bool
  | core => false
  | contrib => true

/-- The area that a release keeps as a flag. -/
def ofContrib (isContrib : Bool) : Area :=
  if isContrib then contrib else core

@[simp] theorem ofContrib_isContrib (area : Area) : ofContrib area.isContrib = area := by
  cases area <;> rfl

end Area

structure Example where
  name : String
  path : Path
deriving DecidableEq, Repr

def Example.readme (e : Example) : Path :=
  e.path.join "README.md"

/-- A function, the version that its docs should refer to, and where they are. -/
structure Release where
  function : String
  minor : MinorVersion
  language : String
  patch : PatchVersion
  functionPath : Path
  isContrib : Bool
  examples : List Example
deriving DecidableEq, Repr

namespace Release

def area (r : Release) : Area :=
  Area.ofContrib r.isContrib

def exampleNames (r : Release) : List String :=
  r.examples.map Example.name

def functionReadme (r : Release) : Path :=
  r.functionPath.join "README.md"

/-- Every document of the release: the one of the function, then those of its examples. -/
def docFiles (r : Release) : List Path :=
  r.functionReadme :: r.examples.map Example.readme

/-- Language, function and patch version, as at the end of the tag that published them. -/
def qualifiedName (r : Release) : String :=
  r.language ++ "/" ++ r.function ++ "/" ++ r.patch.text

def commitMessage (r : Release) : String :=
  "docs: Update tags for " ++ r.qualifiedName

end Release

end ReleaseDocs
