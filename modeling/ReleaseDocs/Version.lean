import ReleaseDocs.Error
import ReleaseDocs.Text.CharClass
import ReleaseDocs.Text.Digits
import ReleaseDocs.Text.Fields

namespace ReleaseDocs

/-- A `v` and runs of decimal digits, of any script, with points between them. -/
def isVersionText (count : Nat) : List Char → Bool
  | 'v' :: cs =>
      let numbers := fields '.' cs
      numbers.length == count &&
        numbers.all fun digits => !digits.isEmpty && digits.all isDecimalDigit
  | _ => false

structure MinorVersion where
  major : UInt64
  minor : UInt64
deriving DecidableEq, Repr, Inhabited

structure PatchVersion where
  major : UInt64
  minor : UInt64
  patch : UInt64
deriving DecidableEq, Repr, Inhabited

namespace MinorVersion

/-- The version as it is written, character by character. -/
def chars (v : MinorVersion) : List Char :=
  'v' :: (Decimal.digits v.major ++ '.' :: Decimal.digits v.minor)

def text (v : MinorVersion) : String :=
  String.ofList v.chars

/-- A number of a minor version: digits with at most one plus sign before them. -/
def number? : List Char → Option UInt64
  | '+' :: cs => Decimal.read? cs
  | cs => Decimal.read? cs

/-- The two numbers after a `v` and around the first point. -/
def read? : List Char → Option MinorVersion
  | 'v' :: cs =>
      match cs.dropWhile (· != '.') with
      | '.' :: minor => do
          let major ← number? (cs.takeWhile (· != '.'))
          let minor ← number? minor
          some ⟨major, minor⟩
      | _ => none
  | _ => none

def parse (token : String) : Except DocsError MinorVersion :=
  match read? token.toList with
  | some v => .ok v
  | none => .error (.invalidBranchFormat token)

/-- Whether the patch version was published under this minor version. -/
def contains (v : MinorVersion) (p : PatchVersion) : Bool :=
  p.major == v.major && p.minor == v.minor

/-- Order by the major number, then by the minor one. -/
def order (v w : MinorVersion) : Ordering :=
  (compare v.major w.major).then (compare v.minor w.minor)

end MinorVersion

/-- A version in the grammar of semantic versioning, 2.0.0. -/
structure SemanticVersion where
  major : UInt64
  minor : UInt64
  patch : UInt64
  preRelease : List (List Char)
  build : List (List Char)
deriving DecidableEq, Repr

namespace SemanticVersion

def isIdentifier (cs : List Char) : Bool :=
  !cs.isEmpty && cs.all fun c => c.isAlphanum || c == '-'

/-- An identifier that is a number has no needless zero. -/
def isPreReleaseIdentifier (cs : List Char) : Bool :=
  isIdentifier cs && !(cs.all Char.isDigit && Decimal.hasNeedlessZero cs)

/-- The identifiers behind a sign. An empty text has none, and no sign either. -/
def identifiers? (sign : Char) (valid : List Char → Bool) : List Char → Option (List (List Char))
  | [] => some []
  | c :: cs =>
      if c = sign ∧ (fields '.' cs).all valid then some (fields '.' cs) else none

/-- Three numbers with points between them, a pre-release behind the first hyphen, and a build
behind the first plus sign. -/
def read? (cs : List Char) : Option SemanticVersion :=
  let rest := cs.dropWhile fun c => c != '-' && c != '+'
  match fields '.' (cs.takeWhile fun c => c != '-' && c != '+') with
  | [major, minor, patch] => do
      let major ← Decimal.readCanonical? major
      let minor ← Decimal.readCanonical? minor
      let patch ← Decimal.readCanonical? patch
      let preRelease ← identifiers? '-' isPreReleaseIdentifier (rest.takeWhile (· != '+'))
      let build ← identifiers? '+' isIdentifier (rest.dropWhile (· != '+'))
      some ⟨major, minor, patch, preRelease, build⟩
  | _ => none

end SemanticVersion

namespace PatchVersion

def chars (p : PatchVersion) : List Char :=
  'v' :: (Decimal.digits p.major ++ '.' ::
    (Decimal.digits p.minor ++ '.' :: Decimal.digits p.patch))

def text (p : PatchVersion) : String :=
  String.ofList p.chars

def minorVersion (p : PatchVersion) : MinorVersion :=
  ⟨p.major, p.minor⟩

/-- A semantic version after a `v`. Those of pre-releases and builds are no patch versions. -/
def read? : List Char → Option PatchVersion
  | 'v' :: cs => do
      let version ← SemanticVersion.read? cs
      if version.preRelease.isEmpty && version.build.isEmpty then
        some ⟨version.major, version.minor, version.patch⟩
      else none
  | _ => none

def parse? (token : String) : Option PatchVersion :=
  read? token.toList

/-- Order of the numeric triples: `v1.0.10` comes after `v1.0.2`. -/
def order (p q : PatchVersion) : Ordering :=
  (compare p.major q.major).then ((compare p.minor q.minor).then (compare p.patch q.patch))

/-- Whether `p` was published after `q`. -/
def isNewer (p q : PatchVersion) : Bool :=
  p.order q == .gt

end PatchVersion

end ReleaseDocs
