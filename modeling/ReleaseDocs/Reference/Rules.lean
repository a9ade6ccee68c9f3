import ReleaseDocs.Config
import ReleaseDocs.Reference.CatalogLink
import ReleaseDocs.Reference.Package
import ReleaseDocs.Reference.Tag
import ReleaseDocs.Release

/-!
The three substitutions that bring a document up to a release: tag references get its patch
version, catalog links its minor version, and references to its example packages are pinned to the
tag.
-/

namespace ReleaseDocs

/-- What the documents of one release are compared with and what is written into them. -/
structure RefreshRules where
  function : Bytes
  /-- The links to the function's page, up to the version. -/
  page : Bytes
  /-- The package references to the examples of the area, up to the name. -/
  exampleDirectory : Bytes
  exampleNames : List Bytes
  patch : Bytes
  minor : Bytes
  /-- What is written behind a package reference. -/
  pin : Bytes
deriving DecidableEq, Repr

namespace RefreshRules

/-- The rules of a release in a catalog; slashes at the end of the catalog's addresses do not
count. -/
def ofRelease (release : Release) (catalog : CatalogConfig) : RefreshRules where
  function := utf8Bytes release.function
  page := utf8Bytes (trimSlashes catalog.url ++ "/" ++ release.function ++ "/")
  exampleDirectory :=
    utf8Bytes (trimSlashes catalog.packageRepository ++ "/" ++ release.area.examplesSubpath ++ "/")
  exampleNames := release.exampleNames.map utf8Bytes
  patch := utf8Bytes release.patch.text
  minor := utf8Bytes release.minor.text
  pin := utf8Bytes ("@" ++ release.function ++ "/" ++ release.patch.text)

def refreshTags (rules : RefreshRules) (text : Bytes) : Bytes :=
  TagReference.refresh rules.function rules.patch text

def refreshLinks (rules : RefreshRules) (text : Bytes) : Bytes :=
  CatalogLink.refresh rules.page rules.minor text

def pinPackages (rules : RefreshRules) (text : Bytes) : Bytes :=
  PackageReference.refresh rules.exampleDirectory rules.exampleNames rules.pin text

/-- The three rules one after the other: tags, links, packages. -/
def apply (rules : RefreshRules) (text : Bytes) : Bytes :=
  rules.pinPackages (rules.refreshLinks (rules.refreshTags text))

end RefreshRules

end ReleaseDocs
