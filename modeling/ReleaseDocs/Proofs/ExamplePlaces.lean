import ReleaseDocs.Proofs.Discovery
import ReleaseDocs.Proofs.DocFrame

namespace ReleaseDocs

open FileTree

namespace FileTree

variable {tree : FileTree}

theorem text_ne_empty_of_locate {path : Path} {place : Location}
    (h : tree.locate path = .ok place) : path.text ≠ "" := by
  intro hempty
  simp [locate, hempty] at h

theorem eq_append_of_locate_readme {path : Path} {place document : Location}
    (hplace : tree.locate path = .ok place)
    (h : tree.locate (path.join "README.md") = .ok document) :
    document = place ++ ["README.md"] := by
  have hplain : IsPlainName "README.md" := ⟨by decide, by decide, by decide, by decide⟩
  rw [tree.locate_join (text_ne_empty_of_locate hplace) hplain.2.2.2, hplace] at h
  rw [eq_enter_of_walk h, enter_of_isPlainName hplain]

theorem exists_locate_of_mem_changes {release : Release} {catalog : CatalogConfig}
    {document : Location} (h : document ∈ tree.changes (release.updateDocs catalog tree).2) :
    ∃ path ∈ release.docFiles, tree.locate path = .ok document := by
  by_contra hnone
  have hframe := RefreshRules.lookup?_updateDocs_of_ne (RefreshRules.ofRelease release catalog)
    fun path hpath hlocate => hnone ⟨path, hpath, hlocate⟩
  exact h hframe

end FileTree

namespace FunctionLocation

variable {tree : FileTree} {root : Path} {language function : String}
  {location : FunctionLocation} {home : Location}

/-- The document of a located function, and those of the places that its examples lead to. -/
def documents (tree : FileTree) (root : Path) (location : FunctionLocation) (home : Location) :
    Set Location :=
  {document | document = home ++ ["README.md"] ∨ ∃ e ∈ location.examples, ∃ place,
    tree.locate (location.area.examplesRoot root) = .ok place ∧
      document = enter place e.name ++ ["README.md"]}

/-- Where a located function and its examples are. -/
structure Places (tree : FileTree) (root : Path) (location : FunctionLocation) (home : Location) :
    Prop where
  located : tree.locate location.functionPath = .ok home
  examples : ∀ e ∈ location.examples, ∃ place,
    tree.locate (location.area.examplesRoot root) = .ok place ∧
      tree.locate e.path = .ok (enter place e.name) ∧
      ((∃ child, tree.locate e.path = .ok (place ++ [child])) ↔ IsPlainName e.name)
  names : ∀ text urls, tree.readText (location.functionPath.join "metadata.yaml") = .ok text →
    Metadata.Lists text urls →
    ((∀ e ∈ location.examples, IsPlainName e.name) ↔
      ∀ url ∈ urls, ∀ name, Metadata.IsLastSegment url name → IsPlainName name)
  reached : ∀ release : Release, release.functionPath = location.functionPath →
    release.examples = location.examples →
    ∀ path ∈ release.docFiles, ∀ document, tree.locate path = .ok document →
      document ∈ documents tree root location home
  changed : ∀ release : Release, release.functionPath = location.functionPath →
    release.examples = location.examples → ∀ catalog,
    tree.changes (release.updateDocs catalog tree).2 ⊆ documents tree root location home

theorem exists_place_of_mem (h : discover tree root language function = .ok location)
    {e : Example} (he : e ∈ location.examples) :
    '/' ∉ e.name.toList ∧ ∃ place,
      tree.locate (location.area.examplesRoot root) = .ok place ∧
        tree.locate e.path = .ok (enter place e.name) := by
  obtain ⟨metadata, -, -, hfind⟩ := discover_eq_ok_iff.mp h
  obtain ⟨hname, hpath, hdirectory⟩ := path_eq_of_findExamples hfind e he
  obtain ⟨url, -, hurl⟩ := List.mem_map.mp hname
  have hslash : '/' ∉ e.name.toList := hurl ▸ Metadata.slash_not_mem_exampleName url
  have hroot : (location.area.examplesRoot root).text ≠ "" := by
    rw [Area.examplesRoot, Path.join_of_relative _ (by decide)]
    simp
  obtain ⟨place', hplace', -⟩ := isDirectory_eq_true_iff.mp hdirectory
  refine ⟨hslash, ?_⟩
  have hjoin := hplace'
  rw [hpath, tree.locate_join hroot hslash] at hjoin
  cases hplace : tree.locate (location.area.examplesRoot root) with
  | error fault => rw [hplace] at hjoin; cases hjoin
  | ok place =>
    rw [hplace] at hjoin
    exact ⟨place, rfl, by rw [hplace', eq_enter_of_walk hjoin]⟩

theorem mem_documents_of_mem_docFiles
    (h : discover tree root language function = .ok location)
    (hhome : tree.locate location.functionPath = .ok home) {release : Release}
    (hfunction : release.functionPath = location.functionPath)
    (hexamples : release.examples = location.examples) {path : Path}
    (hpath : path ∈ release.docFiles) {document : Location}
    (hlocate : tree.locate path = .ok document) : document ∈ documents tree root location home := by
  rw [Release.docFiles, Release.functionReadme, hfunction, hexamples] at hpath
  rcases List.mem_cons.mp hpath with rfl | hpath
  · exact Or.inl (eq_append_of_locate_readme hhome hlocate)
  · obtain ⟨e, he, rfl⟩ := List.mem_map.mp hpath
    obtain ⟨-, place, hplace, hexample⟩ := exists_place_of_mem h he
    exact Or.inr ⟨e, he, place, hplace, eq_append_of_locate_readme hexample hlocate⟩

/-- An example lies inside the directory of the examples exactly if its name is plain, and no
document is reached but that of the function and those of the places where its examples are. -/
theorem exists_places_of_discover (h : discover tree root language function = .ok location) :
    ∃ home, Places tree root location home := by
  obtain ⟨metadata, hlocate, hload, hfind⟩ := discover_eq_ok_iff.mp h
  obtain ⟨home, hhome, -⟩ := isDirectory_eq_true_iff.mp (locate_eq_ok hlocate).2
  refine ⟨home, hhome, fun e he => ?_, fun text urls hread hlists => ?_,
    fun release hfunction hexamples path hpath document hlocate => ?_,
    fun release hfunction hexamples catalog document hdocument => ?_⟩
  · obtain ⟨hslash, place, hplace, hexample⟩ := exists_place_of_mem h he
    refine ⟨place, hplace, hexample, ?_⟩
    rw [hexample]
    simp only [Except.ok.injEq]
    exact exists_enter_eq_iff hslash
  · have hurls : metadata.exampleUrls = urls := by
      have hparse := hload
      rw [Metadata.load, Metadata.fileName, hread] at hparse
      have hlisted := hparse.symm.trans (Metadata.parse_eq_ok_iff.mpr hlists)
      rw [Except.ok.inj hlisted]
    obtain ⟨-, hexamples⟩ := findExamples_eq_ok_iff.mp hfind
    rw [hexamples, Metadata.exampleNames, hurls]
    simp only [List.forall_mem_map, Metadata.isLastSegment_iff, forall_eq]
  · exact mem_documents_of_mem_docFiles h hhome hfunction hexamples hpath hlocate
  · obtain ⟨path, hpath, hlocate⟩ := exists_locate_of_mem_changes hdocument
    exact mem_documents_of_mem_docFiles h hhome hfunction hexamples hpath hlocate

/-- A catalog whose only example is named `..`. -/
def parentCatalog : FileTree where
  working := []
  entries := [(["README.md"], .file (utf8Bytes "fn:v1.0.2")), (["functions"], .directory),
    (["functions", "go"], .directory), (["functions", "go", "fn"], .directory),
    (["functions", "go", "fn", "metadata.yaml"],
      .file (utf8Bytes "examplePackageURLs:\n- https://example.com/..\n")),
    (["examples"], .directory)]

theorem discover_parentCatalog :
    discover parentCatalog ⟨"/"⟩ "go" "fn" =
      .ok ⟨.core, ⟨"/functions/go/fn"⟩, [⟨"..", ⟨"/examples/.."⟩⟩]⟩ := by
  have hlocate : locate parentCatalog ⟨"/"⟩ "go" "fn" = .ok (.core, ⟨"/functions/go/fn"⟩) := by
    decide +kernel
  have hpath : (Path.mk "/functions/go/fn").join Metadata.fileName =
      ⟨"/functions/go/fn/metadata.yaml"⟩ := by decide +kernel
  have htext : parentCatalog.readText ⟨"/functions/go/fn/metadata.yaml"⟩ =
      .ok "examplePackageURLs:\n- https://example.com/..\n" := by decide +kernel
  have hload : Metadata.load parentCatalog ⟨"/functions/go/fn"⟩ =
      .ok ⟨["https://example.com/.."]⟩ := by
    simp only [Metadata.load, hpath, htext]
    exact Metadata.parse_of_tokens? (by decide +kernel) (by decide +kernel) _
  have hfind : findExamples parentCatalog (Area.core.examplesRoot ⟨"/"⟩)
      (Metadata.exampleNames ⟨["https://example.com/.."]⟩) =
        .ok [⟨"..", ⟨"/examples/.."⟩⟩] := by decide +kernel
  exact discover_eq_ok_iff.mpr ⟨_, hlocate, hload, hfind⟩

theorem places_parentCatalog :
    ∃ location home, discover parentCatalog ⟨"/"⟩ "go" "fn" = .ok location ∧
      (∃ e ∈ location.examples, parentCatalog.locate e.path = .ok [] ∧ ¬ IsPlainName e.name) ∧
      ["README.md"] ∈ documents parentCatalog ⟨"/"⟩ location home := by
  obtain ⟨home, hplaces⟩ := exists_places_of_discover discover_parentCatalog
  have hroot : parentCatalog.locate (Area.core.examplesRoot ⟨"/"⟩) = .ok ["examples"] := by
    decide +kernel
  obtain ⟨place, hplace, hexample, -⟩ :=
    hplaces.examples ⟨"..", ⟨"/examples/.."⟩⟩ List.mem_cons_self
  obtain rfl : ["examples"] = place := Except.ok.inj (hroot.symm.trans hplace)
  refine ⟨_, home, discover_parentCatalog, ⟨_, List.mem_cons_self, hexample, ?_⟩, ?_⟩
  · exact fun hplain => hplain.2.2.1 rfl
  · exact Or.inr ⟨_, List.mem_cons_self, _, hroot, by decide⟩

end FunctionLocation

end ReleaseDocs
