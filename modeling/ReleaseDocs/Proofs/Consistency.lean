import ReleaseDocs.Proofs.BranchSpelling
import ReleaseDocs.Proofs.Paths
import ReleaseDocs.Proofs.Selection
import ReleaseDocs.Reference.Rules
import ReleaseDocs.Resolution

namespace ReleaseDocs

theorem bind_eq_ok_iff {ε α β : Type} {x : Except ε α} {f : α → Except ε β} {b : β} :
    x >>= f = .ok b ↔ ∃ a, x = .ok a ∧ f a = .ok b := by
  cases x with
  | error e => simp [bind, Except.bind]
  | ok a => simp [bind, Except.bind]

namespace ReleaseBranch

theorem PublishedBy.trim_eq_or {branch : ReleaseBranch} {languages : List String}
    {tag language : String} {patch : UInt64}
    (h : branch.PublishedBy languages tag language patch) {name : String}
    (hname : name = language ++ "/" ++ branch.function ++ "/" ++
      (branch.minor.patchVersion patch).text) :
    trim tag = name ∨ ∃ front, trim tag = front ++ "/" ++ name := by
  obtain ⟨-, -, before, hsegments⟩ := h
  have hjoin : joinFields '/' [language.toList, branch.function.toList,
      (branch.minor.patchVersion patch).chars] = name.toList := by
    simp [hname, joinFields, PatchVersion.text]
  have htag := joinFields_fields '/' (trim tag).toList
  rw [← hsegments] at htag
  have hor := joinFields_append_eq_or '/' before (List.cons_ne_nil language.toList
    [branch.function.toList, (branch.minor.patchVersion patch).chars])
  rw [htag, hjoin] at hor
  rcases hor with heq | ⟨front, hfront⟩
  · exact Or.inl (String.toList_inj.mp heq)
  · refine Or.inr ⟨String.ofList front, ?_⟩
    rw [← String.toList_inj, hfront]
    simp

end ReleaseBranch

namespace LatestPatch

/-- What is selected is the highest patch that a tag publishes, and is read from that tag. -/
theorem firstHighest_of_select {languages : List String} (hne : languages ≠ [])
    (hlanguages : ∀ language ∈ languages, '/' ∉ language.toList) {branch : ReleaseBranch}
    (hfunction : branch.function ≠ "") {tags : List String} {latest : LatestPatch}
    (h : select languages branch tags = .ok latest) :
    ∃ tag language patch, branch.FirstHighest languages tags tag language patch ∧
      latest.version = branch.minor.patchVersion patch ∧
      latest.tag = ⟨trim tag, language, branch.function, latest.version.text⟩ := by
  have hchoice : (select languages branch tags).map choice = _ :=
    map_choice_select languages branch hfunction
  rw [h] at hchoice
  cases hchosen : chosen? (candidates languages branch tags) with
  | none => rw [hchosen] at hchoice; cases hchoice
  | some chosen =>
    rw [hchosen] at hchoice
    obtain rfl := Except.ok.inj hchoice
    exact firstHighest_of_chosen? hne hlanguages hchosen

end LatestPatch

theorem Metadata.slash_not_mem_exampleName (url : String) :
    '/' ∉ (exampleName url).toList := by
  have hne := fields_ne_nil '/' (trimSlashes url).toList
  rw [exampleName, String.toList_ofList, List.getLastD_eq_getLast?,
    List.getLast?_eq_some_getLast hne, Option.getD_some]
  exact not_mem_of_mem_fields (List.getLast_mem hne)

theorem Metadata.parse_of_tokens? {text address : String}
    (hblank : (trim text).isEmpty = false)
    (htokens : Yaml.tokens? text.toList = some [.blockMappingStart, .key,
      .scalar exampleUrlsKey true, .value, .blockEntry, .scalar address.toList true, .blockEnd])
    (path : Path) : parse text path = .ok ⟨[address]⟩ := by
  have hroot : Yaml.Document.root? [.blockMappingStart, .key, .scalar exampleUrlsKey true, .value,
      .blockEntry, .scalar address.toList true, .blockEnd] =
        some (.mapping none [(.scalar none exampleUrlsKey true,
          .sequence none [.scalar none address.toList true])]) := by
    simp [Yaml.Document.root?, Yaml.Document.directives?, Yaml.Node.read?, Yaml.Node.content?,
      Yaml.Node.blockEntries?, Yaml.Node.entryNode?, Yaml.Node.itemBefore?,
      Yaml.Node.indentlessItems?, Yaml.Node.startsContent, Yaml.Node.endsEntry,
      Yaml.Node.endsItem, Yaml.Node.endsIndentless]
  have hdocument : Yaml.Document.ofText? text.toList =
      some ⟨.mapping none [(.scalar none exampleUrlsKey true,
        .sequence none [.scalar none address.toList true])], []⟩ := by
    simp only [Yaml.Document.ofText?, htokens, bind, Option.bind, Yaml.Document.ofTokens?, hroot]
    rfl
  have hmetadata : ofDocument? ⟨.mapping none [(.scalar none exampleUrlsKey true,
      .sequence none [.scalar none address.toList true])], []⟩ = some ⟨[address]⟩ := by
    simp [ofDocument?, Yaml.Document.follow?, scalarText?, scalarTexts?]
  rw [parse, hblank, hdocument, Option.bind_some, hmetadata]
  rfl

namespace FunctionLocation

variable {tree : FileTree} {root : Path} {language function : String}

theorem locate_eq_ok {area : Area} {path : Path}
    (h : locate tree root language function = .ok (area, path)) :
    path = area.functionPath root language function ∧ tree.isDirectory path = true := by
  unfold locate at h
  simp only at h
  split at h
  · rename_i found hfound
    obtain rfl := Except.ok.inj h
    have hmem := List.mem_of_find?_eq_some hfound
    obtain ⟨area', -, heq⟩ := List.mem_map.mp hmem
    obtain ⟨rfl, rfl⟩ := Prod.mk.inj heq
    have hdirectory := List.find?_some hfound
    exact ⟨rfl, hdirectory⟩
  · cases h

theorem findExamples_eq_ok_iff {examplesRoot : Path} {names : List String}
    {examples : List Example} :
    findExamples tree examplesRoot names = .ok examples ↔
      (∀ name ∈ names, tree.isDirectory (examplesRoot.join name) = true) ∧
        examples = names.map fun name => ⟨name, examplesRoot.join name⟩ := by
  induction names generalizing examples with
  | nil =>
    rw [findExamples, Except.ok.injEq, and_iff_right (by simp)]
    exact eq_comm
  | cons name names ih =>
    rw [findExamples, List.forall_mem_cons, List.map_cons]
    by_cases hname : tree.isDirectory (examplesRoot.join name) = true
    · rw [if_pos hname, and_iff_right hname]
      cases hrest : findExamples tree examplesRoot names with
      | error e =>
        refine iff_of_false nofun fun h => ?_
        rw [ih.mpr ⟨h.1, rfl⟩] at hrest
        cases hrest
      | ok rest =>
        obtain ⟨hnames, hexamples⟩ := ih.mp hrest
        rw [and_iff_right hnames, ← hexamples, Except.map, Except.ok.injEq]
        exact eq_comm
    · rw [if_neg hname]
      exact iff_of_false nofun fun h => hname h.1.1

theorem path_eq_of_findExamples {examplesRoot : Path} {names : List String}
    {examples : List Example} (h : findExamples tree examplesRoot names = .ok examples) :
    ∀ e ∈ examples, e.name ∈ names ∧ e.path = examplesRoot.join e.name ∧
      tree.isDirectory e.path = true := by
  obtain ⟨hdirectories, rfl⟩ := findExamples_eq_ok_iff.mp h
  exact List.forall_mem_map.mpr fun name hname => ⟨hname, rfl, hdirectories name hname⟩

theorem discover_eq_ok_iff {location : FunctionLocation} :
    discover tree root language function = .ok location ↔
      ∃ metadata, locate tree root language function =
          .ok (location.area, location.functionPath) ∧
        Metadata.load tree location.functionPath = .ok metadata ∧
        findExamples tree (location.area.examplesRoot root) metadata.exampleNames =
          .ok location.examples := by
  constructor
  · intro h
    obtain ⟨⟨area, path⟩, hlocate, h⟩ := bind_eq_ok_iff.mp h
    obtain ⟨metadata, hload, h⟩ := bind_eq_ok_iff.mp h
    obtain ⟨examples, hexamples, h⟩ := bind_eq_ok_iff.mp h
    obtain rfl := Except.ok.inj h
    exact ⟨metadata, hlocate, hload, hexamples⟩
  · rintro ⟨metadata, hlocate, hload, hexamples⟩
    refine bind_eq_ok_iff.mpr ⟨_, hlocate, ?_⟩
    refine bind_eq_ok_iff.mpr ⟨metadata, hload, ?_⟩
    exact bind_eq_ok_iff.mpr ⟨_, hexamples, rfl⟩

end FunctionLocation

namespace Area

theorem functionPath_eq (area : Area) (root : Path) {language function : String}
    (hlanguage : language ≠ "") (hslash : '/' ∉ language.toList) (hname : '/' ∉ function.toList) :
    area.functionPath root language function =
      (area.base root).join ("functions/" ++ language ++ "/" ++ function) := by
  have hinner : Path.IsInner "functions" := ⟨by decide, by decide, by decide⟩
  have hlanguages := Path.isInner_append hinner hlanguage hslash
  rw [functionPath, Path.join_join _ hinner (Path.head_ne_slash hslash),
    Path.join_join _ hlanguages (Path.head_ne_slash hname)]
  rfl

theorem join_examplesRoot (area : Area) (root : Path) {name : String} (h : '/' ∉ name.toList) :
    (area.examplesRoot root).join name = (area.base root).join ("examples/" ++ name) := by
  have hinner : Path.IsInner "examples" := ⟨by decide, by decide, by decide⟩
  rw [examplesRoot, Path.join_join _ hinner (Path.head_ne_slash h)]
  rfl

theorem join_examplesSubpath (area : Area) (root : Path) :
    root.join area.examplesSubpath = area.examplesRoot root := by
  cases area with
  | core => rfl
  | contrib =>
    have hinner : Path.IsInner "contrib" := ⟨by decide, by decide, by decide⟩
    have hchild : "examples".toList.head? ≠ some '/' := by decide
    rw [examplesRoot, base, Path.join_join _ hinner hchild]
    rfl

end Area

/-- What a release that was resolved from a branch says agrees with the name of the branch, with
the listed tags and with the tree. -/
structure Release.Consistent (release : Release) (name : String) (tags : List String)
    (tree : FileTree) (root : Path) : Prop where
  branch : ∃ branch, ReleaseBranch.parse name = .ok branch ∧ release.function = branch.function ∧
    release.minor = branch.minor
  version : release.minor.contains release.patch = true
  /-- The commit message names a tag that exists. -/
  published : ∃ tag ∈ tags, trim tag = release.qualifiedName ∨
    ∃ front, trim tag = front ++ "/" ++ release.qualifiedName
  functionPath : release.functionPath = (release.area.base root).join
    ("functions/" ++ release.language ++ "/" ++ release.function)
  isFunction : tree.isDirectory release.functionPath = true
  examples : ∀ e ∈ release.examples,
    e.path = (release.area.base root).join ("examples/" ++ e.name) ∧
      tree.isDirectory e.path = true
  /-- The directory that package references name, seen from the root, is that of the examples. -/
  references : ∃ subpath,
    (∀ catalog, (RefreshRules.ofRelease release catalog).exampleDirectory =
      utf8Bytes (trimSlashes catalog.packageRepository ++ "/" ++ subpath ++ "/")) ∧
    root.join subpath = (release.area.base root).join "examples" ∧
    ∀ e ∈ release.examples, e.path = (root.join subpath).join e.name

namespace Resolution

variable {tree : FileTree} {root : Path} {languages tags : List String} {found : Resolution}

theorem ofTags_eq_ok_iff {branch : ReleaseBranch} :
    ofTags tree root languages branch tags = .ok found ↔
      ∃ latest location, LatestPatch.select languages branch tags = .ok latest ∧
        FunctionLocation.discover tree root latest.tag.language branch.function = .ok location ∧
        found = ⟨⟨branch.function, branch.minor, latest.tag.language, latest.version,
          location.functionPath, location.area.isContrib, location.examples⟩, latest.warnings⟩ := by
  constructor
  · intro h
    obtain ⟨latest, hselect, h⟩ := bind_eq_ok_iff.mp h
    obtain ⟨location, hdiscover, h⟩ := bind_eq_ok_iff.mp h
    exact ⟨latest, location, hselect, hdiscover, (Except.ok.inj h).symm⟩
  · rintro ⟨latest, location, hselect, hdiscover, rfl⟩
    refine bind_eq_ok_iff.mpr ⟨latest, hselect, ?_⟩
    exact bind_eq_ok_iff.mpr ⟨location, hdiscover, rfl⟩

theorem ofName_eq_ok_iff {name : String} {r after : Repository} :
    ofName tree languages name r = (.ok found, after) ↔
      ∃ branch, ReleaseBranch.parse name = .ok branch ∧ r.failing ≠ some .tag ∧
        ofTags tree r.root languages branch r.tags = .ok found ∧
        after = { r with calls := r.calls ++ [.tag] } := by
  unfold ofName
  cases hparse : ReleaseBranch.parse name with
  | error e => simp
  | ok branch =>
    by_cases hfails : r.failing = some .tag
    · simp [ofBranch, Repository.listTags, Repository.record, Call.operation, hfails, Except.bind]
    · simp [ofBranch, Repository.listTags, Repository.record, Call.operation, hfails, Except.bind,
        eq_comm]

theorem consistent_ofTags (hne : languages ≠ [])
    (hlanguages : ∀ language ∈ languages, language ≠ "" ∧ '/' ∉ language.toList) {name : String}
    {branch : ReleaseBranch} (hparse : ReleaseBranch.parse name = .ok branch)
    (h : ofTags tree root languages branch tags = .ok found) :
    found.release.Consistent name tags tree root := by
  obtain ⟨latest, location, hselect, hdiscover, rfl⟩ := ofTags_eq_ok_iff.mp h
  have hname := ReleaseBranch.isName_of_parse hparse
  have hfunction : branch.function ≠ "" := by simpa using (isName_iff.mp hname).1
  obtain ⟨tag, language, patch, ⟨hpublished, earlier, later, rfl, -⟩, hversion, htag⟩ :=
    LatestPatch.firstHighest_of_select hne (fun l hl => (hlanguages l hl).2) hfunction hselect
  obtain ⟨hnonempty, hslash⟩ := hlanguages language hpublished.1
  obtain ⟨metadata, hlocate, -, hfind⟩ := FunctionLocation.discover_eq_ok_iff.mp hdiscover
  obtain ⟨hpath, hdirectory⟩ := FunctionLocation.locate_eq_ok hlocate
  have hexamples := FunctionLocation.path_eq_of_findExamples hfind
  rw [htag, Area.functionPath_eq _ _ hnonempty hslash (ReleaseTag.slash_not_mem_of_isName hname)]
    at hpath
  have harea : Release.area ⟨branch.function, branch.minor, latest.tag.language, latest.version,
      location.functionPath, location.area.isContrib, location.examples⟩ = location.area :=
    location.area.ofContrib_isContrib
  refine ⟨⟨branch, hparse, rfl, rfl⟩, ?_, ⟨tag, by simp, ?_⟩, ?_, hdirectory, ?_,
    location.area.examplesSubpath, fun catalog => ?_, ?_, ?_⟩
  · rw [hversion]
    exact MinorVersion.contains_patchVersion _ _
  · refine hpublished.trim_eq_or ?_
    rw [Release.qualifiedName, htag, hversion]
  · rw [harea, htag]
    exact hpath
  · intro e he
    obtain ⟨hmem, hjoin, hdirectory⟩ := hexamples e he
    obtain ⟨url, -, hurl⟩ := List.mem_map.mp hmem
    have hslash := hurl ▸ Metadata.slash_not_mem_exampleName url
    rw [harea]
    exact ⟨hjoin.trans (location.area.join_examplesRoot root hslash), hdirectory⟩
  · simp only [RefreshRules.ofRelease, harea]
  · rw [harea]
    exact location.area.join_examplesSubpath root
  · intro e he
    rw [location.area.join_examplesSubpath root]
    exact (hexamples e he).2.1

theorem consistent_ofName (hne : languages ≠ [])
    (hlanguages : ∀ language ∈ languages, language ≠ "" ∧ '/' ∉ language.toList) {name : String}
    {r after : Repository} (h : ofName tree languages name r = (.ok found, after)) :
    found.release.Consistent name r.tags tree r.root := by
  obtain ⟨branch, hparse, -, htags, -⟩ := ofName_eq_ok_iff.mp h
  exact consistent_ofTags hne hlanguages hparse htags

/-- A community's catalog with one function and one example. -/
def communityCatalog : FileTree where
  working := []
  entries := [(["contrib"], .directory), (["contrib", "functions"], .directory),
    (["contrib", "functions", "ts"], .directory),
    (["contrib", "functions", "ts", "fn"], .directory),
    (["contrib", "functions", "ts", "fn", "metadata.yaml"],
      .file (utf8Bytes "examplePackageURLs:\n- a/fn-simple\n")),
    (["contrib", "examples"], .directory), (["contrib", "examples", "fn-simple"], .directory)]

def communityRepository : Repository where
  root := ⟨"/"⟩
  tags := ["go/fn/v1.0.2", "release/ts/fn/v1.0.10 ", "go/my-fn/v1.0.11"]

theorem parse_fnSimple (path : Path) :
    Metadata.parse "examplePackageURLs:\n- a/fn-simple\n" path = .ok ⟨["a/fn-simple"]⟩ :=
  Metadata.parse_of_tokens? (by decide +kernel) (by decide +kernel) path

theorem load_communityCatalog :
    Metadata.load communityCatalog ⟨"/contrib/functions/ts/fn"⟩ = .ok ⟨["a/fn-simple"]⟩ := by
  have htext : communityCatalog.readText ⟨"/contrib/functions/ts/fn/metadata.yaml"⟩ =
      .ok "examplePackageURLs:\n- a/fn-simple\n" := by decide +kernel
  have hpath : (Path.mk "/contrib/functions/ts/fn").join Metadata.fileName =
      ⟨"/contrib/functions/ts/fn/metadata.yaml"⟩ := by decide +kernel
  simp only [Metadata.load, hpath, htext]
  exact parse_fnSimple _

theorem discover_communityCatalog :
    FunctionLocation.discover communityCatalog communityRepository.root "ts" "fn" =
      .ok ⟨.contrib, ⟨"/contrib/functions/ts/fn"⟩,
        [⟨"fn-simple", ⟨"/contrib/examples/fn-simple"⟩⟩]⟩ := by
  have hlocate : FunctionLocation.locate communityCatalog communityRepository.root "ts" "fn" =
      .ok (.contrib, ⟨"/contrib/functions/ts/fn"⟩) := by decide +kernel
  have hfind : FunctionLocation.findExamples communityCatalog
      (Area.contrib.examplesRoot communityRepository.root)
      (Metadata.exampleNames ⟨["a/fn-simple"]⟩) =
        .ok [⟨"fn-simple", ⟨"/contrib/examples/fn-simple"⟩⟩] := by decide +kernel
  exact FunctionLocation.discover_eq_ok_iff.mpr ⟨_, hlocate, load_communityCatalog, hfind⟩

theorem ofName_community :
    ofName communityCatalog ["go", "ts"] "fn/v1.0" communityRepository =
      (.ok ⟨⟨"fn", ⟨1, 0⟩, "ts", ⟨1, 0, 10⟩, ⟨"/contrib/functions/ts/fn"⟩, true,
        [⟨"fn-simple", ⟨"/contrib/examples/fn-simple"⟩⟩]⟩, []⟩,
        { communityRepository with calls := [.tag] }) := by
  have hparse : ReleaseBranch.parse "fn/v1.0" = .ok ⟨"fn/v1.0", "fn", ⟨1, 0⟩⟩ := by
    decide +kernel
  have hselect : LatestPatch.select ["go", "ts"] ⟨"fn/v1.0", "fn", ⟨1, 0⟩⟩
      communityRepository.tags = .ok ⟨⟨"release/ts/fn/v1.0.10", "ts", "fn", "v1.0.10"⟩,
        ⟨1, 0, 10⟩, []⟩ := by decide +kernel
  refine ofName_eq_ok_iff.mpr ⟨_, hparse, by decide, ?_, rfl⟩
  exact ofTags_eq_ok_iff.mpr ⟨_, _, hselect, discover_communityCatalog, rfl⟩

theorem consistent_ofName_community :
    ∃ found after, ofName communityCatalog ["go", "ts"] "fn/v1.0" communityRepository =
      (.ok found, after) ∧ found.release.examples ≠ [] ∧
      found.release.Consistent "fn/v1.0" communityRepository.tags communityCatalog
        communityRepository.root :=
  ⟨_, _, ofName_community, by decide,
    consistent_ofName (by decide) (by decide) ofName_community⟩

end Resolution

end ReleaseDocs
