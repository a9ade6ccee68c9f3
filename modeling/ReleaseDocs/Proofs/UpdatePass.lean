import ReleaseDocs.Proofs.DocFrame

namespace ReleaseDocs

namespace FileTree

variable {tree other : FileTree} {path : Path}

/-- The path leads to a file. -/
def Readable (tree : FileTree) (path : Path) : Prop :=
  ∃ content, tree.readBytes path = .ok content

theorem readBytes_congr (hlocate : other.locate path = tree.locate path)
    (hlookup : ∀ location, tree.locate path = .ok location →
      other.lookup? location = tree.lookup? location) :
    other.readBytes path = tree.readBytes path := by
  unfold readBytes find
  rw [hlocate]
  cases h : tree.locate path with
  | error fault => rfl
  | ok location => simp only [bind, Except.bind, hlookup location h]

end FileTree

namespace UpdateReport

variable (paths : List Path) (p : Path → Bool)

theorem changedFiles_map : (mk (paths.map fun path => ⟨path, p path⟩)).changedFiles =
    paths.filter p := by
  simp [changedFiles, List.filter_map, Function.comp_def]

theorem warnings_map : (mk (paths.map fun path => ⟨path, p path⟩)).warnings =
    (paths.filter fun path => !p path).map .docUnchanged := by
  simp [warnings, List.filter_map, Function.comp_def]

end UpdateReport

namespace RefreshRules

open FileTree

variable {rules : RefreshRules} {tree after : FileTree} {paths : List Path}

/-- The rules would change the document. -/
def outdated (rules : RefreshRules) (tree : FileTree) (path : Path) : Bool :=
  match tree.readBytes path with
  | .ok content => decide (rules.apply content ≠ content)
  | .error _ => false

/-- The document can be read, and written if the rules change it. -/
def Updatable (rules : RefreshRules) (tree : FileTree) (path : Path) : Prop :=
  ∃ content, tree.readBytes path = .ok content ∧ (rules.apply content ≠ content →
    ∃ after, tree.writeBytes path (rules.apply content) = .ok after)

/-- The document cannot be read, or the rules change it and it cannot be written. -/
inductive FailsWith (rules : RefreshRules) (tree : FileTree) (path : Path) : FileFault → Prop
  | unreadable {fault : FileFault} (hread : tree.readBytes path = .error fault) :
      FailsWith rules tree path fault
  | unwritable {content : Bytes} {fault : FileFault} (hread : tree.readBytes path = .ok content)
      (hchanges : rules.apply content ≠ content)
      (hwrite : tree.writeBytes path (rules.apply content) = .error fault) :
      FailsWith rules tree path fault

theorem Updatable.readable {path : Path} (h : rules.Updatable tree path) : tree.Readable path :=
  h.imp fun _ => And.left

theorem updatable_or_exists_failsWith (rules : RefreshRules) (tree : FileTree) (path : Path) :
    rules.Updatable tree path ∨ ∃ fault, rules.FailsWith tree path fault := by
  cases hread : tree.readBytes path with
  | error fault => exact Or.inr ⟨fault, .unreadable hread⟩
  | ok content =>
    by_cases hsame : rules.apply content = content
    · exact Or.inl ⟨content, hread, fun hchanges => absurd hsame hchanges⟩
    · cases hwrite : tree.writeBytes path (rules.apply content) with
      | error fault => exact Or.inr ⟨fault, .unwritable hread hsame hwrite⟩
      | ok after => exact Or.inl ⟨content, hread, fun _ => ⟨after, hwrite⟩⟩

theorem updatable_or_exists_first (rules : RefreshRules) (tree : FileTree) (paths : List Path) :
    (∀ path ∈ paths, rules.Updatable tree path) ∨ ∃ earlier path later fault,
      paths = earlier ++ path :: later ∧ (∀ other ∈ earlier, rules.Updatable tree other) ∧
        rules.FailsWith tree path fault := by
  induction paths with
  | nil => exact Or.inl (by simp)
  | cons path paths ih =>
    rcases rules.updatable_or_exists_failsWith tree path with hpath | ⟨fault, hfault⟩
    · rcases ih with hall | ⟨earlier, other, later, fault, rfl, hearlier, hfault⟩
      · exact Or.inl (List.forall_mem_cons.mpr ⟨hpath, hall⟩)
      · exact Or.inr ⟨path :: earlier, other, later, fault, rfl,
          List.forall_mem_cons.mpr ⟨hpath, hearlier⟩, hfault⟩
    · exact Or.inr ⟨[], path, paths, fault, rfl, by simp, hfault⟩

section Congr

variable {other : FileTree} {path : Path} (hshape : SameShape tree other)
  (hsame : other.readBytes path = tree.readBytes path)
include hshape hsame

theorem Updatable.congr (h : rules.Updatable tree path) : rules.Updatable other path := by
  obtain ⟨content, hread, hwrite⟩ := h
  refine ⟨content, hsame.trans hread, fun hchanges => ?_⟩
  obtain ⟨after, hafter⟩ := hwrite hchanges
  cases hother : other.writeBytes path (rules.apply content) with
  | ok written => exact ⟨written, rfl⟩
  | error fault =>
    rw [hshape.writeBytes_eq_error_iff.mp hother] at hafter
    cases hafter

theorem FailsWith.congr {fault : FileFault} (h : rules.FailsWith tree path fault) :
    rules.FailsWith other path fault := by
  cases h with
  | unreadable hread => exact .unreadable (hsame.trans hread)
  | unwritable hread hchanges hwrite =>
    exact .unwritable (hsame.trans hread) hchanges (hshape.writeBytes_eq_error_iff.mpr hwrite)

end Congr

theorem FailsWith.updateDoc_eq {path : Path} {fault : FileFault}
    (h : rules.FailsWith tree path fault) :
    rules.updateDoc tree path = .error (.file path fault) := by
  cases h with
  | unreadable hread => simp [updateDoc, hread]
  | unwritable hread hchanges hwrite => simp [updateDoc, hread, hchanges, hwrite]

theorem Updatable.exists_updateDoc_eq {path : Path} (h : rules.Updatable tree path) :
    ∃ update after, rules.updateDoc tree path = .ok (update, after) := by
  obtain ⟨content, hread, hwrite⟩ := h
  by_cases hsame : rules.apply content = content
  · exact ⟨⟨path, false⟩, tree, by simp [updateDoc, hread, hsame]⟩
  · obtain ⟨after, hafter⟩ := hwrite hsame
    exact ⟨⟨path, true⟩, after, by simp [updateDoc, hread, hsame, hafter]⟩

/-- The documents of the paths are rewritten, and all else is as it was. -/
structure PassFrame (rules : RefreshRules) (tree after : FileTree) (paths : List Path) :
    Prop where
  shape : SameShape tree after
  written : ∀ path ∈ paths, ∀ content, tree.readBytes path = .ok content →
    after.readBytes path = .ok (rules.apply content)
  others : ∀ location, (∀ path ∈ paths, tree.locate path ≠ .ok location) →
    after.lookup? location = tree.lookup? location

theorem PassFrame.readBytes_eq (h : PassFrame rules tree after paths) {path : Path}
    (hpath : ∀ other ∈ paths, ∀ location, tree.locate other = .ok location →
      tree.locate path ≠ .ok location) : after.readBytes path = tree.readBytes path := by
  refine readBytes_congr (h.shape.locate_eq path) fun location hlocate => ?_
  exact h.others location fun other hother hsame => hpath other hother location hsame hlocate

section EndsWell

variable {updates : List DocUpdate} (hapart : tree.Apart paths)
  (h : rules.updateDocs tree paths = (.ok updates, after))
include hapart h

theorem map_path_of_updateDocs : updates.map DocUpdate.path = paths :=
  (rewrites_updateDocs hapart h).paths

theorem exists_readBytes_of_mem_updates {update : DocUpdate} (hupdate : update ∈ updates) :
    ∃ before, tree.readBytes update.path = .ok before ∧
      after.readBytes update.path = .ok (rules.apply before) ∧
      (update.changed = true ↔ rules.apply before ≠ before) := by
  obtain ⟨location, before, hlocate, hbefore, hafter, hchanged⟩ :=
    (rewrites_updateDocs hapart h).rewritten update hupdate
  have hshape := sameShape_updateDocs rules tree paths
  rw [h] at hshape
  exact ⟨before, readBytes_eq_ok_iff.mpr ⟨location, hlocate, hbefore⟩,
    readBytes_eq_ok_iff.mpr ⟨location, (hshape.locate_eq _).trans hlocate, hafter⟩, hchanged⟩

theorem passFrame_of_updateDocs : PassFrame rules tree after paths := by
  obtain rfl : (rules.updateDocs tree paths).2 = after := congrArg Prod.snd h
  refine ⟨sameShape_updateDocs rules tree paths, ?_, fun location => lookup?_updateDocs_of_ne rules⟩
  intro path hpath content hread
  rw [← map_path_of_updateDocs hapart h] at hpath
  obtain ⟨update, hupdate, rfl⟩ := List.mem_map.mp hpath
  obtain ⟨before, hbefore, hafter, -⟩ := exists_readBytes_of_mem_updates hapart h hupdate
  obtain rfl := Except.ok.inj (hread.symm.trans hbefore)
  exact hafter

theorem updates_of_updateDocs :
    updates = paths.map fun path => ⟨path, rules.outdated tree path⟩ := by
  rw [← map_path_of_updateDocs hapart h, List.map_map]
  refine (List.map_id updates).symm.trans (List.map_congr_left fun update hupdate => ?_)
  obtain ⟨before, hread, -, hchanged⟩ := exists_readBytes_of_mem_updates hapart h hupdate
  have houtdated : update.changed = rules.outdated tree update.path := by
    rw [Bool.eq_iff_iff, hchanged, outdated, hread, decide_eq_true_iff]
  rw [id, Function.comp, ← houtdated]

theorem readable_of_updateDocs : ∀ path ∈ paths, tree.Readable path := by
  intro path hpath
  rw [← map_path_of_updateDocs hapart h] at hpath
  obtain ⟨update, hupdate, rfl⟩ := List.mem_map.mp hpath
  obtain ⟨before, hread, -⟩ := exists_readBytes_of_mem_updates hapart h hupdate
  exact ⟨before, hread⟩

end EndsWell

theorem exists_updateDocs_eq_ok (hapart : tree.Apart paths)
    (h : ∀ path ∈ paths, rules.Updatable tree path) :
    ∃ updates after, rules.updateDocs tree paths = (.ok updates, after) := by
  induction paths generalizing tree with
  | nil => exact ⟨_, _, rfl⟩
  | cons path paths ih =>
    obtain ⟨hpath, hpaths⟩ := List.forall_mem_cons.mp h
    obtain ⟨hfirst, hothers⟩ := List.pairwise_cons.mp hapart
    obtain ⟨update, middle, hdoc⟩ := hpath.exists_updateDoc_eq
    obtain ⟨place, before, hplace, -, -, hshape, hlookup⟩ := updateDoc_eq_ok hdoc
    have hsame (other : Path) (hother : other ∈ paths) :
        middle.readBytes other = tree.readBytes other := by
      refine readBytes_congr (hshape.locate_eq other) fun location hlocation => ?_
      rw [hlookup, if_neg]
      rintro rfl
      exact hfirst other hother location hplace hlocation
    obtain ⟨updates, after, hdocs⟩ := ih ((hshape.apart_iff paths).mpr hothers) fun other hother =>
      (hpaths other hother).congr hshape (hsame other hother)
    exact ⟨update :: updates, after, by simp [updateDocs, hdoc, hdocs, Except.map]⟩

theorem updateDocs_append {updates : List DocUpdate}
    (h : rules.updateDocs tree paths = (.ok updates, after)) (later : List Path) :
    rules.updateDocs tree (paths ++ later) =
      ((rules.updateDocs after later).1.map (updates ++ ·), (rules.updateDocs after later).2) := by
  induction paths generalizing tree updates with
  | nil =>
    cases h
    rcases hlater : rules.updateDocs after later with ⟨e | updates, last⟩ <;>
      simp [Except.map, hlater]
  | cons path paths ih =>
    obtain ⟨update, middle, rest, hdoc, hdocs, rfl⟩ := updateDocs_cons_eq_ok h
    simp only [List.cons_append, updateDocs, hdoc, ih hdocs]
    cases (rules.updateDocs after later).1 <;> rfl

theorem exists_updateDocs_of_updatable (hapart : tree.Apart paths)
    (hupdatable : ∀ path ∈ paths, rules.Updatable tree path) :
    ∃ after, rules.updateDocs tree paths =
        (.ok (paths.map fun path => ⟨path, rules.outdated tree path⟩), after) ∧
      PassFrame rules tree after paths := by
  obtain ⟨updates, after, hdocs⟩ := exists_updateDocs_eq_ok hapart hupdatable
  exact ⟨after, updates_of_updateDocs hapart hdocs ▸ hdocs, passFrame_of_updateDocs hapart hdocs⟩

theorem exists_updateDocs_of_failsWith {earlier later : List Path} {path : Path}
    {fault : FileFault} (hapart : tree.Apart (earlier ++ path :: later))
    (hearlier : ∀ other ∈ earlier, rules.Updatable tree other)
    (hfault : rules.FailsWith tree path fault) :
    ∃ after, rules.updateDocs tree (earlier ++ path :: later) =
        (.error (.file path fault), after) ∧
      PassFrame rules tree after earlier ∧
      ∀ other ∈ path :: later, after.readBytes other = tree.readBytes other := by
  obtain ⟨hapart, -, hothers⟩ := List.pairwise_append.mp hapart
  obtain ⟨after, hdocs, hframe⟩ := exists_updateDocs_of_updatable hapart hearlier
  have hsame (other : Path) (hother : other ∈ path :: later) :
      after.readBytes other = tree.readBytes other :=
    hframe.readBytes_eq fun front hfront => hothers front hfront other hother
  have hdoc : rules.updateDoc after path = .error (.file path fault) :=
    (hfault.congr hframe.shape (hsame path List.mem_cons_self)).updateDoc_eq
  have hend : rules.updateDocs after (path :: later) = (.error (.file path fault), after) := by
    simp [updateDocs, hdoc]
  exact ⟨after, by rw [updateDocs_append hdocs, hend]; rfl, hframe, hsame⟩

/-- The files that a pass changes are the documents that were outdated. -/
theorem PassFrame.mem_changes_iff (h : PassFrame rules tree after paths)
    (hreadable : ∀ path ∈ paths, tree.Readable path) {location : Location} :
    location ∈ tree.changes after ↔
      ∃ path ∈ paths, tree.locate path = .ok location ∧ rules.outdated tree path = true := by
  have hpath (path : Path) (hmem : path ∈ paths) (hlocate : tree.locate path = .ok location) :
      location ∈ tree.changes after ↔ rules.outdated tree path = true := by
    obtain ⟨content, hread⟩ := hreadable path hmem
    obtain ⟨place, hplace, hlookup⟩ := readBytes_eq_ok_iff.mp hread
    obtain ⟨place', hplace', hlookup'⟩ := readBytes_eq_ok_iff.mp (h.written path hmem content hread)
    rw [h.shape.locate_eq, hlocate] at hplace'
    obtain rfl := Except.ok.inj (hlocate.symm.trans hplace)
    obtain rfl := Except.ok.inj hplace'
    simp [changes, outdated, hread, hlookup, hlookup']
  constructor
  · intro hlocation
    by_contra hnone
    refine hlocation (h.others location fun path hmem hlocate => hnone ?_)
    exact ⟨path, hmem, hlocate, (hpath path hmem hlocate).mp hlocation⟩
  · rintro ⟨path, hmem, hlocate, houtdated⟩
    exact (hpath path hmem hlocate).mpr houtdated

/-- A document that the rules change stands in front of the first one that cannot be updated. -/
def StopsHalfway (rules : RefreshRules) (tree : FileTree) (paths : List Path) : Prop :=
  ∃ earlier path later fault, paths = earlier ++ path :: later ∧
    (∀ other ∈ earlier, rules.Updatable tree other) ∧ rules.FailsWith tree path fault ∧
    ∃ other ∈ earlier, rules.outdated tree other = true

/-- A pass stops halfway if it fails and has changed something. -/
theorem stopsHalfway_iff (hapart : tree.Apart paths) :
    rules.StopsHalfway tree paths ↔ (∃ e, (rules.updateDocs tree paths).1 = .error e) ∧
      (tree.changes (rules.updateDocs tree paths).2).Nonempty := by
  constructor
  · rintro ⟨earlier, path, later, fault, rfl, hearlier, hfault, other, hother, houtdated⟩
    obtain ⟨after, hdocs, hframe, -⟩ := exists_updateDocs_of_failsWith hapart hearlier hfault
    obtain ⟨content, hread⟩ := (hearlier other hother).readable
    obtain ⟨location, hlocate, -⟩ := readBytes_eq_ok_iff.mp hread
    rw [hdocs]
    exact ⟨⟨_, rfl⟩, location, (hframe.mem_changes_iff fun path hpath =>
      (hearlier path hpath).readable).mpr ⟨other, hother, hlocate, houtdated⟩⟩
  · rintro ⟨⟨e, he⟩, location, hlocation⟩
    rcases rules.updatable_or_exists_first tree paths with
      hall | ⟨earlier, path, later, fault, rfl, hearlier, hfault⟩
    · obtain ⟨after, hdocs, -⟩ := exists_updateDocs_of_updatable hapart hall
      rw [hdocs] at he
      cases he
    · obtain ⟨after, hdocs, hframe, -⟩ := exists_updateDocs_of_failsWith hapart hearlier hfault
      rw [hdocs] at hlocation
      obtain ⟨other, hother, -, houtdated⟩ :=
        (hframe.mem_changes_iff fun path hpath => (hearlier path hpath).readable).mp hlocation
      exact ⟨earlier, path, later, fault, rfl, hearlier, hfault, other, hother, houtdated⟩

end RefreshRules

namespace Release

open FileTree RefreshRules

/-- A pass over the documents of a release rewrites and reports all of them if they can be updated,
and otherwise rewrites those in front of the first one that cannot, which its error names. -/
theorem updateDocs_until_failure {release : Release} {tree : FileTree}
    (hapart : tree.Apart release.docFiles) (catalog : CatalogConfig) :
    ((∀ path ∈ release.docFiles, (ofRelease release catalog).Updatable tree path) →
      ∃ report after, release.updateDocs catalog tree = (.ok report, after) ∧
        report.updates = (release.docFiles.map fun path =>
          ⟨path, (ofRelease release catalog).outdated tree path⟩) ∧
        report.changedFiles =
          release.docFiles.filter ((ofRelease release catalog).outdated tree) ∧
        report.warnings = (release.docFiles.filter fun path =>
          !(ofRelease release catalog).outdated tree path).map .docUnchanged ∧
        PassFrame (ofRelease release catalog) tree after release.docFiles) ∧
      (∀ earlier path later fault, release.docFiles = earlier ++ path :: later →
        (∀ other ∈ earlier, (ofRelease release catalog).Updatable tree other) →
        (ofRelease release catalog).FailsWith tree path fault →
          ∃ after, release.updateDocs catalog tree = (.error (.file path fault), after) ∧
            PassFrame (ofRelease release catalog) tree after earlier ∧
            ∀ other ∈ path :: later, after.readBytes other = tree.readBytes other) ∧
      ((∀ path ∈ release.docFiles, (ofRelease release catalog).Updatable tree path) ∨
        ∃ earlier path later fault, release.docFiles = earlier ++ path :: later ∧
          (∀ other ∈ earlier, (ofRelease release catalog).Updatable tree other) ∧
          (ofRelease release catalog).FailsWith tree path fault) := by
  refine ⟨fun hupdatable => ?_, fun earlier path later fault hpaths hearlier hfault => ?_,
    updatable_or_exists_first _ tree _⟩
  · obtain ⟨after, hdocs, hframe⟩ := exists_updateDocs_of_updatable hapart hupdatable
    refine ⟨⟨release.docFiles.map fun path =>
      ⟨path, (ofRelease release catalog).outdated tree path⟩⟩, after, ?_, rfl, ?_, ?_, hframe⟩
    · rw [updateDocs, hdocs]
      rfl
    · exact UpdateReport.changedFiles_map _ _
    · exact UpdateReport.warnings_map _ _
  · rw [hpaths] at hapart
    obtain ⟨after, hdocs, hframe⟩ := exists_updateDocs_of_failsWith hapart hearlier hfault
    exact ⟨after, by rw [updateDocs, hpaths, hdocs]; rfl, hframe⟩

/-- The document of the function names an older patch, and the example has no document. -/
def undocumentedCatalog : FileTree where
  working := []
  entries := [(["functions"], .directory), (["functions", "go"], .directory),
    (["functions", "go", "fn"], .directory),
    (["functions", "go", "fn", "README.md"], .file (utf8Bytes "fn:v1.0.2")),
    (["functions", "go", "fn", "metadata.yaml"],
      .file (utf8Bytes "examplePackageURLs:\n- a/fn-simple\n")),
    (["examples"], .directory), (["examples", "fn-simple"], .directory)]

/-- The document of the example is there, and refuses to be written. -/
def lockedCatalog : FileTree where
  working := []
  entries := undocumentedCatalog.entries ++
    [(["examples", "fn-simple", "README.md"], .file (utf8Bytes "fn:v1.0.2"))]
  locked := [(["examples", "fn-simple", "README.md"], .other "Permission denied (os error 13)")]

def undocumentedRelease : Release :=
  ⟨"fn", ⟨1, 0⟩, "go", ⟨1, 0, 3⟩, ⟨"/functions/go/fn"⟩, false,
    [⟨"fn-simple", ⟨"/examples/fn-simple"⟩⟩]⟩

theorem docFiles_undocumentedRelease : undocumentedRelease.docFiles =
    [⟨"/functions/go/fn/README.md"⟩, ⟨"/examples/fn-simple/README.md"⟩] := by
  decide +kernel

theorem apart_undocumentedRelease : undocumentedCatalog.Apart undocumentedRelease.docFiles := by
  have hlocate : undocumentedCatalog.locate ⟨"/examples/fn-simple/README.md"⟩ =
      .error .missing := by decide +kernel
  rw [docFiles_undocumentedRelease]
  refine List.pairwise_pair.mpr fun location _ hlocation => ?_
  rw [hlocate] at hlocation
  cases hlocation

theorem apart_lockedCatalog : lockedCatalog.Apart undocumentedRelease.docFiles := by
  have hfirst : lockedCatalog.locate ⟨"/functions/go/fn/README.md"⟩ =
      .ok ["functions", "go", "fn", "README.md"] := by decide +kernel
  have hsecond : lockedCatalog.locate ⟨"/examples/fn-simple/README.md"⟩ =
      .ok ["examples", "fn-simple", "README.md"] := by decide +kernel
  rw [docFiles_undocumentedRelease]
  refine List.pairwise_pair.mpr fun location hlocation hlocation' => ?_
  rw [hfirst] at hlocation
  rw [hsecond, ← Except.ok.inj hlocation] at hlocation'
  exact absurd (Except.ok.inj hlocation') (by decide)

/-- All documents can be read, and the pass fails. -/
theorem updateDocs_lockedCatalog : lockedCatalog.Apart undocumentedRelease.docFiles ∧
    (∀ path ∈ undocumentedRelease.docFiles, lockedCatalog.Readable path) ∧
    (undocumentedRelease.updateDocs {} lockedCatalog).1 =
      .error (.file ⟨"/examples/fn-simple/README.md"⟩
        (.other "Permission denied (os error 13)")) := by
  refine ⟨apart_lockedCatalog, ?_, by decide +kernel⟩
  rw [docFiles_undocumentedRelease]
  refine List.forall_mem_cons.mpr ⟨⟨utf8Bytes "fn:v1.0.2", by decide +kernel⟩, ?_⟩
  exact List.forall_mem_singleton.mpr ⟨utf8Bytes "fn:v1.0.2", by decide +kernel⟩

theorem updateDocs_until_locked : ∃ after,
    undocumentedRelease.updateDocs {} lockedCatalog =
        (.error (.file ⟨"/examples/fn-simple/README.md"⟩
          (.other "Permission denied (os error 13)")), after) ∧
      after.readBytes ⟨"/functions/go/fn/README.md"⟩ = .ok (utf8Bytes "fn:v1.0.3") ∧
      after.readBytes ⟨"/examples/fn-simple/README.md"⟩ = .ok (utf8Bytes "fn:v1.0.2") := by
  have hread : lockedCatalog.readBytes ⟨"/functions/go/fn/README.md"⟩ =
      .ok (utf8Bytes "fn:v1.0.2") := by decide +kernel
  have hread' : lockedCatalog.readBytes ⟨"/examples/fn-simple/README.md"⟩ =
      .ok (utf8Bytes "fn:v1.0.2") := by decide +kernel
  have happly : (ofRelease undocumentedRelease {}).apply (utf8Bytes "fn:v1.0.2") =
      utf8Bytes "fn:v1.0.3" := by decide +kernel
  have hchanges : (ofRelease undocumentedRelease {}).apply (utf8Bytes "fn:v1.0.2") ≠
      utf8Bytes "fn:v1.0.2" := by
    rw [happly]
    decide
  have hupdatable : (ofRelease undocumentedRelease {}).Updatable lockedCatalog
      ⟨"/functions/go/fn/README.md"⟩ := by
    refine ⟨_, hread, fun _ => ⟨_, writeBytes_eq_ok_iff.mpr
      ⟨["functions", "go", "fn", "README.md"], utf8Bytes "fn:v1.0.2", ?_, ?_, ?_, rfl⟩⟩⟩ <;>
      decide +kernel
  have hfails : (ofRelease undocumentedRelease {}).FailsWith lockedCatalog
      ⟨"/examples/fn-simple/README.md"⟩ (.other "Permission denied (os error 13)") :=
    .unwritable hread' hchanges (by rw [happly]; decide +kernel)
  obtain ⟨after, hdocs, hframe, hlater⟩ :=
    (updateDocs_until_failure apart_lockedCatalog {}).2.1 [⟨"/functions/go/fn/README.md"⟩]
      ⟨"/examples/fn-simple/README.md"⟩ [] _ docFiles_undocumentedRelease
      (List.forall_mem_singleton.mpr hupdatable) hfails
  refine ⟨after, hdocs, happly ▸ hframe.written _ List.mem_cons_self _ hread, ?_⟩
  exact (hlater _ List.mem_cons_self).trans hread'

end Release

end ReleaseDocs
