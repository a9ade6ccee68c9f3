import Mathlib.Data.Set.Card
import ReleaseDocs.DocUpdate

namespace ReleaseDocs

def FileEntry.isFile : FileEntry → Bool
  | directory => false
  | file _ => true

namespace FileTree

/-- Two trees that differ in nothing but the bytes of their files. -/
structure SameShape (tree other : FileTree) : Prop where
  working : other.working = tree.working
  locked : other.locked = tree.locked
  kinds : ∀ location,
    (other.lookup? location).map FileEntry.isFile = (tree.lookup? location).map FileEntry.isFile

def changes (tree other : FileTree) : Set Location :=
  {location | other.lookup? location ≠ tree.lookup? location}

def Apart (tree : FileTree) (paths : List Path) : Prop :=
  paths.Pairwise fun path other =>
    ∀ location, tree.locate path = .ok location → tree.locate other ≠ .ok location

namespace SameShape

variable {tree other third : FileTree}

theorem refl (tree : FileTree) : SameShape tree tree :=
  ⟨rfl, rfl, fun _ => rfl⟩

theorem trans (h : SameShape tree other) (h' : SameShape other third) : SameShape tree third :=
  ⟨h'.working.trans h.working, h'.locked.trans h.locked,
    fun location => (h'.kinds location).trans (h.kinds location)⟩

theorem eq_none_iff (h : SameShape tree other) (location : Location) :
    other.lookup? location = none ↔ tree.lookup? location = none := by
  rw [← Option.map_eq_none_iff (f := FileEntry.isFile), h.kinds, Option.map_eq_none_iff]

theorem eq_directory_iff (h : SameShape tree other) (location : Location) :
    other.lookup? location = some .directory ↔ tree.lookup? location = some .directory := by
  have hkind (entry : Option FileEntry) :
      entry = some .directory ↔ entry.map FileEntry.isFile = some false := by
    rcases entry with _ | _ | _ <;> simp [FileEntry.isFile]
  rw [hkind, h.kinds, hkind]

theorem exists_file (h : SameShape tree other) {location : Location} {content : Bytes}
    (hfile : tree.lookup? location = some (.file content)) :
    ∃ content, other.lookup? location = some (.file content) := by
  have hkind := h.kinds location
  rw [hfile] at hkind
  obtain ⟨entry, hentry, hisFile⟩ := Option.map_eq_some_iff.mp hkind
  cases entry with
  | directory => cases hisFile
  | file content => exact ⟨content, hentry⟩

theorem walk_eq (h : SameShape tree other) (location : Location) (names : List String) :
    other.walk location names = tree.walk location names := by
  induction names generalizing location with
  | nil => rfl
  | cons name names ih =>
      unfold walk
      rcases htree : tree.lookup? location with _ | _ | content
      · rw [(h.eq_none_iff location).mpr htree]
      · rw [(h.eq_directory_iff location).mpr htree]
        simp only [ih]
        cases hbelow : tree.lookup? (location ++ [name]) with
        | none => rw [(h.eq_none_iff _).mpr hbelow]
        | some entry =>
          obtain ⟨entry', hentry'⟩ := Option.ne_none_iff_exists'.mp
            (mt (h.eq_none_iff (location ++ [name])).mp (by simp [hbelow]))
          rw [hentry']
      · obtain ⟨content', hother⟩ := h.exists_file htree
        rw [hother]

theorem locate_eq (h : SameShape tree other) (path : Path) :
    other.locate path = tree.locate path := by
  simp only [locate, h.working, h.walk_eq]

theorem apart_iff (h : SameShape tree other) (paths : List Path) :
    other.Apart paths ↔ tree.Apart paths := by
  simp only [Apart, h.locate_eq]

end SameShape

theorem sameShape_write {tree : FileTree} {location : Location} {old : Bytes}
    (h : tree.lookup? location = some (.file old)) (content : Bytes) :
    SameShape tree (tree.write location content) := by
  refine ⟨rfl, rfl, fun other => ?_⟩
  rw [lookup?_write h]
  by_cases hother : other = location
  · rw [if_pos hother, hother, h]
    rfl
  · rw [if_neg hother]

theorem changes_of_lookup? {tree middle after : FileTree} {place : Location}
    {before content : Bytes} (hbefore : tree.lookup? place = some (.file before))
    (hmiddle : ∀ other, middle.lookup? other =
      if other = place then some (.file content) else tree.lookup? other)
    (hafter : after.lookup? place = some (.file content)) :
    tree.changes after =
      if content = before then middle.changes after else insert place (middle.changes after) := by
  ext location
  by_cases hlocation : location = place
  · subst hlocation
    by_cases hsame : content = before <;> simp [changes, hsame, hbefore, hafter, hmiddle]
  · by_cases hsame : content = before <;> simp [changes, hsame, hlocation, hmiddle]

theorem readBytes_eq_ok_iff {tree : FileTree} {path : Path} {content : Bytes} :
    tree.readBytes path = .ok content ↔
      ∃ location, tree.locate path = .ok location ∧
        tree.lookup? location = some (.file content) := by
  unfold readBytes find
  cases hlocate : tree.locate path with
  | error fault => simp [bind, Except.bind]
  | ok location =>
    rcases hlookup : tree.lookup? location with _ | _ | old <;>
      simp [bind, Except.bind, hlookup]

theorem isDirectory_eq_true_iff {tree : FileTree} {path : Path} :
    tree.isDirectory path = true ↔
      ∃ location, tree.locate path = .ok location ∧ tree.lookup? location = some .directory := by
  unfold isDirectory find
  cases hlocate : tree.locate path with
  | error fault => simp [bind, Except.bind, Except.toOption]
  | ok location =>
    cases hlookup : tree.lookup? location <;> simp [bind, Except.bind, Except.toOption, hlookup]

theorem SameShape.isDirectory_eq {tree other : FileTree} (h : SameShape tree other) (path : Path) :
    other.isDirectory path = tree.isDirectory path := by
  rw [Bool.eq_iff_iff, isDirectory_eq_true_iff, isDirectory_eq_true_iff]
  simp only [h.locate_eq, h.eq_directory_iff]

theorem SameShape.exists_readBytes {tree other : FileTree} (h : SameShape tree other) {path : Path}
    {content : Bytes} (hread : tree.readBytes path = .ok content) :
    ∃ content, other.readBytes path = .ok content := by
  obtain ⟨location, hlocate, hlookup⟩ := readBytes_eq_ok_iff.mp hread
  obtain ⟨content, hfile⟩ := h.exists_file hlookup
  exact ⟨content, readBytes_eq_ok_iff.mpr ⟨location, (h.locate_eq path).trans hlocate, hfile⟩⟩

theorem writeBytes_eq_ok_iff {tree after : FileTree} {path : Path} {content : Bytes} :
    tree.writeBytes path content = .ok after ↔
      ∃ location old, tree.locate path = .ok location ∧
        tree.lookup? location = some (.file old) ∧ tree.locked.lookup location = none ∧
        tree.write location content = after := by
  constructor
  · intro h
    unfold writeBytes at h
    cases hlocate : tree.locate path with
    | error fault => simp [hlocate, bind, Except.bind] at h
    | ok location =>
      simp only [hlocate, bind, Except.bind] at h
      split at h
      · rename_i old hlookup
        split at h
        · cases h
        · rename_i hlocked
          exact ⟨location, old, rfl, hlookup, hlocked, Except.ok.inj h⟩
      · cases h
      · cases h
  · rintro ⟨location, old, hlocate, hlookup, hlocked, rfl⟩
    simp only [writeBytes, hlocate, bind, Except.bind, hlookup, hlocked]

theorem SameShape.writeBytes_eq_error_iff {tree other : FileTree} (h : SameShape tree other)
    {path : Path} {content : Bytes} {fault : FileFault} :
    other.writeBytes path content = .error fault ↔ tree.writeBytes path content = .error fault := by
  unfold writeBytes
  rw [h.locate_eq, h.locked]
  cases hlocate : tree.locate path with
  | error fault => rfl
  | ok location =>
    simp only [bind, Except.bind]
    rcases hlookup : tree.lookup? location with _ | _ | old
    · rw [(h.eq_none_iff location).mpr hlookup]
    · rw [(h.eq_directory_iff location).mpr hlookup]
    · obtain ⟨old', hother⟩ := h.exists_file hlookup
      rw [hother]
      cases tree.locked.lookup location <;> simp

end FileTree

namespace RefreshRules

open FileTree

variable {rules : RefreshRules} {tree after : FileTree} {path : Path} {update : DocUpdate}

theorem updateDoc_eq_ok (h : rules.updateDoc tree path = .ok (update, after)) :
    ∃ location before, tree.locate path = .ok location ∧
      tree.lookup? location = some (.file before) ∧
      update = ⟨path, decide (rules.apply before ≠ before)⟩ ∧
      SameShape tree after ∧
      ∀ other, after.lookup? other =
        if other = location then some (.file (rules.apply before)) else tree.lookup? other := by
  unfold updateDoc at h
  cases hread : tree.readBytes path with
  | error fault => simp [hread] at h
  | ok before =>
    obtain ⟨location, hlocate, hlookup⟩ := readBytes_eq_ok_iff.mp hread
    refine ⟨location, before, hlocate, hlookup, ?_⟩
    simp only [hread] at h
    by_cases hsame : rules.apply before = before
    · rw [if_pos hsame] at h
      cases h
      refine ⟨by simp [hsame], SameShape.refl tree, fun other => ?_⟩
      by_cases hother : other = location
      · rw [if_pos hother, hother, hlookup, hsame]
      · rw [if_neg hother]
    · rw [if_neg hsame] at h
      cases hwrite : tree.writeBytes path (rules.apply before) with
      | error fault => simp [hwrite] at h
      | ok written =>
        rw [hwrite] at h
        cases h
        obtain ⟨place, -, hplace, -, -, rfl⟩ := writeBytes_eq_ok_iff.mp hwrite
        obtain rfl := Except.ok.inj (hlocate.symm.trans hplace)
        exact ⟨by simp [hsame], sameShape_write hlookup _, lookup?_write hlookup _⟩

theorem sameShape_updateDocs (rules : RefreshRules) (tree : FileTree) (paths : List Path) :
    SameShape tree (rules.updateDocs tree paths).2 := by
  induction paths generalizing tree with
  | nil => exact SameShape.refl tree
  | cons path paths ih =>
      unfold updateDocs
      cases h : rules.updateDoc tree path with
      | error e => exact SameShape.refl tree
      | ok result =>
        obtain ⟨-, -, -, -, -, hshape, -⟩ := updateDoc_eq_ok h
        exact hshape.trans (ih result.2)

/-- Nothing changes where no path leads to. -/
theorem lookup?_updateDocs_of_ne (rules : RefreshRules) {paths : List Path} {location : Location}
    (h : ∀ path ∈ paths, tree.locate path ≠ .ok location) :
    (rules.updateDocs tree paths).2.lookup? location = tree.lookup? location := by
  induction paths generalizing tree with
  | nil => rfl
  | cons path paths ih =>
      rw [List.forall_mem_cons] at h
      unfold updateDocs
      cases hdoc : rules.updateDoc tree path with
      | error e => rfl
      | ok result =>
        obtain ⟨place, before, hplace, -, -, hshape, hlookup⟩ := updateDoc_eq_ok hdoc
        have hne : location ≠ place := fun heq => h.1 (heq ▸ hplace)
        have hpaths : ∀ path ∈ paths, result.2.locate path ≠ .ok location := by
          simpa only [hshape.locate_eq] using h.2
        exact (ih hpaths).trans ((hlookup location).trans (if_neg hne))

/-- What a pass that rewrites every document leaves of the paths. -/
structure Rewrites (rules : RefreshRules) (tree after : FileTree) (paths : List Path)
    (updates : List DocUpdate) : Prop where
  paths : updates.map DocUpdate.path = paths
  rewritten : ∀ update ∈ updates, ∃ location before, tree.locate update.path = .ok location ∧
    tree.lookup? location = some (.file before) ∧
    after.lookup? location = some (.file (rules.apply before)) ∧
    (update.changed = true ↔ rules.apply before ≠ before)
  count : (tree.changes after).encard = (updates.filter DocUpdate.changed).length

theorem updateDocs_cons_eq_ok {paths : List Path} {updates : List DocUpdate}
    (h : rules.updateDocs tree (path :: paths) = (.ok updates, after)) :
    ∃ update middle rest, rules.updateDoc tree path = .ok (update, middle) ∧
      rules.updateDocs middle paths = (.ok rest, after) ∧ updates = update :: rest := by
  unfold updateDocs at h
  cases hdoc : rules.updateDoc tree path with
  | error e => simp [hdoc] at h
  | ok result =>
    simp only [hdoc, Prod.mk.injEq] at h
    rcases hrest : rules.updateDocs result.2 paths with ⟨e | rest, last⟩
    · simp [hrest, Except.map] at h
    · simp only [hrest, Except.map, Except.ok.injEq] at h
      obtain ⟨rfl, rfl⟩ := h
      exact ⟨result.1, result.2, rest, rfl, hrest, rfl⟩

theorem rewrites_updateDocs {paths : List Path} {updates : List DocUpdate}
    (hapart : tree.Apart paths) (h : rules.updateDocs tree paths = (.ok updates, after)) :
    Rewrites rules tree after paths updates := by
  induction paths generalizing tree updates with
  | nil =>
    cases h
    exact ⟨rfl, by simp, by simp [changes]⟩
  | cons path paths ih =>
    obtain ⟨update, middle, rest, hdoc, hdocs, rfl⟩ := updateDocs_cons_eq_ok h
    obtain ⟨place, before, hplace, hbefore, rfl, hshape, hlookup⟩ := updateDoc_eq_ok hdoc
    obtain ⟨hfirst, hothers⟩ := List.pairwise_cons.mp hapart
    obtain ⟨hpaths, hrewritten, hcount⟩ := ih ((hshape.apart_iff paths).mpr hothers) hdocs
    have hplaceLater : after.lookup? place = some (.file (rules.apply before)) := by
      have hlater : ∀ other ∈ paths, middle.locate other ≠ .ok place := fun other hother => by
        rw [hshape.locate_eq]
        exact hfirst other hother place hplace
      have hframe := lookup?_updateDocs_of_ne rules hlater
      rw [hdocs, hlookup, if_pos rfl] at hframe
      exact hframe
    refine ⟨by simp [hpaths], ?_, ?_⟩
    · refine List.forall_mem_cons.mpr ⟨⟨place, before, hplace, hbefore, hplaceLater, by simp⟩, ?_⟩
      intro other hother
      obtain ⟨location, content, hlocate, hcontent, hafter, hchanged⟩ := hrewritten other hother
      have hmem : other.path ∈ paths := hpaths ▸ List.mem_map_of_mem hother
      rw [hshape.locate_eq] at hlocate
      have hne : location ≠ place := fun heq =>
        hfirst other.path hmem place hplace (heq ▸ hlocate)
      rw [hlookup, if_neg hne] at hcontent
      exact ⟨location, content, hlocate, hcontent, hafter, hchanged⟩
    · have hnew : place ∉ middle.changes after := by
        simp [changes, hplaceLater, hlookup]
      rw [changes_of_lookup? hbefore hlookup hplaceLater]
      by_cases hsame : rules.apply before = before
      · simpa [hsame] using hcount
      · rw [if_neg hsame, Set.encard_insert_of_notMem hnew, hcount]
        simp [hsame]

theorem lookup?_updateDocs_of_apart {paths : List Path} (hapart : tree.Apart paths)
    {location : Location} {before : Bytes} (hpath : path ∈ paths)
    (hlocate : tree.locate path = .ok location)
    (hlookup : tree.lookup? location = some (.file before)) :
    (rules.updateDocs tree paths).2.lookup? location = some (.file before) ∨
      (rules.updateDocs tree paths).2.lookup? location = some (.file (rules.apply before)) := by
  induction paths generalizing tree with
  | nil => simp at hpath
  | cons first paths ih =>
    obtain ⟨hfirst, hothers⟩ := List.pairwise_cons.mp hapart
    unfold updateDocs
    cases hdoc : rules.updateDoc tree first with
    | error e => exact Or.inl hlookup
    | ok result =>
      obtain ⟨place, old, hplace, hold, -, hshape, hmiddle⟩ := updateDoc_eq_ok hdoc
      rcases List.mem_cons.mp hpath with rfl | hpath
      · obtain rfl : location = place := by simpa [hlocate] using hplace
        obtain rfl : before = old := by simpa [hlookup] using hold
        have hlater : ∀ other ∈ paths, result.2.locate other ≠ .ok location := by
          intro other hother
          rw [hshape.locate_eq]
          exact hfirst other hother location hplace
        exact Or.inr ((lookup?_updateDocs_of_ne rules hlater).trans
          ((hmiddle location).trans (if_pos rfl)))
      · have hne : location ≠ place := fun heq => hfirst path hpath place hplace (heq ▸ hlocate)
        refine ih ((hshape.apart_iff paths).mpr hothers) hpath ?_ ?_
        · rw [hshape.locate_eq, hlocate]
        · rw [hmiddle, if_neg hne, hlookup]

theorem exists_readBytes_of_updateDocs {paths : List Path} {updates : List DocUpdate}
    (h : rules.updateDocs tree paths = (.ok updates, after)) :
    ∀ path ∈ paths, ∃ content, after.readBytes path = .ok content := by
  induction paths generalizing tree updates with
  | nil => simp
  | cons path paths ih =>
    obtain ⟨update, middle, rest, hdoc, hdocs, rfl⟩ := updateDocs_cons_eq_ok h
    refine List.forall_mem_cons.mpr ⟨?_, ih hdocs⟩
    obtain ⟨location, before, hlocate, hlookup, -⟩ := updateDoc_eq_ok hdoc
    have hshape := rules.sameShape_updateDocs tree (path :: paths)
    rw [h] at hshape
    exact hshape.exists_readBytes (readBytes_eq_ok_iff.mpr ⟨location, hlocate, hlookup⟩)

theorem updateDocs_of_upToDate {paths : List Path} (h : ∀ path ∈ paths, ∃ content,
    tree.readBytes path = .ok content ∧ rules.apply content = content) :
    rules.updateDocs tree paths = (.ok (paths.map fun path => ⟨path, false⟩), tree) := by
  induction paths with
  | nil => rfl
  | cons path paths ih =>
    obtain ⟨⟨content, hread, happly⟩, hpaths⟩ := List.forall_mem_cons.mp h
    have hdoc : rules.updateDoc tree path = .ok (⟨path, false⟩, tree) := by
      simp [updateDoc, hread, happly]
    simp [updateDocs, hdoc, ih hpaths, Except.map]

end RefreshRules

theorem Release.updateDocs_eq_ok {release : Release} {catalog : CatalogConfig}
    {tree after : FileTree} {report : UpdateReport}
    (h : release.updateDocs catalog tree = (.ok report, after)) :
    (RefreshRules.ofRelease release catalog).updateDocs tree release.docFiles =
      (.ok report.updates, after) := by
  unfold updateDocs at h
  rcases hdocs : (RefreshRules.ofRelease release catalog).updateDocs tree release.docFiles with
    ⟨e | updates, last⟩
  · simp [hdocs, Except.map] at h
  · simp only [hdocs, Except.map, Prod.mk.injEq, Except.ok.injEq] at h
    obtain ⟨rfl, rfl⟩ := h
    rfl

theorem Release.updateDocs_eq_error {release : Release} {catalog : CatalogConfig}
    {tree after : FileTree} {e : DocsError}
    (h : release.updateDocs catalog tree = (.error e, after)) :
    (RefreshRules.ofRelease release catalog).updateDocs tree release.docFiles =
      (.error e, after) := by
  unfold updateDocs at h
  rcases hdocs : (RefreshRules.ofRelease release catalog).updateDocs tree release.docFiles with
    ⟨e | updates, last⟩
  · simp only [hdocs, Except.map, Prod.mk.injEq, Except.error.injEq] at h
    obtain ⟨rfl, rfl⟩ := h
    rfl
  · simp [hdocs, Except.map] at h

end ReleaseDocs
