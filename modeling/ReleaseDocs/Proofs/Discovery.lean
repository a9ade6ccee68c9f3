import Mathlib.Data.List.Forall2
import ReleaseDocs.Proofs.Consistency

namespace ReleaseDocs

theorem trimChars_eq_nil_iff {cs : List Char} :
    trimChars cs = [] ↔ ∀ c ∈ cs, isBlank c = true := by
  change (cs.dropWhile isBlank).rdropWhile isBlank = [] ↔ _
  rw [List.rdropWhile_eq_nil_iff]
  constructor
  · intro h c hc
    rw [← List.takeWhile_append_dropWhile (p := isBlank) (l := cs)] at hc
    rcases List.mem_append.mp hc with hc | hc
    · exact List.mem_takeWhile_imp hc
    · exact h c hc
  · intro h c hc
    exact h c ((List.dropWhile_suffix isBlank).mem hc)

theorem trimSlashes_spec (text : String) :
    (trimSlashes text).toList.getLast? ≠ some '/' ∧
      ∃ slashes, text.toList = (trimSlashes text).toList ++ slashes ∧ ∀ c ∈ slashes, c = '/' := by
  have htrim : (trimSlashes text).toList = text.toList.rdropWhile (· == '/') :=
    String.toList_ofList
  rw [htrim]
  constructor
  · intro hlast
    obtain ⟨front, hfront⟩ := List.getLast?_eq_some_iff.mp hlast
    have hne : text.toList.rdropWhile (· == '/') ≠ [] := by simp [hfront]
    have hnot := List.rdropWhile_last_not (· == '/') text.toList hne
    simp [hfront] at hnot
  · refine ⟨(text.toList.reverse.takeWhile (· == '/')).reverse, ?_, fun c hc => ?_⟩
    · rw [List.rdropWhile, ← List.reverse_append, List.takeWhile_append_dropWhile,
        List.reverse_reverse]
    · simpa using List.mem_takeWhile_imp (List.mem_reverse.mp hc)

namespace Metadata

variable {text address name : String} {urls : List String}

/-- The name is what follows the last slash of the address, once slashes at its end are gone. -/
def IsLastSegment (address name : String) : Prop :=
  '/' ∉ name.toList ∧ ∃ stem slashes, address.toList = stem ++ slashes ∧
    (∀ c ∈ slashes, c = '/') ∧ stem.getLast? ≠ some '/' ∧
    (stem = name.toList ∨ ∃ front, stem = front ++ '/' :: name.toList)

theorem toList_trimSlashes {stem slashes : List Char} (h : address.toList = stem ++ slashes)
    (hslashes : ∀ c ∈ slashes, c = '/') (hstem : stem.getLast? ≠ some '/') :
    (trimSlashes address).toList = stem := by
  have htrim : (trimSlashes address).toList = address.toList.rdropWhile (· == '/') :=
    String.toList_ofList
  have hkept : stem.rdropWhile (· == '/') = stem := by
    rw [List.rdropWhile_eq_self_iff]
    intro hne hlast
    refine hstem ?_
    rw [List.getLast?_eq_some_getLast hne, eq_of_beq hlast]
  have hdropped : ∀ c ∈ slashes.reverse, (c == '/') = true := fun c hc =>
    beq_iff_eq.mpr (hslashes c (List.mem_reverse.mp hc))
  rw [htrim, h, List.rdropWhile, List.reverse_append, List.dropWhile_append_of_pos hdropped]
  exact hkept

theorem isLastSegment_iff : IsLastSegment address name ↔ name = exampleName address := by
  constructor
  · rintro ⟨hname, stem, slashes, haddress, hslashes, hstem, hend⟩
    rw [exampleName, toList_trimSlashes haddress hslashes hstem, ← String.toList_inj,
      String.toList_ofList]
    rcases hend with rfl | ⟨front, rfl⟩
    · rw [fields_of_not_mem hname]
      rfl
    · rw [fields_append_separator, fields_of_not_mem hname, List.getLastD_concat]
  · rintro rfl
    obtain ⟨hlast, slashes, haddress, hslashes⟩ := trimSlashes_spec address
    refine ⟨slash_not_mem_exampleName address, _, slashes, haddress, hslashes, hlast, ?_⟩
    obtain ⟨before, last, hfields⟩ :=
      (List.eq_nil_or_concat' _).resolve_left (fields_ne_nil '/' (trimSlashes address).toList)
    have hname : (exampleName address).toList = last := by
      rw [exampleName, hfields, String.toList_ofList, List.getLastD_concat]
    have htext := joinFields_fields '/' (trimSlashes address).toList
    rw [hfields] at htext
    rw [hname, ← htext]
    exact joinFields_append_eq_or '/' before (List.cons_ne_nil last [])

/-- The addresses that a text of metadata lists: none if it is blank, and else those of the document
that it holds. -/
def Lists (text : String) (urls : List String) : Prop :=
  (∀ c ∈ text.toList, isBlank c = true) ∧ urls = [] ∨
    (∃ c ∈ text.toList, isBlank c = false) ∧ ∃ document metadata,
      Yaml.Document.ofText? text.toList = some document ∧ ofDocument? document = some metadata ∧
        urls = metadata.exampleUrls

/-- The document is a mapping with scalars as keys, and none of them is that of the examples. -/
def LacksKey (document : Yaml.Document) : Prop :=
  ∃ anchor entries keys, document.follow? document.root = some (.mapping anchor entries) ∧
    entries.mapM (fun entry => scalarText? document entry.1) = some keys ∧ exampleUrlsKey ∉ keys

theorem isEmpty_trim_iff :
    (trim text).isEmpty = true ↔ ∀ c ∈ text.toList, isBlank c = true := by
  rw [String.isEmpty_iff, trim, ← trimChars_eq_nil_iff, ← String.toList_inj, String.toList_ofList]
  rfl

theorem parse_eq_ok_iff {path : Path} : parse text path = .ok ⟨urls⟩ ↔ Lists text urls := by
  by_cases hblank : ∀ c ∈ text.toList, isBlank c = true
  · rw [parse, if_pos (isEmpty_trim_iff.mpr hblank)]
    have hno : ¬ ∃ c ∈ text.toList, isBlank c = false := by
      rintro ⟨c, hc, hfalse⟩
      rw [hblank c hc] at hfalse
      cases hfalse
    rw [Lists, or_iff_left fun h => hno h.1, and_iff_right hblank, Except.ok.injEq,
      Metadata.mk.injEq]
    exact eq_comm
  · have hsome : ∃ c ∈ text.toList, isBlank c = false := by simpa using hblank
    rw [parse, if_neg (mt isEmpty_trim_iff.mp hblank), Lists, and_iff_right hsome,
      or_iff_right fun h => hblank h.1]
    constructor
    · intro h
      split at h
      · rename_i metadata hmetadata
        obtain rfl := Except.ok.inj h
        obtain ⟨document, hdocument, hmetadata⟩ := Option.bind_eq_some_iff.mp hmetadata
        exact ⟨document, _, hdocument, hmetadata, rfl⟩
      · cases h
    · rintro ⟨document, metadata, hdocument, hmetadata, rfl⟩
      simp [hdocument, hmetadata]

theorem parse_eq_error {path : Path} (h : ∀ urls, ¬ Lists text urls) :
    ∃ detail, parse text path = .error (.metadata path detail) := by
  cases hparse : parse text path with
  | ok metadata => exact absurd (parse_eq_ok_iff.mp hparse) (h metadata.exampleUrls)
  | error e =>
    unfold parse at hparse
    split at hparse
    · cases hparse
    · split at hparse
      · cases hparse
      · cases hparse
        exact ⟨_, rfl⟩

theorem lists_nil_of_blank (h : ∀ c ∈ text.toList, isBlank c = true) : Lists text [] :=
  Or.inl ⟨h, rfl⟩

theorem lists_nil_of_lacksKey {document : Yaml.Document}
    (hdocument : Yaml.Document.ofText? text.toList = some document) (h : LacksKey document) :
    Lists text [] := by
  by_cases hblank : ∀ c ∈ text.toList, isBlank c = true
  · exact lists_nil_of_blank hblank
  · obtain ⟨anchor, entries, keys, hroot, hkeys, hlacks⟩ := h
    refine Or.inr ⟨by simpa using hblank, document, {}, hdocument, ?_, rfl⟩
    have hnone (isKey : List Char × Yaml.Node Nat × Yaml.Node Nat → Bool)
        (hisKey : ∀ entry, isKey entry = (entry.1 == exampleUrlsKey)) :
        (keys.zip entries).filter isKey = [] := by
      refine List.filter_eq_nil_iff.mpr fun entry hmem hkey => hlacks ?_
      rw [hisKey, beq_iff_eq] at hkey
      exact hkey ▸ (List.of_mem_zip hmem).1
    simp only [ofDocument?, hroot, hkeys, Option.bind_eq_bind, Option.bind_some]
    rw [hnone _ fun _ => rfl]

end Metadata

namespace Area

/-- The way from the root of the catalog to the area, as the start of a longer path. -/
def lead : Area → String
  | core => ""
  | contrib => "contrib/"

theorem join_base (area : Area) (root : Path) {child : String}
    (h : child.toList.head? ≠ some '/') :
    (area.base root).join child = root.join (area.lead ++ child) := by
  cases area with
  | core => rw [base, lead, String.empty_append]
  | contrib =>
    have hinner : Path.IsInner "contrib" := ⟨by decide, by decide, by decide⟩
    rw [base, Path.join_join _ hinner h]
    rfl

theorem examplesRoot_eq (area : Area) (root : Path) :
    area.examplesRoot root = root.join (area.lead ++ "examples") :=
  area.join_base root (by decide)

theorem functionPath_empty (area : Area) (root : Path) {function : String}
    (h : '/' ∉ function.toList) :
    area.functionPath root "" function = (area.base root).join ("functions/" ++ function) := by
  have hinner : Path.IsInner "functions" := ⟨by decide, by decide, by decide⟩
  have hfunctions : ("functions" ++ "/" ++ "").toList.head? ≠ some '/' := by decide
  have hhead : ("functions/" ++ function).toList.head? ≠ some '/' := by simp
  have hlead : Path.lead ⟨(area.base root).lead ++ ("functions" ++ "/" ++ "")⟩ =
      (area.base root).lead ++ "functions/" := by
    rw [Path.lead, if_pos (by simp)]
    rfl
  rw [functionPath, Path.join_join _ hinner (by decide), Path.join_of_relative _ hfunctions,
    Path.join_of_relative _ (Path.head_ne_slash h), hlead, Path.join_of_relative _ hhead,
    String.append_assoc]

theorem functionPath_eq_join (area : Area) (root : Path) {language function : String}
    (hlanguage : '/' ∉ language.toList) (hfunction : '/' ∉ function.toList) :
    area.functionPath root language function = root.join (area.lead ++
      ("functions/" ++ (if language = "" then "" else language ++ "/") ++ function)) := by
  have hhead (rest : String) : ("functions/" ++ rest).toList.head? ≠ some '/' := by simp
  by_cases hempty : language = ""
  · subst hempty
    rw [if_pos rfl, String.append_empty, functionPath_empty area root hfunction,
      join_base area root (hhead _)]
  · rw [if_neg hempty, functionPath_eq area root hempty hlanguage hfunction, ← String.append_assoc,
      String.append_assoc, String.append_assoc, join_base area root (hhead _)]
    simp only [String.append_assoc]

end Area

namespace FunctionLocation

variable {tree : FileTree} {root examplesRoot : Path} {language function : String} {area : Area}

/-- The function has a directory in the area, and in none that is looked at before it. -/
def IsFirst (tree : FileTree) (root : Path) (language function : String) : Area → Prop
  | .core => tree.isDirectory (Area.core.functionPath root language function) = true
  | .contrib => tree.isDirectory (Area.core.functionPath root language function) = false ∧
      tree.isDirectory (Area.contrib.functionPath root language function) = true

theorem exists_isFirst_or (tree : FileTree) (root : Path) (language function : String) :
    (∃ area, IsFirst tree root language function area) ∨
      ∀ area : Area, tree.isDirectory (area.functionPath root language function) = false := by
  cases hcore : tree.isDirectory (Area.core.functionPath root language function) with
  | true => exact Or.inl ⟨.core, hcore⟩
  | false =>
    cases hcontrib : tree.isDirectory (Area.contrib.functionPath root language function) with
    | true => exact Or.inl ⟨.contrib, hcore, hcontrib⟩
    | false =>
      refine Or.inr fun area => ?_
      cases area with
      | core => exact hcore
      | contrib => exact hcontrib

theorem locate_of_isFirst (h : IsFirst tree root language function area) :
    locate tree root language function =
      .ok (area, area.functionPath root language function) := by
  cases area with
  | core =>
    have hcore : tree.isDirectory (Area.core.functionPath root language function) = true := h
    unfold locate
    simp [Area.all, hcore]
  | contrib =>
    obtain ⟨hcore, hcontrib⟩ := h
    unfold locate
    simp [Area.all, hcore, hcontrib]

theorem locate_eq_error
    (h : ∀ area : Area, tree.isDirectory (area.functionPath root language function) = false) :
    locate tree root language function =
      .error (.functionPathNotFound [Area.core.functionPath root language function,
        Area.contrib.functionPath root language function]) := by
  unfold locate
  simp [Area.all, h]

theorem findExamples_append_cons {earlier : List String} {name : String}
    (hearlier : ∀ other ∈ earlier, tree.isDirectory (examplesRoot.join other) = true)
    (hname : tree.isDirectory (examplesRoot.join name) = false) (later : List String) :
    findExamples tree examplesRoot (earlier ++ name :: later) =
      .error (.exampleDirectoryMissing (examplesRoot.join name)) := by
  induction earlier with
  | nil => simp [findExamples, hname]
  | cons other earlier ih =>
    obtain ⟨hother, hearlier⟩ := List.forall_mem_cons.mp hearlier
    rw [List.cons_append, findExamples, if_pos hother, ih hearlier]
    rfl

/-- How the answer of a discovery depends on the catalog. -/
structure Discovers (tree : FileTree) (root : Path) (language function : String)
    (answer : Except DocsError FunctionLocation) : Prop where
  placed : '/' ∉ language.toList → '/' ∉ function.toList → ∀ area : Area,
    area.functionPath root language function = root.join (area.lead ++
      ("functions/" ++ (if language = "" then "" else language ++ "/") ++ function)) ∧
    area.examplesRoot root = root.join (area.lead ++ "examples")
  notFound : answer = .error (.functionPathNotFound [Area.core.functionPath root language function,
      Area.contrib.functionPath root language function]) ↔
    ∀ area : Area, tree.isDirectory (area.functionPath root language function) = false
  unreadable : ∀ area file fault, IsFirst tree root language function area →
    file = (area.functionPath root language function).join "metadata.yaml" →
    tree.readText file = .error fault → answer = .error (.file file fault)
  invalid : ∀ area file text, IsFirst tree root language function area →
    file = (area.functionPath root language function).join "metadata.yaml" →
    tree.readText file = .ok text → (∀ urls, ¬ Metadata.Lists text urls) →
    ∃ detail, answer = .error (.metadata file detail)
  unlisted : ∀ text, ((∀ c ∈ text.toList, isBlank c = true) ∨ ∃ document,
      Yaml.Document.ofText? text.toList = some document ∧ Metadata.LacksKey document) →
    Metadata.Lists text []
  missing : ∀ area text earlier url later name, IsFirst tree root language function area →
    tree.readText ((area.functionPath root language function).join "metadata.yaml") = .ok text →
    Metadata.Lists text (earlier ++ url :: later) →
    (∀ other ∈ earlier, ∃ segment, Metadata.IsLastSegment other segment ∧
      tree.isDirectory ((area.examplesRoot root).join segment) = true) →
    Metadata.IsLastSegment url name →
    tree.isDirectory ((area.examplesRoot root).join name) = false →
    answer = .error (.exampleDirectoryMissing ((area.examplesRoot root).join name))
  found : ∀ area text urls, IsFirst tree root language function area →
    tree.readText ((area.functionPath root language function).join "metadata.yaml") = .ok text →
    Metadata.Lists text urls →
    (∀ url ∈ urls, ∃ name, Metadata.IsLastSegment url name ∧
      tree.isDirectory ((area.examplesRoot root).join name) = true) →
    ∃ examples, answer = .ok ⟨area, area.functionPath root language function, examples⟩ ∧
      List.Forall₂ (fun url e => Metadata.IsLastSegment url e.name ∧
        e.path = (area.examplesRoot root).join e.name) urls examples

section IsFirst

variable (h : IsFirst tree root language function area)
include h

theorem discover_of_isFirst :
    discover tree root language function = (do
      let metadata ← Metadata.load tree (area.functionPath root language function)
      let examples ← findExamples tree (area.examplesRoot root) metadata.exampleNames
      .ok ⟨area, area.functionPath root language function, examples⟩) := by
  rw [discover, locate_of_isFirst h]
  rfl

theorem discover_of_unreadable {file : Path} {fault : FileFault}
    (hfile : file = (area.functionPath root language function).join "metadata.yaml")
    (hread : tree.readText file = .error fault) :
    discover tree root language function = .error (.file file fault) := by
  subst hfile
  rw [discover_of_isFirst h, Metadata.load, Metadata.fileName, hread]
  rfl

theorem discover_of_invalid {file : Path} {text : String}
    (hfile : file = (area.functionPath root language function).join "metadata.yaml")
    (hread : tree.readText file = .ok text) (hno : ∀ urls, ¬ Metadata.Lists text urls) :
    ∃ detail, discover tree root language function = .error (.metadata file detail) := by
  obtain ⟨detail, hparse⟩ : ∃ detail, Metadata.parse text file = .error (.metadata file detail) :=
    Metadata.parse_eq_error hno
  subst hfile
  refine ⟨detail, ?_⟩
  simp only [discover_of_isFirst h, Metadata.load, Metadata.fileName, hread, hparse]
  rfl

variable {text : String} {urls : List String}
  (hread : tree.readText ((area.functionPath root language function).join "metadata.yaml") =
    .ok text)
  (hlists : Metadata.Lists text urls)
include hread hlists

theorem discover_of_lists :
    discover tree root language function = (do
      let examples ← findExamples tree (area.examplesRoot root) (urls.map Metadata.exampleName)
      .ok ⟨area, area.functionPath root language function, examples⟩) := by
  simp only [discover_of_isFirst h, Metadata.load, Metadata.fileName, hread,
    Metadata.parse_eq_ok_iff.mpr hlists]
  rfl

theorem discover_of_missing {earlier later : List String} {name : String}
    (hnames : urls.map Metadata.exampleName = earlier ++ name :: later)
    (hearlier : ∀ other ∈ earlier, tree.isDirectory ((area.examplesRoot root).join other) = true)
    (hmissing : tree.isDirectory ((area.examplesRoot root).join name) = false) :
    discover tree root language function =
      .error (.exampleDirectoryMissing ((area.examplesRoot root).join name)) := by
  rw [discover_of_lists h hread hlists, hnames, findExamples_append_cons hearlier hmissing]
  rfl

theorem discover_of_present (hpresent : ∀ name ∈ urls.map Metadata.exampleName,
    tree.isDirectory ((area.examplesRoot root).join name) = true) :
    discover tree root language function =
      .ok ⟨area, area.functionPath root language function,
        (urls.map Metadata.exampleName).map fun name =>
          ⟨name, (area.examplesRoot root).join name⟩⟩ := by
  rw [discover_of_lists h hread hlists, findExamples_eq_ok_iff.mpr ⟨hpresent, rfl⟩]
  rfl

end IsFirst

theorem discover_ne_functionPathNotFound (h : IsFirst tree root language function area)
    (tried : List Path) :
    discover tree root language function ≠ .error (.functionPathNotFound tried) := by
  cases hread : tree.readText
      ((area.functionPath root language function).join "metadata.yaml") with
  | error fault => simp [discover_of_unreadable h rfl hread]
  | ok text =>
    by_cases hlists : ∃ urls, Metadata.Lists text urls
    · obtain ⟨urls, hurls⟩ := hlists
      cases hfind : (urls.map Metadata.exampleName).find? fun name =>
          !tree.isDirectory ((area.examplesRoot root).join name) with
      | none =>
        have hpresent := List.find?_eq_none.mp hfind
        rw [discover_of_present h hread hurls (by simpa using hpresent)]
        simp
      | some name =>
        obtain ⟨hmissing, earlier, later, hsplit, hearlier⟩ :=
          List.find?_eq_some_iff_append.mp hfind
        rw [discover_of_missing h hread hurls hsplit (by simpa using hearlier)
          (by simpa using hmissing)]
        simp
    · obtain ⟨detail, hinvalid⟩ :=
        discover_of_invalid h rfl hread fun urls hurls => hlists ⟨urls, hurls⟩
      simp [hinvalid]

theorem discovers (tree : FileTree) (root : Path) (language function : String) :
    Discovers tree root language function (discover tree root language function) where
  placed hlanguage hfunction area :=
    ⟨area.functionPath_eq_join root hlanguage hfunction, area.examplesRoot_eq root⟩
  notFound := by
    constructor
    · intro hnotFound
      rcases exists_isFirst_or tree root language function with ⟨area, hfirst⟩ | hnone
      · exact absurd hnotFound (discover_ne_functionPathNotFound hfirst _)
      · exact hnone
    · intro hnone
      rw [discover, locate_eq_error hnone]
      rfl
  unreadable area file fault hfirst hfile hread := discover_of_unreadable hfirst hfile hread
  invalid area file text hfirst hfile hread hno := discover_of_invalid hfirst hfile hread hno
  unlisted text h := by
    rcases h with hblank | ⟨document, hdocument, hlacks⟩
    · exact Metadata.lists_nil_of_blank hblank
    · exact Metadata.lists_nil_of_lacksKey hdocument hlacks
  missing area text earlier url later name hfirst hread hlists hearlier hname hmissing := by
    rw [Metadata.isLastSegment_iff] at hname
    subst hname
    have hpresent : ∀ other ∈ earlier.map Metadata.exampleName,
        tree.isDirectory ((area.examplesRoot root).join other) = true := by
      simpa only [List.forall_mem_map, Metadata.isLastSegment_iff, exists_eq_left] using hearlier
    have hnames : (earlier ++ url :: later).map Metadata.exampleName =
        earlier.map Metadata.exampleName ++
          Metadata.exampleName url :: later.map Metadata.exampleName := by simp
    exact discover_of_missing hfirst hread hlists hnames hpresent hmissing
  found area text urls hfirst hread hlists hpresent := by
    simp only [Metadata.isLastSegment_iff, exists_eq_left] at hpresent ⊢
    have hfound := discover_of_present hfirst hread hlists (List.forall_mem_map.mpr hpresent)
    rw [List.map_map] at hfound
    refine ⟨_, hfound, ?_⟩
    rw [List.forall₂_map_right_iff, List.forall₂_same]
    simp only [Function.comp_apply, and_self, implies_true]

end FunctionLocation

end ReleaseDocs
