import ReleaseDocs.Config.Selection
import ReleaseDocs.Proofs.ConfigSchema

namespace ReleaseDocs

namespace FileTree

variable {tree : FileTree} {path : Path}

def Holds (tree : FileTree) (path : Path) : Prop :=
  ∃ entry, tree.find path = .ok entry

theorem exists?_eq_true_iff : tree.exists? path = true ↔ tree.Holds path := by
  unfold exists? Holds
  cases tree.find path <;> simp [Except.toOption]

theorem readText_of_unreadable {fault : FileFault} (h : tree.readBytes path = .error fault) :
    tree.readText path = .error fault := by
  rw [readText, h]
  rfl

theorem readText_of_text {text : String} (h : tree.readBytes path = .ok (utf8Bytes text)) :
    tree.readText path = .ok text := by
  have hsome : textOfBytes? (utf8Bytes text) = some text := textOfBytes?_eq_some_iff.mpr rfl
  simp only [readText, h, bind, Except.bind, hsome]

theorem readText_of_not_text {bytes : Bytes} (h : tree.readBytes path = .ok bytes)
    (hno : ∀ text, utf8Bytes text ≠ bytes) : tree.readText path = .error .notUnicode := by
  have hnone : textOfBytes? bytes = none := by
    cases htext : textOfBytes? bytes with
    | none => rfl
    | some text => exact absurd (textOfBytes?_eq_some_iff.mp htext) (hno text)
  simp only [readText, h, bind, Except.bind, hnone]

end FileTree

namespace ConfigPlaces

variable {places : ConfigPlaces} {tree : FileTree} {directory : Path} {selected : Option Path}

/-- The directory that the operator gives, if its path is absolute, and else the usual one at
home. -/
inductive IsConfigDirectory (places : ConfigPlaces) : Path → Prop
  | given {directory : Path} (h : places.userDirectory = some directory)
      (habsolute : directory.isAbsolute = true) : IsConfigDirectory places directory
  | atHome (h : ∀ directory, places.userDirectory = some directory →
        directory.isAbsolute = false)
      (hhome : places.home.text ≠ "") : IsConfigDirectory places (places.home.join ".config")

theorem configDirectory?_eq_some_iff :
    places.configDirectory? = some directory ↔ places.IsConfigDirectory directory := by
  unfold configDirectory?
  cases hgiven : places.userDirectory.filter Path.isAbsolute with
  | some given =>
    obtain ⟨huser, habsolute⟩ := Option.filter_eq_some_iff.mp hgiven
    constructor
    · intro h
      obtain rfl := Option.some.inj h
      exact .given huser habsolute
    · rintro (⟨huser', -⟩ | ⟨hnone, -⟩)
      · rw [huser] at huser'
        exact huser'
      · rw [hnone given huser] at habsolute
        cases habsolute
  | none =>
    have hnone : ∀ directory, places.userDirectory = some directory →
        directory.isAbsolute = false := by
      intro directory huser
      simpa [huser] using hgiven
    dsimp only
    constructor
    · intro h
      split at h
      · cases h
      · rename_i hhome
        obtain rfl := Option.some.inj h
        exact .atHome hnone (by simpa using hhome)
    · rintro (⟨huser, habsolute⟩ | ⟨-, hhome⟩)
      · rw [hnone directory huser] at habsolute
        cases habsolute
      · rw [if_neg (by simpa using hhome)]

/-- The path that applies, in the order in which the places count: the one that the operator names,
whatever is there, and then the first of two files that is there. -/
inductive Selects (places : ConfigPlaces) (tree : FileTree) : Option Path → Prop
  | named {path : Path} (hnamed : places.named = some path) : Selects places tree (some path)
  | working (hnamed : places.named = none)
      (hworking : tree.Holds ⟨"./update-function-docs.toml"⟩) :
      Selects places tree (some ⟨"./update-function-docs.toml"⟩)
  | configured {directory : Path} (hnamed : places.named = none)
      (hworking : ¬ tree.Holds ⟨"./update-function-docs.toml"⟩)
      (hdirectory : places.IsConfigDirectory directory)
      (hconfigured : tree.Holds (directory.join "update-function-docs.toml")) :
      Selects places tree (some (directory.join "update-function-docs.toml"))
  | nowhere (hnamed : places.named = none)
      (hworking : ¬ tree.Holds ⟨"./update-function-docs.toml"⟩)
      (hconfigured : ∀ directory, places.IsConfigDirectory directory →
        ¬ tree.Holds (directory.join "update-function-docs.toml")) :
      Selects places tree none

section

variable (hnamed : places.named = none)
include hnamed

theorem select?_of_working (h : tree.Holds ⟨"./update-function-docs.toml"⟩) :
    places.select? tree = some ⟨"./update-function-docs.toml"⟩ := by
  have hlocal : Path.join ⟨"."⟩ fileName = ⟨"./update-function-docs.toml"⟩ := by decide
  simp only [select?, hnamed, defaultPaths, hlocal]
  exact List.find?_cons_of_pos (FileTree.exists?_eq_true_iff.mpr h)

theorem select?_of_not_working (h : ¬ tree.Holds ⟨"./update-function-docs.toml"⟩) :
    places.select? tree =
      (places.configDirectory?.map (·.join "update-function-docs.toml")).filter tree.exists? := by
  have hlocal : Path.join ⟨"."⟩ fileName = ⟨"./update-function-docs.toml"⟩ := by decide
  simp only [select?, hnamed, defaultPaths, hlocal]
  rw [List.find?_cons_of_neg (mt FileTree.exists?_eq_true_iff.mp h)]
  cases places.configDirectory? with
  | none => rfl
  | some directory =>
    cases hthere : tree.exists? (directory.join "update-function-docs.toml") <;>
      simp [fileName, Option.filter, hthere]

end

theorem selects_select? (places : ConfigPlaces) (tree : FileTree) :
    places.Selects tree (places.select? tree) := by
  cases hnamed : places.named with
  | some path =>
    simp only [select?, hnamed]
    exact .named hnamed
  | none =>
    by_cases hworking : tree.Holds ⟨"./update-function-docs.toml"⟩
    · rw [select?_of_working hnamed hworking]
      exact .working hnamed hworking
    · rw [select?_of_not_working hnamed hworking]
      cases hfile : (places.configDirectory?.map (·.join "update-function-docs.toml")).filter
          tree.exists? with
      | some path =>
        obtain ⟨hpath, hthere⟩ := Option.filter_eq_some_iff.mp hfile
        obtain ⟨directory, hdirectory, rfl⟩ := Option.map_eq_some_iff.mp hpath
        exact .configured hnamed hworking (configDirectory?_eq_some_iff.mp hdirectory)
          (FileTree.exists?_eq_true_iff.mp hthere)
      | none =>
        refine .nowhere hnamed hworking fun directory hdirectory hthere => ?_
        rw [configDirectory?_eq_some_iff.mpr hdirectory, Option.map_some,
          Option.filter_some_pos (FileTree.exists?_eq_true_iff.mpr hthere)] at hfile
        cases hfile

theorem Selects.select?_eq (h : places.Selects tree selected) :
    places.select? tree = selected := by
  cases h with
  | named hnamed => simp only [select?, hnamed]
  | working hnamed hworking => exact select?_of_working hnamed hworking
  | configured hnamed hworking hdirectory hthere =>
    rw [select?_of_not_working hnamed hworking, configDirectory?_eq_some_iff.mpr hdirectory,
      Option.map_some, Option.filter_some_pos (FileTree.exists?_eq_true_iff.mpr hthere)]
  | nowhere hnamed hworking hnone =>
    rw [select?_of_not_working hnamed hworking, Option.filter_eq_none_iff]
    intro path hpath hthere
    obtain ⟨directory, hdirectory, rfl⟩ := Option.map_eq_some_iff.mp hpath
    exact hnone directory (configDirectory?_eq_some_iff.mp hdirectory)
      (FileTree.exists?_eq_true_iff.mp hthere)

theorem select?_eq_iff : places.select? tree = selected ↔ places.Selects tree selected :=
  ⟨fun h => h ▸ places.selects_select? tree, Selects.select?_eq⟩

end ConfigPlaces

namespace Config

variable {tree : FileTree} {path : Path}

/-- The error is told of the file at the path: it is the fault of reading it, or what is carried in
an error of the configuration starts with the path. -/
inductive NamesPath (path : Path) : DocsError → Prop
  | file (fault : FileFault) : NamesPath path (.file path fault)
  | config {fault : ConfigFault} (reason : String)
      (h : fault.message = "Configuration error: " ++ (path.text ++ ": " ++ reason)) :
      NamesPath path (.config fault)

theorem mapError_eq_ok_iff {α ε δ : Type} {answer : Except ε α} {f : ε → δ} {a : α} :
    answer.mapError f = .ok a ↔ answer = .ok a := by
  cases answer with
  | ok b =>
    change Except.ok b = .ok a ↔ Except.ok b = .ok a
    simp only [Except.ok.injEq]
  | error e =>
    change Except.error (f e) = .ok a ↔ Except.error e = .ok a
    simp only [reduceCtorEq]

theorem ofFile_of_unreadable {fault : FileFault} (h : tree.readBytes path = .error fault) :
    ofFile tree path = .error (.file path fault) := by
  simp only [ofFile, FileTree.readText_of_unreadable h]

theorem ofFile_of_not_text {bytes : Bytes} (h : tree.readBytes path = .ok bytes)
    (hno : ∀ text, utf8Bytes text ≠ bytes) :
    ofFile tree path = .error (.file path .notUnicode) := by
  simp only [ofFile, FileTree.readText_of_not_text h hno]

theorem ofFile_of_text {text : String} (h : tree.readBytes path = .ok (utf8Bytes text)) :
    ofFile tree path = (ofText text).mapError fun fault => .config (.inFile path fault) := by
  simp only [ofFile, FileTree.readText_of_text h]

theorem ofFile_congr {tree' : FileTree} (h : tree'.readBytes path = tree.readBytes path) :
    ofFile tree' path = ofFile tree path := by
  simp only [ofFile, FileTree.readText, h]

theorem namesPath_of_ofFile {e : DocsError} (h : ofFile tree path = .error e) :
    NamesPath path e := by
  unfold ofFile at h
  split at h
  · obtain rfl := Except.error.inj h
    exact .file _
  · rename_i text _
    cases htext : ofText text with
    | ok config =>
      rw [htext] at h
      cases h
    | error fault =>
      rw [htext] at h
      obtain rfl := Except.error.inj h
      refine .config fault.message ?_
      simp only [ConfigFault.message_inFile, String.append_assoc]

theorem ofFile_eq_ok_iff {config : Config} :
    ofFile tree path = .ok config ↔ ∃ text, tree.readBytes path = .ok (utf8Bytes text) ∧
      Describes text config ∧ config.NamesLanguages := by
  constructor
  · intro h
    cases hread : tree.readBytes path with
    | error fault =>
      rw [ofFile_of_unreadable hread] at h
      cases h
    | ok bytes =>
      by_cases htext : ∃ text, utf8Bytes text = bytes
      · obtain ⟨text, rfl⟩ := htext
        rw [ofFile_of_text hread, mapError_eq_ok_iff, ofText_eq_ok_iff] at h
        exact ⟨text, rfl, h⟩
      · rw [ofFile_of_not_text hread fun text heq => htext ⟨text, heq⟩] at h
        cases h
  · rintro ⟨text, hread, hconfig⟩
    rw [ofFile_of_text hread, mapError_eq_ok_iff, ofText_eq_ok_iff]
    exact hconfig

/-- How the configuration of a run depends on the places and the tree. -/
structure LoadsSelected (places : ConfigPlaces) (tree : FileTree)
    (answer : Except DocsError Config) : Prop where
  selects : ∀ selected, places.select? tree = selected ↔ places.Selects tree selected
  unselected : places.Selects tree none → answer = .ok {}
  unreadable : ∀ path fault, places.Selects tree (some path) →
    tree.readBytes path = .error fault → answer = .error (.file path fault)
  notText : ∀ path bytes, places.Selects tree (some path) → tree.readBytes path = .ok bytes →
    (∀ text, utf8Bytes text ≠ bytes) → answer = .error (.file path .notUnicode)
  undescribed : ∀ path text, places.Selects tree (some path) →
    tree.readBytes path = .ok (utf8Bytes text) → (∀ config, ¬ Describes text config) →
    ∃ detail, answer = .error (.config (.inFile path (.malformed detail)))
  noLanguages : ∀ path text config, places.Selects tree (some path) →
    tree.readBytes path = .ok (utf8Bytes text) → Describes text config →
    config.catalog.languages = [] → answer = .error (.config (.inFile path .noLanguages))
  nestedLanguage : ∀ path text config language, places.Selects tree (some path) →
    tree.readBytes path = .ok (utf8Bytes text) → Describes text config →
    language ∈ config.catalog.languages → '/' ∈ language.toList →
    answer = .error (.config (.inFile path .nestedLanguage))
  described : ∀ path text config, places.Selects tree (some path) →
    tree.readBytes path = .ok (utf8Bytes text) → Describes text config →
    config.NamesLanguages → answer = .ok config
  default_iff : answer = .ok {} ↔ places.Selects tree none ∨
    ∃ path text, places.Selects tree (some path) ∧ tree.readBytes path = .ok (utf8Bytes text) ∧
      Describes text {}
  namesPath : ∀ path e, places.Selects tree (some path) → answer = .error e → NamesPath path e
  dependsOnFile : ∀ (places' : ConfigPlaces) (tree' : FileTree),
    places'.select? tree' = places.select? tree →
    (∀ path, places.select? tree = some path → tree'.readBytes path = tree.readBytes path) →
    load places' tree' = answer

variable {places : ConfigPlaces}

theorem load_of_selects_none (h : places.Selects tree none) : load places tree = .ok {} := by
  simp only [load, h.select?_eq]

theorem load_of_selects_some (h : places.Selects tree (some path)) :
    load places tree = ofFile tree path := by
  simp only [load, h.select?_eq]

theorem load_congr {places' : ConfigPlaces} {tree' : FileTree}
    (hselect : places'.select? tree' = places.select? tree)
    (hread : ∀ path, places.select? tree = some path →
      tree'.readBytes path = tree.readBytes path) :
    load places' tree' = load places tree := by
  unfold load
  rw [hselect]
  split
  · rename_i path hpath
    exact ofFile_congr (hread path hpath)
  · rfl

theorem load_eq_default_iff :
    load places tree = .ok {} ↔ places.Selects tree none ∨
      ∃ path text, places.Selects tree (some path) ∧
        tree.readBytes path = .ok (utf8Bytes text) ∧ Describes text {} := by
  have hlanguages : NamesLanguages {} := fault?_eq_none_iff.mp (by decide)
  cases hselect : places.select? tree with
  | none =>
    have hselects := ConfigPlaces.select?_eq_iff.mp hselect
    exact iff_of_true (load_of_selects_none hselects) (Or.inl hselects)
  | some path =>
    have hselects := ConfigPlaces.select?_eq_iff.mp hselect
    rw [load_of_selects_some hselects, ofFile_eq_ok_iff]
    constructor
    · rintro ⟨text, hread, hdescribes, -⟩
      exact Or.inr ⟨path, text, hselects, hread, hdescribes⟩
    · rintro (hnone | ⟨path', text, hselects', hread, hdescribes⟩)
      · rw [hnone.select?_eq] at hselect
        cases hselect
      · obtain rfl := Option.some.inj (hselect.symm.trans hselects'.select?_eq)
        exact ⟨text, hread, hdescribes, hlanguages⟩

theorem loadsSelected (places : ConfigPlaces) (tree : FileTree) :
    LoadsSelected places tree (load places tree) where
  selects _ := ConfigPlaces.select?_eq_iff
  unselected := load_of_selects_none
  unreadable path fault hselects hread := by
    rw [load_of_selects_some hselects, ofFile_of_unreadable hread]
  notText path bytes hselects hread hno := by
    rw [load_of_selects_some hselects, ofFile_of_not_text hread hno]
  undescribed path text hselects hread hno := by
    obtain ⟨detail, hdetail⟩ := ofText_of_not_describes hno
    refine ⟨detail, ?_⟩
    rw [load_of_selects_some hselects, ofFile_of_text hread, hdetail]
    rfl
  noLanguages path text config hselects hread hdescribes hnil := by
    rw [load_of_selects_some hselects, ofFile_of_text hread,
      ofText_of_fault hdescribes (fault?_of_nil hnil)]
    rfl
  nestedLanguage path text config language hselects hread hdescribes hmem hslash := by
    rw [load_of_selects_some hselects, ofFile_of_text hread,
      ofText_of_fault hdescribes (fault?_of_slash hmem hslash)]
    rfl
  described path text config hselects hread hdescribes hlanguages := by
    rw [load_of_selects_some hselects]
    exact ofFile_eq_ok_iff.mpr ⟨text, hread, hdescribes, hlanguages⟩
  default_iff := load_eq_default_iff
  namesPath path e hselects herror := by
    rw [load_of_selects_some hselects] at herror
    exact namesPath_of_ofFile herror
  dependsOnFile _ _ hselect hread := load_congr hselect hread

/-- An empty path that the operator gives applies too, whatever is in the tree. -/
example (tree : FileTree) :
    load { named := some ⟨""⟩, home := ⟨"/home"⟩ } tree = .error (.file ⟨""⟩ .missing) :=
  rfl

end Config

end ReleaseDocs
