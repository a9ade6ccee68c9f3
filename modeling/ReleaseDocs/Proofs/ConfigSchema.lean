import ReleaseDocs.Config.Reading

namespace ReleaseDocs

namespace Toml

namespace Value

variable {value : Value} {elements : List Value} {names : List String}

/-- A list is written in brackets, or as the tables of one header. -/
inductive IsList : Value → List Value → Prop
  | array (elements : List Value) : IsList (.array elements) elements
  | tables (elements : List Table) :
      IsList (.tables elements) (elements.map (Value.table .header))

theorem elements?_eq_some_iff : value.elements? = some elements ↔ value.IsList elements := by
  constructor
  · intro h
    cases value with
    | array elements =>
      obtain rfl := Option.some.inj h
      exact .array elements
    | tables elements =>
      obtain rfl := Option.some.inj h
      exact .tables elements
    | _ => cases h
  · rintro (_ | _) <;> rfl

def IsText (value : Value) (text : String) : Prop :=
  value = .string text

def IsBoolean (value : Value) (b : Bool) : Prop :=
  value = .boolean b

def IsTexts (value : Value) (texts : List String) : Prop :=
  value.IsList (texts.map string)

theorem text?_eq_some_iff {text : String} : value.text? = some text ↔ value.IsText text := by
  cases value <;> simp [text?, IsText]

theorem boolean?_eq_some_iff {b : Bool} : value.boolean? = some b ↔ value.IsBoolean b := by
  cases value <;> simp [boolean?, IsBoolean]

theorem mapM_text?_eq_some_iff {texts : List String} :
    elements.mapM text? = some texts ↔ elements = texts.map string := by
  induction elements generalizing texts with
  | nil => cases texts <;> simp
  | cons element elements ih =>
    simp only [List.mapM_cons, Option.bind_eq_bind, Option.bind_eq_some_iff, Option.pure_def,
      Option.some.injEq, text?_eq_some_iff, ih]
    cases texts with
    | nil => simp
    | cons text texts => simp [IsText]

theorem texts?_eq_some_iff {texts : List String} :
    value.texts? = some texts ↔ value.IsTexts texts := by
  simp only [texts?, Option.bind_eq_bind, Option.bind_eq_some_iff, elements?_eq_some_iff,
    mapM_text?_eq_some_iff, IsTexts]
  constructor
  · rintro ⟨elements, hlist, rfl⟩
    exact hlist
  · intro hlist
    exact ⟨_, hlist, rfl⟩

/-- A record is written as a table, or as a list of its fields in their order. A date or time
counts as a record without fields. -/
inductive IsRecord (names : List String) : Value → Table → Prop
  | table (origin : Origin) (entries : Table) : IsRecord names (.table origin entries) entries
  | moment (moment : Moment) : IsRecord names (.moment moment) []
  | list {value : Value} {elements : List Value} (h : value.IsList elements) :
      IsRecord names value (names.zip elements)

theorem record?_eq_some_iff {entries : Table} :
    value.record? names = some entries ↔ value.IsRecord names entries := by
  constructor
  · intro h
    have hlist (h : value.elements?.map names.zip = some entries) :
        value.IsRecord names entries := by
      obtain ⟨elements, helements, rfl⟩ := Option.map_eq_some_iff.mp h
      exact .list (elements?_eq_some_iff.mp helements)
    cases value with
    | table origin inner =>
      obtain rfl := Option.some.inj h
      exact .table origin inner
    | moment moment =>
      obtain rfl := Option.some.inj h
      exact .moment moment
    | _ => exact hlist h
  · rintro (_ | _ | hlist)
    · rfl
    · rfl
    · cases hlist <;> rfl

end Value

/-- The field has the value that its key is given, and the default where the key is missing. -/
inductive Table.HasField {α : Type} (table : Table) (name : String) (Reads : Value → α → Prop)
    (default : α) : α → Prop
  | missing (h : table.lookup name = none) : HasField table name Reads default default
  | given {value : Value} {a : α} (h : table.lookup name = some value) (hread : Reads value a) :
      HasField table name Reads default a

theorem Table.field?_eq_some_iff {α : Type} {table : Table} {name : String}
    {decode : Value → Option α} {Reads : Value → α → Prop} {default a : α}
    (h : ∀ value a, decode value = some a ↔ Reads value a) :
    table.field? name decode default = some a ↔ table.HasField name Reads default a := by
  unfold Table.field?
  cases hvalue : table.lookup name with
  | none =>
    constructor
    · intro ha
      obtain rfl := Option.some.inj ha
      exact .missing hvalue
    · rintro (_ | ⟨hgiven, -⟩)
      · rfl
      · rw [hvalue] at hgiven
        cases hgiven
  | some value =>
    constructor
    · intro ha
      exact .given hvalue ((h value a).mp ha)
    · rintro (hmissing | ⟨hgiven, hread⟩)
      · rw [hvalue] at hmissing
        cases hmissing
      · rw [hvalue] at hgiven
        obtain rfl := Option.some.inj hgiven
        exact (h value a).mpr hread

namespace Table

structure DescribesCatalog (table : Table) (catalog : CatalogConfig) : Prop where
  url : table.HasField "url" Value.IsText "https://catalog.kpt.dev" catalog.url
  packageRepository : table.HasField "package_repository" Value.IsText
    "https://github.com/GoogleContainerTools/kpt-functions-catalog.git" catalog.packageRepository
  languages : table.HasField "languages" Value.IsTexts ["go", "ts"] catalog.languages

structure DescribesBehavior (table : Table) (behavior : BehaviorConfig) : Prop where
  fetchTags : table.HasField "fetch_tags" Value.IsBoolean true behavior.fetchTags
  showCommit : table.HasField "show_commit" Value.IsBoolean true behavior.showCommit

end Table

namespace Value

variable {value : Value}

def IsCatalog (value : Value) (catalog : CatalogConfig) : Prop :=
  ∃ table, value.IsRecord ["url", "package_repository", "languages"] table ∧
    Table.DescribesCatalog table catalog

def IsBehavior (value : Value) (behavior : BehaviorConfig) : Prop :=
  ∃ table, value.IsRecord ["fetch_tags", "show_commit"] table ∧
    Table.DescribesBehavior table behavior

theorem catalog_eq_some_iff {catalog : CatalogConfig} :
    CatalogConfig.ofValue? value = some catalog ↔ value.IsCatalog catalog := by
  simp only [CatalogConfig.ofValue?, Option.bind_eq_bind, Option.bind_eq_some_iff,
    record?_eq_some_iff, Table.field?_eq_some_iff fun _ _ => text?_eq_some_iff,
    Table.field?_eq_some_iff fun _ _ => texts?_eq_some_iff, Option.some.injEq]
  constructor
  · rintro ⟨table, hrecord, url, hurl, packageRepository, hpackage, languages, hlanguages, rfl⟩
    exact ⟨table, hrecord, hurl, hpackage, hlanguages⟩
  · rintro ⟨table, hrecord, hurl, hpackage, hlanguages⟩
    exact ⟨table, hrecord, _, hurl, _, hpackage, _, hlanguages, rfl⟩

theorem behavior_eq_some_iff {behavior : BehaviorConfig} :
    BehaviorConfig.ofValue? value = some behavior ↔ value.IsBehavior behavior := by
  simp only [BehaviorConfig.ofValue?, Option.bind_eq_bind, Option.bind_eq_some_iff,
    record?_eq_some_iff, Table.field?_eq_some_iff fun _ _ => boolean?_eq_some_iff,
    Option.some.injEq]
  constructor
  · rintro ⟨table, hrecord, fetchTags, hfetch, showCommit, hshow, rfl⟩
    exact ⟨table, hrecord, hfetch, hshow⟩
  · rintro ⟨table, hrecord, hfetch, hshow⟩
    exact ⟨table, hrecord, _, hfetch, _, hshow, rfl⟩

end Value

structure Table.DescribesConfig (table : Table) (config : Config) : Prop where
  remote : table.HasField "remote" Value.IsText "origin" config.remote
  catalog : table.HasField "catalog" Value.IsCatalog {} config.catalog
  behavior : table.HasField "behavior" Value.IsBehavior {} config.behavior

end Toml

namespace Config

variable {text : String} {config : Config}

theorem ofTable?_eq_some_iff {table : Toml.Table} :
    ofTable? table = some config ↔ table.DescribesConfig config := by
  simp only [ofTable?, Option.bind_eq_bind, Option.bind_eq_some_iff,
    Toml.Table.field?_eq_some_iff fun _ _ => Toml.Value.text?_eq_some_iff,
    Toml.Table.field?_eq_some_iff fun _ _ => Toml.Value.catalog_eq_some_iff,
    Toml.Table.field?_eq_some_iff fun _ _ => Toml.Value.behavior_eq_some_iff, Option.some.injEq]
  constructor
  · rintro ⟨remote, hremote, catalog, hcatalog, behavior, hbehavior, rfl⟩
    exact ⟨hremote, hcatalog, hbehavior⟩
  · rintro ⟨hremote, hcatalog, hbehavior⟩
    exact ⟨_, hremote, _, hcatalog, _, hbehavior, rfl⟩

/-- The text is a TOML document, and its table describes the configuration. -/
def Describes (text : String) (config : Config) : Prop :=
  ∃ table, Toml.Table.ofText? text = some table ∧ table.DescribesConfig config

/-- There are languages, and each is a single path segment. -/
structure NamesLanguages (config : Config) : Prop where
  ne_nil : config.catalog.languages ≠ []
  slash_not_mem : ∀ language ∈ config.catalog.languages, '/' ∉ language.toList

theorem fault?_of_nil (h : config.catalog.languages = []) : config.fault? = some .noLanguages := by
  simp [fault?, h]

theorem fault?_of_slash {language : String} (hmem : language ∈ config.catalog.languages)
    (hslash : '/' ∈ language.toList) : config.fault? = some .nestedLanguage := by
  have hne : config.catalog.languages ≠ [] := List.ne_nil_of_mem hmem
  have hany : (config.catalog.languages.any fun language => language.toList.contains '/') = true :=
    List.any_eq_true.mpr ⟨language, hmem, by simpa using hslash⟩
  rw [fault?, if_neg (by simpa using hne), if_pos hany]

theorem fault?_eq_none_iff : config.fault? = none ↔ config.NamesLanguages := by
  constructor
  · intro h
    refine ⟨fun hnil => ?_, fun language hmem hslash => ?_⟩
    · rw [fault?_of_nil hnil] at h
      cases h
    · rw [fault?_of_slash hmem hslash] at h
      cases h
  · rintro ⟨hne, hflat⟩
    have hany :
        (config.catalog.languages.any fun language => language.toList.contains '/') = false := by
      simpa using hflat
    rw [fault?, if_neg (by simpa using hne), if_neg (by rw [hany]; decide)]

theorem ofText_of_fault {fault : ConfigFault} (h : Describes text config)
    (hfault : config.fault? = some fault) : ofText text = .error fault := by
  obtain ⟨table, htable, hconfig⟩ := h
  have hconfig' := ofTable?_eq_some_iff.mpr hconfig
  simp only [ofText, htable, hconfig', hfault]

theorem ofText_of_not_describes (h : ∀ config, ¬ Describes text config) :
    ∃ detail, ofText text = .error (.malformed detail) := by
  unfold ofText
  split
  · exact ⟨_, rfl⟩
  · rename_i table htable
    split
    · exact ⟨_, rfl⟩
    · rename_i config hconfig
      exact absurd ⟨table, htable, ofTable?_eq_some_iff.mp hconfig⟩ (h config)

theorem ofText_eq_ok_iff :
    ofText text = .ok config ↔ Describes text config ∧ config.NamesLanguages := by
  constructor
  · intro h
    unfold ofText at h
    split at h
    · cases h
    · rename_i table htable
      split at h
      · cases h
      · rename_i config' hconfig
        split at h
        · cases h
        · rename_i hfault
          obtain rfl := Except.ok.inj h
          exact ⟨⟨table, htable, ofTable?_eq_some_iff.mp hconfig⟩, fault?_eq_none_iff.mp hfault⟩
  · rintro ⟨⟨table, htable, hconfig⟩, hnames⟩
    have hconfig' := ofTable?_eq_some_iff.mpr hconfig
    have hfault := fault?_eq_none_iff.mpr hnames
    simp only [ofText, htable, hconfig', hfault]

end Config

end ReleaseDocs
