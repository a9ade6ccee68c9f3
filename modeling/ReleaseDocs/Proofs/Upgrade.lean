import Mathlib.Data.List.Infix
import ReleaseDocs.Proofs.Slots

/-!
The rules of one release over a document that the rules of another release of the same function have
written.

The first two rules write over the versions in the pins of the other release
(`refreshVersions_pinPackages`), and a word with a pin gets no other one. A document is seen as a row
of slots, each of which a release fills with its own version or pin, and so what both releases make
of the document is what the later one alone makes of it.
-/

namespace ReleaseDocs

open VersionToken TagReference CatalogLink PackageReference

/-- The addresses of the catalog hold no white space and no reference to the function of the
release. -/
structure CatalogConfig.Separates (catalog : CatalogConfig) (release : Release) : Prop where
  url : IsWebAddress (trimSlashes catalog.url)
  repository : IsWebAddress (trimSlashes catalog.packageRepository)
  function : ¬ release.function.toList <:+ (trimSlashes catalog.url).toList
  urlApart : (TagReference.kind (utf8Bytes release.function)).Skips
    (utf8Bytes (trimSlashes catalog.url)) []
  examplesApart : ∀ name ∈ release.exampleNames,
    (TagReference.kind (utf8Bytes release.function)).Skips
      (utf8Bytes (trimSlashes catalog.packageRepository ++ "/" ++ release.area.examplesSubpath ++
        "/" ++ name)) []

theorem CatalogConfig.Separates.congr {catalog : CatalogConfig} {first second : Release}
    (h : catalog.Separates first) (hfunction : second.function = first.function)
    (harea : second.area = first.area)
    (hexamples : ∀ name, name ∈ second.exampleNames ↔ name ∈ first.exampleNames) :
    catalog.Separates second where
  url := h.url
  repository := h.repository
  function := hfunction ▸ h.function
  urlApart := hfunction ▸ h.urlApart
  examplesApart name hmem := by
    rw [hfunction, harea]
    exact h.examplesApart name ((hexamples name).mp hmem)

namespace RefreshRules

/-- On a site and with examples whose addresses hold no white space and no reference to the
function. -/
structure Separate (rules : RefreshRules) (f site : List Char) : Prop
    extends rules.OnSite f site where
  plain : ∀ c ∈ site, isBlank c = false
  slash : ∃ front, site = front ++ ['/']
  examples : PackageReference.IsPlain rules.exampleDirectory rules.exampleNames
  apart : ∀ name ∈ rules.exampleNames, HasScheme (rules.exampleDirectory ++ name) ∧
    (TagReference.kind (encode f)).Skips (rules.exampleDirectory ++ name) []
  names : ∀ name ∈ rules.exampleNames, 0x2F ∉ name
  directory : ∃ front last, rules.exampleDirectory = front ++ 0x2F :: (last ++ [0x2F]) ∧
    0x2F ∉ last ∧ 0x40 ∉ last

theorem OnSite.pin_eq {rules : RefreshRules} {f site : List Char} (h : rules.OnSite f site) :
    rules.pin = String.utf8EncodeChar '@' ++ (encode f ++ 0x2F :: rules.patch) := by
  rw [h.pin, h.function]
  rfl

section Separate

variable {rules : RefreshRules} {f site : List Char} (h : rules.Separate f site)
include h

theorem Separate.page_eq : rules.page = encode (site ++ (f ++ ['/'])) := by
  rw [h.page, CatalogLink.page, encode_append, encode_append]
  rfl

theorem Separate.wordwise : rules.Wordwise f site where
  name := h.name
  function := h.function
  page := h.page_eq
  plain := h.plain
  examples := h.examples

theorem Separate.pinsWords : rules.PinsWords where
  examples := h.examples
  names := h.names
  directory := h.directory
  pin := by
    obtain ⟨a, b, c, ha, hb, hc, hpatch⟩ := h.patch
    have htoken := IsToken.patch ha hb hc
    have hfunction : ∀ c ∈ f, isBlank c = false := fun c hc =>
      isBlank_eq_false_of_isNameChar ((isName_iff.mp h.name).2 c hc)
    refine ⟨f, _, ?_, ReleaseTag.slash_not_mem_of_isName h.name,
      htoken.not_mem (by decide) (by decide),
      List.forall_mem_append.mpr ⟨hfunction, isBlank_eq_false_of_isToken htoken⟩⟩
    rw [h.pin_eq, hpatch, encode_cons '@', encode_append f, encode_cons '/']
    rfl

/-- No catalog link reaches from in front of a pin into it. -/
theorem cuts_pin {cs : List Char} (hcs : IsToken cs) :
    (CatalogLink.kind rules.page).Cuts (String.utf8EncodeChar '@')
      (encode f ++ 0x2F :: encode cs) := by
  rw [h.page_eq]
  refine CatalogLink.cuts_of_not_reach (Or.inr rfl) ?_ fun left right hsplit hprefix => ?_
  · obtain ⟨scheme, more, hsite, -, -⟩ := h.isSite.scheme
    exact ⟨'h', _, by rw [hsite]; rfl, by decide⟩
  · have hf : '@' ∉ f := IsStop.not_mem_name (Or.inr rfl) h.name
    obtain ⟨front, hfront⟩ := h.slash
    have hsplit' : front ++ '/' :: (f ++ ['/']) = left ++ '@' :: right := by
      simpa [hfront] using hsplit
    rcases List.append_eq_append_iff.mp hsplit' with ⟨inner, -, hinner⟩ | ⟨inner, -, hinner⟩
    · have hmem : '@' ∈ '/' :: (f ++ ['/']) := by simp [hinner]
      simp [hf] at hmem
    · cases inner with
      | nil => exact absurd (List.cons.inj hinner).1 (by decide)
      | cons d inner =>
        obtain ⟨-, hright⟩ : '@' = d ∧ right = inner ++ (['/'] ++ (f ++ ['/'])) :=
          List.cons.inj hinner
        have hslash : encode ['/'] = [0x2F] := rfl
        have hcount := hprefix.sublist.count_le 0x2F
        have hf : 0x2F ∉ encode f := not_mem_encode (c := '/') rfl
          (ReleaseTag.slash_not_mem_of_isName h.name)
        have hcs : 0x2F ∉ encode cs := not_mem_encode (c := '/') rfl
          (hcs.not_mem (by decide) (by decide))
        rw [hright, encode_append, encode_append, encode_append, hslash] at hcount
        simp [List.count_eq_zero.mpr hf, List.count_eq_zero.mpr hcs] at hcount

theorem refreshTags_append_pin {other : RefreshRules} (hother : other.OnSite f site)
    (front : Bytes) :
    rules.refreshTags (front ++ other.pin) = rules.refreshTags front ++ rules.pin := by
  obtain ⟨a, b, c, ha, hb, hc, hpatch⟩ := hother.patch
  have hnil : number? [] = none :=
    number?_eq_none_iff_not_startsWith.mpr (not_startsWith_nil isDecimalDigit)
  have hreference : TagReference.refresh (encode f) rules.patch
      (encode f ++ 0x2F :: other.patch) = encode f ++ 0x2F :: rules.patch := by
    have hslash : isSeparator 0x2F = true := rfl
    have hall : TagReference.refresh (encode f) rules.patch
        ([] ++ (encode f ++ 0x2F :: (encode _ ++ []))) = _ :=
      TagReference.refresh_append hslash (.patch ha hb hc hnil) (ReferenceKind.skips_nil _ _)
    rw [TagReference.refresh_of_skips (ReferenceKind.skips_nil _ _), ← hpatch] at hall
    simpa using hall
  rw [hother.pin_eq, h.pin_eq]
  unfold refreshTags TagReference.refresh at hreference ⊢
  rw [h.function, (TagReference.cuts_stop h.name (Or.inr rfl) _).substitute_append, hreference]

theorem refreshLinks_append_pin (front : Bytes) :
    rules.refreshLinks (front ++ rules.pin) = rules.refreshLinks front ++ rules.pin := by
  obtain ⟨a, b, c, ha, hb, hc, hpatch⟩ := h.patch
  have hreference : rules.refreshLinks (encode f ++ 0x2F :: rules.patch) =
      encode f ++ 0x2F :: rules.patch := by
    have hsite : ¬ (0x2F = (0x2F : UInt8) ∧ encode site <:+ []) := by
      obtain ⟨scheme, more, hsite, -, -⟩ := h.isSite.scheme
      simp [hsite]
    have hall : CatalogLink.refresh (CatalogLink.page site (encode f)) rules.minor
        ([] ++ (encode f ++ 0x2F :: (encode _ ++ []))) = _ :=
      CatalogLink.refresh_append h.name h.isSite rfl (.patch ha hb hc)
        (ReferenceKind.skips_nil _ _) hsite
    rw [← h.page, ← hpatch] at hall
    have hlast : CatalogLink.refresh rules.page rules.minor [] = [] :=
      ReferenceKind.substitute_nil _ _
    simpa [refreshLinks, hlast] using hall
  have hcuts := cuts_pin h (.patch ha hb hc)
  rw [← hpatch] at hcuts
  rw [h.pin_eq]
  unfold refreshLinks CatalogLink.refresh at hreference ⊢
  rw [hcuts.substitute_append, hreference]

theorem refreshVersions_append_pin {other : RefreshRules} (hother : other.OnSite f site)
    (front : Bytes) :
    rules.refreshVersions (front ++ other.pin) = rules.refreshVersions front ++ rules.pin := by
  unfold refreshVersions
  rw [refreshTags_append_pin h hother, refreshLinks_append_pin h]

theorem refreshVersions_pinPackages {other : RefreshRules} (hother : other.Separate f site)
    (hdirectory : other.exampleDirectory = rules.exampleDirectory)
    (hnames : ∀ name, name ∈ other.exampleNames ↔ name ∈ rules.exampleNames) (text : Bytes) :
    rules.refreshVersions (other.pinPackages text) =
      rules.pinPackages (rules.refreshVersions text) := by
  have hword (word : Bytes) : rules.refreshVersions (word ++ other.pinOf word) =
      rules.refreshVersions word ++ rules.pinOf (rules.refreshVersions word) := by
    have hends : EndsInExample other.exampleDirectory other.exampleNames word ↔
        EndsInExample rules.exampleDirectory rules.exampleNames (rules.refreshVersions word) := by
      rw [endsInExample_refreshVersions_iff h.toOnSite h.apart, hdirectory]
      simp only [EndsInExample, hnames]
    simp only [pinOf, hends]
    split
    · exact refreshVersions_append_pin h hother.toOnSite word
    · simp
  induction text using word_induction with
  | last word hfree =>
    rw [pinPackages_word hother.examples hfree, hword,
      pinPackages_word h.examples ((blankFree_refreshVersions_iff h.toOnSite word).mpr hfree)]
  | append word c rest hfree hc ih =>
    rw [pinPackages_word_append_blank hother.examples hfree hc,
      refreshVersions_append_blank h.wordwise hc, hword, ih,
      refreshVersions_append_blank h.wordwise hc, pinPackages_word_append_blank h.examples
        ((blankFree_refreshVersions_iff h.toOnSite word).mpr hfree) hc]

/-- The rules of one release over a document that those of another one have written. -/
theorem apply_apply {other : RefreshRules} (hother : other.Separate f site)
    (hdirectory : other.exampleDirectory = rules.exampleDirectory)
    (hnames : ∀ name, name ∈ other.exampleNames ↔ name ∈ rules.exampleNames) {text : Bytes}
    (htext : other.Delimited text) : rules.apply (other.apply text) = rules.apply text := by
  calc rules.apply (other.apply text)
      = rules.pinPackages (rules.refreshVersions
          (other.pinPackages (other.refreshVersions text))) := rfl
    _ = rules.pinPackages (rules.pinPackages
          (rules.refreshVersions (other.refreshVersions text))) := by
        rw [refreshVersions_pinPackages h hother hdirectory hnames]
    _ = rules.pinPackages (rules.refreshVersions text) := by
        rw [pinPackages_pinPackages h.pinsWords,
          refreshVersions_refreshVersions hother.toOnSite h.toOnSite htext]
    _ = rules.apply text := rfl

theorem upToDate_apply {text : Bytes} (htext : rules.Delimited text) :
    rules.UpToDate (rules.apply text) :=
  (apply_eq_self_iff h.toOnSite _).mp (apply_apply h h rfl (fun _ => Iff.rfl) htext)

theorem apply_word {word : Bytes} (hword : BlankFree word) :
    rules.apply word = rules.refreshVersions word ++
      if EndsInExample rules.exampleDirectory rules.exampleNames word then rules.pin else [] := by
  have hends := endsInExample_refreshVersions_iff h.toOnSite h.apart word
  have hword' := (blankFree_refreshVersions_iff h.toOnSite word).mpr hword
  have hpinned : rules.apply word =
      rules.refreshVersions word ++ rules.pinOf (rules.refreshVersions word) :=
    pinPackages_word h.examples hword'
  rw [hpinned, pinOf]
  simp only [hends]

/-- Whatever release of the function is applied to the text, these are the places to which it
writes. -/
structure HasSlots (rules : RefreshRules) (f site : List Char) (text : Bytes)
    (slots : List Slot) : Prop where
  source : slots.flatMap Slot.source = text
  write : ∀ other : RefreshRules, other.Separate f site →
    other.exampleDirectory = rules.exampleDirectory →
    (∀ name, name ∈ other.exampleNames ↔ name ∈ rules.exampleNames) →
      other.apply text = slots.flatMap (Slot.write other)

omit h in
theorem HasSlots.append_blank {front rest : Bytes} {slots slots' : List Slot}
    (hfront : rules.HasSlots f site front slots) (hrest : rules.HasSlots f site rest slots')
    {c : Char} (hc : isBlank c = true) :
    rules.HasSlots f site (front ++ (String.utf8EncodeChar c ++ rest))
      (slots ++ ((String.utf8EncodeChar c).map .byte ++ slots')) where
  source := by
    rw [List.flatMap_append, List.flatMap_append, Slot.flatMap_source_byte, hfront.source,
      hrest.source]
  write other hother hdirectory hnames := by
    rw [List.flatMap_append, List.flatMap_append, Slot.flatMap_write_byte,
      apply_append_blank hother.wordwise hc, hfront.write other hother hdirectory hnames,
      hrest.write other hother hdirectory hnames]

theorem exists_hasSlots_word {word : Bytes} (hword : BlankFree word)
    (htext : rules.Delimited word) : ∃ slots, rules.HasSlots f site word slots := by
  obtain ⟨slots, hsource, hwrite⟩ := exists_slots_refreshVersions h.toOnSite htext
  have hends (other : RefreshRules) (hdirectory : other.exampleDirectory = rules.exampleDirectory)
      (hnames : ∀ name, name ∈ other.exampleNames ↔ name ∈ rules.exampleNames) :
      EndsInExample other.exampleDirectory other.exampleNames word ↔
        EndsInExample rules.exampleDirectory rules.exampleNames word := by
    simp only [EndsInExample, hdirectory, hnames]
  by_cases hpin : EndsInExample rules.exampleDirectory rules.exampleNames word
  · refine ⟨slots ++ [.pin], by simp [hsource, Slot.source], ?_⟩
    intro other hother hdirectory hnames
    rw [apply_word hother hword, if_pos ((hends other hdirectory hnames).mpr hpin),
      hwrite other hother.toOnSite]
    simp [Slot.write]
  · refine ⟨slots, hsource, fun other hother hdirectory hnames => ?_⟩
    rw [apply_word hother hword, if_neg (hpin ∘ (hends other hdirectory hnames).mp),
      hwrite other hother.toOnSite, List.append_nil]

theorem exists_hasSlots {text : Bytes} (htext : rules.Delimited text) :
    ∃ slots, rules.HasSlots f site text slots := by
  induction text using word_induction with
  | last word hword => exact exists_hasSlots_word h hword htext
  | append word c rest hword hc ih =>
    obtain ⟨hfront, hrest⟩ := Delimited.of_append_blank h.toOnSite hc htext
    obtain ⟨slots, hslots⟩ := exists_hasSlots_word h hword hfront
    obtain ⟨slots', hslots'⟩ := ih hrest
    exact ⟨_, hslots.append_blank hslots' hc⟩

end Separate

variable {catalog : CatalogConfig}

theorem separate_ofRelease {release : Release} (hname : isName release.function.toList = true)
    (hplain : ∀ name ∈ release.exampleNames, ∀ c ∈ name.toList, c ≠ '/' ∧ isBlank c = false)
    (hcatalog : catalog.Separates release) :
    (ofRelease release catalog).Separate release.function.toList catalog.site where
  toOnSite := onSite_ofRelease hname
    (isSite_of_isWebAddress hname hcatalog.url hcatalog.urlApart hcatalog.function)
  plain := List.forall_mem_append.mpr ⟨hcatalog.url.plain,
    List.forall_mem_singleton.mpr (by decide)⟩
  slash := ⟨_, rfl⟩
  examples := isPlain_ofRelease hcatalog.repository.plain fun name hmem c hc =>
    (hplain name hmem c hc).2
  apart := by
    have hscheme := CatalogConfig.exists_scheme_exampleSite hcatalog.repository release.area
    intro bytes hbytes
    obtain ⟨name, hmem, rfl⟩ := List.mem_map.mp hbytes
    refine ⟨?_, ?_⟩
    · rw [exampleDirectory_ofRelease]
      exact (hasScheme_encode hscheme).append _
    · have haddress : utf8Bytes (trimSlashes catalog.packageRepository ++ "/" ++
          release.area.examplesSubpath ++ "/" ++ name) =
            (ofRelease release catalog).exampleDirectory ++ utf8Bytes name := by
        simp [ofRelease, utf8Bytes]
      exact haddress ▸ hcatalog.examplesApart name hmem
  names := slash_not_mem_exampleNames fun name hmem hslash =>
    (hplain name hmem '/' hslash).1 rfl
  directory := exists_exampleDirectory_ofRelease release catalog

/-- The document of an older release brought to a newer one. The newer release writes what it
would have written without the older one, into the places where the older one wrote and nowhere
else; all references and links name it, and there is one pin behind each reference to an example. -/
structure Upgrades (older newer : RefreshRules) (text result : Bytes) : Prop where
  direct : result = newer.apply text
  moved : ∃ slots : List Slot, slots.flatMap Slot.source = text ∧
    older.apply text = slots.flatMap (Slot.write older) ∧
    result = slots.flatMap (Slot.write newer)
  current : newer.UpToDate result
  links : ∀ before link after,
    (CatalogLink.kind newer.page).Finds result before link after → link.token = newer.minor
  pinned : result = newer.pin.intercalate (newer.pinParts (newer.refreshVersions text))

theorem upgrades_apply {first second : Release}
    (hname : isName first.function.toList = true) (hfunction : second.function = first.function)
    (harea : second.area = first.area)
    (hexamples : ∀ name, name ∈ second.exampleNames ↔ name ∈ first.exampleNames)
    (hplain : ∀ name ∈ first.exampleNames, ∀ c ∈ name.toList, c ≠ '/' ∧ isBlank c = false)
    (hcatalog : catalog.Separates first) {text : Bytes}
    (htext : (ofRelease first catalog).Delimited text) :
    Upgrades (ofRelease first catalog) (ofRelease second catalog) text
      ((ofRelease second catalog).apply ((ofRelease first catalog).apply text)) := by
  have hfirst := separate_ofRelease hname hplain hcatalog
  have hsecond := separate_ofRelease (hfunction ▸ hname)
    (fun name hmem => hplain name ((hexamples name).mp hmem))
    (hcatalog.congr hfunction harea hexamples)
  rw [hfunction] at hsecond
  have hdirectory : (ofRelease second catalog).exampleDirectory =
      (ofRelease first catalog).exampleDirectory := by
    rw [exampleDirectory_ofRelease, exampleDirectory_ofRelease, harea]
  have hnames (name : Bytes) : name ∈ (ofRelease second catalog).exampleNames ↔
      name ∈ (ofRelease first catalog).exampleNames := by
    simp only [ofRelease, List.mem_map, hexamples]
  have htext' : (ofRelease second catalog).Delimited text := by
    have hsame : (ofRelease second catalog).function = (ofRelease first catalog).function := by
      rw [ofRelease, ofRelease, hfunction]
    simpa only [Delimited, hsame] using htext
  have hdirect := apply_apply hsecond hfirst hdirectory.symm (fun name => (hnames name).symm) htext
  obtain ⟨slots, hslots⟩ := exists_hasSlots hfirst htext
  have hcurrent := upToDate_apply hsecond htext'
  rw [hdirect]
  exact
    { direct := rfl
      moved := ⟨slots, hslots.source, hslots.write _ hfirst rfl fun _ => Iff.rfl,
        hslots.write _ hsecond hdirectory hnames⟩
      current := hcurrent
      links := fun _ _ _ => token_eq_minor_of_finds hsecond.toOnSite hcurrent.references
      pinned := refresh_eq_intercalate hsecond.examples _ _ }

def mirror : CatalogConfig where
  url := "https://k.io/"
  packageRepository := "https://k.io/git"

def mirrored (minor patch : UInt64) : Release :=
  ⟨"fn", ⟨1, minor⟩, "go", ⟨1, minor, patch⟩, ⟨""⟩, false, [⟨"fn-a", ⟨""⟩⟩]⟩

theorem delimited_of_forall_tails {rules : RefreshRules} {text : Bytes}
    (h : ∀ back ∈ text.tails, ∀ found ∈ TagReference.read? rules.function back,
      number? found.2 = none ∧ pointNumber? found.2 = none) : rules.Delimited text := by
  intro before reference after hfinds
  refine h _ ((List.mem_tails _ _).mpr ⟨before, ?_⟩) (reference, after) hfinds.read?_eq_some
  rw [hfinds.eq_append, List.append_assoc]

/-- A reference, a link and a pin, to v1.1.0 through v1.0.3. -/
theorem upgrades_apply_next_minor :
    (ofRelease (mirrored 0 3) mirror).apply
        (utf8Bytes "fn:v0.2 https://k.io/fn/v0.2 https://k.io/git/examples/fn-a") =
      utf8Bytes "fn:v1.0.3 https://k.io/fn/v1.0 https://k.io/git/examples/fn-a@fn/v1.0.3" ∧
    (ofRelease (mirrored 1 0) mirror).apply ((ofRelease (mirrored 0 3) mirror).apply
        (utf8Bytes "fn:v0.2 https://k.io/fn/v0.2 https://k.io/git/examples/fn-a")) =
      utf8Bytes "fn:v1.1.0 https://k.io/fn/v1.1 https://k.io/git/examples/fn-a@fn/v1.1.0" ∧
    Upgrades (ofRelease (mirrored 0 3) mirror) (ofRelease (mirrored 1 0) mirror)
      (utf8Bytes "fn:v0.2 https://k.io/fn/v0.2 https://k.io/git/examples/fn-a")
      ((ofRelease (mirrored 1 0) mirror).apply ((ofRelease (mirrored 0 3) mirror).apply
        (utf8Bytes "fn:v0.2 https://k.io/fn/v0.2 https://k.io/git/examples/fn-a"))) := by
  have hurl : IsWebAddress (trimSlashes mirror.url) :=
    ⟨Or.inr (by decide +kernel), isBlank_eq_false_of_any (by decide +kernel)⟩
  have hrepository : IsWebAddress (trimSlashes mirror.packageRepository) :=
    ⟨Or.inr (by decide +kernel), isBlank_eq_false_of_any (by decide +kernel)⟩
  have hexample {name : String} (hname : name ∈ (mirrored 0 3).exampleNames) : name = "fn-a" :=
    List.mem_singleton.mp hname
  have hupgrades := @upgrades_apply mirror (mirrored 0 3) (mirrored 1 0)
    (by decide +kernel) rfl rfl (fun _ => Iff.rfl) ?_ ?_
    (utf8Bytes "fn:v0.2 https://k.io/fn/v0.2 https://k.io/git/examples/fn-a")
    (delimited_of_forall_tails (by decide +kernel))
  · exact ⟨by decide +kernel, hupgrades.direct.trans (by decide +kernel), hupgrades⟩
  · intro name hname
    have hall : ("fn-a".toList.all fun c => c != '/' && !isBlank c) = true := by decide +kernel
    rw [hexample hname]
    exact fun c hc => by simpa using List.all_eq_true.mp hall c hc
  · refine ⟨hurl, hrepository, by decide +kernel, ?_, fun name hname => ?_⟩
    · exact TagReference.skips_of_not_infix (by decide +kernel) (by decide +kernel)
    · rw [hexample hname]
      exact TagReference.skips_of_not_infix (by decide +kernel) (by decide +kernel)

end RefreshRules

end ReleaseDocs
