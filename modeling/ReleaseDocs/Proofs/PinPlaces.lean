import ReleaseDocs.Proofs.CatalogRules
import ReleaseDocs.Proofs.Overwrite

/-!
Where the rule for package references puts its pins, and what it leaves to a second run.

The document is cut behind every location of an example that ends a word, and the pins go between
the parts (`refresh_eq_intercalate`). A word with a pin gets no other one
(`pinPackages_pinPackages`).
-/

namespace ReleaseDocs

open VersionToken TagReference CatalogLink PackageReference

section CutWhere

variable (law : Bytes → Bytes → Prop) [∀ front back, Decidable (law front back)]

/-- The parts of a text between the positions of which a law holds. The law looks at all that stands
in front of a position, `front` included, and at all that stands behind it. -/
def cutWhere (front : Bytes) : Bytes → List Bytes
  | [] => if law front [] then [[], []] else [[]]
  | byte :: text =>
      let parts := (cutWhere (front ++ [byte]) text).modifyHead (byte :: ·)
      if law front (byte :: text) then [] :: parts else parts

theorem exists_cons_cutWhere (front text : Bytes) :
    ∃ part parts, cutWhere law front text = part :: parts := by
  refine List.exists_cons_of_ne_nil ?_
  induction text generalizing front with
  | nil =>
      unfold cutWhere
      split <;> simp
  | cons byte text ih =>
      unfold cutWhere
      simp only
      split
      · simp
      · simpa using ih (front ++ [byte])

theorem flatten_cutWhere (front text : Bytes) : (cutWhere law front text).flatten = text := by
  induction text generalizing front with
  | nil =>
      unfold cutWhere
      split <;> rfl
  | cons byte text ih =>
      obtain ⟨part, parts, hparts⟩ := exists_cons_cutWhere law (front ++ [byte]) text
      have htext := ih (front ++ [byte])
      rw [hparts, List.flatten_cons] at htext
      unfold cutWhere
      simp only [hparts, List.modifyHead_cons]
      split <;> simp [htext]

variable (pin : Bytes)

theorem intercalate_cutWhere_nil (front : Bytes) :
    pin.intercalate (cutWhere law front []) = if law front [] then pin else [] := by
  unfold cutWhere
  split <;> simp [List.intercalate_cons_cons]

theorem intercalate_cutWhere_cons (front : Bytes) (byte : UInt8) (text : Bytes) :
    pin.intercalate (cutWhere law front (byte :: text)) =
      (if law front (byte :: text) then pin else []) ++
        byte :: pin.intercalate (cutWhere law (front ++ [byte]) text) := by
  obtain ⟨part, parts, hparts⟩ := exists_cons_cutWhere law (front ++ [byte]) text
  rw [cutWhere]
  simp only [hparts, List.modifyHead_cons]
  cases parts <;> split <;> simp [List.intercalate_cons_cons]

/-- Nothing goes into a text at whose positions the law does not hold. -/
theorem intercalate_cutWhere_append {text rest : Bytes} (front : Bytes)
    (h : ∀ inner back, back ≠ [] → text = inner ++ back → ¬ law (front ++ inner) (back ++ rest)) :
    pin.intercalate (cutWhere law front (text ++ rest)) =
      text ++ pin.intercalate (cutWhere law (front ++ text) rest) := by
  induction text generalizing front with
  | nil => simp
  | cons byte text ih =>
      have hfirst : ¬ law front (byte :: (text ++ rest)) := by
        simpa using h [] (byte :: text) (by simp) rfl
      have hnext := ih (front ++ [byte]) fun inner back hne htext => by
        simpa using h (byte :: inner) back hne (by simp [htext])
      rw [List.cons_append, intercalate_cutWhere_cons, if_neg hfirst, hnext]
      simp

theorem cutWhere_congr {other : Bytes → Bytes → Prop}
    [∀ front back, Decidable (other front back)]
    (h : ∀ front back, law front back ↔ other front back) (front text : Bytes) :
    cutWhere law front text = cutWhere other front text := by
  induction text generalizing front with
  | nil => simp only [cutWhere, h]
  | cons byte text ih => simp only [cutWhere, h, ih]

end CutWhere

namespace PackageReference

/-- A position behind the location of an example and at the end of a word. -/
def PinPlace (directory : Bytes) (names : List Bytes) (front back : Bytes) : Prop :=
  EndsInExample directory names front ∧ Ends back

instance (directory : Bytes) (names : List Bytes) (front back : Bytes) :
    Decidable (PinPlace directory names front back) :=
  inferInstanceAs (Decidable (_ ∧ _))

theorem suffix_append_blank_iff {address : Bytes} (hword : BlankFree address)
    (hfirst : ∃ d rest, address = String.utf8EncodeChar d ++ rest) {c : Char}
    (hc : isBlank c = true) (front word : Bytes) :
    address <:+ front ++ (String.utf8EncodeChar c ++ word) ↔ address <:+ word := by
  have hnot (inner : Bytes) : address ≠ inner ++ (String.utf8EncodeChar c ++ word) := fun heq =>
    hword _ ⟨inner, heq.symm⟩ ⟨c, word, hc, rfl⟩
  constructor
  · rintro ⟨before, hbefore⟩
    rw [← List.append_assoc] at hbefore
    rcases List.append_eq_append_iff.mp hbefore with ⟨inner, hinner, haddress⟩ | ⟨inner, -, hback⟩
    · by_cases hne : inner = []
      · exact ⟨[], by simp [haddress, hne]⟩
      · obtain ⟨d, rest, hd⟩ := hfirst
        have hboundary : AtBoundary (inner ++ word) := by
          rw [← haddress, hd]
          exact atBoundary_utf8EncodeChar_append d rest
        rcases List.append_eq_append_iff.mp hinner with ⟨more, -, hchar⟩ | ⟨more, -, hmore⟩
        · -- the address would start with the whole character or inside it
          have hform : encode [c] = more ++ inner := by simpa [encode_cons] using hchar
          obtain ⟨left, right, hchars, -, rfl⟩ := encode_eq_append hform (hboundary.of_append hne)
          rcases List.singleton_eq_append_iff.mp hchars with ⟨-, rfl⟩ | ⟨-, rfl⟩
          · exact absurd (by simpa [encode_cons] using haddress) (hnot [])
          · exact absurd rfl hne
        · exact absurd (by simp [haddress, hmore]) (hnot more)
    · exact ⟨inner, hback.symm⟩
  · rintro ⟨before, rfl⟩
    exact ⟨front ++ (String.utf8EncodeChar c ++ before), by simp⟩

def StartsWord (front : Bytes) : Prop :=
  front = [] ∨ ∃ before c, isBlank c = true ∧ front = before ++ String.utf8EncodeChar c

theorem not_pinPlace_inside {directory : Bytes} {names : List Bytes} (front : Bytes)
    {word rest : Bytes} (hword : BlankFree word) (hrest : Ends rest) :
    ∀ inner back, back ≠ [] → word = inner ++ back →
      ¬ PinPlace directory names (front ++ inner) (back ++ rest) := by
  rintro inner back hne rfl ⟨-, hends⟩
  exact hword back (List.suffix_append _ _) (startsWith_of_ends_append hne hrest hends)

theorem not_ends_inside {c : Char} {inner back : Bytes} (hinner : inner ≠ []) (hback : back ≠ [])
    (hc : String.utf8EncodeChar c = inner ++ back) (rest : Bytes) : ¬ Ends (back ++ rest) := by
  rintro (hnil | ⟨d, more, -, hd⟩)
  · exact hback (List.append_eq_nil_iff.mp hnil).1
  · have hboundary : AtBoundary back :=
      AtBoundary.of_append (hd ▸ atBoundary_utf8EncodeChar_append d more) hback
    have hform : encode [c] = inner ++ back := by simpa [encode_cons] using hc
    obtain ⟨left, right, hchars, rfl, rfl⟩ := encode_eq_append hform hboundary
    rcases List.singleton_eq_append_iff.mp hchars with ⟨rfl, -⟩ | ⟨-, rfl⟩
    · exact hinner rfl
    · exact hback rfl

section Plain

variable {directory : Bytes} {names : List Bytes} (h : IsPlain directory names)
include h

theorem endsInExample_append_iff {front : Bytes} (hfront : StartsWord front) (word : Bytes) :
    EndsInExample directory names (front ++ word) ↔ EndsInExample directory names word := by
  rcases hfront with rfl | ⟨before, c, hc, rfl⟩
  · rfl
  · refine exists_congr fun name => and_congr_right fun hname => ?_
    obtain ⟨d, rest, -, hd⟩ := h.first
    rw [List.append_assoc]
    exact suffix_append_blank_iff (h.word name hname)
      ⟨d, rest ++ name, by rw [hd, List.append_assoc]⟩ hc before word

theorem refresh_blank_char_append {c : Char} (hc : isBlank c = true) (pin rest : Bytes) :
    refresh directory names pin (String.utf8EncodeChar c ++ rest) =
      String.utf8EncodeChar c ++ refresh directory names pin rest := by
  have hblank : refresh directory names pin (encode [c] ++ rest) = _ :=
    refresh_blank_append h (by simpa using hc) pin rest
  simpa [encode_cons] using hblank

theorem intercalate_cutWhere_eq_refresh (pin text : Bytes) {front : Bytes}
    (hfront : StartsWord front) :
    pin.intercalate (cutWhere (PinPlace directory names) front text) =
      refresh directory names pin text := by
  have hplace (front word : Bytes) {rest : Bytes} (hfront : StartsWord front) (hrest : Ends rest) :
      PinPlace directory names (front ++ word) rest ↔ EndsInExample directory names word := by
    rw [PinPlace, endsInExample_append_iff h hfront, and_iff_left hrest]
  induction text using word_induction generalizing front with
  | last word hword =>
    have hnil : Ends [] := Or.inl rfl
    have hcut := intercalate_cutWhere_append (PinPlace directory names) pin front
      (not_pinPlace_inside front hword hnil)
    rw [intercalate_cutWhere_nil, List.append_nil] at hcut
    have hpin := refresh_word_append h pin hword hnil
    have hlast : refresh directory names pin [] = [] :=
      ReferenceKind.substitute_nil _ _
    rw [hlast, List.append_nil, List.append_nil] at hpin
    simp only [hcut, hpin, hplace front word hfront hnil]
  | append word c rest hword hc ih =>
    have hends : Ends (String.utf8EncodeChar c ++ rest) := Or.inr ⟨c, rest, hc, rfl⟩
    have hrest := ih (Or.inr ⟨front ++ word, c, hc, rfl⟩)
    have hplace' := hplace front word hfront hends
    obtain ⟨byte, bytes, hbytes⟩ :=
      List.exists_cons_of_ne_nil (show String.utf8EncodeChar c ≠ [] by simp)
    have hinside : ∀ inner back, back ≠ [] → bytes = inner ++ back →
        ¬ PinPlace directory names (front ++ word ++ [byte] ++ inner) (back ++ rest) := by
      rintro inner back hne rfl ⟨-, hends⟩
      exact not_ends_inside (List.cons_ne_nil byte inner) hne hbytes rest hends
    have hchar := intercalate_cutWhere_append _ pin _ hinside
    rw [refresh_word_append h pin hword hends, refresh_blank_char_append h hc, ← hrest,
      intercalate_cutWhere_append _ _ _ (not_pinPlace_inside front hword hends)]
    rw [hbytes] at hplace' ⊢
    rw [List.cons_append, intercalate_cutWhere_cons, ← List.cons_append, hchar]
    simp only [hplace']
    simp

/-- Pins go to all their places and nowhere else. -/
theorem refresh_eq_intercalate (pin text : Bytes) :
    refresh directory names pin text =
      pin.intercalate (cutWhere (PinPlace directory names) [] text) :=
  (intercalate_cutWhere_eq_refresh h pin text (Or.inl rfl)).symm

theorem refresh_congr {other : List Bytes} (hother : IsPlain directory other)
    (hnames : ∀ name, name ∈ names ↔ name ∈ other) (pin text : Bytes) :
    refresh directory names pin text = refresh directory other pin text := by
  rw [refresh_eq_intercalate h, refresh_eq_intercalate hother]
  have hplace (front back : Bytes) :
      PinPlace directory names front back ↔ PinPlace directory other front back := by
    simp only [PinPlace, EndsInExample, hnames]
  rw [cutWhere_congr _ hplace]

end Plain

end PackageReference

namespace RefreshRules

def pinOf (rules : RefreshRules) (word : Bytes) : Bytes :=
  if EndsInExample rules.exampleDirectory rules.exampleNames word then rules.pin else []

/-- The locations of the examples are words, and a pin goes on with a word and ends in no location
of an example. -/
structure PinsWords (rules : RefreshRules) : Prop where
  examples : PackageReference.IsPlain rules.exampleDirectory rules.exampleNames
  names : ∀ name ∈ rules.exampleNames, 0x2F ∉ name
  directory : ∃ front last, rules.exampleDirectory = front ++ 0x2F :: (last ++ [0x2F]) ∧
    0x2F ∉ last ∧ 0x40 ∉ last
  pin : ∃ f version, rules.pin = encode ('@' :: (f ++ '/' :: version)) ∧ '/' ∉ f ∧
    '/' ∉ version ∧ ∀ c ∈ f ++ version, isBlank c = false

section Plain

variable {rules : RefreshRules}
  (h : PackageReference.IsPlain rules.exampleDirectory rules.exampleNames)
include h

theorem pinPackages_word_append {word rest : Bytes} (hword : BlankFree word)
    (hrest : PackageReference.Ends rest) :
    rules.pinPackages (word ++ rest) = word ++ (rules.pinOf word ++ rules.pinPackages rest) :=
  PackageReference.refresh_word_append h rules.pin hword hrest

theorem pinPackages_word {word : Bytes} (hword : BlankFree word) :
    rules.pinPackages word = word ++ rules.pinOf word := by
  have hall := pinPackages_word_append h hword (Or.inl rfl)
  simpa [pinPackages, PackageReference.refresh, ReferenceKind.substitute] using hall

theorem pinPackages_word_append_blank {word : Bytes} (hword : BlankFree word) {c : Char}
    (hc : isBlank c = true) (rest : Bytes) :
    rules.pinPackages (word ++ (String.utf8EncodeChar c ++ rest)) =
      word ++ rules.pinOf word ++ (String.utf8EncodeChar c ++ rules.pinPackages rest) := by
  rw [pinPackages_word_append h hword (Or.inr ⟨c, rest, hc, rfl⟩), pinPackages,
    PackageReference.refresh_blank_char_append h hc]
  simp [pinPackages]

end Plain

section PinsWords

variable {rules : RefreshRules} (h : rules.PinsWords)
include h

theorem not_endsInExample_append_pin (word : Bytes) :
    ¬ EndsInExample rules.exampleDirectory rules.exampleNames (word ++ rules.pin) := by
  obtain ⟨front, last, hdirectory, hlast, hat⟩ := h.directory
  obtain ⟨f, version, hpin, hf, hversion, -⟩ := h.pin
  replace hf : 0x2F ∉ encode f := not_mem_encode (c := '/') rfl hf
  replace hversion : 0x2F ∉ encode version := not_mem_encode (c := '/') rfl hversion
  replace hpin : rules.pin = 0x40 :: (encode f ++ 0x2F :: encode version) := by
    rw [hpin, encode_cons, encode_append, encode_cons]
    rfl
  rintro ⟨name, hname, before, hbefore⟩
  have hwhole : (before ++ (front ++ 0x2F :: last)) ++ 0x2F :: name =
      (word ++ 0x40 :: encode f) ++ 0x2F :: encode version := by
    simpa [hdirectory, hpin] using hbefore
  obtain ⟨hdirectory', -⟩ := append_cons_inj_of_not_mem_back (h.names name hname) hversion hwhole
  rw [← List.append_assoc] at hdirectory'
  rcases List.append_eq_append_iff.mp hdirectory' with ⟨inner, -, hinner⟩ | ⟨inner, -, hinner⟩
  · cases inner with
    | nil => exact absurd (List.cons.inj hinner).1 (by decide)
    | cons byte inner =>
      obtain ⟨-, rfl⟩ := List.cons.inj hinner
      simp at hat
  · cases inner with
    | nil => exact absurd (List.cons.inj hinner).1 (by decide)
    | cons byte inner =>
      obtain ⟨-, hinner⟩ := List.cons.inj hinner
      simp [hinner] at hf

theorem blankFree_append_pinOf {word : Bytes} (hword : BlankFree word) :
    BlankFree (word ++ rules.pinOf word) := by
  obtain ⟨f, version, hpin, -, -, hplain⟩ := h.pin
  have hall : ∀ c ∈ '@' :: (f ++ '/' :: version), isBlank c = false := by
    have hat : isBlank '@' = false := by decide
    have hslash : isBlank '/' = false := by decide
    simp only [List.forall_mem_cons, List.forall_mem_append] at hplain ⊢
    exact ⟨hat, hplain.1, hslash, hplain.2⟩
  unfold pinOf
  split
  · rw [hpin, ← List.append_nil (encode _), blankFree_append_encode_iff (by simp) hall]
    exact ⟨hword, blankFree_nil⟩
  · rwa [List.append_nil]

theorem pinOf_append_pinOf (word : Bytes) : rules.pinOf (word ++ rules.pinOf word) = [] := by
  unfold pinOf
  split
  · rw [if_neg (not_endsInExample_append_pin h word)]
  · rename_i hnot
    rw [List.append_nil, if_neg hnot]

theorem pinPackages_pinPackages (text : Bytes) :
    rules.pinPackages (rules.pinPackages text) = rules.pinPackages text := by
  induction text using word_induction with
  | last word hword =>
    rw [pinPackages_word h.examples hword,
      pinPackages_word h.examples (blankFree_append_pinOf h hword), pinOf_append_pinOf h,
      List.append_nil]
  | append word c rest hword hc ih =>
    rw [pinPackages_word_append_blank h.examples hword hc,
      pinPackages_word_append_blank h.examples (blankFree_append_pinOf h hword) hc,
      pinOf_append_pinOf h, List.append_nil, ih]

end PinsWords

def pinParts (rules : RefreshRules) (text : Bytes) : List Bytes :=
  cutWhere (PinPlace rules.exampleDirectory rules.exampleNames) [] text

variable {release : Release} {catalog : CatalogConfig}

theorem isPlain_ofRelease
    (hrepository : ∀ c ∈ (trimSlashes catalog.packageRepository).toList, isBlank c = false)
    (hnames : ∀ name ∈ release.exampleNames, ∀ c ∈ name.toList, isBlank c = false) :
    PackageReference.IsPlain (ofRelease release catalog).exampleDirectory
      (ofRelease release catalog).exampleNames := by
  have hblank := CatalogConfig.isBlank_exampleSite hrepository release.area
  constructor
  · obtain ⟨c, rest, hsite⟩ := List.exists_cons_of_ne_nil
      (show catalog.exampleSite release.area ≠ [] by simp [CatalogConfig.exampleSite])
    refine ⟨c, encode rest, hblank c (by simp [hsite]), ?_⟩
    rw [exampleDirectory_ofRelease, hsite, encode_cons]
  · intro bytes hbytes
    obtain ⟨name, hmem, rfl⟩ := List.mem_map.mp hbytes
    rw [exampleDirectory_append]
    exact blankFree_encode (List.forall_mem_append.mpr ⟨hblank, hnames name hmem⟩)

theorem exists_exampleDirectory_ofRelease (release : Release) (catalog : CatalogConfig) :
    ∃ front last, (ofRelease release catalog).exampleDirectory =
      front ++ 0x2F :: (last ++ [0x2F]) ∧ 0x2F ∉ last ∧ 0x40 ∉ last := by
  rw [exampleDirectory_ofRelease]
  cases release.area with
  | core => exact ⟨_, encode "examples".toList, encode_append _ _, by decide, by decide⟩
  | contrib =>
    have hsplit : catalog.exampleSite .contrib =
        ((trimSlashes catalog.packageRepository).toList ++ "/contrib".toList) ++
          '/' :: ("examples".toList ++ ['/']) := by
      rw [List.append_assoc]
      rfl
    exact ⟨_, encode "examples".toList, by rw [hsplit]; exact encode_append _ _, by decide,
      by decide⟩

theorem pinsWords_ofRelease
    (hfunction : ∀ c ∈ release.function.toList, c ≠ '/' ∧ isBlank c = false)
    (hnames : ∀ name ∈ release.exampleNames, ∀ c ∈ name.toList, c ≠ '/' ∧ isBlank c = false)
    (hrepository : ∀ c ∈ (trimSlashes catalog.packageRepository).toList, isBlank c = false) :
    (ofRelease release catalog).PinsWords where
  examples := isPlain_ofRelease hrepository fun name hmem c hc => (hnames name hmem c hc).2
  names := slash_not_mem_exampleNames fun name hmem hslash =>
    (hnames name hmem '/' hslash).1 rfl
  directory := exists_exampleDirectory_ofRelease release catalog
  pin := by
    have htoken : IsToken release.patch.chars :=
      .patch (isNumber_digits _) (isNumber_digits _) (isNumber_digits _)
    refine ⟨release.function.toList, release.patch.chars, ?_, fun hslash => ?_,
      htoken.not_mem (by decide) (by decide), List.forall_mem_append.mpr
        ⟨fun c hc => (hfunction c hc).2, isBlank_eq_false_of_isToken htoken⟩⟩
    · simp [ofRelease, utf8Bytes, encode, PatchVersion.text]
    · exact (hfunction '/' hslash).1 rfl

/-- The third rule writes the pin at every position behind the location of an example at the end of
a word and changes nothing else, whatever the order of the names; a second run writes nothing. -/
theorem pinPackages_eq_intercalate
    (hfunction : ∀ c ∈ release.function.toList, c ≠ '/' ∧ isBlank c = false)
    (hnames : ∀ name ∈ release.exampleNames, ∀ c ∈ name.toList, c ≠ '/' ∧ isBlank c = false)
    (hrepository : ∀ c ∈ catalog.packageRepository.toList, isBlank c = false) (text : Bytes) :
    (ofRelease release catalog).pinPackages text =
        (ofRelease release catalog).pin.intercalate
          ((ofRelease release catalog).pinParts text) ∧
      ((ofRelease release catalog).pinParts text).flatten = text ∧
      (∀ other : Release, other.function = release.function → other.patch = release.patch →
        other.area = release.area →
        (∀ name, name ∈ other.exampleNames ↔ name ∈ release.exampleNames) →
        (ofRelease other catalog).pinPackages text =
          (ofRelease release catalog).pinPackages text) ∧
      (ofRelease release catalog).pinPackages ((ofRelease release catalog).pinPackages text) =
        (ofRelease release catalog).pinPackages text := by
  have hrepository' : ∀ c ∈ (trimSlashes catalog.packageRepository).toList, isBlank c = false :=
    fun c hc => hrepository c (mem_of_mem_trimSlashes hc)
  have hpins := pinsWords_ofRelease hfunction hnames hrepository'
  refine ⟨refresh_eq_intercalate hpins.examples _ text, flatten_cutWhere _ _ _, ?_,
    pinPackages_pinPackages hpins text⟩
  intro other hsame hpatch harea hexamples
  have hother : PackageReference.IsPlain (ofRelease other catalog).exampleDirectory
      (ofRelease other catalog).exampleNames :=
    isPlain_ofRelease hrepository' fun name hmem c hc =>
      (hnames name ((hexamples name).mp hmem) c hc).2
  have hdirectory : (ofRelease other catalog).exampleDirectory =
      (ofRelease release catalog).exampleDirectory := by
    rw [exampleDirectory_ofRelease, exampleDirectory_ofRelease, harea]
  have hpin : (ofRelease other catalog).pin = (ofRelease release catalog).pin := by
    simp only [ofRelease, hsame, hpatch]
  rw [hdirectory] at hother
  rw [pinPackages, pinPackages, hdirectory, hpin]
  refine refresh_congr hother hpins.examples (fun bytes => ?_) _ text
  simp only [ofRelease, List.mem_map, hexamples]

theorem pinPackages_common_start :
    (ofRelease ⟨"fn", ⟨1, 0⟩, "go", ⟨1, 0, 3⟩, ⟨""⟩, true, [⟨"fn-a", ⟨""⟩⟩, ⟨"fn-ab", ⟨""⟩⟩]⟩
        { packageRepository := "k.io/" }).pinPackages
          (utf8Bytes "k.io/contrib/examples/fn-a\n  k.io/contrib/examples/fn-ab") =
      utf8Bytes
        "k.io/contrib/examples/fn-a@fn/v1.0.3\n  k.io/contrib/examples/fn-ab@fn/v1.0.3" := by
  have hplain (cs : List Char) (h : (cs.all fun c => c != '/' && !isBlank c) = true) :
      ∀ c ∈ cs, c ≠ '/' ∧ isBlank c = false := by
    simpa using h
  rw [(pinPackages_eq_intercalate (hplain _ (by decide +kernel)) ?_
    (isBlank_eq_false_of_any (by decide +kernel)) _).1]
  · decide +kernel
  · intro name hname
    have hnames : name = "fn-a" ∨ name = "fn-ab" := by
      simpa [Release.exampleNames] using hname
    rcases hnames with rfl | rfl <;> exact hplain _ (by decide +kernel)

end RefreshRules

end ReleaseDocs
