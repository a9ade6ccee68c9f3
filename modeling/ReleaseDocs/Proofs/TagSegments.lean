import ReleaseDocs.Proofs.Versions

/-!
Reading a tag is a test of its last three segments.

`finds_parts?`: whichever place the leftmost search stops at, the parts are the last segments of the
tag, and the search finds parts whenever the tag ends in some. `parts?_eq_some_iff`: if no language
has a slash, they are the last three segments.
-/

namespace ReleaseDocs

section Segments

variable {α : Type}

theorem suffix_iff_eq_or_suffix_tail {segments last : List α} (hne : segments ≠ []) :
    last <:+ segments ↔ last = segments ∨ last <:+ segments.tail := by
  obtain ⟨first, rest, rfl⟩ := List.exists_cons_of_ne_nil hne
  exact List.suffix_cons_iff

variable [DecidableEq α] {separator : α}

theorem fields_cons_separator (text : List α) :
    fields separator (separator :: text) = [] :: fields separator text := by
  simp [fields]

theorem tail_fields_cons {a : α} (h : a ≠ separator) (text : List α) :
    (fields separator (a :: text)).tail = (fields separator text).tail := by
  obtain ⟨field, rest, hfields⟩ := List.exists_cons_of_ne_nil (fields_ne_nil separator text)
  simp [fields, h, hfields]

theorem exists_mem_fields_of_mem {a : α} {text : List α} (hne : a ≠ separator)
    (h : a ∈ text) : ∃ field ∈ fields separator text, a ∈ field := by
  induction text with
  | nil => simp at h
  | cons b text ih =>
      obtain ⟨first, rest, hfields⟩ := List.exists_cons_of_ne_nil (fields_ne_nil separator text)
      by_cases hb : b = separator
      · subst hb
        obtain ⟨field, hfield, hmem⟩ := ih ((List.mem_cons.mp h).resolve_left hne)
        exact ⟨field, by simp [fields, hfield], hmem⟩
      · rw [hfields] at ih
        simp only [fields, hb, ↓reduceIte, hfields]
        rcases List.mem_cons.mp h with rfl | h
        · exact ⟨a :: first, by simp, by simp⟩
        · obtain ⟨field, hfield, hmem⟩ := ih h
          rcases List.mem_cons.mp hfield with rfl | hfield
          · exact ⟨b :: field, by simp, List.mem_cons_of_mem b hmem⟩
          · exact ⟨field, List.mem_cons_of_mem _ hfield, hmem⟩

omit [DecidableEq α] in
theorem joinFields_append (separator : α) (before : List (List α)) {last : List (List α)}
    (hne : last ≠ []) :
    joinFields separator (before ++ last) =
      before.flatMap (· ++ [separator]) ++ joinFields separator last := by
  induction before with
  | nil => rfl
  | cons field before ih =>
      rw [List.cons_append, joinFields_cons_of_ne_nil _ _ (by simp [hne]), ih]
      simp

theorem exists_fields_append_eq_concat (front : List α) {last : List α} (h : separator ∉ last) :
    ∃ before field, fields separator (front ++ last) = before ++ [field ++ last] := by
  induction front with
  | nil => exact ⟨[], [], fields_of_not_mem h⟩
  | cons a front ih =>
      obtain ⟨before, field, hfields⟩ := ih
      by_cases ha : a = separator
      · exact ⟨[] :: before, field, by simp [fields, ha, hfields]⟩
      · cases before with
        | nil => exact ⟨[], a :: field, by simp_all [fields]⟩
        | cons first before => exact ⟨(a :: first) :: before, field, by simp_all [fields]⟩

theorem exists_fields_append_eq_cons {first : List α} (h : separator ∉ first) (back : List α) :
    ∃ field after, fields separator (first ++ back) = (first ++ field) :: after := by
  induction first with
  | nil => exact List.exists_cons_of_ne_nil (fields_ne_nil separator back)
  | cons a first ih =>
      rw [List.mem_cons, not_or] at h
      obtain ⟨field, after, hfields⟩ := ih h.2
      exact ⟨field, after, by simp [fields, Ne.symm h.1, hfields]⟩

/-- Two texts around a separator occur where a field ends in the one and the next field starts with
the other. -/
theorem occursIn_append_cons_iff {left right text : List α} (hleft : separator ∉ left)
    (hright : separator ∉ right) :
    occursIn (left ++ separator :: right) text = true ↔
      ∃ before front back after,
        fields separator text = before ++ (front ++ left) :: (right ++ back) :: after := by
  rw [occursIn_iff]
  constructor
  · rintro ⟨start, rest, rfl⟩
    obtain ⟨before, front, hfront⟩ := exists_fields_append_eq_concat start hleft
    obtain ⟨back, after, hback⟩ := exists_fields_append_eq_cons hright rest
    refine ⟨before, front, back, after, ?_⟩
    have htext : start ++ (left ++ separator :: right) ++ rest =
        (start ++ left) ++ separator :: (right ++ rest) := by simp
    rw [htext, fields_append_separator, hfront, hback]
    simp
  · rintro ⟨before, front, back, after, hfields⟩
    have htail : ∃ rest, joinFields separator ((front ++ left) :: (right ++ back) :: after) =
        front ++ (left ++ separator :: right) ++ rest := by
      cases after with
      | nil => exact ⟨back, by simp [joinFields]⟩
      | cons next after =>
          exact ⟨back ++ separator :: joinFields separator (next :: after), by simp [joinFields]⟩
    obtain ⟨rest, hrest⟩ := htail
    have htext := joinFields_fields separator text
    rw [hfields, joinFields_append _ _ (List.cons_ne_nil _ _), hrest] at htext
    exact ⟨before.flatMap (· ++ [separator]) ++ front, rest, by simp [← htext]⟩

/-- What may stand in front of a segment: nothing, or text with a separator at its end. -/
def IsLead (separator : α) (before : List α) : Prop :=
  before = [] ∨ ∃ front, before = front ++ [separator]

omit [DecidableEq α] in
theorem isLead_flatMap (separator : α) (segments : List (List α)) :
    IsLead separator (segments.flatMap (· ++ [separator])) := by
  rcases List.eq_nil_or_concat segments with rfl | ⟨front, segment, rfl⟩
  · exact Or.inl rfl
  · exact Or.inr ⟨front.flatMap (· ++ [separator]) ++ segment, by simp⟩

omit [DecidableEq α] in
theorem joinFields_append_eq_or (separator : α) (before : List (List α))
    {last : List (List α)} (hne : last ≠ []) :
    joinFields separator (before ++ last) = joinFields separator last ∨
      ∃ front, joinFields separator (before ++ last) =
        front ++ separator :: joinFields separator last := by
  rw [joinFields_append separator before hne]
  rcases isLead_flatMap separator before with hnone | ⟨front, hfront⟩
  · exact Or.inl (by rw [hnone, List.nil_append])
  · exact Or.inr ⟨front, by rw [hfront, List.append_assoc, List.singleton_append]⟩

theorem exists_fields_lead_append {before : List α} (h : IsLead separator before) (text : List α) :
    ∃ segments, before = segments.flatMap (· ++ [separator]) ∧
      fields separator (before ++ text) = segments ++ fields separator text := by
  rcases h with rfl | ⟨front, rfl⟩
  · exact ⟨[], rfl, rfl⟩
  · refine ⟨fields separator front, ?_, ?_⟩
    · have hfront : fields separator (front ++ [separator]) = fields separator front ++ [[]] :=
        fields_append_separator separator front []
      rw [← joinFields_fields separator (front ++ [separator]), hfront,
        joinFields_append _ _ (List.cons_ne_nil _ _)]
      exact List.append_nil _
    · rw [List.append_assoc, List.singleton_append, fields_append_separator]

end Segments

section Search

variable {β : Type} {found later : Option β} {fits fits' : β → Prop}

/-- What a search finds fits, and if it finds nothing then nothing fits. -/
structure Finds (found : Option β) (fits : β → Prop) : Prop where
  sound : ∀ b, found = some b → fits b
  complete : found = none → ∀ b, ¬ fits b

namespace Finds

theorem none (h : ∀ b, ¬ fits b) : Finds none fits :=
  ⟨nofun, fun _ => h⟩

theorem congr (h : Finds found fits) (hiff : ∀ b, fits b ↔ fits' b) : Finds found fits' where
  sound b hb := (hiff b).mp (h.sound b hb)
  complete hnone b hb := h.complete hnone b ((hiff b).mpr hb)

theorem or (h : Finds found fits) (h' : Finds later fits') :
    Finds (found.or later) fun b => fits b ∨ fits' b where
  sound b hb := by
    rcases Option.or_eq_some_iff.mp hb with hb | ⟨-, hb⟩
    · exact Or.inl (h.sound b hb)
    · exact Or.inr (h'.sound b hb)
  complete hnone b := by
    obtain ⟨hfound, hlater⟩ := Option.or_eq_none_iff.mp hnone
    rintro (hb | hb)
    · exact h.complete hfound b hb
    · exact h'.complete hlater b hb

theorem eq_some_iff (h : Finds found fits) (hunique : ∀ b c, fits b → fits c → b = c) {b : β} :
    found = some b ↔ fits b := by
  refine ⟨h.sound b, fun hb => ?_⟩
  cases hfound : found with
  | none => exact absurd hb (h.complete hfound b)
  | some c => rw [hunique c b (h.sound c hfound) hb]

end Finds

end Search

theorem isName_iff {cs : List Char} :
    isName cs = true ↔ cs ≠ [] ∧ ∀ c ∈ cs, isNameChar c = true := by
  simp [isName]

theorem not_mem_of_isName {cs : List Char} (h : isName cs = true) {c : Char}
    (hc : isNameChar c = false) : c ∉ cs := by
  intro hmem
  simp [(isName_iff.mp h).2 c hmem] at hc

theorem eq_of_mem_isVersionText {count : Nat} {version : List Char}
    (h : isVersionText count version = true) {c : Char} (hc : c ∈ version) :
    c = 'v' ∨ c = '.' ∨ isDecimalDigit c = true := by
  obtain ⟨text, rfl, -, hnumbers⟩ := isVersionText_iff.mp h
  rcases List.mem_cons.mp hc with hc | hc
  · exact Or.inl hc
  · by_cases hpoint : c = '.'
    · exact Or.inr (Or.inl hpoint)
    · obtain ⟨number, hnumber, hmem⟩ := exists_mem_fields_of_mem hpoint hc
      exact Or.inr (Or.inr ((hnumbers number hnumber).2 c hmem))

theorem slash_not_mem_of_isVersionText {count : Nat} {version : List Char}
    (h : isVersionText count version = true) : '/' ∉ version :=
  fun hmem => absurd (eq_of_mem_isVersionText h hmem) (by decide)

namespace ReleaseTag

theorem slash_not_mem_of_isName {function : List Char} (h : isName function = true) :
    '/' ∉ function :=
  not_mem_of_isName h (by decide)

theorem slash_not_mem_of_isVersionToken {version : List Char}
    (h : isVersionToken version = true) : '/' ∉ version :=
  slash_not_mem_of_isVersionText h

theorem functionAndVersion?_eq_some_iff {text function version : List Char} :
    functionAndVersion? text = some (function, version) ↔
      fields '/' text = [[], function, version] ∧ isName function = true ∧
        isVersionToken version = true := by
  unfold functionAndVersion?
  split
  · rename_i function' version' hfields
    constructor
    · intro h
      split at h
      · rename_i hparts
        obtain ⟨rfl, rfl⟩ := Prod.mk.inj (Option.some.inj h)
        simpa [hfields] using hparts
      · simp at h
    · rintro ⟨heq, hname, hversion⟩
      simp only [hfields, List.cons.injEq, true_and, and_true] at heq
      obtain ⟨rfl, rfl⟩ := heq
      simp [hname, hversion]
  · rename_i hfields
    simp only [reduceCtorEq, false_iff]
    rintro ⟨heq, -⟩
    exact hfields _ _ heq

theorem fields_parts {function version : List Char} (hname : isName function = true)
    (hversion : isVersionToken version = true) (language : List Char) :
    fields '/' (language ++ '/' :: (function ++ '/' :: version)) =
      fields '/' language ++ [function, version] := by
  rw [fields_append_separator, fields_append_cons (slash_not_mem_of_isName hname),
    fields_of_not_mem (slash_not_mem_of_isVersionToken hversion)]

theorem languageParts_eq_some_iff {language : String} {text : List Char}
    {found : String × List Char × List Char} :
    (do
      let rest ← after? language.toList text
      let (function, version) ← functionAndVersion? rest
      some (language, function, version)) = some found ↔
      found.1 = language ∧ isName found.2.1 = true ∧ isVersionToken found.2.2 = true ∧
        fields '/' language.toList ++ [found.2.1, found.2.2] = fields '/' text := by
  obtain ⟨first, function, version⟩ := found
  simp only [Option.bind_eq_bind, Option.bind_eq_some_iff, after?_eq_some_iff]
  constructor
  · rintro ⟨rest, rfl, ⟨function', version'⟩, hparts, hfound⟩
    obtain ⟨rfl, rfl, rfl⟩ : language = first ∧ function' = function ∧ version' = version := by
      simpa using hfound
    obtain ⟨hfields, hname, hversion⟩ := functionAndVersion?_eq_some_iff.mp hparts
    have hrest : rest = '/' :: (function' ++ '/' :: version') := by
      rw [← joinFields_fields '/' rest, hfields]
      rfl
    exact ⟨rfl, hname, hversion, by rw [hrest, fields_parts hname hversion]⟩
  · rintro ⟨rfl, hname, hversion, hfields⟩
    refine ⟨'/' :: (function ++ '/' :: version), ?_, (function, version), ?_, rfl⟩
    · rw [← joinFields_fields '/' text, ← hfields, ← fields_parts hname hversion,
        joinFields_fields]
    · refine functionAndVersion?_eq_some_iff.mpr ⟨?_, hname, hversion⟩
      rw [fields_cons_separator, fields_append_cons (slash_not_mem_of_isName hname),
        fields_of_not_mem (slash_not_mem_of_isVersionToken hversion)]

/-- The languages that count in a tag: no language at all counts as one that is empty. -/
def recognized (languages : List String) : List String :=
  if languages.isEmpty then [""] else languages

def partSegments (parts : String × List Char × List Char) : List (List Char) :=
  fields '/' parts.1.toList ++ [parts.2.1, parts.2.2]

structure AreParts (languages : List String) (parts : String × List Char × List Char) : Prop where
  language : parts.1 ∈ languages
  function : isName parts.2.1 = true
  version : isVersionToken parts.2.2 = true

theorem finds_startingWithLanguage? (languages : List String) (text : List Char) :
    Finds (startingWithLanguage? languages text) fun parts =>
      AreParts languages parts ∧ partSegments parts = fields '/' text where
  sound parts h := by
    obtain ⟨language, hmem, hparts⟩ := List.exists_of_findSome?_eq_some h
    obtain ⟨rfl, hname, hversion, hsegments⟩ := languageParts_eq_some_iff.mp hparts
    exact ⟨⟨hmem, hname, hversion⟩, hsegments⟩
  complete h parts := by
    rintro ⟨⟨hmem, hname, hversion⟩, hsegments⟩
    have hsome := languageParts_eq_some_iff.mpr ⟨rfl, hname, hversion, hsegments⟩
    rw [List.findSome?_eq_none_iff.mp h parts.1 hmem] at hsome
    cases hsome

theorem finds_startingWithLanguage?_or {languages : List String} {text : List Char}
    {later : Option (String × List Char × List Char)}
    (h : Finds later fun parts =>
      AreParts languages parts ∧ partSegments parts <:+ (fields '/' text).tail) :
    Finds ((startingWithLanguage? languages text).or later) fun parts =>
      AreParts languages parts ∧ partSegments parts <:+ fields '/' text := by
  refine ((finds_startingWithLanguage? languages text).or h).congr fun parts => ?_
  rw [suffix_iff_eq_or_suffix_tail (fields_ne_nil '/' text), and_or_left]

theorem finds_afterSlash? (languages : List String) (tag : List Char) :
    Finds (afterSlash? languages tag) fun parts =>
      AreParts languages parts ∧ partSegments parts <:+ (fields '/' tag).tail := by
  induction tag with
  | nil =>
      refine .none fun parts h => ?_
      have hempty : partSegments parts = [] := List.suffix_nil.mp h.2
      simp [partSegments] at hempty
  | cons c text ih =>
      by_cases hc : c = '/'
      · subst hc
        rw [afterSlash?, if_pos rfl, fields_cons_separator, List.tail_cons]
        exact finds_startingWithLanguage?_or ih
      · rw [afterSlash?, if_neg hc, tail_fields_cons hc]
        exact ih

theorem finds_parts? (languages : List String) (tag : List Char) :
    Finds (parts? languages tag) fun parts =>
      AreParts (recognized languages) parts ∧ partSegments parts <:+ fields '/' tag :=
  finds_startingWithLanguage?_or (finds_afterSlash? _ tag)

variable {languages : List String}

theorem recognized_of_ne_nil (hne : languages ≠ []) : recognized languages = languages := by
  simp [recognized, hne]

theorem parts?_eq_some_iff (hne : languages ≠ [])
    (hlanguages : ∀ language ∈ languages, '/' ∉ language.toList) {tag : List Char}
    {language : String} {function version : List Char} :
    parts? languages tag = some (language, function, version) ↔
      language ∈ languages ∧ isName function = true ∧ isVersionToken version = true ∧
        [language.toList, function, version] <:+ fields '/' tag := by
  have hsegments : ∀ parts, AreParts languages parts →
      partSegments parts = [parts.1.toList, parts.2.1, parts.2.2] := by
    intro parts hparts
    rw [partSegments, fields_of_not_mem (hlanguages _ hparts.language)]
    rfl
  have hfinds := finds_parts? languages tag
  rw [recognized_of_ne_nil hne] at hfinds
  rw [hfinds.eq_some_iff]
  · constructor
    · rintro ⟨hparts, hsuffix⟩
      exact ⟨hparts.language, hparts.function, hparts.version, hsegments _ hparts ▸ hsuffix⟩
    · rintro ⟨hmem, hname, hversion, hsuffix⟩
      have hparts : AreParts languages (language, function, version) := ⟨hmem, hname, hversion⟩
      exact ⟨hparts, by rwa [hsegments _ hparts]⟩
  · -- without a slash in a language, the parts are the last three segments
    rintro parts other ⟨hparts, hsuffix⟩ ⟨hother, hsuffix'⟩
    rw [hsegments _ hparts] at hsuffix
    rw [hsegments _ hother] at hsuffix'
    have heq := (List.suffix_of_suffix_length_le hsuffix hsuffix' (Nat.le_refl 3)).eq_of_length rfl
    simp only [List.cons.injEq, and_true, String.toList_inj] at heq
    exact Prod.ext heq.1 (Prod.ext heq.2.1 heq.2.2)

theorem parse?_eq_some_iff (hne : languages ≠ [])
    (hlanguages : ∀ language ∈ languages, '/' ∉ language.toList) {tag : String}
    {release : ReleaseTag} :
    parse? languages tag = some release ↔
      release.name = trim tag ∧ release.language ∈ languages ∧
        isName release.function.toList = true ∧ isVersionToken release.version.toList = true ∧
        [release.language.toList, release.function.toList, release.version.toList] <:+
          fields '/' (trim tag).toList := by
  obtain ⟨name, language, function, version⟩ := release
  simp only [parse?, Option.map_eq_some_iff, Prod.exists, parts?_eq_some_iff hne hlanguages]
  constructor
  · rintro ⟨language, function, version, ⟨hmem, hname, hversion, hsuffix⟩, heq⟩
    simp only [ReleaseTag.mk.injEq] at heq
    obtain ⟨rfl, rfl, rfl, rfl⟩ := heq
    simp [hmem, hname, hversion, hsuffix]
  · rintro ⟨rfl, hmem, hname, hversion, hsuffix⟩
    exact ⟨language, function.toList, version.toList, ⟨hmem, hname, hversion, hsuffix⟩, by simp⟩

end ReleaseTag

end ReleaseDocs
