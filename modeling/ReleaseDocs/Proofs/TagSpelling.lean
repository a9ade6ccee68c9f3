import Mathlib.Data.List.Basic
import ReleaseDocs.Proofs.TagSegments
import ReleaseDocs.Proofs.VersionTokens

namespace ReleaseDocs.ReleaseTag

open VersionToken (IsNumber)

/-- A `v` and three numbers with points between them. -/
def IsPatchToken (version : List Char) : Prop :=
  ∃ major minor patch, IsNumber major ∧ IsNumber minor ∧ IsNumber patch ∧
    version = 'v' :: (major ++ '.' :: (minor ++ '.' :: patch))

theorem point_not_mem {number : List Char} (h : IsNumber number) : '.' ∉ number := by
  intro hmem
  exact absurd (h.2 '.' hmem) (by decide)

theorem isVersionToken_iff {version : List Char} :
    isVersionToken version = true ↔ IsPatchToken version := by
  rw [isVersionToken, isVersionText_iff]
  constructor
  · rintro ⟨text, rfl, hlength, hnumbers⟩
    obtain ⟨major, minor, patch, hfields⟩ := List.length_eq_three.mp hlength
    rw [hfields] at hnumbers
    refine ⟨major, minor, patch, hnumbers _ (by simp), hnumbers _ (by simp),
      hnumbers _ (by simp), ?_⟩
    rw [← joinFields_fields '.' text, hfields]
    rfl
  · rintro ⟨major, minor, patch, hmajor, hminor, hpatch, rfl⟩
    have hfields : fields '.' (major ++ '.' :: (minor ++ '.' :: patch)) =
        [major, minor, patch] := by
      rw [fields_append_cons (point_not_mem hmajor), fields_append_cons (point_not_mem hminor),
        fields_of_not_mem (point_not_mem hpatch)]
    refine ⟨_, rfl, by rw [hfields]; rfl, ?_⟩
    rw [hfields]
    simpa using ⟨hmajor, hminor, hpatch⟩

/-- The last three segments are a language of the list, a function and the token of a patch. -/
structure EndsInParts (languages : List String) (segments : List (List Char)) (language : String)
    (function version : List Char) : Prop where
  suffix : [language.toList, function, version] <:+ segments
  language_mem : language ∈ languages
  function_isName : isName function = true
  version_isPatchToken : IsPatchToken version

/-- What reading a tag gives, said by its segments. -/
structure ReadsSegments (languages : List String) (tag : String) (answer : Option ReleaseTag) :
    Prop where
  isSome_iff : answer.isSome = true ↔ ∃ language function version,
    EndsInParts languages (fields '/' (trim tag).toList) language function version
  parts : ∀ release, answer = some release → ∀ language function version,
    EndsInParts languages (fields '/' (trim tag).toList) language function version →
      release = ⟨trim tag, language, String.ofList function, String.ofList version⟩
  written : ∀ release, answer = some release → release.name = trim tag ∧
    ∃ lead, IsLead '/' lead ∧ release.name.toList = lead ++ (release.language.toList ++
      '/' :: (release.function.toList ++ '/' :: release.version.toList))

section Languages

variable {languages : List String} (hne : languages ≠ [])
  (hlanguages : ∀ language ∈ languages, '/' ∉ language.toList)
include hne hlanguages

theorem parse?_eq_some_iff_endsInParts {tag : String} {release : ReleaseTag} :
    parse? languages tag = some release ↔ release.name = trim tag ∧
      EndsInParts languages (fields '/' (trim tag).toList) release.language
        release.function.toList release.version.toList := by
  rw [parse?_eq_some_iff hne hlanguages, isVersionToken_iff]
  constructor
  · rintro ⟨hname, hlanguage, hfunction, hversion, hsuffix⟩
    exact ⟨hname, hsuffix, hlanguage, hfunction, hversion⟩
  · rintro ⟨hname, hsuffix, hlanguage, hfunction, hversion⟩
    exact ⟨hname, hlanguage, hfunction, hversion, hsuffix⟩

theorem readsSegments_parse? (tag : String) :
    ReadsSegments languages tag (parse? languages tag) where
  isSome_iff := by
    rw [Option.isSome_iff_exists]
    constructor
    · rintro ⟨release, hparse⟩
      obtain ⟨-, hends⟩ := (parse?_eq_some_iff_endsInParts hne hlanguages).mp hparse
      exact ⟨_, _, _, hends⟩
    · rintro ⟨language, function, version, hends⟩
      refine ⟨⟨trim tag, language, String.ofList function, String.ofList version⟩, ?_⟩
      exact (parse?_eq_some_iff_endsInParts hne hlanguages).mpr ⟨rfl, by simpa using hends⟩
  parts := by
    intro release hparse language function version hends
    have hother : parse? languages tag =
        some ⟨trim tag, language, String.ofList function, String.ofList version⟩ :=
      (parse?_eq_some_iff_endsInParts hne hlanguages).mpr ⟨rfl, by simpa using hends⟩
    exact Option.some.inj (hparse.symm.trans hother)
  written := by
    intro release hparse
    obtain ⟨hname, ⟨before, hsegments⟩, -⟩ :=
      (parse?_eq_some_iff_endsInParts hne hlanguages).mp hparse
    refine ⟨hname, before.flatMap (· ++ ['/']), isLead_flatMap '/' before, ?_⟩
    rw [hname, ← joinFields_fields '/' (trim tag).toList, ← hsegments,
      joinFields_append _ _ (List.cons_ne_nil _ _)]
    rfl

end Languages

/-- The language has a character with a meaning in patterns, another one starts like it, and the
lead has a line break and the form of a tag. -/
theorem readsSegments_parse?_go_dot :
    ["g", "go", "g.", "go"] ≠ [] ∧
      (∀ language ∈ ["g", "go", "g.", "go"], '/' ∉ language.toList) ∧
      parse? ["g", "go", "g.", "go"] " a\n/go/fn/v1.0.0/g./my-fn/v1.0.02\t" =
        some ⟨"a\n/go/fn/v1.0.0/g./my-fn/v1.0.02", "g.", "my-fn", "v1.0.02"⟩ := by
  have hne : ["g", "go", "g.", "go"] ≠ [] := by decide
  have hlanguages : ∀ language ∈ ["g", "go", "g.", "go"], '/' ∉ language.toList := by decide
  have hname : trim " a\n/go/fn/v1.0.0/g./my-fn/v1.0.02\t" =
      "a\n/go/fn/v1.0.0/g./my-fn/v1.0.02" := by decide +kernel
  have hends : EndsInParts ["g", "go", "g.", "go"]
      (fields '/' (trim " a\n/go/fn/v1.0.0/g./my-fn/v1.0.02\t").toList) "g." "my-fn".toList
      "v1.0.02".toList := by
    have hversion : isVersionToken "v1.0.02".toList = true := by decide +kernel
    exact ⟨by decide +kernel, by decide, by decide +kernel, isVersionToken_iff.mp hversion⟩
  have hreads := readsSegments_parse? hne hlanguages " a\n/go/fn/v1.0.0/g./my-fn/v1.0.02\t"
  obtain ⟨release, hrelease⟩ := Option.isSome_iff_exists.mp
    (hreads.isSome_iff.mpr ⟨_, _, _, hends⟩)
  rw [hrelease, hreads.parts release hrelease _ _ _ hends, hname]
  simp

end ReleaseDocs.ReleaseTag
