import ReleaseDocs.Proofs.Selection

namespace ReleaseDocs

namespace ReleaseTag

variable {languages : List String} {tag : String} {release : ReleaseTag}
  {function version : List Char}

theorem parse?_trim (languages : List String) (tag : String) :
    parse? languages (trim tag) = parse? languages tag := by
  simp only [parse?, trim_trim]

/-- Before its last two segments the tag ends in a language that counts. -/
def NamesLanguage (languages : List String) (tag : String) : Prop :=
  ∃ language ∈ recognized languages, ∃ function version,
    fields '/' language.toList ++ [function, version] <:+ fields '/' (trim tag).toList

theorem eq_of_suffix {function' version' : List Char} {front segments : List (List Char)}
    (h : [function, version] <:+ segments) (h' : front ++ [function', version'] <:+ segments) :
    function = function' ∧ version = version' := by
  have hlast := (List.suffix_append front [function', version']).trans h'
  have heq := (List.suffix_of_suffix_length_le h hlast le_rfl).eq_of_length rfl
  simpa using heq

section LastSegments

variable (hlast : [function, version] <:+ fields '/' (trim tag).toList)
include hlast

theorem eq_of_parse? (h : parse? languages tag = some release) :
    release.function = String.ofList function ∧ release.version = String.ofList version := by
  obtain ⟨parts, hparts, rfl⟩ := Option.map_eq_some_iff.mp h
  obtain ⟨-, hsuffix⟩ := (finds_parts? languages (trim tag).toList).sound parts hparts
  obtain ⟨rfl, rfl⟩ := eq_of_suffix hlast hsuffix
  exact ⟨rfl, rfl⟩

theorem parse?_eq_none_iff (hname : isName function = true)
    (hversion : isVersionToken version = true) :
    parse? languages tag = none ↔ ¬ NamesLanguage languages tag := by
  have hfinds := finds_parts? languages (trim tag).toList
  simp only [parse?, Option.map_eq_none_iff]
  constructor
  · rintro hnone ⟨language, hmem, function', version', hsuffix⟩
    obtain ⟨rfl, rfl⟩ := eq_of_suffix hlast hsuffix
    exact hfinds.complete hnone (language, function, version) ⟨⟨hmem, hname, hversion⟩, hsuffix⟩
  · intro hnames
    refine Option.eq_none_iff_forall_ne_some.mpr fun parts hparts => ?_
    obtain ⟨hare, hsuffix⟩ := hfinds.sound parts hparts
    exact hnames ⟨parts.1, hare.language, parts.2.1, parts.2.2, hsuffix⟩

end LastSegments

end ReleaseTag

theorem MinorVersion.contains_eq_true_iff {v : MinorVersion} {p : PatchVersion} :
    v.contains p = true ↔ p.minorVersion = v := by
  obtain ⟨major, minor⟩ := v
  simp [contains, PatchVersion.minorVersion]

def Warning.tag? : Warning → Option String
  | tagMismatch tag _ => some tag
  | unparsableTag tag _ => some tag
  | docUnchanged _ => none

namespace TagFinding

variable {languages : List String} {branch : ReleaseBranch} {tag : String}

theorem ofTag_of_not_occursIn
    (h : occursIn branch.fragment.toList (trim tag).toList = false) :
    ofTag languages branch tag = .unrelated := by
  simp [ofTag, h]

theorem ofTag_of_occursIn (h : occursIn branch.fragment.toList (trim tag).toList = true) :
    ofTag languages branch tag =
      match ReleaseTag.parse? languages tag with
      | none => .skipped (.tagMismatch (trim tag) languages)
      | some release =>
          match release.patch? with
          | none => .skipped (.unparsableTag (trim tag)
              ("'" ++ release.version ++ "' is not a semantic version"))
          | some version =>
              if release.function = branch.function ∧ branch.minor.contains version = true then
                .candidate release version
              else .unrelated := by
  have hne : (trim tag).isEmpty = false := by
    rw [String.isEmpty_eq_false_iff]
    intro hempty
    simp [hempty, occursIn, ReleaseBranch.fragment] at h
  have hrelated : ¬ ((trim tag).isEmpty ||
      !occursIn branch.fragment.toList (trim tag).toList) = true := by
    simp [hne, h]
  rw [← ReleaseTag.parse?_trim]
  exact if_neg hrelated

theorem tag?_of_ofTag_eq_skipped {warning : Warning}
    (h : ofTag languages branch tag = .skipped warning) : warning.tag? = some (trim tag) := by
  by_cases hoccurs : occursIn branch.fragment.toList (trim tag).toList = true
  · rw [ofTag_of_occursIn hoccurs] at h
    split at h
    · cases h
      rfl
    · split at h
      · cases h
        rfl
      · split at h <;> cases h
  · rw [ofTag_of_not_occursIn (Bool.eq_false_iff.mpr hoccurs)] at h
    cases h

theorem warning?_eq_some_iff {finding : TagFinding} {warning : Warning} :
    finding.warning? = some warning ↔ finding = .skipped warning := by
  cases finding <;> simp [TagFinding.warning?]

end TagFinding

namespace LatestPatch

variable {languages : List String} {branch : ReleaseBranch} {tags : List String}
  {latest : LatestPatch}

theorem warnings_of_select (h : select languages branch tags = .ok latest) :
    latest.warnings =
      tags.filterMap fun tag => (TagFinding.ofTag languages branch tag).warning? := by
  simp only [select, List.filterMap_map] at h
  split at h
  · cases h
  · split at h
    · cases h
    · obtain rfl := Except.ok.inj h
      rfl

theorem mem_warnings_iff (h : select languages branch tags = .ok latest) {warning : Warning} :
    warning ∈ latest.warnings ↔
      ∃ tag ∈ tags, TagFinding.ofTag languages branch tag = .skipped warning := by
  simp only [warnings_of_select h, List.mem_filterMap, TagFinding.warning?_eq_some_iff]

end LatestPatch

end ReleaseDocs
