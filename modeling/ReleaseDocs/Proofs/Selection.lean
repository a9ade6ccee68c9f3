import Mathlib.Data.List.DropRight
import ReleaseDocs.LatestPatch
import ReleaseDocs.Proofs.TagSegments
import ReleaseDocs.Proofs.Versions

/-!
The patch that is selected for a branch is the highest one published for it.

`ofTag_eq_candidate_iff` says which tags take part in the selection: those that publish a patch,
said by their last three segments. `select_eq_highest_published` then says what is selected from
any list of tags.
-/

namespace ReleaseDocs

theorem trimChars_trimChars (cs : List Char) : trimChars (trimChars cs) = trimChars cs := by
  have hfirst : (trimChars cs).dropWhile isBlank = trimChars cs := by
    rw [List.dropWhile_eq_self_iff]
    intro hlength
    have hfront : trimChars cs <+: cs.dropWhile isBlank := List.rdropWhile_prefix _ _
    have hpos : 0 < (cs.dropWhile isBlank).length := hlength.trans_le hfront.length_le
    rw [hfront.getElem hlength]
    exact List.dropWhile_get_zero_not isBlank cs hpos
  change ((trimChars cs).dropWhile isBlank).rdropWhile isBlank = _
  rw [hfirst]
  exact List.rdropWhile_idempotent isBlank _

theorem trim_trim (text : String) : trim (trim text) = trim text := by
  simp [trim, trimChars_trimChars]

theorem ReleaseBranch.occursIn_fragment_iff {branch : ReleaseBranch}
    (h : '/' ∉ branch.function.toList) {text : List Char} :
    occursIn branch.fragment.toList text = true ↔ ∃ before front back after,
      fields '/' text =
        before ++ (front ++ branch.function.toList) :: (branch.minor.chars ++ back) :: after := by
  have hfragment : branch.fragment.toList =
      branch.function.toList ++ '/' :: branch.minor.chars := by
    simp [fragment, MinorVersion.text]
  have hdigits (n : UInt64) : '/' ∉ Decimal.digits n := fun hmem =>
    absurd (Decimal.isDigit_of_mem_digits hmem) (by decide)
  have hminor : '/' ∉ branch.minor.chars := by
    simp [MinorVersion.chars, hdigits]
  rw [hfragment, occursIn_append_cons_iff h hminor]

/-- The tag publishes the patch with the given number for the branch: without the white space
around it, it ends in one of the languages, the function and the canonical version. -/
def ReleaseBranch.PublishedBy (branch : ReleaseBranch) (languages : List String) (tag : String)
    (language : String) (patch : UInt64) : Prop :=
  language ∈ languages ∧ isName branch.function.toList = true ∧
    [language.toList, branch.function.toList, (branch.minor.patchVersion patch).chars] <:+
      fields '/' (trim tag).toList

namespace ReleaseBranch.PublishedBy

variable {branch : ReleaseBranch} {languages : List String} {tag language : String}
  {patch : UInt64}

theorem occursIn_fragment (h : branch.PublishedBy languages tag language patch) :
    occursIn branch.fragment.toList (trim tag).toList = true := by
  obtain ⟨-, hname, before, hsegments⟩ := h
  refine (occursIn_fragment_iff (ReleaseTag.slash_not_mem_of_isName hname)).mpr
    ⟨before ++ [language.toList], [], '.' :: Decimal.digits patch, [], ?_⟩
  rw [← hsegments, MinorVersion.chars_patchVersion]
  simp

end ReleaseBranch.PublishedBy

/-- The first of the listed tags that publish the highest patch of the branch. -/
def ReleaseBranch.FirstHighest (branch : ReleaseBranch) (languages tags : List String)
    (tag language : String) (patch : UInt64) : Prop :=
  branch.PublishedBy languages tag language patch ∧
    ∃ earlier later, tags = earlier ++ tag :: later ∧
      (∀ other ∈ earlier, ∀ language number,
        branch.PublishedBy languages other language number → number < patch) ∧
      ∀ other ∈ later, ∀ language number,
        branch.PublishedBy languages other language number → number ≤ patch

namespace TagFinding

variable {languages : List String} {branch : ReleaseBranch}

theorem ofTag_eq_candidate {tag : String} {release : ReleaseTag} {version : PatchVersion} :
    ofTag languages branch tag = .candidate release version ↔
      (trim tag).isEmpty = false ∧ occursIn branch.fragment.toList (trim tag).toList = true ∧
        ReleaseTag.parse? languages (trim tag) = some release ∧ release.patch? = some version ∧
        release.function = branch.function ∧ branch.minor.contains version = true := by
  simp only [ofTag]
  split
  · rename_i hunrelated
    refine iff_of_false (by simp) ?_
    rintro ⟨hne, hoccurs, -⟩
    simp [hne, hoccurs] at hunrelated
  · rename_i hrelated
    simp only [Bool.or_eq_true, Bool.not_eq_true', not_or, Bool.not_eq_true, Bool.not_eq_false]
      at hrelated
    rw [and_iff_right hrelated.1, and_iff_right hrelated.2]
    cases hparse : ReleaseTag.parse? languages (trim tag) with
    | none => simp
    | some found =>
      cases hpatch : found.patch? with
      | none =>
        refine iff_of_false (by simp [hpatch]) ?_
        rintro ⟨hfound, hnumber, -⟩
        obtain rfl := Option.some.inj hfound
        simp [hpatch] at hnumber
      | some number =>
        simp only [hpatch, Option.some.injEq]
        constructor
        · intro h
          split at h
          · rename_i hrelease
            cases h
            exact ⟨rfl, hpatch, hrelease⟩
          · cases h
        · rintro ⟨rfl, hnumber, hrelease⟩
          obtain rfl : number = version := Option.some.inj (hpatch.symm.trans hnumber)
          rw [if_pos hrelease]

theorem ofTag_eq_candidate_iff (hne : languages ≠ [])
    (hlanguages : ∀ language ∈ languages, '/' ∉ language.toList) {tag : String}
    {release : ReleaseTag} {version : PatchVersion} :
    ofTag languages branch tag = .candidate release version ↔
      ∃ language patch, branch.PublishedBy languages tag language patch ∧
        version = branch.minor.patchVersion patch ∧
        release = ⟨trim tag, language, branch.function, version.text⟩ := by
  rw [ofTag_eq_candidate]
  constructor
  · rintro ⟨-, -, hparse, hnumber, hrelease, hcontains⟩
    obtain ⟨hname, hlanguage, hfunction, -, hsuffix⟩ :=
      (ReleaseTag.parse?_eq_some_iff hne hlanguages).mp hparse
    have hversion := PatchVersion.parse?_eq_some_iff.mp hnumber
    have hpatch := MinorVersion.contains_iff.mp hcontains
    rw [hrelease] at hfunction
    rw [trim_trim, hrelease, hversion, PatchVersion.text, String.toList_ofList, hpatch] at hsuffix
    refine ⟨release.language, version.patch, ⟨hlanguage, hfunction, hsuffix⟩, hpatch, ?_⟩
    obtain ⟨name, language, function, token⟩ := release
    simp only at hname hversion hrelease
    rw [hname, hrelease, hversion, trim_trim]
  · rintro ⟨language, patch, hpublished, rfl, rfl⟩
    obtain ⟨hlanguage, hfunction, hsuffix⟩ := hpublished
    refine ⟨?_, ReleaseBranch.PublishedBy.occursIn_fragment ⟨hlanguage, hfunction, hsuffix⟩, ?_, ?_,
      rfl, MinorVersion.contains_patchVersion _ _⟩
    · rw [String.isEmpty_eq_false_iff]
      intro hempty
      have hlength := hsuffix.length_le
      simp [hempty, fields] at hlength
    · refine (ReleaseTag.parse?_eq_some_iff hne hlanguages).mpr
        ⟨(trim_trim tag).symm, hlanguage, hfunction, ?_, ?_⟩
      · rw [PatchVersion.text, String.toList_ofList]
        exact PatchVersion.isVersionToken_chars _
      · rw [PatchVersion.text, String.toList_ofList, trim_trim]
        exact hsuffix
    · simp [ReleaseTag.patch?]

theorem candidate?_ofTag_eq_some_iff (hne : languages ≠ [])
    (hlanguages : ∀ language ∈ languages, '/' ∉ language.toList) {tag : String}
    {candidate : ReleaseTag × PatchVersion} :
    (ofTag languages branch tag).candidate? = some candidate ↔
      ∃ language patch, branch.PublishedBy languages tag language patch ∧
        candidate.2 = branch.minor.patchVersion patch ∧
        candidate.1 = ⟨trim tag, language, branch.function, candidate.2.text⟩ := by
  rw [← ofTag_eq_candidate_iff hne hlanguages]
  obtain ⟨release, version⟩ := candidate
  cases ofTag languages branch tag <;> simp [TagFinding.candidate?]

theorem candidate?_ofTag_of_publishedBy (hne : languages ≠ [])
    (hlanguages : ∀ language ∈ languages, '/' ∉ language.toList) {tag language : String}
    {patch : UInt64} (h : branch.PublishedBy languages tag language patch) :
    (ofTag languages branch tag).candidate? =
      some (⟨trim tag, language, branch.function, (branch.minor.patchVersion patch).text⟩,
        branch.minor.patchVersion patch) :=
  (candidate?_ofTag_eq_some_iff hne hlanguages).mpr ⟨language, patch, h, rfl, rfl⟩

end TagFinding

namespace LatestPatch

/-- The first with the highest patch of some candidates. -/
def IsNewestOf (candidates : List (ReleaseTag × PatchVersion)) (best : ReleaseTag × PatchVersion) :
    Prop :=
  ∃ earlier later, candidates = earlier ++ best :: later ∧
    (∀ candidate ∈ earlier, candidate.2.patch < best.2.patch) ∧
    ∀ candidate ∈ later, candidate.2.patch ≤ best.2.patch

section Newest

variable {seen : List (ReleaseTag × PatchVersion)} {best next : ReleaseTag × PatchVersion}

theorem IsNewestOf.mem (h : IsNewestOf seen best) : best ∈ seen := by
  obtain ⟨earlier, later, rfl, -⟩ := h
  simp

theorem IsNewestOf.patch_le (h : IsNewestOf seen best) {candidate : ReleaseTag × PatchVersion}
    (hmem : candidate ∈ seen) : candidate.2.patch ≤ best.2.patch := by
  obtain ⟨earlier, later, rfl, hearlier, hlater⟩ := h
  simp only [List.mem_append, List.mem_cons] at hmem
  rcases hmem with hmem | rfl | hmem
  · exact UInt64.le_of_lt (hearlier candidate hmem)
  · exact UInt64.le_refl _
  · exact hlater candidate hmem

theorem IsNewestOf.append_newer (h : IsNewestOf seen best) (hlt : best.2.patch < next.2.patch) :
    IsNewestOf (seen ++ [next]) next := by
  refine ⟨seen, [], rfl, ?_, by simp⟩
  intro candidate hmem
  exact UInt64.lt_of_le_of_lt (h.patch_le hmem) hlt

theorem IsNewestOf.append_older (h : IsNewestOf seen best) (hle : next.2.patch ≤ best.2.patch) :
    IsNewestOf (seen ++ [next]) best := by
  obtain ⟨earlier, later, rfl, hearlier, hlater⟩ := h
  refine ⟨earlier, later ++ [next], by simp, hearlier, ?_⟩
  intro candidate hmem
  rcases List.mem_append.mp hmem with hmem | hmem
  · exact hlater candidate hmem
  · obtain rfl := List.mem_singleton.mp hmem
    exact hle

theorem isNewestOf_newest {v : MinorVersion} {rest : List (ReleaseTag × PatchVersion)}
    (h : IsNewestOf seen best) (hv : ∀ candidate ∈ seen ++ rest, v.contains candidate.2 = true) :
    IsNewestOf (seen ++ rest) (newest best rest) := by
  induction rest generalizing seen best with
  | nil => simpa [newest] using h
  | cons next rest ih =>
      have hnewer := MinorVersion.isNewer_iff_of_contains (hv next (by simp))
        (hv best (List.mem_append_left _ h.mem))
      rw [List.append_cons] at hv ⊢
      by_cases hnext : next.2.isNewer best.2 = true
      · simp only [newest, hnext, ↓reduceIte]
        exact ih (h.append_newer (hnewer.mp hnext)) hv
      · simp only [newest, hnext, Bool.false_eq_true, ↓reduceIte]
        exact ih (h.append_older (UInt64.not_lt.mp (mt hnewer.mpr hnext))) hv

theorem isNewestOf_newest_cons {v : MinorVersion} {rest : List (ReleaseTag × PatchVersion)}
    (hv : ∀ candidate ∈ best :: rest, v.contains candidate.2 = true) :
    IsNewestOf (best :: rest) (newest best rest) := by
  have hbest : IsNewestOf [best] best := ⟨[], [], rfl, by simp, by simp⟩
  exact isNewestOf_newest hbest hv

end Newest

theorem newest_append (best : ReleaseTag × PatchVersion)
    (front back : List (ReleaseTag × PatchVersion)) :
    newest best (front ++ back) = newest (newest best front) back := by
  induction front generalizing best with
  | nil => rfl
  | cons next front ih => exact ih _

def chosen? : List (ReleaseTag × PatchVersion) → Option (ReleaseTag × PatchVersion)
  | [] => none
  | first :: rest => some (newest first rest)

theorem chosen?_append_cons_of_mem {v : MinorVersion} {candidate : ReleaseTag × PatchVersion}
    {front : List (ReleaseTag × PatchVersion)}
    (h : ∀ candidate ∈ front, v.contains candidate.2 = true) (hmem : candidate ∈ front)
    (back : List (ReleaseTag × PatchVersion)) :
    chosen? (front ++ candidate :: back) = chosen? (front ++ back) := by
  cases front with
  | nil => simp at hmem
  | cons best front =>
      have hnewest := isNewestOf_newest_cons h
      have hnewer : candidate.2.isNewer (newest best front).2 = false := by
        have hiff := MinorVersion.isNewer_iff_of_contains (h candidate hmem) (h _ hnewest.mem)
        rw [← Bool.not_eq_true, hiff, UInt64.not_lt]
        exact hnewest.patch_le hmem
      simp [chosen?, newest_append, newest, hnewer]

variable (languages : List String) (branch : ReleaseBranch)

def candidates (tags : List String) : List (ReleaseTag × PatchVersion) :=
  tags.filterMap fun tag => (TagFinding.ofTag languages branch tag).candidate?

theorem select_eq_of_chosen?_eq_none {tags : List String} (hfunction : branch.function ≠ "")
    (h : chosen? (candidates languages branch tags) = none) :
    select languages branch tags =
      .error (.noMatchingRelease branch.function branch.minor.text) := by
  have hisEmpty : branch.function.isEmpty = false := by simpa using hfunction
  simp only [select, hisEmpty, Bool.false_eq_true, ↓reduceIte, List.filterMap_map]
  change (match candidates languages branch tags with
    | [] => _
    | first :: rest => _) = _
  split
  · rfl
  · rename_i hcandidates
    simp [hcandidates, chosen?] at h

theorem select_eq_of_chosen?_eq_some {tags : List String} {tag : ReleaseTag}
    {version : PatchVersion} (hfunction : branch.function ≠ "")
    (h : chosen? (candidates languages branch tags) = some (tag, version)) :
    ∃ warnings, select languages branch tags = .ok ⟨tag, version, warnings⟩ := by
  have hisEmpty : branch.function.isEmpty = false := by simpa using hfunction
  refine ⟨tags.filterMap fun tag => (TagFinding.ofTag languages branch tag).warning?, ?_⟩
  simp only [select, hisEmpty, Bool.false_eq_true, ↓reduceIte, List.filterMap_map]
  change (match candidates languages branch tags with
    | [] => _
    | first :: rest => _) = _
  split
  · rename_i hcandidates
    simp [hcandidates, chosen?] at h
  · rename_i hcandidates
    simp only [hcandidates, chosen?, Option.some.injEq] at h
    rw [h]
    rfl

section Published

variable {languages branch} (hne : languages ≠ [])
  (hlanguages : ∀ language ∈ languages, '/' ∉ language.toList) {tags : List String}
include hne hlanguages

theorem contains_of_mem_candidates {candidate : ReleaseTag × PatchVersion}
    (h : candidate ∈ candidates languages branch tags) :
    branch.minor.contains candidate.2 = true := by
  obtain ⟨tag, -, hcandidate⟩ := List.mem_filterMap.mp h
  obtain ⟨language, patch, -, hversion, -⟩ :=
    (TagFinding.candidate?_ofTag_eq_some_iff hne hlanguages).mp hcandidate
  rw [hversion]
  exact MinorVersion.contains_patchVersion _ _

theorem candidates_eq_nil_iff :
    candidates languages branch tags = [] ↔
      ∀ tag ∈ tags, ∀ language patch, ¬ branch.PublishedBy languages tag language patch := by
  rw [candidates, List.filterMap_eq_nil_iff]
  refine forall₂_congr fun tag _ => ?_
  simp only [Option.eq_none_iff_forall_ne_some, ne_eq,
    TagFinding.candidate?_ofTag_eq_some_iff hne hlanguages]
  constructor
  · intro h language patch hpublished
    exact h (⟨trim tag, language, branch.function, (branch.minor.patchVersion patch).text⟩,
      branch.minor.patchVersion patch) ⟨language, patch, hpublished, rfl, rfl⟩
  · rintro h candidate ⟨language, patch, hpublished, -⟩
    exact h language patch hpublished

theorem exists_mem_candidates_of_publishedBy {tag language : String} {patch : UInt64}
    (hmem : tag ∈ tags) (h : branch.PublishedBy languages tag language patch) :
    ∃ candidate ∈ candidates languages branch tags, candidate.2.patch = patch :=
  ⟨_, List.mem_filterMap.mpr
    ⟨tag, hmem, TagFinding.candidate?_ofTag_of_publishedBy hne hlanguages h⟩, rfl⟩

theorem firstHighest_of_chosen? {release : ReleaseTag} {version : PatchVersion}
    (h : chosen? (candidates languages branch tags) = some (release, version)) :
    ∃ tag language patch, branch.FirstHighest languages tags tag language patch ∧
      version = branch.minor.patchVersion patch ∧
      release = ⟨trim tag, language, branch.function, version.text⟩ := by
  obtain ⟨first, rest, hcandidates⟩ : ∃ first rest,
      candidates languages branch tags = first :: rest := by
    cases hcandidates : candidates languages branch tags with
    | nil => simp [hcandidates, chosen?] at h
    | cons first rest => exact ⟨first, rest, rfl⟩
  have hcontains : ∀ candidate ∈ first :: rest, branch.minor.contains candidate.2 = true := by
    intro candidate hmem
    rw [← hcandidates] at hmem
    exact contains_of_mem_candidates hne hlanguages hmem
  obtain ⟨earlier, later, hsplit, hearlier, hlater⟩ := isNewestOf_newest_cons hcontains
  have hnewest : newest first rest = (release, version) := by
    simpa [hcandidates, chosen?] using h
  rw [hnewest] at hsplit hearlier hlater
  -- the candidates around the chosen one come from the tags around its tag
  obtain ⟨front, back, rfl, hfront, hback⟩ :=
    List.filterMap_eq_append_iff.mp (hcandidates.trans hsplit)
  obtain ⟨between, tag, after, rfl, hbetween, htag, hafter⟩ :=
    List.filterMap_eq_cons_iff.mp hback
  obtain ⟨language, patch, hpublished, hversion, hrelease⟩ :=
    (TagFinding.candidate?_ofTag_eq_some_iff hne hlanguages).mp htag
  have hpatch : version.patch = patch := by
    simp only at hversion
    rw [hversion]
    rfl
  refine ⟨tag, language, patch, ⟨hpublished, front ++ between, after, by simp, ?_, ?_⟩,
    hversion, hrelease⟩
  · intro other hother otherLanguage number hnumber
    rcases List.mem_append.mp hother with hother | hother
    · obtain ⟨candidate, hmem, rfl⟩ :=
        exists_mem_candidates_of_publishedBy hne hlanguages hother hnumber
      rw [candidates, hfront] at hmem
      exact hpatch ▸ hearlier candidate hmem
    · have hcandidate := TagFinding.candidate?_ofTag_of_publishedBy hne hlanguages hnumber
      rw [hbetween other hother] at hcandidate
      simp at hcandidate
  · intro other hother otherLanguage number hnumber
    obtain ⟨candidate, hmem, rfl⟩ :=
      exists_mem_candidates_of_publishedBy hne hlanguages hother hnumber
    rw [candidates, hafter] at hmem
    exact hpatch ▸ hlater candidate hmem

/-- Neither a tag that publishes nothing nor one that was listed before changes what is chosen. -/
theorem chosen?_candidates_append_cons {tag : String} {earlier later : List String}
    (h : tag ∈ earlier ∨ ∀ language patch, ¬ branch.PublishedBy languages tag language patch) :
    chosen? (candidates languages branch (earlier ++ tag :: later)) =
      chosen? (candidates languages branch (earlier ++ later)) := by
  simp only [candidates, List.filterMap_append, List.filterMap_cons]
  cases hcandidate : (TagFinding.ofTag languages branch tag).candidate? with
  | none => rfl
  | some candidate =>
      refine chosen?_append_cons_of_mem (v := branch.minor)
        (fun other hmem => contains_of_mem_candidates hne hlanguages hmem) ?_ _
      rcases h with hmem | hnone
      · exact List.mem_filterMap.mpr ⟨tag, hmem, hcandidate⟩
      · obtain ⟨language, patch, hpublished, -⟩ :=
          (TagFinding.candidate?_ofTag_eq_some_iff hne hlanguages).mp hcandidate
        exact absurd hpublished (hnone language patch)

end Published

def choice (latest : LatestPatch) : ReleaseTag × PatchVersion :=
  (latest.tag, latest.version)

theorem map_choice_select {tags : List String} (hfunction : branch.function ≠ "") :
    (select languages branch tags).map choice =
      match chosen? (candidates languages branch tags) with
      | none => .error (.noMatchingRelease branch.function branch.minor.text)
      | some chosen => .ok chosen := by
  cases h : chosen? (candidates languages branch tags) with
  | none => rw [select_eq_of_chosen?_eq_none languages branch hfunction h]; rfl
  | some chosen =>
      obtain ⟨warnings, hselect⟩ := select_eq_of_chosen?_eq_some languages branch hfunction h
      rw [hselect]
      rfl

theorem select_eq_highest_published {languages : List String} (hne : languages ≠ [])
    (hlanguages : ∀ language ∈ languages, '/' ∉ language.toList) {branch : ReleaseBranch}
    (hfunction : branch.function ≠ "") (tags : List String) :
    (select languages branch tags =
        .error (.noMatchingRelease branch.function branch.minor.text) ↔
      ∀ tag ∈ tags, ∀ language patch, ¬ branch.PublishedBy languages tag language patch) ∧
    ((∃ tag ∈ tags, ∃ language patch, branch.PublishedBy languages tag language patch) →
      ∃ tag language patch warnings, branch.FirstHighest languages tags tag language patch ∧
        select languages branch tags =
          .ok ⟨⟨trim tag, language, branch.function, (branch.minor.patchVersion patch).text⟩,
            branch.minor.patchVersion patch, warnings⟩) ∧
    (∀ tag language patch, branch.PublishedBy languages tag language patch →
      occursIn branch.fragment.toList (trim tag).toList = true) ∧
    ∀ earlier tag later, tags = earlier ++ tag :: later →
      (tag ∈ earlier ∨ ∀ language patch, ¬ branch.PublishedBy languages tag language patch) →
      (select languages branch tags).map choice =
        (select languages branch (earlier ++ later)).map choice := by
  have hnone : chosen? (candidates languages branch tags) = none ↔
      ∀ tag ∈ tags, ∀ language patch, ¬ branch.PublishedBy languages tag language patch := by
    rw [← candidates_eq_nil_iff hne hlanguages]
    cases candidates languages branch tags <;> simp [chosen?]
  refine ⟨⟨fun h => ?_, fun h => ?_⟩, fun ⟨tag, hmem, language, patch, h⟩ => ?_,
    fun tag language patch h => h.occursIn_fragment, ?_⟩
  · refine hnone.mp (Option.eq_none_iff_forall_ne_some.mpr fun chosen hchosen => ?_)
    obtain ⟨warnings, hselect⟩ := select_eq_of_chosen?_eq_some languages branch hfunction hchosen
    simp [h] at hselect
  · exact select_eq_of_chosen?_eq_none languages branch hfunction (hnone.mpr h)
  · obtain ⟨⟨release, version⟩, hchosen⟩ := Option.ne_none_iff_exists'.mp
      fun hchosen => hnone.mp hchosen tag hmem language patch h
    obtain ⟨warnings, hselect⟩ := select_eq_of_chosen?_eq_some languages branch hfunction hchosen
    obtain ⟨found, foundLanguage, highest, hfirst, rfl, rfl⟩ :=
      firstHighest_of_chosen? hne hlanguages hchosen
    exact ⟨found, foundLanguage, highest, warnings, hfirst, hselect⟩
  · rintro earlier tag later rfl h
    rw [map_choice_select languages branch hfunction, map_choice_select languages branch hfunction,
      chosen?_candidates_append_cons hne hlanguages h]

theorem select_ten_over_two :
    ∃ tag language patch warnings,
      ReleaseBranch.FirstHighest ⟨"origin/fn/v1.0", "fn", ⟨1, 0⟩⟩ ["go", "ts"]
        ["functions/go/fn/v1.0.2", " functions/ts/fn/v1.0.10\n", "functions/go/my-fn/v1.0.11",
          "functions/go/fn/v1.01.12"] tag language patch ∧
      select ["go", "ts"] ⟨"origin/fn/v1.0", "fn", ⟨1, 0⟩⟩
        ["functions/go/fn/v1.0.2", " functions/ts/fn/v1.0.10\n", "functions/go/my-fn/v1.0.11",
          "functions/go/fn/v1.01.12"] =
        .ok ⟨⟨trim tag, language, "fn", ((MinorVersion.mk 1 0).patchVersion patch).text⟩,
          (MinorVersion.mk 1 0).patchVersion patch, warnings⟩ :=
  (select_eq_highest_published (by decide) (by decide) (by decide) _).2.1
    ⟨"functions/go/fn/v1.0.2", by simp, "go", 2, by simp, by decide +kernel, by decide +kernel⟩

end LatestPatch

end ReleaseDocs
