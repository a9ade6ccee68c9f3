import ReleaseDocs.Proofs.TagFindings

namespace ReleaseDocs

namespace ReleaseBranch

variable {branch : ReleaseBranch} {languages : List String} {tag : String}

/-- The last two segments of the tag are a function and a patch version, and together they are none
of the branch. -/
def IsForeign (branch : ReleaseBranch) (tag : String) : Prop :=
  ∃ (function : List Char) (version : PatchVersion), isName function = true ∧
    [function, version.chars] <:+ fields '/' (trim tag).toList ∧
    (function ≠ branch.function.toList ∨ version.minorVersion ≠ branch.minor)

theorem isForeign_trim : branch.IsForeign (trim tag) ↔ branch.IsForeign tag := by
  simp only [IsForeign, trim_trim]

/-- The tag is that of another release, but it contains the fragment of the branch and names no
language that counts. -/
structure LooksMisspelt (branch : ReleaseBranch) (languages : List String) (tag : String) :
    Prop where
  foreign : branch.IsForeign tag
  contains : occursIn branch.fragment.toList (trim tag).toList = true
  unnamed : ¬ ReleaseTag.NamesLanguage languages tag

end ReleaseBranch

namespace TagFinding

variable {languages : List String} {branch : ReleaseBranch} {tag : String}

theorem ofTag_eq_skipped_iff_of_isForeign (h : branch.IsForeign tag) {warning : Warning} :
    ofTag languages branch tag = .skipped warning ↔
      warning = .tagMismatch (trim tag) languages ∧ branch.LooksMisspelt languages tag := by
  obtain ⟨function, version, hname, hlast, hother⟩ := id h
  have hnone : ReleaseTag.parse? languages tag = none ↔ _ :=
    ReleaseTag.parse?_eq_none_iff hlast hname version.isVersionToken_chars
  by_cases hoccurs : occursIn branch.fragment.toList (trim tag).toList = true
  · rw [ofTag_of_occursIn hoccurs]
    cases hparse : ReleaseTag.parse? languages tag with
    | none =>
      have hmisspelt : branch.LooksMisspelt languages tag := ⟨h, hoccurs, hnone.mp hparse⟩
      simp only [skipped.injEq, hmisspelt, and_true]
      exact eq_comm
    | some release =>
      obtain ⟨hfunction, hversion⟩ :=
        ReleaseTag.eq_of_parse? hlast hparse
      have hpatch : release.patch? = some version :=
        PatchVersion.parse?_eq_some_iff.mpr hversion
      have helse : ¬ (release.function = branch.function ∧
          branch.minor.contains version = true) := by
        rintro ⟨heq, hcontains⟩
        rcases hother with hne | hne
        · exact hne (by rw [← heq, hfunction, String.toList_ofList])
        · exact hne (MinorVersion.contains_eq_true_iff.mp hcontains)
      simp only [hpatch, if_neg helse, reduceCtorEq, false_iff]
      rintro ⟨-, hmisspelt⟩
      rw [hnone.mpr hmisspelt.unnamed] at hparse
      cases hparse
  · rw [ofTag_of_not_occursIn (Bool.eq_false_iff.mpr hoccurs)]
    refine iff_of_false (by simp) ?_
    rintro ⟨-, hmisspelt⟩
    exact hoccurs hmisspelt.contains

end TagFinding

namespace LatestPatch

variable {languages : List String} {branch : ReleaseBranch} {tags : List String}
  {latest : LatestPatch}

/-- A selection warns of a tag of another release exactly if it looks misspelt, and so of no tag of
another release exactly if none of them does. -/
theorem warns_of_foreign_iff (h : select languages branch tags = .ok latest) :
    (∀ warning name, warning.tag? = some name → branch.IsForeign name →
      (warning ∈ latest.warnings ↔ warning = .tagMismatch name languages ∧
        ∃ tag ∈ tags, trim tag = name ∧ branch.LooksMisspelt languages tag)) ∧
    ((∀ warning ∈ latest.warnings, ∀ name, warning.tag? = some name → ¬ branch.IsForeign name) ↔
      ∀ tag ∈ tags, ¬ branch.LooksMisspelt languages tag) ∧
    ('/' ∉ branch.function.toList → ∀ tag,
      (occursIn branch.fragment.toList (trim tag).toList = true ↔ ∃ before front back after,
        fields '/' (trim tag).toList =
          before ++ (front ++ branch.function.toList) :: (branch.minor.chars ++ back) ::
            after)) := by
  have hforeign : ∀ warning name, warning.tag? = some name → branch.IsForeign name →
      (warning ∈ latest.warnings ↔ warning = .tagMismatch name languages ∧
        ∃ tag ∈ tags, trim tag = name ∧ branch.LooksMisspelt languages tag) := by
    intro warning name hname hforeign
    rw [mem_warnings_iff h]
    constructor
    · rintro ⟨tag, hmem, hskipped⟩
      have htrim : trim tag = name := by
        simpa [hname, eq_comm] using TagFinding.tag?_of_ofTag_eq_skipped hskipped
      rw [← htrim, ReleaseBranch.isForeign_trim] at hforeign
      obtain ⟨rfl, hmisspelt⟩ :=
        (TagFinding.ofTag_eq_skipped_iff_of_isForeign hforeign).mp hskipped
      exact ⟨by rw [htrim], tag, hmem, htrim, hmisspelt⟩
    · rintro ⟨rfl, tag, hmem, rfl, hmisspelt⟩
      exact ⟨tag, hmem,
        (TagFinding.ofTag_eq_skipped_iff_of_isForeign hmisspelt.foreign).mpr ⟨rfl, hmisspelt⟩⟩
  refine ⟨hforeign, ⟨fun hsilent tag hmem hmisspelt => ?_, fun hnone warning hwarning name hname
    hisForeign => ?_⟩, fun hslash _ => ReleaseBranch.occursIn_fragment_iff hslash⟩
  · have hisForeign := ReleaseBranch.isForeign_trim.mpr hmisspelt.foreign
    have hwarns := (hforeign (.tagMismatch (trim tag) languages) _ rfl hisForeign).mpr
      ⟨rfl, tag, hmem, rfl, hmisspelt⟩
    exact hsilent _ hwarns _ rfl hisForeign
  · obtain ⟨-, tag, hmem, -, hmisspelt⟩ := (hforeign warning name hname hisForeign).mp hwarning
    exact hnone tag hmem hmisspelt

theorem select_warns_of_my_fn :
    ∃ latest, select ["go", "ts"] ⟨"fn/v1.0", "fn", ⟨1, 0⟩⟩ ["py/my-fn/v1.0.5", "go/fn/v1.0.1"] =
        .ok latest ∧
      ReleaseBranch.IsForeign ⟨"fn/v1.0", "fn", ⟨1, 0⟩⟩ "py/my-fn/v1.0.5" ∧
      .tagMismatch "py/my-fn/v1.0.5" ["go", "ts"] ∈ latest.warnings := by
  have hselect : select ["go", "ts"] ⟨"fn/v1.0", "fn", ⟨1, 0⟩⟩
      ["py/my-fn/v1.0.5", "go/fn/v1.0.1"] =
        .ok ⟨⟨"go/fn/v1.0.1", "go", "fn", "v1.0.1"⟩, ⟨1, 0, 1⟩,
          [.tagMismatch "py/my-fn/v1.0.5" ["go", "ts"]]⟩ := by decide +kernel
  have hlast : ["my-fn".toList, PatchVersion.chars ⟨1, 0, 5⟩] <:+
      fields '/' (trim "py/my-fn/v1.0.5").toList := by decide +kernel
  have hforeign : ReleaseBranch.IsForeign ⟨"fn/v1.0", "fn", ⟨1, 0⟩⟩ "py/my-fn/v1.0.5" :=
    ⟨_, _, by decide +kernel, hlast, Or.inl (by decide)⟩
  have hunnamed : ¬ ReleaseTag.NamesLanguage ["go", "ts"] "py/my-fn/v1.0.5" :=
    (ReleaseTag.parse?_eq_none_iff hlast (by decide +kernel)
      (PatchVersion.isVersionToken_chars _)).mp (by decide +kernel)
  refine ⟨_, hselect, hforeign, ?_⟩
  exact ((warns_of_foreign_iff hselect).1 _ _ rfl hforeign).mpr
    ⟨rfl, _, List.mem_cons_self, by decide +kernel, hforeign, by decide +kernel, hunnamed⟩

end LatestPatch

end ReleaseDocs
