import ReleaseDocs.Proofs.Settled
import ReleaseDocs.Proofs.Stops

namespace ReleaseDocs

open VersionToken TagReference CatalogLink

namespace IsStop

theorem not_mem_site {rules : RefreshRules} {f site : List Char} (h : rules.Regular f site)
    {c : Char} (hc : IsStop c) : c ∉ site :=
  fun hmem => hc.ne_of_not (h.plain c hmem).2.1 (h.plain c hmem).1 rfl

end IsStop

namespace RefreshRules

/-- No name that the document refers to starts with another one and white space, so a reference is
not read again behind its pin. -/
def PinsOnce (rules : RefreshRules) (text : Bytes) : Prop :=
  ∀ before reference after,
    (PackageReference.kind rules.exampleDirectory rules.exampleNames).Finds text before
      reference after → PackageReference.Apart rules.exampleNames reference.name

section Regular

variable {rules : RefreshRules} {f site : List Char} (h : rules.Regular f site)
include h

theorem namesTargets_append_stop {c : Char} (hc : IsStop c) (front rest : Bytes) :
    rules.NamesTargets (front ++ (String.utf8EncodeChar c ++ rest)) ↔
      rules.NamesTargets front ∧ rules.NamesTargets rest := by
  induction front using TagReference.tag_induction rules.function with
  | skip front hskips =>
    rw [and_iff_right (namesTargets_of_skips hskips)]
    rw [h.function] at hskips
    have hstop := (TagReference.cuts_stop h.name hc rest).skips_append hskips
    rw [← h.function] at hstop
    rw [← List.append_assoc]
    refine ReferenceKind.forall_finds_append_of_skips hstop fun inner reference _ => ?_
    simp only [target, inLink_iff h.toOnSite, List.append_assoc,
      encode_suffix_append_iff (IsStop.not_mem_site h hc)]
  | find skipped separator cs text hseparator hreads hskips ih =>
    have hskips' := hskips
    rw [h.function] at hskips'
    have hwhole := skips_function h.name hseparator hskips'
      (encode cs ++ (text ++ (String.utf8EncodeChar c ++ rest)))
    rw [← h.function] at hwhole
    have hsplit : skipped ++ (rules.function ++ separator :: (encode cs ++ text)) ++
        (String.utf8EncodeChar c ++ rest) = skipped ++ (rules.function ++ separator ::
          (encode cs ++ (text ++ (String.utf8EncodeChar c ++ rest)))) := by simp
    rw [hsplit, namesTargets_append h.toOnSite hseparator (hc.reads_append hreads rest) hwhole,
      namesTargets_append h.toOnSite hseparator hreads hskips, ih, and_assoc]

theorem namesTargets_blank_append {blank : List Char} (hblank : ∀ c ∈ blank, isBlank c = true)
    (rest : Bytes) : rules.NamesTargets (encode blank ++ rest) ↔ rules.NamesTargets rest := by
  induction blank with
  | nil => rfl
  | cons c blank ih =>
    obtain ⟨hc, hblank⟩ := List.forall_mem_cons.mp hblank
    rw [encode_cons, List.append_assoc, ← ih hblank,
      ← List.nil_append (String.utf8EncodeChar c ++ _), namesTargets_append_stop h (Or.inl hc),
      and_iff_right (namesTargets_of_skips (ReferenceKind.skips_nil _ _))]

theorem namesTargets_append_blank_append {front rest : Bytes} {blank : List Char}
    (hblank : ∀ c ∈ blank, isBlank c = true) (hrest : blank = [] → rest = []) :
    rules.NamesTargets (front ++ (encode blank ++ rest)) ↔
      rules.NamesTargets front ∧ rules.NamesTargets rest := by
  cases blank with
  | nil =>
    obtain rfl := hrest rfl
    simp [namesTargets_of_skips (ReferenceKind.skips_nil _ _)]
  | cons c blank =>
    obtain ⟨hc, hblank⟩ := List.forall_mem_cons.mp hblank
    rw [encode_cons, List.append_assoc, namesTargets_append_stop h (Or.inl hc),
      namesTargets_blank_append h hblank]

theorem namesTargets_pin_append {rest : Bytes} {blank : List Char}
    (hblank : ∀ c ∈ blank, isBlank c = true) (hrest : blank = [] → rest = []) (front : Bytes) :
    rules.NamesTargets (front ++ (rules.pin ++ (encode blank ++ rest))) ↔
      rules.NamesTargets front ∧ rules.NamesTargets rest := by
  have hnumber : number? (encode blank ++ rest) = none := by
    have hnil : number? [] = none :=
      number?_eq_none_iff_not_startsWith.mpr (not_startsWith_nil isDecimalDigit)
    cases blank with
    | nil => rwa [hrest rfl]
    | cons c blank =>
      have hc : IsStop c := Or.inl (hblank c (by simp))
      rw [encode_cons, List.append_assoc]
      exact hc.number?_append hnil _
  have hother : ¬ rules.InLink [] ⟨0x2F, []⟩ := by
    rw [inLink_iff h.toOnSite, List.suffix_nil, encode_eq_nil_iff]
    obtain ⟨scheme, more, hsite, -, -⟩ := h.isSite.scheme
    simp [hsite]
  have hsplit : front ++ (rules.pin ++ (encode blank ++ rest)) =
      front ++ (String.utf8EncodeChar '@' ++ ([] ++ (rules.function ++ 0x2F ::
        (rules.patch ++ (encode blank ++ rest))))) := by
    rw [h.pin, List.cons_append, List.append_assoc]
    rfl
  rw [hsplit, namesTargets_append_stop h (Or.inr rfl), namesTargets_patch_append h.toOnSite rfl
    (ReferenceKind.skips_nil _ (rules.function ++ [0x2F])) hother, and_iff_right hnumber,
    namesTargets_blank_append h hblank]

theorem namesTargets_pinPackages_iff (text : Bytes) :
    rules.NamesTargets (rules.pinPackages text) ↔ rules.NamesTargets text := by
  unfold pinPackages PackageReference.refresh
  induction text using
    (PackageReference.kind rules.exampleDirectory rules.exampleNames).scan_induction with
  | skip text hskips => rw [ReferenceKind.substitute_of_skips hskips]
  | find skipped tail reference rest hskips hne hread ih =>
    obtain ⟨blank, hcode, hblank, hrest, -, rfl⟩ := PackageReference.exists_of_read?_eq_some hread
    rw [ReferenceKind.substitute_append_of_skips hskips,
      ReferenceKind.substitute_of_read?_eq_some hread hne, hcode]
    generalize hafter : ReferenceKind.substitute _ _ rest = after at ih ⊢
    have hafter' : blank = [] → after = [] := by
      intro hnil
      rw [← hafter, hrest hnil]
      exact ReferenceKind.substitute_nil _ _
    have hpinned : skipped ++ (rules.exampleDirectory ++ reference.name ++ rules.pin ++
        encode blank ++ after) = (skipped ++ (rules.exampleDirectory ++ reference.name)) ++
          (rules.pin ++ (encode blank ++ after)) := by simp
    have hplain :
        skipped ++ (rules.exampleDirectory ++ (reference.name ++ (encode blank ++ rest))) =
          (skipped ++ (rules.exampleDirectory ++ reference.name)) ++ (encode blank ++ rest) := by
      simp
    rw [hpinned, hplain, namesTargets_pin_append h hblank hafter',
      namesTargets_append_blank_append h hblank hrest, ih]

theorem upToDate_apply_iff (hnames : ∀ name ∈ rules.exampleNames, 0x2F ∉ name) (text : Bytes) :
    rules.UpToDate (rules.apply text) ↔
      rules.NamesTargets (rules.refreshVersions text) ∧
        rules.PinsOnce (rules.refreshVersions text) := by
  obtain ⟨a, b, c, ha, hb, hc, hpatch⟩ := h.patch
  have hversion := (IsToken.patch ha hb hc).not_mem (c := 'h') (by decide) (by decide)
  have hskips := PackageReference.skips_refresh_iff h.directory hnames h.name hversion
    (rules.refreshVersions text)
  rw [← h.function, ← hpatch, ← h.pin] at hskips
  have happly : rules.apply text = rules.pinPackages (rules.refreshVersions text) := rfl
  constructor
  · intro hupToDate
    refine ⟨(namesTargets_pinPackages_iff h _).mp hupToDate.references, hskips.mp ?_⟩
    exact ReferenceKind.skips_iff_forall_not_finds.mpr hupToDate.packages
  · rintro ⟨hreferences, hpins⟩
    refine ⟨(namesTargets_pinPackages_iff h _).mpr hreferences, ?_⟩
    exact ReferenceKind.skips_iff_forall_not_finds.mp (hskips.mpr hpins)

end Regular

end RefreshRules

end ReleaseDocs
