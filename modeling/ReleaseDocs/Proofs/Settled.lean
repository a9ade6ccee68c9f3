import ReleaseDocs.Proofs.UpToDate

namespace ReleaseDocs

open VersionToken TagReference CatalogLink

namespace VersionToken

theorem digits_encode_append {cs : List Char} (hcs : ∀ c ∈ cs, isDecimalDigit c = true)
    {rest : Bytes} (hrest : digits rest = []) :
    digits (encode cs ++ rest) = encode cs ∧ afterDigits (encode cs ++ rest) = rest := by
  have hafter := afterDigits_of_digits_eq_nil hrest
  unfold digits at hrest ⊢
  unfold afterDigits at hafter ⊢
  rw [spanChars_encode_append hcs, hrest, hafter]
  simp

theorem exists_digits (text : Bytes) :
    ∃ cs rest, text = encode cs ++ rest ∧ (∀ c ∈ cs, isDecimalDigit c = true) ∧
      digits rest = [] := by
  obtain ⟨cs, rest, htext, hcs, hrest, -⟩ := exists_spanChars isDecimalDigit text
  exact ⟨cs, rest, htext, hcs, digits_eq_nil_of_not_startsWith hrest⟩

theorem digits_afterDigits (text : Bytes) : digits (afterDigits text) = [] := by
  obtain ⟨cs, rest, rfl, hcs, hrest⟩ := exists_digits text
  rw [(digits_encode_append hcs hrest).2, hrest]

end VersionToken

namespace RefreshRules

/-- Behind no tag reference of the document stand digits that the version written there would run
into: for a catalog link, where a version of two numbers is written, a point and digits, with more
digits in front of them or not. -/
def Settled (rules : RefreshRules) (text : Bytes) : Prop :=
  ∀ before reference after, (TagReference.kind rules.function).Finds text before reference after →
    if rules.InLink before reference then pointNumber? (afterDigits after) = none
    else number? after = none

section OnSite

variable {rules : RefreshRules} {f site : List Char} (h : rules.OnSite f site)
include h

theorem inLink_encode_append {cs : List Char} (hcs : ∀ c ∈ cs, c ∉ site) (inner : Bytes)
    (reference : TagReference) :
    rules.InLink (encode cs ++ inner) reference ↔ rules.InLink inner reference := by
  simp only [inLink_iff h, encode_suffix_encode_append_iff hcs]

theorem skips_digits (hf : ∀ c ∈ f.head?, isDecimalDigit c = false) {cs : List Char}
    (hcs : ∀ c ∈ cs, isDecimalDigit c = true) (rest : Bytes) :
    (TagReference.kind rules.function).Skips (encode cs) rest := by
  obtain ⟨c, f', rfl⟩ := List.exists_cons_of_ne_nil (isName_iff.mp h.name).1
  refine ReferenceKind.skips_encode (c := c) (fun hmem => ?_) (fun text hread => ?_) rest
  · simpa [hf c rfl] using hcs c hmem
  · obtain ⟨separator, token, after, -, -, rfl⟩ := TagReference.read?_ne_none_iff.mp hread
    exact ⟨_, by rw [h.function, encode_cons, List.append_assoc]⟩

theorem skips_digits_links {cs : List Char} (hcs : ∀ c ∈ cs, isDecimalDigit c = true)
    (rest : Bytes) : (CatalogLink.kind rules.page).Skips (encode cs) rest := by
  obtain ⟨scheme, more, hsite, -, -⟩ := h.isSite.scheme
  refine ReferenceKind.skips_encode (c := 'h') (fun hmem => ?_) (fun text hread => ?_) rest
  · exact absurd (hcs _ hmem) (by decide)
  · obtain ⟨token, after, -, rfl⟩ := CatalogLink.read?_ne_none_iff.mp hread
    exact ⟨_, by rw [h.page, CatalogLink.page, hsite, encode_cons, List.append_assoc,
      List.append_assoc]⟩

variable {skipped rest tail token after : Bytes} {separator : UInt8} {cs : List Char}

theorem settled_append (hseparator : isSeparator separator = true) (hreads : Reads cs rest)
    (hskips : (TagReference.kind rules.function).Skips skipped
      (rules.function ++ separator :: (encode cs ++ rest))) :
    rules.Settled (skipped ++ (rules.function ++ separator :: (encode cs ++ rest))) ↔
      (if rules.InLink skipped ⟨separator, encode cs⟩ then pointNumber? (afterDigits rest) = none
        else number? rest = none) ∧ rules.Settled rest := by
  refine TagReference.forall_finds_append_iff hseparator hreads hskips fun inner reference _ => ?_
  simp only [inLink_append h hseparator hreads.isToken]

theorem namesTargets_append_of_read? (hseparator : isSeparator separator = true)
    (hskips : (TagReference.kind rules.function).Skips skipped
      (rules.function ++ separator :: rest))
    (hread : VersionToken.read? tail = some (token, after)) :
    rules.NamesTargets (skipped ++ (rules.function ++ separator :: tail)) ↔
      token = rules.target skipped ⟨separator, token⟩ ∧ rules.NamesTargets after := by
  obtain ⟨cs, hreads, rfl, rfl⟩ := VersionToken.read?_eq_some_iff.mp hread
  refine namesTargets_append h hseparator hreads ?_
  rw [h.function] at hskips ⊢
  exact skips_function h.name hseparator hskips _

theorem namesTargets_patch_append (hseparator : isSeparator separator = true)
    (hskips : (TagReference.kind rules.function).Skips skipped
      (rules.function ++ separator :: rest))
    (hother : ¬ rules.InLink skipped ⟨separator, token⟩) (y : Bytes) :
    rules.NamesTargets (skipped ++ (rules.function ++ separator :: (rules.patch ++ y))) ↔
      number? y = none ∧ rules.NamesTargets y := by
  obtain ⟨a, b, c, ha, hb, hc, hpatch⟩ := h.patch
  have hread : VersionToken.read? (rules.patch ++ y) =
      some (rules.patch ++ digits y, afterDigits y) := hpatch ▸ read?_patch_append ha hb hc y
  have htarget : rules.target skipped ⟨separator, rules.patch ++ digits y⟩ = rules.patch :=
    if_neg hother
  rw [namesTargets_append_of_read? h hseparator hskips hread, htarget, number?_eq_none_iff,
    List.append_right_eq_self]
  refine and_congr_right fun hdigits => ?_
  rw [afterDigits_of_digits_eq_nil hdigits]

theorem namesTargets_minor_append (hseparator : isSeparator separator = true)
    (hskips : (TagReference.kind rules.function).Skips skipped
      (rules.function ++ separator :: rest))
    (hlink : rules.InLink skipped ⟨separator, token⟩) {y : Bytes} (hy : digits y = []) :
    rules.NamesTargets (skipped ++ (rules.function ++ separator :: (rules.minor ++ y))) ↔
      pointNumber? y = none ∧ rules.NamesTargets y := by
  obtain ⟨a, b, ha, hb, hminor⟩ := h.minor
  have hread := read?_minor_append ha hb y
  rw [← hminor, hy, afterDigits_of_digits_eq_nil hy, List.append_nil] at hread
  have htarget (token : Bytes) : rules.target skipped ⟨separator, token⟩ = rules.minor :=
    if_pos hlink
  cases hpoint : pointNumber? y with
  | none =>
    rw [hpoint] at hread
    rw [namesTargets_append_of_read? h hseparator hskips hread, htarget]
    simp
  | some found =>
    obtain ⟨written, more⟩ := found
    obtain ⟨cs, ⟨hcs, -⟩, rfl, -, -⟩ := exists_of_pointNumber?_eq_some hpoint
    rw [hpoint] at hread
    rw [namesTargets_append_of_read? h hseparator hskips hread, htarget,
      List.append_right_eq_self]
    simp

end OnSite

section Regular

variable {rules : RefreshRules} {f site : List Char} (h : rules.Regular f site)
include h

/-- A version of two numbers takes the place of a token and of the digits behind it. -/
theorem namesTargets_afterDigits (hf : ∀ c ∈ f.head?, isDecimalDigit c = false) (text : Bytes) :
    rules.NamesTargets (rules.refreshLinks (afterDigits (rules.refreshTags text))) ↔
      rules.NamesTargets (rules.refreshVersions text) := by
  obtain ⟨cs, rest, rfl, hcs, hrest⟩ := exists_digits text
  have hskipsTags := skips_digits h.toOnSite hf hcs
  have htags : rules.refreshTags (encode cs ++ rest) = encode cs ++ rules.refreshTags rest :=
    ReferenceKind.substitute_append_of_skips (hskipsTags _)
  have hrest' : digits (rules.refreshTags rest) = [] :=
    (digits_congr (rules.untilSeparator_refreshTags rest)).trans hrest
  have hlinks : rules.refreshLinks (encode cs ++ rules.refreshTags rest) =
      encode cs ++ rules.refreshVersions rest :=
    ReferenceKind.substitute_append_of_skips (skips_digits_links h.toOnSite hcs _)
  rw [refreshVersions, htags, (digits_encode_append hcs hrest').2, hlinks]
  refine (ReferenceKind.forall_finds_append_of_skips (hskipsTags _) fun inner _ _ => ?_).symm
  have hplain : ∀ c ∈ cs, c ∉ site := by
    intro c hc hmem
    exact absurd (hcs c hc) (by simp [(h.plain c hmem).2.2])
  simp only [target, inLink_encode_append h.toOnSite hplain]

theorem namesTargets_refreshVersions_iff (hf : ∀ c ∈ f.head?, isDecimalDigit c = false)
    (text : Bytes) : rules.NamesTargets (rules.refreshVersions text) ↔ rules.Settled text := by
  induction text using TagReference.tag_induction rules.function with
  | skip text hskips =>
    rw [refreshVersions_of_skips h.toOnSite hskips]
    refine iff_of_true (namesTargets_of_skips hskips) fun before reference after hfinds => ?_
    exact absurd hfinds (ReferenceKind.not_finds_of_skips hskips)
  | find skipped separator cs rest hseparator hreads hskips ih =>
    rw [refreshVersions_append h.toOnSite hseparator hreads hskips,
      settled_append h.toOnSite hseparator hreads hskips, ← ih]
    have htags := rules.untilSeparator_refreshTags rest
    split
    · rename_i hlink
      have hlinks := untilSeparator_refreshLinks h.toOnSite (afterDigits (rules.refreshTags rest))
      have huntil := hlinks.trans (untilSeparator_afterDigits_congr htags)
      rw [namesTargets_minor_append h.toOnSite hseparator hskips hlink
        ((digits_congr huntil).trans (digits_afterDigits rest)), pointNumber?_congr huntil,
        namesTargets_afterDigits h hf]
    · rename_i hother
      have huntil := (untilSeparator_refreshLinks h.toOnSite (rules.refreshTags rest)).trans htags
      rw [namesTargets_patch_append h.toOnSite hseparator hskips hother, number?_eq_none_iff,
        number?_eq_none_iff, refreshVersions, digits_congr huntil]

end Regular

end RefreshRules

end ReleaseDocs
