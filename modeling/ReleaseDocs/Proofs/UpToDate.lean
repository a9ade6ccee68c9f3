import ReleaseDocs.Proofs.LinkScan
import ReleaseDocs.Proofs.PackageScan
import ReleaseDocs.Reference.Rules

namespace ReleaseDocs

open VersionToken TagReference CatalogLink

namespace VersionToken

theorem Reads.number?_eq_none {cs : List Char} {rest : Bytes} (h : Reads cs rest)
    (hne : cs ≠ "unstable".toList) : number? rest = none := by
  cases h with
  | unstable => exact absurd rfl hne
  | minor _ _ hrest _ => exact hrest
  | patch _ _ _ hrest => exact hrest

end VersionToken

namespace RefreshRules

/-- The version of a tag reference is that of a catalog link. -/
def InLink (rules : RefreshRules) (before : Bytes) (reference : TagReference) : Prop :=
  rules.page <:+ before ++ (rules.function ++ [reference.separator])

instance (rules : RefreshRules) (before : Bytes) (reference : TagReference) :
    Decidable (rules.InLink before reference) :=
  inferInstanceAs (Decidable (_ <:+ _))

/-- The version that a tag reference should name. -/
def target (rules : RefreshRules) (before : Bytes) (reference : TagReference) : Bytes :=
  if rules.InLink before reference then rules.minor else rules.patch

/-- Every tag reference of the document names the version that it should. -/
def NamesTargets (rules : RefreshRules) (text : Bytes) : Prop :=
  ∀ before reference after, (TagReference.kind rules.function).Finds text before reference after →
    reference.token = rules.target before reference

structure UpToDate (rules : RefreshRules) (text : Bytes) : Prop where
  references : rules.NamesTargets text
  packages : ∀ before reference after,
    ¬ (PackageReference.kind rules.exampleDirectory rules.exampleNames).Finds text before
      reference after

def refreshVersions (rules : RefreshRules) (text : Bytes) : Bytes :=
  rules.refreshLinks (rules.refreshTags text)

theorem namesTargets_of_skips {rules : RefreshRules} {text : Bytes}
    (hskips : (TagReference.kind rules.function).Skips text []) : rules.NamesTargets text := by
  intro before reference after hfinds
  exact absurd hfinds (ReferenceKind.not_finds_of_skips hskips)

/-- What the rules of every release on a site have in common. -/
structure OnSite (rules : RefreshRules) (f site : List Char) : Prop where
  name : isName f = true
  function : rules.function = encode f
  isSite : IsSite (encode f) site
  page : rules.page = CatalogLink.page site (encode f)
  patch : ∃ a b c, IsNumber a ∧ IsNumber b ∧ IsNumber c ∧
    rules.patch = encode ('v' :: (a ++ '.' :: (b ++ '.' :: c)))
  minor : ∃ a b, IsNumber a ∧ IsNumber b ∧ rules.minor = encode ('v' :: (a ++ '.' :: b))
  pin : rules.pin = 0x40 :: (rules.function ++ 0x2F :: rules.patch)

/-- On a site whose address holds nothing that stands behind a version or a name, with a directory
of examples that does not overlap with itself. -/
structure Regular (rules : RefreshRules) (f site : List Char) : Prop
    extends rules.OnSite f site where
  plain : ∀ c ∈ site, c ≠ '@' ∧ isBlank c = false ∧ isDecimalDigit c = false
  directory : PackageReference.IsDirectory rules.exampleDirectory

section OnSite

variable {rules : RefreshRules} {f site : List Char} (h : rules.OnSite f site)
include h

theorem inLink_iff (before : Bytes) (reference : TagReference) :
    rules.InLink before reference ↔ reference.separator = 0x2F ∧ encode site <:+ before := by
  rw [InLink, h.page, h.function, CatalogLink.page]
  constructor
  · rintro ⟨front, hfront⟩
    rw [← List.append_assoc] at hfront
    obtain ⟨hbefore, hslash⟩ := List.append_inj' hfront (by simp)
    exact ⟨by simpa using hslash.symm, front, hbefore⟩
  · rintro ⟨hslash, front, rfl⟩
    exact ⟨front, by simp [hslash]⟩

variable {skipped rest : Bytes} {separator : UInt8} {cs : List Char}

theorem refreshVersions_append (hseparator : isSeparator separator = true) (hreads : Reads cs rest)
    (hskips : (TagReference.kind rules.function).Skips skipped
      (rules.function ++ separator :: (encode cs ++ rest))) :
    rules.refreshVersions (skipped ++ (rules.function ++ separator :: (encode cs ++ rest))) =
      skipped ++ (rules.function ++ separator ::
        if rules.InLink skipped ⟨separator, encode cs⟩ then
          rules.minor ++ rules.refreshLinks (afterDigits (rules.refreshTags rest))
        else rules.patch ++ rules.refreshVersions rest) := by
  obtain ⟨a, b, c, ha, hb, hc, hpatch⟩ := h.patch
  have htoken := IsToken.patch ha hb hc
  unfold refreshVersions refreshTags
  rw [TagReference.refresh_append hseparator hreads hskips]
  rw [h.function] at hskips ⊢
  have hskips' := skips_function h.name hseparator hskips
  rw [hpatch]
  unfold refreshLinks
  rw [h.page]
  split
  · rename_i hlink
    obtain ⟨rfl, front, rfl⟩ := (inLink_iff h _ _).mp hlink
    exact refresh_append_site h.name h.isSite ha hb hc rfl (hskips' _)
  · rename_i hlink
    rw [inLink_iff h] at hlink
    exact CatalogLink.refresh_append h.name h.isSite hseparator htoken (hskips' _) hlink

theorem refreshVersions_of_skips {text : Bytes}
    (hskips : (TagReference.kind rules.function).Skips text []) :
    rules.refreshVersions text = text := by
  unfold refreshVersions refreshTags
  rw [TagReference.refresh_of_skips hskips, refreshLinks, h.page]
  rw [h.function] at hskips
  exact ReferenceKind.substitute_of_skips (skips_of_skips_tags hskips)

omit h in
theorem untilSeparator_refreshTags (rules : RefreshRules) (text : Bytes) :
    untilSeparator (rules.refreshTags text) = untilSeparator text :=
  TagReference.untilSeparator_refresh text

theorem untilSeparator_refreshLinks (text : Bytes) :
    untilSeparator (rules.refreshLinks text) = untilSeparator text := by
  rw [refreshLinks, h.page]
  exact CatalogLink.untilSeparator_refresh text

theorem inLink_append (hseparator : isSeparator separator = true) (hcs : IsToken cs)
    (inner : Bytes) (reference : TagReference) :
    rules.InLink (skipped ++ (rules.function ++ separator :: (encode cs ++ inner))) reference ↔
      rules.InLink inner reference := by
  simp only [inLink_iff h, h.function, site_suffix_iff h.name h.isSite hseparator hcs]

theorem namesTargets_append (hseparator : isSeparator separator = true) (hreads : Reads cs rest)
    (hskips : (TagReference.kind rules.function).Skips skipped
      (rules.function ++ separator :: (encode cs ++ rest))) :
    rules.NamesTargets (skipped ++ (rules.function ++ separator :: (encode cs ++ rest))) ↔
      encode cs = rules.target skipped ⟨separator, encode cs⟩ ∧ rules.NamesTargets rest := by
  refine TagReference.forall_finds_append_iff hseparator hreads hskips fun inner reference _ => ?_
  simp only [target, inLink_append h hseparator hreads.isToken]

/-- A patch version in place of a token, and a text behind it that keeps what stands before its
first separator, leave the document as it is only if the token was that version. -/
theorem patch_append_eq_iff {y : Bytes} (hreads : Reads cs rest)
    (huntil : untilSeparator y = untilSeparator rest) :
    rules.patch ++ y = encode cs ++ rest ↔ encode cs = rules.patch ∧ y = rest := by
  obtain ⟨a, b, c, ha, hb, hc, hpatch⟩ := h.patch
  constructor
  · intro heq
    have hread : VersionToken.read? (rules.patch ++ y) = some (encode cs, rest) :=
      VersionToken.read?_eq_some_iff.mpr ⟨cs, hreads, rfl, heq⟩
    rw [hpatch, read?_patch_append ha hb hc] at hread
    simp only [Option.some.injEq, Prod.mk.injEq] at hread
    obtain ⟨htoken, rfl⟩ := hread
    rw [untilSeparator_eq_digits_append y] at huntil
    have hdigits := List.append_left_eq_self.mp huntil
    rw [hdigits, List.append_nil] at htoken
    exact ⟨hpatch ▸ htoken.symm, (afterDigits_of_digits_eq_nil hdigits).symm⟩
  · rintro ⟨htoken, rfl⟩
    rw [htoken]

theorem minor_append_eq_iff {y : Bytes} (hreads : Reads cs rest)
    (huntil : untilSeparator y = untilSeparator (afterDigits rest)) :
    rules.minor ++ y = encode cs ++ rest ↔
      encode cs = rules.minor ∧ y = rest ∧ digits rest = [] := by
  obtain ⟨a, b, ha, hb, hminor⟩ := h.minor
  constructor
  · intro heq
    have hread : VersionToken.read? (rules.minor ++ y) = some (encode cs, rest) :=
      VersionToken.read?_eq_some_iff.mpr ⟨cs, hreads, rfl, heq⟩
    obtain ⟨more, hmore⟩ : ∃ more, encode cs = rules.minor ++ more := by
      rw [hminor, read?_minor_append ha hb] at hread
      split at hread <;> obtain ⟨htoken, -⟩ := Prod.mk.inj (Option.some.inj hread)
      · exact ⟨_, by rw [← htoken, List.append_assoc, hminor]⟩
      · exact ⟨_, by rw [← htoken, hminor]⟩
    rw [hmore, List.append_assoc] at heq
    obtain rfl := List.append_cancel_left heq
    have hfree : SeparatorFree more := fun byte hbyte =>
      separatorFree_encode_token hreads.isToken byte (by simp [hmore, hbyte])
    rw [untilSeparator_append_of_separatorFree hfree, untilSeparator_eq_digits_append rest,
      ← List.append_assoc] at huntil
    obtain ⟨rfl, hdigits⟩ := List.append_eq_nil_iff.mp (List.append_left_eq_self.mp huntil)
    exact ⟨by simpa using hmore, rfl, hdigits⟩
  · rintro ⟨htoken, rfl, -⟩
    rw [htoken]

theorem ne_unstable (hcs : encode cs = rules.minor) : cs ≠ "unstable".toList := by
  obtain ⟨a, b, -, -, hminor⟩ := h.minor
  rintro rfl
  rw [hminor] at hcs
  exact absurd (List.cons.inj (encode_injective hcs)).1 (by decide)

/-- The first two rules leave a document as it is exactly if all its tag references name the
versions that they should. -/
theorem refreshVersions_eq_self_iff (text : Bytes) :
    rules.refreshVersions text = text ↔ rules.NamesTargets text := by
  induction text using TagReference.tag_induction rules.function with
  | skip text hskips =>
    exact iff_of_true (refreshVersions_of_skips h hskips) (namesTargets_of_skips hskips)
  | find skipped separator cs rest hseparator hreads hskips ih =>
    rw [refreshVersions_append h hseparator hreads hskips,
      namesTargets_append h hseparator hreads hskips, ← ih, target]
    simp only [List.append_cancel_left_eq, List.cons.injEq, true_and]
    split
    · have htags := rules.untilSeparator_refreshTags rest
      have huntil := (untilSeparator_refreshLinks h (afterDigits (rules.refreshTags rest))).trans
        (untilSeparator_afterDigits_congr htags)
      rw [minor_append_eq_iff h hreads huntil]
      refine and_congr_right fun htoken => ?_
      have hdigits := number?_eq_none_iff.mp (hreads.number?_eq_none (ne_unstable h htoken))
      rw [afterDigits_of_digits_eq_nil ((digits_congr htags).trans hdigits)]
      simp [refreshVersions, hdigits]
    · refine patch_append_eq_iff h hreads ?_
      exact (untilSeparator_refreshLinks h _).trans (rules.untilSeparator_refreshTags rest)

theorem token_eq_minor_of_finds {text before after : Bytes} {link : CatalogLink}
    (htext : rules.NamesTargets text)
    (hfinds : (CatalogLink.kind rules.page).Finds text before link after) :
    link.token = rules.minor := by
  rw [h.page] at hfinds
  induction text using TagReference.tag_induction rules.function generalizing before with
  | skip text hskips =>
    rw [h.function] at hskips
    exact absurd hfinds (ReferenceKind.not_finds_of_skips (skips_of_skips_tags hskips))
  | find skipped separator cs rest hseparator hreads hskips ih =>
    obtain ⟨htoken, hrest⟩ := (namesTargets_append h hseparator hreads hskips).mp htext
    rw [h.function] at hskips hfinds
    by_cases hlink : rules.InLink skipped ⟨separator, encode cs⟩
    · rw [target, if_pos hlink] at htoken
      obtain ⟨rfl, front, rfl⟩ := (inLink_iff h _ _).mp hlink
      have hpage : front ++ encode site ++ (encode f ++ 0x2F :: (encode cs ++ rest)) =
          front ++ (CatalogLink.page site (encode f) ++ (encode cs ++ rest)) := by
        simp [CatalogLink.page]
      have hread : (CatalogLink.kind (CatalogLink.page site (encode f))).read?
          (CatalogLink.page site (encode f) ++ (encode cs ++ rest)) = some (⟨encode cs⟩, rest) :=
        CatalogLink.read?_eq_some_iff.mpr ⟨cs, hreads, rfl, rfl⟩
      rw [hpage, ReferenceKind.finds_append_iff
        (skips_of_skips_append_site h.name h.isSite hreads.isToken hskips) hread
        (by simp [CatalogLink.page])] at hfinds
      rcases hfinds with ⟨-, rfl, -⟩ | ⟨inner, -, hinner⟩
      · exact htoken
      · exact ih hrest hinner
    · rw [inLink_iff h] at hlink
      have hsplit : skipped ++ (encode f ++ separator :: (encode cs ++ rest)) =
          (skipped ++ (encode f ++ separator :: encode cs)) ++ rest := by simp
      rw [hsplit, ReferenceKind.finds_append_iff_of_skips (skips_append_reference h.name h.isSite
        hseparator hreads.isToken hskips hlink)] at hfinds
      obtain ⟨inner, -, hinner⟩ := hfinds
      exact ih hrest hinner

omit h in
theorem count_at_token (hcs : IsToken cs) : (encode cs).count 0x40 = 0 :=
  List.count_eq_zero.mpr (not_mem_encode rfl (c := '@') (hcs.not_mem (by decide) (by decide)))

theorem count_at_refreshTags (text : Bytes) :
    (rules.refreshTags text).count 0x40 = text.count 0x40 := by
  obtain ⟨a, b, c, ha, hb, hc, hpatch⟩ := h.patch
  have hcount : rules.patch.count 0x40 = 0 := hpatch ▸ count_at_token (.patch ha hb hc)
  unfold refreshTags
  induction text using TagReference.tag_induction rules.function with
  | skip text hskips => rw [TagReference.refresh_of_skips hskips]
  | find skipped separator cs rest hseparator hreads hskips ih =>
    rw [TagReference.refresh_append hseparator hreads hskips]
    simp only [List.count_append, List.count_cons, ih, count_at_token hreads.isToken, hcount]

theorem count_at_refreshLinks (text : Bytes) :
    (rules.refreshLinks text).count 0x40 = text.count 0x40 := by
  obtain ⟨a, b, ha, hb, hminor⟩ := h.minor
  have hcount : rules.minor.count 0x40 = 0 := hminor ▸ count_at_token (.minor ha hb)
  unfold refreshLinks CatalogLink.refresh
  induction text using (CatalogLink.kind rules.page).scan_induction with
  | skip text hskips => rw [ReferenceKind.substitute_of_skips hskips]
  | find skipped tail link rest hskips hne hread ih =>
    obtain ⟨cs, hreads, -, rfl⟩ := CatalogLink.read?_eq_some_iff.mp hread
    rw [ReferenceKind.substitute_append_of_skips hskips,
      ReferenceKind.substitute_of_read?_eq_some hread hne]
    simp only [List.count_append, ih, count_at_token hreads.isToken, hcount, Nat.add_zero,
      Nat.zero_add]

/-- A pin adds to the document, so nothing is added only where no package reference is found. -/
theorem skips_or_count_at_lt (text : Bytes) :
    (PackageReference.kind rules.exampleDirectory rules.exampleNames).Skips text [] ∨
      text.count 0x40 < (rules.pinPackages text).count 0x40 := by
  have hpin : 0 < rules.pin.count 0x40 := List.count_pos_iff.mpr (by simp [h.pin])
  unfold pinPackages PackageReference.refresh
  induction text using
    (PackageReference.kind rules.exampleDirectory rules.exampleNames).scan_induction with
  | skip text hskips => exact Or.inl hskips
  | find skipped tail reference rest hskips hne hread ih =>
    have hsource := (PackageReference.kind _ _).source_append hread
    rw [ReferenceKind.substitute_append_of_skips hskips,
      ReferenceKind.substitute_of_read?_eq_some hread hne, ← hsource]
    right
    rcases ih with ih | ih
    · rw [ReferenceKind.substitute_of_skips ih]
      simp only [PackageReference.kind, List.count_append]
      omega
    · simp only [PackageReference.kind, List.count_append] at ih ⊢
      omega

end OnSite

/-- The rules of a release leave a document as it is exactly if every tag reference in it names the
version that it should and every package reference has a pin. -/
theorem apply_eq_self_iff {rules : RefreshRules} {f site : List Char} (h : rules.OnSite f site)
    (text : Bytes) : rules.apply text = text ↔ rules.UpToDate text := by
  have happly : rules.apply text = rules.pinPackages (rules.refreshVersions text) := rfl
  have hcount : (rules.refreshVersions text).count 0x40 = text.count 0x40 :=
    (count_at_refreshLinks h _).trans (count_at_refreshTags h text)
  rw [happly]
  constructor
  · intro heq
    rcases skips_or_count_at_lt h (rules.refreshVersions text) with hskips | hlt
    · have hversions : rules.refreshVersions text = text :=
        (ReferenceKind.substitute_of_skips hskips).symm.trans heq
      rw [hversions] at hskips
      exact ⟨(refreshVersions_eq_self_iff h text).mp hversions,
        ReferenceKind.skips_iff_forall_not_finds.mp hskips⟩
    · rw [heq, hcount] at hlt
      exact absurd hlt (Nat.lt_irrefl _)
  · rintro ⟨hreferences, hpackages⟩
    rw [(refreshVersions_eq_self_iff h text).mpr hreferences]
    exact ReferenceKind.substitute_of_skips
      (ReferenceKind.skips_iff_forall_not_finds.mpr hpackages)

end RefreshRules

end ReleaseDocs
