import ReleaseDocs.Proofs.Settled
import ReleaseDocs.Proofs.Stops
import ReleaseDocs.Proofs.Words

namespace ReleaseDocs

open VersionToken TagReference CatalogLink PackageReference

namespace TagReference

theorem isBlank_eq_false_of_isToken {cs : List Char} (h : IsToken cs) :
    ∀ c ∈ cs, isBlank c = false := by
  intro c hmem
  rw [← Bool.not_eq_true]
  intro hc
  exact (IsStop.not_mem_token (Or.inl hc) h) hmem

theorem blankFree_append_reference_iff {f cs : List Char} (hname : isName f = true)
    {separator : UInt8} (hseparator : isSeparator separator = true) (hcs : IsToken cs)
    {front rest : Bytes} :
    BlankFree (front ++ (encode f ++ separator :: (encode cs ++ rest))) ↔
      BlankFree front ∧ BlankFree rest := by
  obtain ⟨d, hd, hcode⟩ := exists_encode_reference hseparator f cs
  have hd : isBlank d = false := by
    rcases hd with rfl | rfl <;> decide
  have hf : ∀ c ∈ f, isBlank c = false := fun c hc =>
    isBlank_eq_false_of_isNameChar ((isName_iff.mp hname).2 c hc)
  rw [hcode, blankFree_append_encode_iff (by simp)]
  simpa [List.forall_mem_append, or_imp, forall_and] using
    ⟨hf, hd, isBlank_eq_false_of_isToken hcs⟩

end TagReference

namespace RefreshRules

/-- Behind no tag reference of the document stand digits, or a point and digits. -/
def Delimited (rules : RefreshRules) (text : Bytes) : Prop :=
  ∀ before reference after, (TagReference.kind rules.function).Finds text before reference after →
    number? after = none ∧ pointNumber? after = none

theorem delimited_append {rules : RefreshRules} {skipped rest : Bytes} {separator : UInt8}
    {cs : List Char} (hseparator : isSeparator separator = true) (hreads : Reads cs rest)
    (hskips : (TagReference.kind rules.function).Skips skipped
      (rules.function ++ separator :: (encode cs ++ rest))) :
    rules.Delimited (skipped ++ (rules.function ++ separator :: (encode cs ++ rest))) ↔
      (number? rest = none ∧ pointNumber? rest = none) ∧ rules.Delimited rest :=
  TagReference.forall_finds_append_iff hseparator hreads hskips fun _ _ _ => Iff.rfl

section OnSite

variable {rules : RefreshRules} {f site : List Char} (h : rules.OnSite f site)
include h

theorem untilSeparator_refreshVersions (text : Bytes) :
    untilSeparator (rules.refreshVersions text) = untilSeparator text :=
  (untilSeparator_refreshLinks h _).trans (rules.untilSeparator_refreshTags text)

theorem reads_target (before : Bytes) (reference : TagReference) :
    ∃ cs, rules.target before reference = encode cs ∧
      ∀ rest, number? rest = none → pointNumber? rest = none → Reads cs rest := by
  obtain ⟨a, b, c, ha, hb, hc, hpatch⟩ := h.patch
  obtain ⟨a', b', ha', hb', hminor⟩ := h.minor
  unfold target
  split
  · exact ⟨_, hminor, fun _ hrest hpoint => .minor ha' hb' hrest hpoint⟩
  · exact ⟨_, hpatch, fun _ hrest _ => .patch ha hb hc hrest⟩

variable {skipped rest : Bytes} {separator : UInt8} {cs : List Char}

theorem refreshVersions_append_of_number? (hseparator : isSeparator separator = true)
    (hreads : Reads cs rest)
    (hskips : (TagReference.kind rules.function).Skips skipped
      (rules.function ++ separator :: (encode cs ++ rest))) (hrest : number? rest = none) :
    rules.refreshVersions (skipped ++ (rules.function ++ separator :: (encode cs ++ rest))) =
      skipped ++ (rules.function ++ separator ::
        (rules.target skipped ⟨separator, encode cs⟩ ++ rules.refreshVersions rest)) := by
  have hdigits : digits (rules.refreshTags rest) = [] :=
    (digits_congr (rules.untilSeparator_refreshTags rest)).trans (number?_eq_none_iff.mp hrest)
  rw [refreshVersions_append h hseparator hreads hskips, afterDigits_of_digits_eq_nil hdigits,
    target]
  split <;> rfl

/-- The versions that one release writes are read by the rules of another one as those that it
found. -/
theorem refreshVersions_refreshVersions {other : RefreshRules} (hother : other.OnSite f site)
    {text : Bytes} (htext : rules.Delimited text) :
    other.refreshVersions (rules.refreshVersions text) = other.refreshVersions text := by
  have hfunction : other.function = rules.function := hother.function.trans h.function.symm
  induction text using TagReference.tag_induction rules.function with
  | skip text hskips => rw [refreshVersions_of_skips h hskips]
  | find skipped separator cs rest hseparator hreads hskips ih =>
    obtain ⟨⟨hnumber, hpoint⟩, hrest⟩ := (delimited_append hseparator hreads hskips).mp htext
    obtain ⟨ds, htarget, hds⟩ := reads_target h skipped ⟨separator, encode cs⟩
    have huntil := untilSeparator_refreshVersions h rest
    have hnumber' : number? (rules.refreshVersions rest) = none := by
      rwa [number?_eq_none_iff, digits_congr huntil, ← number?_eq_none_iff]
    have hreads' := reads_congr (hds rest hnumber hpoint) huntil.symm
    have hskips' : (TagReference.kind rules.function).Skips skipped
        (rules.function ++ separator :: (encode ds ++ rules.refreshVersions rest)) := by
      rw [h.function] at hskips ⊢
      exact skips_function h.name hseparator hskips _
    rw [refreshVersions_append_of_number? h hseparator hreads hskips hnumber, htarget]
    rw [← hfunction] at hskips hskips' ⊢
    rw [refreshVersions_append_of_number? hother hseparator hreads' hskips' hnumber',
      refreshVersions_append_of_number? hother hseparator hreads hskips hnumber, ih hrest]
    rfl

/-- A law of texts that goes through the references of the function, each for itself, is kept by the
first two rules. -/
theorem refreshVersions_iff_of_append {P Q : Bytes → Prop}
    (hP : ∀ {front rest : Bytes} {separator : UInt8} {cs : List Char},
      isSeparator separator = true → IsToken cs →
        (P (front ++ (encode f ++ separator :: (encode cs ++ rest))) ↔ Q front ∧ P rest))
    (text : Bytes) : P (rules.refreshVersions text) ↔ P text := by
  obtain ⟨a, b, c, ha, hb, hc, hpatch⟩ := h.patch
  obtain ⟨a', b', ha', hb', hminor⟩ := h.minor
  have htags : P (rules.refreshTags text) ↔ P text := by
    unfold refreshTags
    rw [h.function, hpatch]
    induction text using TagReference.tag_induction (encode f) with
    | skip text hskips => rw [TagReference.refresh_of_skips hskips]
    | find skipped separator cs rest hseparator hreads hskips ih =>
      rw [TagReference.refresh_append hseparator hreads hskips, hP hseparator (.patch ha hb hc),
        hP hseparator hreads.isToken]
      exact and_congr_right fun _ => ih
  have hpage (front tail : Bytes) : front ++ (rules.page ++ tail) =
      (front ++ encode site) ++ (encode f ++ 0x2F :: tail) := by
    simp [h.page, CatalogLink.page]
  refine Iff.trans ?_ htags
  unfold refreshVersions refreshLinks CatalogLink.refresh
  generalize rules.refreshTags text = text
  induction text using (CatalogLink.kind rules.page).scan_induction with
  | skip text hskips => rw [ReferenceKind.substitute_of_skips hskips]
  | find skipped tail link rest hskips hne hread ih =>
    obtain ⟨cs, hreads, -, rfl⟩ := CatalogLink.read?_eq_some_iff.mp hread
    rw [ReferenceKind.substitute_append_of_skips hskips,
      ReferenceKind.substitute_of_read?_eq_some hread hne, List.append_assoc, hpage, hpage, hminor,
      hP rfl (.minor ha' hb'), ← hminor, hP rfl hreads.isToken]
    exact and_congr_right fun _ => ih

theorem blankFree_refreshVersions_iff (text : Bytes) :
    BlankFree (rules.refreshVersions text) ↔ BlankFree text :=
  refreshVersions_iff_of_append h
    (fun hseparator hcs => blankFree_append_reference_iff h.name hseparator hcs) text

theorem suffix_refreshVersions_iff {address : Bytes} (hscheme : HasScheme address)
    (hapart : (TagReference.kind (encode f)).Skips address []) (text : Bytes) :
    address <:+ rules.refreshVersions text ↔ address <:+ text := by
  refine refreshVersions_iff_of_append h (Q := fun _ => True) (fun hseparator hcs => ?_) text
  rw [suffix_append_reference_iff hscheme hapart (separatorFree_encode_name h.name) hseparator hcs,
    true_and]

theorem endsInExample_refreshVersions_iff {directory : Bytes} {names : List Bytes}
    (haddress : ∀ name ∈ names, HasScheme (directory ++ name) ∧
      (TagReference.kind (encode f)).Skips (directory ++ name) []) (text : Bytes) :
    EndsInExample directory names (rules.refreshVersions text) ↔
      EndsInExample directory names text := by
  refine exists_congr fun name => and_congr_right fun hname => ?_
  obtain ⟨hscheme, hapart⟩ := haddress name hname
  exact suffix_refreshVersions_iff h hscheme hapart text

end OnSite

end RefreshRules

end ReleaseDocs
