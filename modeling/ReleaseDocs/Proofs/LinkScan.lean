import ReleaseDocs.Proofs.TagScan
import ReleaseDocs.Reference.CatalogLink

namespace ReleaseDocs

open VersionToken TagReference

def HasScheme (text : Bytes) : Prop :=
  ∃ scheme rest, text = encode ('h' :: scheme) ++ 0x3A :: 0x2F :: rest ∧ ':' ∉ scheme ∧
    '/' ∉ scheme

theorem HasScheme.append {text : Bytes} (h : HasScheme text) (rest : Bytes) :
    HasScheme (text ++ rest) := by
  obtain ⟨scheme, more, rfl, hcolon, hslash⟩ := h
  exact ⟨scheme, more ++ rest, by simp, hcolon, hslash⟩

theorem hasScheme_encode {cs : List Char} (h : ∃ scheme rest,
    cs = 'h' :: (scheme ++ ':' :: '/' :: rest) ∧ ':' ∉ scheme ∧ '/' ∉ scheme) :
    HasScheme (encode cs) := by
  obtain ⟨scheme, rest, rfl, hcolon, hslash⟩ := h
  refine ⟨scheme, encode rest, ?_, hcolon, hslash⟩
  rw [← List.cons_append, encode_append]
  rfl

namespace TagReference

variable {function : Bytes} {separator : UInt8} {cs : List Char}

theorem not_hasScheme_inside {front y : Bytes} (hf : SeparatorFree function)
    (hseparator : isSeparator separator = true) (hcs : IsToken cs) (hne : front ≠ [])
    (hfront : front <:+ function ++ separator :: encode cs) : ¬ HasScheme (front ++ y) := by
  rintro ⟨scheme, rest, hsplit, hcolon, hslash⟩
  have hfree : SeparatorFree (encode ('h' :: scheme)) :=
    separatorFree_encode (by simpa using hcolon) (by simpa using hslash)
  have hreaches (inner : Bytes) (hinner : SeparatorFree inner)
      (heq : front = inner ++ separator :: encode cs) : False := by
    rw [heq, List.append_assoc, List.cons_append] at hsplit
    obtain ⟨-, -, hafter⟩ := append_cons_inj_of_stop hinner hfree hseparator rfl hsplit
    obtain ⟨byte, bytes, hbytes⟩ := List.exists_cons_of_ne_nil hcs.encode_ne_nil
    have hbyte := separatorFree_encode_token hcs byte (by simp [hbytes])
    rw [hbytes, List.cons_append] at hafter
    rw [(List.cons.inj hafter).1] at hbyte
    exact absurd hbyte (by decide)
  obtain ⟨before, hbefore⟩ := hfront
  rcases List.append_eq_append_iff.mp hbefore with ⟨inner, hinner, heq⟩ | ⟨inner, -, heq⟩
  · exact hreaches inner (fun byte hbyte => hf byte (by simp [hinner, hbyte])) heq
  · cases inner with
    | nil => exact hreaches [] (by simp [SeparatorFree]) heq.symm
    | cons byte inner =>
      obtain ⟨-, hcs'⟩ := List.cons.inj heq
      obtain ⟨first, bytes, rfl⟩ := List.exists_cons_of_ne_nil hne
      obtain rfl : first = 0x68 := (List.cons.inj hsplit).1
      have hmem : 0x68 ∈ encode cs := by simp [hcs']
      have hnot : 'h' ∉ cs := hcs.not_mem (by decide) (by decide)
      exact absurd hmem (not_mem_encode rfl hnot)

/-- An address in which no tag reference starts never reaches into one in front of it. -/
theorem suffix_append_reference_iff {address rest : Bytes} (hscheme : HasScheme address)
    (hapart : (kind function).Skips address rest) (hf : SeparatorFree function)
    (hseparator : isSeparator separator = true) (hcs : IsToken cs) (front inner : Bytes) :
    address <:+ front ++ (function ++ separator :: (encode cs ++ inner)) ↔ address <:+ inner := by
  constructor
  · rintro ⟨before, hbefore⟩
    have hsplit : before ++ address =
        (front ++ (function ++ separator :: encode cs)) ++ inner := by simpa using hbefore
    rcases List.append_eq_append_iff.mp hsplit with ⟨reach, hfront, rfl⟩ | ⟨more, -, hinner⟩
    · cases reach with
      | nil => exact List.suffix_rfl
      | cons byte reach =>
        rcases List.append_eq_append_iff.mp hfront with ⟨start, -, hreach⟩ | ⟨start, -, hreach⟩
        · exact absurd hscheme
            (not_hasScheme_inside hf hseparator hcs (by simp) ⟨start, hreach.symm⟩)
        · -- a reference would start in the address
          have hinside : function ++ separator :: (encode cs ++ inner) <:+
              byte :: reach ++ inner := ⟨start, by simp [hreach]⟩
          have hnone := hapart _ (by simp) hinside
          exact absurd hnone (TagReference.read?_ne_none_iff.mpr
            ⟨separator, cs, inner ++ rest, hseparator, hcs, by simp⟩)
    · exact ⟨more, hinner.symm⟩
  · rintro ⟨before, rfl⟩
    exact ⟨front ++ (function ++ separator :: (encode cs ++ before)), by simp⟩

end TagReference

namespace CatalogLink

/-- The address of a site, with what the scans rely on: it starts with a scheme, and no reference to
the function starts in it. -/
structure IsSite (function : Bytes) (site : List Char) : Prop where
  scheme : ∃ scheme rest, site = 'h' :: (scheme ++ ':' :: '/' :: rest) ∧ ':' ∉ scheme ∧ '/' ∉ scheme
  apart : (TagReference.kind function).Skips (encode site) (function ++ [0x2F])

theorem IsSite.hasScheme {function : Bytes} {site : List Char} (h : IsSite function site) :
    HasScheme (encode site) :=
  hasScheme_encode h.scheme

def page (site : List Char) (function : Bytes) : Bytes :=
  encode site ++ (function ++ [0x2F])

theorem read?_eq_some_iff {page text rest : Bytes} {link : CatalogLink} :
    read? page text = some (link, rest) ↔
      ∃ cs, Reads cs rest ∧ link.token = encode cs ∧ text = page ++ (encode cs ++ rest) := by
  constructor
  · intro h
    unfold read? at h
    split at h
    · rename_i after hafter
      obtain ⟨⟨token, rest'⟩, hread, heq⟩ := Option.map_eq_some_iff.mp h
      obtain ⟨rfl, rfl⟩ := Prod.mk.inj heq
      obtain ⟨cs, hreads, rfl, rfl⟩ := VersionToken.read?_eq_some_iff.mp hread
      exact ⟨cs, hreads, rfl, after?_eq_some_iff.mp hafter⟩
    · cases h
  · obtain ⟨token⟩ := link
    rintro ⟨cs, hreads, rfl, rfl⟩
    have hread := VersionToken.read?_eq_some_iff.mpr ⟨cs, hreads, rfl, rfl⟩
    simp [read?, hread]

theorem read?_ne_none_iff {page text : Bytes} :
    read? page text ≠ none ↔ ∃ cs rest, IsToken cs ∧ text = page ++ (encode cs ++ rest) := by
  constructor
  · intro h
    obtain ⟨⟨link, rest⟩, hread⟩ := Option.ne_none_iff_exists'.mp h
    obtain ⟨cs, hreads, -, rfl⟩ := read?_eq_some_iff.mp hread
    exact ⟨cs, rest, hreads.isToken, rfl⟩
  · rintro ⟨cs, rest, htoken, rfl⟩
    obtain ⟨⟨token, after⟩, hread⟩ := Option.ne_none_iff_exists'.mp
      (VersionToken.read?_ne_none_iff.mpr ⟨cs, htoken, List.prefix_append _ rest⟩)
    simp [read?, hread]

section Site

variable {f site : List Char} (hname : isName f = true) (hsite : IsSite (encode f) site)
include hname hsite

/-- A link that starts in front of a tag reference and reaches it ends in it. -/
theorem eq_site_of_read? {skipped front y : Bytes} {separator : UInt8} {cs : List Char}
    (hseparator : isSeparator separator = true) (hcs : IsToken cs)
    (hskips : (TagReference.kind (encode f)).Skips skipped
      (encode f ++ separator :: (encode cs ++ y)))
    (hne : front ≠ []) (hfront : front <:+ skipped)
    (h : read? (page site (encode f))
      (front ++ (encode f ++ separator :: (encode cs ++ y))) ≠ none) :
    front = encode site ∧ separator = 0x2F := by
  obtain ⟨token, after, htoken, htext⟩ := read?_ne_none_iff.mp h
  have hsome : (TagReference.kind (encode f)).read?
      (encode f ++ separator :: (encode cs ++ y)) ≠ none :=
    TagReference.read?_ne_none_iff.mpr ⟨separator, cs, y, hseparator, hcs, rfl⟩
  have hlink : (TagReference.kind (encode f)).read?
      (encode f ++ 0x2F :: (encode token ++ after)) ≠ none :=
    TagReference.read?_ne_none_iff.mpr ⟨0x2F, token, after, rfl, htoken, rfl⟩
  have hparts : front ++ (encode f ++ separator :: (encode cs ++ y)) =
      encode site ++ (encode f ++ 0x2F :: (encode token ++ after)) := by simpa [page] using htext
  rcases List.append_eq_append_iff.mp hparts with ⟨inner, hinner, hrest⟩ | ⟨inner, rfl, hrest⟩
  · cases inner with
    | nil =>
      rw [List.nil_append] at hrest
      refine ⟨by simpa using hinner.symm, ?_⟩
      exact (List.cons.inj (List.append_cancel_left hrest)).1
    | cons byte inner =>
      have hslash : isSeparator 0x2F = true := rfl
      have happart := skips_function hname hslash hsite.apart (encode token ++ after)
      have hnone := happart (byte :: inner) (by simp) ⟨front, hinner.symm⟩
      rw [← hrest] at hnone
      exact absurd hnone hsome
  · cases inner with
    | nil =>
      rw [List.nil_append] at hrest
      refine ⟨List.append_nil _, ?_⟩
      exact (List.cons.inj (List.append_cancel_left hrest)).1.symm
    | cons byte inner =>
      -- the link would hold a reference that starts in what is skipped
      have hnone := hskips (byte :: inner) (by simp) ((List.suffix_append _ _).trans hfront)
      rw [← hrest] at hnone
      exact absurd hnone hlink

omit hname in
theorem read?_inside {front y : Bytes} {separator : UInt8} {cs : List Char}
    (hf : SeparatorFree (encode f)) (hseparator : isSeparator separator = true) (hcs : IsToken cs)
    (hne : front ≠ []) (hfront : front <:+ encode f ++ separator :: encode cs) :
    read? (page site (encode f)) (front ++ y) = none := by
  by_contra hread
  obtain ⟨token, after, -, htext⟩ := read?_ne_none_iff.mp hread
  refine not_hasScheme_inside hf hseparator hcs hne hfront (y := y) ?_
  rw [htext, page, List.append_assoc]
  exact hsite.hasScheme.append _

omit hname hsite in
theorem skips_of_skips_tags {text : Bytes} (h : (TagReference.kind (encode f)).Skips text []) :
    (kind (page site (encode f))).Skips text [] := by
  intro front hne hfront
  rw [List.append_nil]
  by_contra hread
  obtain ⟨token, after, htoken, rfl⟩ := read?_ne_none_iff.mp hread
  have hsuffix : encode f ++ 0x2F :: (encode token ++ after) <:+ text := by
    refine List.IsSuffix.trans ⟨encode site, ?_⟩ hfront
    simp [page]
  have hnone := h _ (by simp) hsuffix
  rw [List.append_nil] at hnone
  exact absurd hnone (TagReference.read?_ne_none_iff.mpr ⟨0x2F, token, after, rfl, htoken, rfl⟩)

variable {skipped y version : Bytes} {separator : UInt8} {cs : List Char}

/-- Behind anything but the address of the site, a tag reference is no link. -/
theorem skips_append_reference (hseparator : isSeparator separator = true) (hcs : IsToken cs)
    (hskips : (TagReference.kind (encode f)).Skips skipped
      (encode f ++ separator :: (encode cs ++ y)))
    (hother : ¬ (separator = 0x2F ∧ encode site <:+ skipped)) :
    (kind (page site (encode f))).Skips
      (skipped ++ (encode f ++ separator :: encode cs)) y := by
  rw [ReferenceKind.skips_append_iff]
  constructor
  · intro front hne hfront
    by_contra hread
    rw [List.append_assoc, List.cons_append] at hread
    obtain ⟨rfl, hslash⟩ := eq_site_of_read? hname hsite hseparator hcs hskips hne hfront hread
    exact hother ⟨hslash, hfront⟩
  · intro front hne hfront
    exact read?_inside hsite (separatorFree_encode_name hname) hseparator hcs hne hfront

theorem skips_of_skips_append_site (hcs : IsToken cs)
    (hskips : (TagReference.kind (encode f)).Skips (skipped ++ encode site)
      (encode f ++ 0x2F :: (encode cs ++ y))) :
    (kind (page site (encode f))).Skips skipped (page site (encode f) ++ (encode cs ++ y)) := by
  intro front hne hfront
  by_contra hread
  obtain ⟨before, rfl⟩ := hfront
  have hpage : front ++ (page site (encode f) ++ (encode cs ++ y)) =
      (front ++ encode site) ++ (encode f ++ 0x2F :: (encode cs ++ y)) := by simp [page]
  rw [hpage] at hread
  obtain ⟨heq, -⟩ := eq_site_of_read? hname hsite rfl hcs hskips (by simp [hne])
    ⟨before, by simp⟩ hread
  exact hne (List.append_left_eq_self.mp heq)

theorem refresh_append (hseparator : isSeparator separator = true) (hcs : IsToken cs)
    (hskips : (TagReference.kind (encode f)).Skips skipped
      (encode f ++ separator :: (encode cs ++ y)))
    (hother : ¬ (separator = 0x2F ∧ encode site <:+ skipped)) :
    refresh (page site (encode f)) version
        (skipped ++ (encode f ++ separator :: (encode cs ++ y))) =
      skipped ++ (encode f ++ separator ::
        (encode cs ++ refresh (page site (encode f)) version y)) := by
  have hsubstitute : (kind (page site (encode f))).substitute
      (fun _ => page site (encode f) ++ version)
      ((skipped ++ (encode f ++ separator :: encode cs)) ++ y) = _ :=
    ReferenceKind.substitute_append_of_skips
      (skips_append_reference hname hsite hseparator hcs hskips hother)
  simpa [refresh] using hsubstitute

/-- A link that names a patch version is read to the last digit behind it. -/
theorem refresh_append_site {a b c : List Char} (ha : IsNumber a) (hb : IsNumber b)
    (hc : IsNumber c) (hcs : cs = 'v' :: (a ++ '.' :: (b ++ '.' :: c)))
    (hskips : (TagReference.kind (encode f)).Skips (skipped ++ encode site)
      (encode f ++ 0x2F :: (encode cs ++ y))) :
    refresh (page site (encode f)) version
        (skipped ++ encode site ++ (encode f ++ 0x2F :: (encode cs ++ y))) =
      skipped ++ encode site ++ (encode f ++ 0x2F :: (version ++
        refresh (page site (encode f)) version (afterDigits y))) := by
  have hpage : skipped ++ encode site ++ (encode f ++ 0x2F :: (encode cs ++ y)) =
      skipped ++ (page site (encode f) ++ (encode cs ++ y)) := by simp [page]
  have hread : (kind (page site (encode f))).read?
      (page site (encode f) ++ (encode cs ++ y)) =
        some (⟨encode cs ++ digits y⟩, afterDigits y) := by
    simp [kind, read?, hcs, read?_patch_append ha hb hc]
  have htoken : IsToken cs := hcs ▸ .patch ha hb hc
  rw [hpage, refresh, ReferenceKind.substitute_append_of_skips
    (skips_of_skips_append_site hname hsite htoken hskips),
    ReferenceKind.substitute_of_read?_eq_some hread (by simp [page])]
  simp [refresh, page]

omit hname hsite in
theorem untilSeparator_refresh (text : Bytes) :
    untilSeparator (refresh (page site (encode f)) version text) = untilSeparator text := by
  unfold refresh
  induction text using (kind (page site (encode f))).scan_induction with
  | skip text hskips => rw [ReferenceKind.substitute_of_skips hskips]
  | find skipped tail link rest hskips hne hread _ =>
    obtain ⟨cs, -, -, rfl⟩ := read?_eq_some_iff.mp hread
    rw [ReferenceKind.substitute_append_of_skips hskips,
      ReferenceKind.substitute_of_read?_eq_some hread hne]
    have hslash : isSeparator 0x2F = true := rfl
    have hpage (after : Bytes) : skipped ++ (page site (encode f) ++ after) =
        (skipped ++ (encode site ++ encode f)) ++ 0x2F :: after := by simp [page]
    rw [List.append_assoc, hpage, hpage, untilSeparator_append_cons hslash,
      untilSeparator_append_cons hslash]

theorem site_suffix_iff (hseparator : isSeparator separator = true) (hcs : IsToken cs)
    (front inner : Bytes) :
    encode site <:+ front ++ (encode f ++ separator :: (encode cs ++ inner)) ↔
      encode site <:+ inner :=
  suffix_append_reference_iff hsite.hasScheme hsite.apart (separatorFree_encode_name hname)
    hseparator hcs front inner

end Site

end CatalogLink

end ReleaseDocs
