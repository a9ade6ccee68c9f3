import ReleaseDocs.Proofs.UpToDate
import ReleaseDocs.Proofs.Versions

namespace ReleaseDocs

open VersionToken TagReference CatalogLink

theorem isBlank_eq_false_of_any {cs : List Char} (h : cs.any isBlank = false) :
    ∀ c ∈ cs, isBlank c = false := by
  simpa using h

theorem mem_of_mem_trimSlashes {text : String} {c : Char} (h : c ∈ (trimSlashes text).toList) :
    c ∈ text.toList := by
  rw [trimSlashes, String.toList_ofList, List.mem_reverse] at h
  exact List.mem_reverse.mp ((List.dropWhile_suffix _).mem h)

/-- The text starts with `http://` or `https://` and holds no white space. -/
structure IsWebAddress (text : String) : Prop where
  scheme : "http://".toList <+: text.toList ∨ "https://".toList <+: text.toList
  plain : ∀ c ∈ text.toList, isBlank c = false

theorem exists_scheme_of_prefix {text : List Char}
    (h : "http://".toList <+: text ∨ "https://".toList <+: text) :
    ∃ scheme rest, text = 'h' :: (scheme ++ ':' :: '/' :: rest) ∧ ':' ∉ scheme ∧
      '/' ∉ scheme := by
  rcases h with ⟨rest, hrest⟩ | ⟨rest, hrest⟩
  · exact ⟨"ttp".toList, '/' :: rest, hrest.symm, by decide, by decide⟩
  · exact ⟨"ttps".toList, '/' :: rest, hrest.symm, by decide, by decide⟩

theorem IsWebAddress.exists_scheme {text : String} (h : IsWebAddress text) :
    ∃ scheme rest, text.toList = 'h' :: (scheme ++ ':' :: '/' :: rest) ∧ ':' ∉ scheme ∧
      '/' ∉ scheme :=
  exists_scheme_of_prefix h.scheme

namespace CatalogConfig

def site (catalog : CatalogConfig) : List Char :=
  (trimSlashes catalog.url).toList ++ ['/']

def exampleSite (catalog : CatalogConfig) (area : Area) : List Char :=
  (trimSlashes catalog.packageRepository).toList ++ '/' :: (area.examplesSubpath.toList ++ ['/'])

theorem exists_scheme_exampleSite {catalog : CatalogConfig}
    (h : IsWebAddress (trimSlashes catalog.packageRepository)) (area : Area) :
    ∃ scheme rest, catalog.exampleSite area = 'h' :: (scheme ++ ':' :: '/' :: rest) ∧
      ':' ∉ scheme ∧ '/' ∉ scheme := by
  obtain ⟨scheme, rest, hscheme, hcolon, hslash⟩ := h.exists_scheme
  exact ⟨scheme, rest ++ '/' :: (area.examplesSubpath.toList ++ ['/']), by
    simp [exampleSite, hscheme], hcolon, hslash⟩

theorem isBlank_exampleSite {catalog : CatalogConfig}
    (h : ∀ c ∈ (trimSlashes catalog.packageRepository).toList, isBlank c = false) (area : Area) :
    ∀ c ∈ catalog.exampleSite area, isBlank c = false := by
  have harea : ∀ c ∈ '/' :: (area.examplesSubpath.toList ++ ['/']), isBlank c = false := by
    cases area <;> exact isBlank_eq_false_of_any (by decide)
  exact List.forall_mem_append.mpr ⟨h, harea⟩

end CatalogConfig

namespace TagReference

theorem skips_of_not_infix {function text : Bytes} (hcolon : ¬ function ++ [0x3A] <:+: text)
    (hslash : ¬ function ++ [0x2F] <:+: text) : (kind function).Skips text [] := by
  rintro front - ⟨before, rfl⟩
  rw [List.append_nil]
  by_contra hread
  obtain ⟨separator, cs, after, hseparator, -, rfl⟩ := read?_ne_none_iff.mp hread
  have hinfix : function ++ [separator] <:+: before ++ (function ++ separator ::
      (encode cs ++ after)) := ⟨before, encode cs ++ after, by simp⟩
  rcases Bool.or_eq_true_iff.mp hseparator with heq | heq
  · exact hcolon (beq_iff_eq.mp heq ▸ hinfix)
  · exact hslash (beq_iff_eq.mp heq ▸ hinfix)

variable {f : List Char} (hname : isName f = true)
include hname

theorem skips_char {d : Char} (hd : isNameChar d = false) (rest : Bytes) :
    (kind (encode f)).Skips (String.utf8EncodeChar d) rest := by
  obtain ⟨hne, hall⟩ := isName_iff.mp hname
  obtain ⟨c, f, rfl⟩ := List.exists_cons_of_ne_nil hne
  refine ReferenceKind.skips_utf8EncodeChar (c := c) ?_ (fun text hread => ?_) rest
  · rintro rfl
    simp [hall c (by simp)] at hd
  · obtain ⟨separator, cs, after, -, -, rfl⟩ := read?_ne_none_iff.mp hread
    exact ⟨_, by rw [encode_cons, List.append_assoc]⟩

theorem skips_append_slash {address : List Char}
    (hapart : (kind (encode f)).Skips (encode address) []) (hend : ¬ f <:+ address) (rest : Bytes) :
    (kind (encode f)).Skips (encode (address ++ ['/'])) rest := by
  rw [encode_append, ReferenceKind.skips_append_iff]
  refine ⟨fun front hne hfront => ?_, skips_char (d := '/') hname (by decide) rest⟩
  have hcode (tail : Bytes) : encode ['/'] ++ tail = 0x2F :: tail := rfl
  rw [hcode]
  by_contra hread
  obtain ⟨separator, cs, after, hseparator, htoken, htext⟩ := read?_ne_none_iff.mp hread
  have hwhole : front ++ 0x2F :: rest = (encode f ++ separator :: encode cs) ++ after := by
    simpa using htext
  have hinside (inner : Bytes) (heq : front = (encode f ++ separator :: encode cs) ++ inner) :
      False := by
    refine absurd (hapart front hne hfront) (read?_ne_none_iff.mpr ⟨separator, cs, inner,
      hseparator, htoken, ?_⟩)
    simp [heq]
  rcases List.append_eq_append_iff.mp hwhole with ⟨inner, hreference, htail⟩ | ⟨inner, heq, -⟩
  · cases inner with
    | nil => exact hinside [] (by simpa using hreference.symm)
    | cons byte inner =>
      obtain ⟨rfl, -⟩ := List.cons.inj htail
      have hfree (bytes : Bytes) (hbytes : SeparatorFree bytes) : 0x2F ∉ bytes := fun hmem =>
        absurd (hbytes 0x2F hmem) (by decide)
      obtain ⟨rfl, -⟩ := (List.append_cons_inj_of_notMem
        (hfree _ (separatorFree_encode_name hname))
        (hfree _ (separatorFree_encode_token htoken))).mp hreference
      exact hend (encode_suffix_encode_iff.mp hfront)
  · exact hinside inner heq

theorem isSite_of_scheme {address : List Char}
    (hscheme : "http://".toList <+: address ∨ "https://".toList <+: address)
    (hapart : (kind (encode f)).Skips (encode address) []) (hend : ¬ f <:+ address) :
    IsSite (encode f) (address ++ ['/']) where
  scheme := by
    obtain ⟨scheme, rest, haddress, hcolon, hslash⟩ := exists_scheme_of_prefix hscheme
    exact ⟨scheme, rest ++ ['/'], by simp [haddress], hcolon, hslash⟩
  apart := skips_append_slash hname hapart hend _

theorem isSite_of_isWebAddress {address : String} (haddress : IsWebAddress address)
    (hapart : (kind (encode f)).Skips (encode address.toList) [])
    (hend : ¬ f <:+ address.toList) : IsSite (encode f) (address.toList ++ ['/']) :=
  isSite_of_scheme hname haddress.scheme hapart hend

end TagReference

theorem isNumber_digits (n : UInt64) : IsNumber (Decimal.digits n) :=
  ⟨Decimal.digits_ne_nil n,
    fun _ hc => isDecimalDigit_of_isDigit (Decimal.isDigit_of_mem_digits hc)⟩

namespace RefreshRules

variable {release : Release} {catalog : CatalogConfig}

theorem exampleDirectory_ofRelease : (ofRelease release catalog).exampleDirectory =
    encode (catalog.exampleSite release.area) := by
  simp [ofRelease, utf8Bytes, encode, CatalogConfig.exampleSite]

theorem exampleDirectory_append (name : String) :
    (ofRelease release catalog).exampleDirectory ++ utf8Bytes name =
      encode (catalog.exampleSite release.area ++ name.toList) := by
  rw [exampleDirectory_ofRelease, encode_append]
  rfl

theorem slash_not_mem_exampleNames
    (hnames : ∀ name ∈ release.exampleNames, '/' ∉ name.toList) :
    ∀ name ∈ (ofRelease release catalog).exampleNames, 0x2F ∉ name := by
  intro bytes hbytes
  obtain ⟨name, hname, rfl⟩ := List.mem_map.mp hbytes
  exact not_mem_encode (c := '/') rfl (hnames name hname)

theorem onSite_ofRelease (hname : isName release.function.toList = true)
    (hsite : IsSite (encode release.function.toList) catalog.site) :
    (ofRelease release catalog).OnSite release.function.toList catalog.site where
  name := hname
  function := rfl
  isSite := hsite
  page := by
    simp [ofRelease, utf8Bytes, CatalogLink.page, CatalogConfig.site, encode]
    rfl
  patch := ⟨_, _, _, isNumber_digits release.patch.major, isNumber_digits release.patch.minor,
    isNumber_digits release.patch.patch, by simp [ofRelease, utf8Bytes, PatchVersion.text, encode,
      PatchVersion.chars]⟩
  minor := ⟨_, _, isNumber_digits release.minor.major, isNumber_digits release.minor.minor,
    by simp [ofRelease, utf8Bytes, MinorVersion.text, encode, MinorVersion.chars]⟩
  pin := by simp [ofRelease, utf8Bytes]; rfl

end RefreshRules

end ReleaseDocs
