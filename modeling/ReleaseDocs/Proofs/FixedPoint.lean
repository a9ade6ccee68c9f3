import Mathlib.Data.List.Infix
import ReleaseDocs.Proofs.CatalogRules
import ReleaseDocs.Proofs.Pinned

namespace ReleaseDocs

open VersionToken TagReference CatalogLink

def catalogSite : List Char :=
  "https://catalog.kpt.dev/".toList

def catalogExamples (area : Area) : List Char :=
  "https://github.com/GoogleContainerTools/kpt-functions-catalog.git/".toList ++
    (area.examplesSubpath.toList ++ ['/'])

namespace CatalogLink

/-- The first two bytes may be those of a version token. -/
def startsLikeToken : Bytes → Bool
  | first :: second :: _ => (first == 0x75 || first == 0x76) && !isSeparator second
  | _ => false

theorem startsLikeToken_of_isToken {cs : List Char} (h : IsToken cs) (rest : Bytes) :
    startsLikeToken (encode cs ++ rest) = true := by
  have hfree := separatorFree_encode_token h
  have hnumbered (tail : List Char) (htail : tail ≠ []) (hcs : cs = 'v' :: tail) :
      startsLikeToken (encode cs ++ rest) = true := by
    obtain ⟨second, more, hmore⟩ :=
      List.exists_cons_of_ne_nil (encode_eq_nil_iff.not.mpr htail)
    have hcode : encode cs = 0x76 :: second :: more := by rw [hcs, encode_cons, hmore]; rfl
    simp [hcode, startsLikeToken, hfree second (by simp [hcode])]
  cases h with
  | unstable => rfl
  | minor ha hb => exact hnumbered _ (by simp) rfl
  | patch ha hb hc => exact hnumbered _ (by simp) rfl

/-- What stands behind the separators of the address, and behind the name of a function that ends
the address, does not start like a version. -/
theorem startsLikeToken_catalogSite : ∀ front ∈ (encode catalogSite).tails, front ≠ [] →
    front.getLast? = some 0x2F ∧
      startsLikeToken (front.drop ((untilSeparator front).length + 1) ++
        (untilSeparator front ++ [0x2F])) = false := by
  decide +kernel

theorem skips_catalogSite {f : List Char} (hname : isName f = true) :
    (TagReference.kind (encode f)).Skips (encode catalogSite) (encode f ++ [0x2F]) := by
  intro front hne hfront
  by_contra hread
  obtain ⟨separator, cs, after, hseparator, htoken, htext⟩ :=
    TagReference.read?_ne_none_iff.mp hread
  obtain ⟨hlast, hstarts⟩ :=
    startsLikeToken_catalogSite front ((List.mem_tails _ _).mpr hfront) hne
  have hslash : 0x2F ∈ front := List.mem_of_getLast? hlast
  have hfree := separatorFree_encode_name hname
  rcases List.append_eq_append_iff.mp htext with ⟨inner, hinner, -⟩ | ⟨inner, rfl, hinner⟩
  · exact absurd (hfree 0x2F (by simp [hinner, hslash])) (by decide)
  · cases inner with
    | nil => exact absurd (hfree 0x2F (by simpa using hslash)) (by decide)
    | cons byte inner =>
      obtain ⟨rfl, hrest⟩ := List.cons.inj hinner
      have hdrop : (encode f ++ separator :: inner).drop ((encode f).length + 1) = inner := by simp
      rw [untilSeparator_append_cons hseparator, untilSeparator_of_separatorFree hfree, hdrop]
        at hstarts
      have hstarts' := startsLikeToken_of_isToken htoken after
      rw [hrest] at hstarts'
      exact absurd (hstarts'.symm.trans hstarts) (by decide)

theorem isSite_catalogSite {f : List Char} (hname : isName f = true) :
    IsSite (encode f) catalogSite where
  scheme := ⟨"ttps".toList, "/catalog.kpt.dev/".toList, rfl, by decide, by decide⟩
  apart := skips_catalogSite hname

theorem plain_catalogSite :
    ∀ c ∈ catalogSite, c ≠ '@' ∧ isBlank c = false ∧ isDecimalDigit c = false := by
  have hall : (catalogSite.all fun c => c != '@' && !isBlank c && !isDecimalDigit c) = true := by
    decide
  intro c hmem
  have hplain := List.all_eq_true.mp hall c hmem
  simpa [and_assoc] using hplain

end CatalogLink

namespace PackageReference

theorem isDirectory_catalogExamples (area : Area) :
    IsDirectory (encode (catalogExamples area)) := by
  have hall : ∀ front ∈ (encode (catalogExamples area)).tails, front ≠ [] →
      front <+: encode (catalogExamples area) → front = encode (catalogExamples area) := by
    cases area <;> decide +kernel
  refine ⟨⟨"ttps".toList, (encode (catalogExamples area)).drop 7, ?_, by decide⟩,
    ⟨(encode (catalogExamples area)).dropLast, ?_⟩,
    fun front hne hfront => hall front ((List.mem_tails _ _).mpr hfront) hne⟩
  · cases area <;> decide +kernel
  · cases area <;> decide +kernel

end PackageReference

namespace RefreshRules

theorem site_default : ({} : CatalogConfig).site = catalogSite := by
  decide +kernel

theorem exampleSite_default (area : Area) :
    ({} : CatalogConfig).exampleSite area = catalogExamples area := by
  cases area <;> decide +kernel

theorem regular_ofRelease {release : Release} (hname : isName release.function.toList = true) :
    (ofRelease release {}).Regular release.function.toList catalogSite where
  toOnSite := by
    rw [← site_default]
    exact onSite_ofRelease hname (site_default ▸ isSite_catalogSite hname)
  plain := plain_catalogSite
  directory := by
    rw [exampleDirectory_ofRelease, exampleSite_default]
    exact PackageReference.isDirectory_catalogExamples release.area

/-- When the rules of a release leave a document as it is, and when a second run leaves what the
first one wrote: exactly if the versions that the first run wrote are read back as they were
written and no reference is read again behind its pin. Unless the function name starts with a digit,
the former depends on what stands behind the references of the document alone. -/
theorem apply_apply_eq_iff {release : Release} (hname : isName release.function.toList = true)
    (hnames : ∀ name ∈ release.exampleNames, '/' ∉ name.toList) (text : Bytes) :
    ((ofRelease release {}).apply text = text ↔ (ofRelease release {}).UpToDate text) ∧
    ((ofRelease release {}).apply ((ofRelease release {}).apply text) =
        (ofRelease release {}).apply text ↔
      (ofRelease release {}).NamesTargets ((ofRelease release {}).refreshVersions text) ∧
        (ofRelease release {}).PinsOnce ((ofRelease release {}).refreshVersions text)) ∧
    ((∀ c ∈ release.function.toList.head?, isDecimalDigit c = false) →
      ((ofRelease release {}).apply ((ofRelease release {}).apply text) =
          (ofRelease release {}).apply text ↔
        (ofRelease release {}).Settled text ∧
          (ofRelease release {}).PinsOnce ((ofRelease release {}).refreshVersions text))) := by
  have h := regular_ofRelease hname
  have hsecond := (apply_eq_self_iff h.toOnSite ((ofRelease release {}).apply text)).trans
    (upToDate_apply_iff h (slash_not_mem_exampleNames hnames) text)
  refine ⟨apply_eq_self_iff h.toOnSite text, hsecond, fun hfirst => ?_⟩
  rw [hsecond, namesTargets_refreshVersions_iff h hfirst]

/-- A digit behind `unstable` ends up behind the patch version, where the second run takes it for a
part of that one. -/
theorem apply_apply_ne_of_digit :
    (ofRelease ⟨"apply-setters", ⟨1, 0⟩, "go", ⟨1, 0, 3⟩, ⟨""⟩, false, []⟩ {}).apply
        ((ofRelease ⟨"apply-setters", ⟨1, 0⟩, "go", ⟨1, 0, 3⟩, ⟨""⟩, false, []⟩ {}).apply
          (utf8Bytes "apply-setters:unstable5")) ≠
      (ofRelease ⟨"apply-setters", ⟨1, 0⟩, "go", ⟨1, 0, 3⟩, ⟨""⟩, false, []⟩ {}).apply
        (utf8Bytes "apply-setters:unstable5") := by
  intro hfixed
  have hfirst : ∀ c ∈ "apply-setters".toList.head?, isDecimalDigit c = false := by
    intro c hc
    obtain rfl := Option.some.inj hc
    decide
  have hsettled := (((apply_apply_eq_iff (by decide +kernel) (by simp [Release.exampleNames])
    (utf8Bytes "apply-setters:unstable5")).2.2 hfirst).mp hfixed).1
  have hfinds : (TagReference.kind (encode "apply-setters".toList)).Finds
      (utf8Bytes "apply-setters:unstable5") [] ⟨0x3A, encode "unstable".toList⟩ (encode ['5']) :=
    (TagReference.finds_append_iff rfl .unstable (ReferenceKind.skips_nil _ _)).mpr
      (Or.inl ⟨rfl, rfl, rfl⟩)
  have hnone := hsettled _ _ _ hfinds
  rw [if_neg (by decide +kernel), number?_eq_none_iff_not_startsWith] at hnone
  exact hnone ⟨'5', [], by decide, rfl⟩

end RefreshRules

end ReleaseDocs
