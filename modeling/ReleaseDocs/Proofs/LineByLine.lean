import ReleaseDocs.Proofs.PinPlaces
import ReleaseDocs.Proofs.Stops

namespace ReleaseDocs

open VersionToken TagReference CatalogLink PackageReference

namespace RefreshRules

/-- A function with a name, and addresses without white space. -/
structure Wordwise (rules : RefreshRules) (f site : List Char) : Prop where
  name : isName f = true
  function : rules.function = encode f
  page : rules.page = encode (site ++ (f ++ ['/']))
  plain : ∀ c ∈ site, isBlank c = false
  examples : PackageReference.IsPlain rules.exampleDirectory rules.exampleNames

theorem apply_nil (rules : RefreshRules) : rules.apply [] = [] := by
  simp only [apply, refreshTags, refreshLinks, pinPackages, TagReference.refresh,
    CatalogLink.refresh, PackageReference.refresh, ReferenceKind.substitute_nil]

section Wordwise

variable {rules : RefreshRules} {f site : List Char} (h : rules.Wordwise f site)
  {c : Char} (hc : isBlank c = true)
include h hc

theorem refreshVersions_append_blank (front rest : Bytes) :
    rules.refreshVersions (front ++ (String.utf8EncodeChar c ++ rest)) =
      rules.refreshVersions front ++ (String.utf8EncodeChar c ++ rules.refreshVersions rest) := by
  have hstop : IsStop c := Or.inl hc
  have hnot : c ∉ site ++ (f ++ ['/']) := by
    have hsite : c ∉ site := fun hmem => by simp [h.plain c hmem] at hc
    have hslash : c ≠ '/' := hstop.ne_of_not (by decide) (by decide)
    simp [hsite, hstop.not_mem_name h.name, hslash]
  unfold refreshVersions refreshTags refreshLinks TagReference.refresh CatalogLink.refresh
  rw [h.function, (TagReference.cuts_stop h.name hstop rest).substitute_append, h.page,
    (CatalogLink.cuts_stop hstop hnot (by simp) _).substitute_append]

theorem pinPackages_append_blank (front rest : Bytes) :
    rules.pinPackages (front ++ (String.utf8EncodeChar c ++ rest)) =
      rules.pinPackages front ++ (String.utf8EncodeChar c ++ rules.pinPackages rest) := by
  -- a pin depends on its word alone, so the words in front of the white space are taken one by one
  induction front using word_induction with
  | last word hword =>
    rw [pinPackages_word_append_blank h.examples hword hc, pinPackages_word h.examples hword]
  | append word d front hword hd ih =>
    rw [List.append_assoc, List.append_assoc, pinPackages_word_append_blank h.examples hword hd,
      ih, pinPackages_word_append_blank h.examples hword hd]
    simp

theorem apply_append_blank (front rest : Bytes) :
    rules.apply (front ++ (String.utf8EncodeChar c ++ rest)) =
      rules.apply front ++ (String.utf8EncodeChar c ++ rules.apply rest) := by
  calc rules.apply (front ++ (String.utf8EncodeChar c ++ rest))
      = rules.pinPackages
          (rules.refreshVersions (front ++ (String.utf8EncodeChar c ++ rest))) := rfl
    _ = rules.pinPackages (rules.refreshVersions front ++
          (String.utf8EncodeChar c ++ rules.refreshVersions rest)) := by
        rw [refreshVersions_append_blank h hc]
    _ = rules.apply front ++ (String.utf8EncodeChar c ++ rules.apply rest) :=
        pinPackages_append_blank h hc _ _

omit hc in
theorem apply_append_cons_newline (front rest : Bytes) :
    rules.apply (front ++ 0x0A :: rest) = rules.apply front ++ 0x0A :: rules.apply rest :=
  apply_append_blank (c := '\n') h (by decide) front rest

omit hc in
theorem apply_intercalate (lines : List Bytes) :
    rules.apply ([0x0A].intercalate lines) = [0x0A].intercalate (lines.map rules.apply) := by
  induction lines with
  | nil => exact apply_nil rules
  | cons line lines ih =>
    cases lines with
    | nil => simp
    | cons next lines =>
      rw [List.map_cons, List.map_cons, List.intercalate_cons_cons, List.intercalate_cons_cons,
        ← List.map_cons, ← ih, List.append_assoc, List.append_assoc]
      exact apply_append_cons_newline h line _

end Wordwise

variable {release : Release} {catalog : CatalogConfig}

theorem wordwise_ofRelease (hname : isName release.function.toList = true)
    (hnames : ∀ name ∈ release.exampleNames, ∀ c ∈ name.toList, isBlank c = false)
    (hurl : ∀ c ∈ (trimSlashes catalog.url).toList, isBlank c = false)
    (hrepository : ∀ c ∈ (trimSlashes catalog.packageRepository).toList, isBlank c = false) :
    (ofRelease release catalog).Wordwise release.function.toList catalog.site where
  name := hname
  function := rfl
  page := by simp [ofRelease, utf8Bytes, CatalogConfig.site, encode]
  plain := List.forall_mem_append.mpr ⟨hurl, List.forall_mem_singleton.mpr (by decide)⟩
  examples := isPlain_ofRelease hrepository hnames

/-- A document is rewritten line by line: what becomes of a line does not depend on the others, nor
on whether a line ends the document. -/
theorem apply_append_newline (hname : isName release.function.toList = true)
    (hnames : ∀ name ∈ release.exampleNames, ∀ c ∈ name.toList, isBlank c = false)
    (hurl : ∀ c ∈ catalog.url.toList, isBlank c = false)
    (hrepository : ∀ c ∈ catalog.packageRepository.toList, isBlank c = false) :
    (∀ front rest, (ofRelease release catalog).apply (front ++ 0x0A :: rest) =
        (ofRelease release catalog).apply front ++ 0x0A :: (ofRelease release catalog).apply rest) ∧
      ∀ lines : List Bytes, (ofRelease release catalog).apply ([0x0A].intercalate lines) =
        [0x0A].intercalate (lines.map (ofRelease release catalog).apply) := by
  have hwordwise := wordwise_ofRelease hname hnames
    (fun c hc => hurl c (mem_of_mem_trimSlashes hc))
    (fun c hc => hrepository c (mem_of_mem_trimSlashes hc))
  exact ⟨apply_append_cons_newline hwordwise, apply_intercalate hwordwise⟩

theorem apply_append_newline_reference :
    (ofRelease ⟨"fn", ⟨1, 0⟩, "go", ⟨1, 0, 3⟩, ⟨""⟩, false, [⟨"fn-a", ⟨""⟩⟩]⟩
        { packageRepository := "k.io/" }).apply
          (utf8Bytes "k.io/examples/fn-a" ++ 0x0A :: utf8Bytes "  fn:v1.0") =
      utf8Bytes "k.io/examples/fn-a@fn/v1.0.3" ++ 0x0A :: utf8Bytes "  fn:v1.0.3" := by
  rw [(apply_append_newline (by decide +kernel) ?_ (isBlank_eq_false_of_any (by decide +kernel))
    (isBlank_eq_false_of_any (by decide +kernel))).1]
  · decide +kernel
  · intro name hname
    obtain rfl : name = "fn-a" := by simpa [Release.exampleNames] using hname
    exact isBlank_eq_false_of_any (by decide +kernel)

end RefreshRules

end ReleaseDocs
