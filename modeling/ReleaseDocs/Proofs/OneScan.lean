import Mathlib.Data.List.Infix
import ReleaseDocs.Proofs.Overwrite
import ReleaseDocs.Proofs.ReadBack
import ReleaseDocs.Proofs.TagCut

/-!
The first two rules as one scan.

The rule for links writes over what the rule for tags has just written. `substituteAt` is a
substitution that is told what stands in front of each reference; with the version chosen by that,
it does the work of both rules (`refreshLinks_refreshTags_eq_substituteAt`).
-/

namespace ReleaseDocs

open VersionToken TagReference CatalogLink

namespace ReferenceKind

variable {α : Type} {kind : ReferenceKind α} {write : Bytes → α → Bytes}

/-- The pieces with every reference written anew, where `before` and the pieces in front of a
reference are what precedes it in the document. -/
def writePieces (kind : ReferenceKind α) (write : Bytes → α → Bytes) :
    Bytes → List (Piece α) → Bytes
  | _, [] => []
  | before, .plain byte :: more => byte :: kind.writePieces write (before ++ [byte]) more
  | before, .found reference :: more =>
      write before reference ++
        kind.writePieces write (before ++ kind.source reference) more

/-- The document with every reference written by `write`, which is given the bytes of the document
in front of the reference, and all other bytes as they were. -/
def substituteAt (kind : ReferenceKind α) (write : Bytes → α → Bytes) (text : Bytes) : Bytes :=
  kind.writePieces write [] (kind.pieces text)

theorem writePieces_plain_append (bytes before : Bytes) (more : List (Piece α)) :
    kind.writePieces write before (bytes.map Piece.plain ++ more) =
      bytes ++ kind.writePieces write (before ++ bytes) more := by
  induction bytes generalizing before with
  | nil => simp
  | cons byte bytes ih => simp [writePieces, ih]

theorem writePieces_append {front : Bytes}
    (hwrite : ∀ inner reference, write (front ++ inner) reference = write inner reference)
    (before : Bytes) (pieces : List (Piece α)) :
    kind.writePieces write (front ++ before) pieces = kind.writePieces write before pieces := by
  induction pieces generalizing before with
  | nil => rfl
  | cons piece pieces ih =>
    cases piece with
    | plain byte => rw [writePieces, writePieces, List.append_assoc, ih]
    | found reference => rw [writePieces, writePieces, List.append_assoc, ih, hwrite]

theorem substituteAt_of_skips {text : Bytes} (h : kind.Skips text []) :
    kind.substituteAt write text = text := by
  have hall := pieces_append_of_skips h
  rw [List.append_nil, pieces_nil] at hall
  rw [substituteAt, hall, writePieces_plain_append, writePieces, List.append_nil]

/-- Where the choice of `write` does not reach back over the first reference, what follows it is
written as a document of its own. -/
theorem substituteAt_append {skipped tail rest : Bytes} {reference : α}
    (hskips : kind.Skips skipped tail) (hread : kind.read? tail = some (reference, rest))
    (hne : tail ≠ [])
    (hwrite : ∀ inner other,
      write (skipped ++ (kind.source reference ++ inner)) other = write inner other) :
    kind.substituteAt write (skipped ++ tail) =
      skipped ++ (write skipped reference ++ kind.substituteAt write rest) := by
  have hbehind : ∀ inner other,
      write ((skipped ++ kind.source reference) ++ inner) other = write inner other := by
    intro inner other
    rw [List.append_assoc, hwrite]
  have hrest : kind.writePieces write ((skipped ++ kind.source reference) ++ [])
      (kind.pieces rest) = kind.substituteAt write rest := writePieces_append hbehind [] _
  rw [List.append_nil] at hrest
  rw [substituteAt, pieces_append_of_skips hskips, writePieces_plain_append, List.nil_append,
    pieces_of_read?_eq_some hread hne, writePieces, hrest]

end ReferenceKind

namespace RefreshRules

section OnSite

variable {rules : RefreshRules} {f site : List Char} (h : rules.OnSite f site)
include h

/-- The first two rules are one scan that writes to each reference the version that it should
name. -/
theorem refreshVersions_eq_substituteAt {text : Bytes}
    (htext : UnstableAlone rules.function text) :
    rules.refreshVersions text = (TagReference.kind rules.function).substituteAt
      (fun before reference =>
        rules.function ++ reference.separator :: rules.target before reference) text := by
  induction text using TagReference.tag_induction rules.function with
  | skip text hskips =>
    rw [refreshVersions_of_skips h hskips, ReferenceKind.substituteAt_of_skips hskips]
  | find skipped separator cs rest hseparator hreads hskips ih =>
    obtain ⟨hnumber, hrest⟩ := (unstableAlone_append_iff hseparator hreads hskips).mp htext
    have hread : (TagReference.kind rules.function).read?
        (rules.function ++ separator :: (encode cs ++ rest)) =
          some (⟨separator, encode cs⟩, rest) :=
      TagReference.read?_reference hseparator hreads
    rw [refreshVersions_append_of_number? h hseparator hreads hskips hnumber, ih hrest,
      ReferenceKind.substituteAt_append hskips hread (by simp)]
    · simp
    · intro inner other
      simp only [target, TagReference.kind, List.append_assoc, List.cons_append,
        inLink_append h hseparator hreads.isToken]

end OnSite

variable {release : Release} {catalog : CatalogConfig}

theorem encode_site : encode catalog.site = utf8Bytes (trimSlashes catalog.url ++ "/") := by
  simp [CatalogConfig.site, utf8Bytes, encode]

/-- The rules for tags and for links, one after the other, write the minor version behind the
address of the catalog and the patch version everywhere else, as one scan would. -/
theorem refreshLinks_refreshTags_eq_substituteAt (hname : isName release.function.toList = true)
    (hscheme : "http://".toList <+: (trimSlashes catalog.url).toList ∨
      "https://".toList <+: (trimSlashes catalog.url).toList)
    (hend : ¬ release.function.toList <:+ (trimSlashes catalog.url).toList)
    (hapart : IsGap (utf8Bytes release.function) (utf8Bytes (trimSlashes catalog.url)) [])
    {text : Bytes} (htext : UnstableAlone (utf8Bytes release.function) text) :
    (ofRelease release catalog).refreshLinks ((ofRelease release catalog).refreshTags text) =
      (TagReference.kind (utf8Bytes release.function)).substituteAt
        (fun before reference => utf8Bytes release.function ++ reference.separator ::
          if reference.separator = 0x2F ∧ utf8Bytes (trimSlashes catalog.url ++ "/") <:+ before then
            utf8Bytes release.minor.text
          else utf8Bytes release.patch.text) text := by
  have hsite := isSite_of_scheme hname hscheme (isGap_iff_skips.mp hapart) hend
  have h : (ofRelease release catalog).OnSite release.function.toList catalog.site :=
    onSite_ofRelease hname hsite
  have htarget (before : Bytes) (reference : TagReference) :
      (ofRelease release catalog).target before reference =
        if reference.separator = 0x2F ∧ utf8Bytes (trimSlashes catalog.url ++ "/") <:+ before then
          utf8Bytes release.minor.text
        else utf8Bytes release.patch.text := by
    refine if_congr ?_ rfl rfl
    rw [inLink_iff h, encode_site]
  have hversions := refreshVersions_eq_substituteAt h htext
  simp only [htarget] at hversions
  exact hversions

theorem refreshLinks_refreshTags_link_and_reference :
    (ofRelease ⟨"apply-setters", ⟨1, 0⟩, "go", ⟨1, 0, 3⟩, ⟨""⟩, false, []⟩ {}).refreshLinks
        ((ofRelease ⟨"apply-setters", ⟨1, 0⟩, "go", ⟨1, 0, 3⟩, ⟨""⟩, false, []⟩ {}).refreshTags
          (utf8Bytes "https://catalog.kpt.dev/apply-setters/v0.1.7 apply-setters/unstable")) =
      utf8Bytes "https://catalog.kpt.dev/apply-setters/v1.0 apply-setters/v1.0.3" := by
  have hapart : IsGap (utf8Bytes "apply-setters")
      (utf8Bytes (trimSlashes ({} : CatalogConfig).url)) [] :=
    isGap_iff_skips.mpr (TagReference.skips_of_not_infix (by decide +kernel) (by decide +kernel))
  have hlast : ∀ back ∈ (utf8Bytes
      "https://catalog.kpt.dev/apply-setters/v0.1.7 apply-setters/unstable").tails,
      VersionToken.unstable <+: back → back = VersionToken.unstable := by
    decide +kernel
  have htext : UnstableAlone (utf8Bytes "apply-setters") (utf8Bytes
      "https://catalog.kpt.dev/apply-setters/v0.1.7 apply-setters/unstable") := by
    refine unstableAlone_of_forall_suffix fun after hback => ?_
    have hafter : after = [] := List.append_right_eq_self.mp
      (hlast _ ((List.mem_tails _ _).mpr hback) (List.prefix_append _ _))
    rw [hafter]
    exact not_startsWith_nil _
  rw [@refreshLinks_refreshTags_eq_substituteAt
    ⟨"apply-setters", ⟨1, 0⟩, "go", ⟨1, 0, 3⟩, ⟨""⟩, false, []⟩ {} (by decide +kernel)
    (Or.inr (by decide +kernel)) (by decide +kernel) hapart _ htext]
  decide +kernel

end RefreshRules

end ReleaseDocs
