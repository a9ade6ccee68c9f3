import ReleaseDocs.Proofs.TagScan
import ReleaseDocs.Reference.Rules

/-!
A document taken apart at its tag references and put together again.

`TagCut.IsLeftmost` says without the scan which bytes are references: from the left, each one where
the first can start, with the longest token. A document has one such cut, and the rule for tags
writes the patch version in place of its tokens (`existsUnique_isLeftmost`).
-/

namespace ReleaseDocs

open VersionToken

theorem encode_prefix_encode_iff {cs ds : List Char} : encode cs <+: encode ds ↔ cs <+: ds := by
  constructor
  · intro h
    induction cs generalizing ds with
    | nil => exact List.nil_prefix
    | cons c cs ih =>
        obtain ⟨rest, hrest⟩ := h
        cases ds with
        | nil => simp [encode_cons] at hrest
        | cons d ds =>
          rw [encode_cons, encode_cons, List.append_assoc] at hrest
          obtain ⟨rfl, htail⟩ := utf8EncodeChar_append_inj hrest
          exact List.cons_prefix_cons.mpr ⟨rfl, ih ⟨rest, htail⟩⟩
  · rintro ⟨rest, rfl⟩
    exact ⟨encode rest, (encode_append _ _).symm⟩

namespace VersionToken

/-- A token in front of the text that could not be longer: neither are there more digits, nor is
there a third number behind the second one. -/
structure IsLongest (cs : List Char) (rest : Bytes) : Prop where
  isToken : IsToken cs
  longest : ∀ ds, IsToken ds → encode ds <+: encode cs ++ rest → ds <+: cs

theorem IsToken.exists_read? {cs : List Char} (h : IsToken cs) (rest : Bytes) :
    ∃ more after, read? (encode cs ++ rest) = some (encode cs ++ more, after) := by
  cases h with
  | unstable =>
    refine ⟨[], rest, ?_⟩
    rw [List.append_nil]
    exact read?_eq_some_iff.mpr ⟨_, .unstable, rfl, rfl⟩
  | minor ha hb =>
    rw [read?_minor_append ha hb]
    split
    · exact ⟨_, _, by rw [List.append_assoc]⟩
    · exact ⟨_, _, rfl⟩
  | patch ha hb hc => exact ⟨_, _, read?_patch_append ha hb hc rest⟩

theorem Reads.isLongest {cs : List Char} {rest : Bytes} (h : Reads cs rest) :
    IsLongest cs rest where
  isToken := h.isToken
  longest := by
    rintro ds hds ⟨after, hafter⟩
    obtain ⟨more, last, hread⟩ := hds.exists_read? after
    rw [hafter, read?_eq_some_iff.mpr ⟨cs, h, rfl, rfl⟩] at hread
    have htoken : encode cs = encode ds ++ more := (Prod.mk.inj (Option.some.inj hread)).1
    exact encode_prefix_encode_iff.mp ⟨more, htoken.symm⟩

/-- Numbers are read to their last digit and a third one wherever it fits, so the longest token is
the one that is read. -/
theorem isLongest_iff_reads {cs : List Char} {rest : Bytes} :
    IsLongest cs rest ↔ Reads cs rest := by
  refine ⟨fun h => ?_, Reads.isLongest⟩
  obtain ⟨⟨token, after⟩, hread⟩ := Option.ne_none_iff_exists'.mp
    (read?_ne_none_iff.mpr ⟨cs, h.isToken, List.prefix_append _ rest⟩)
  obtain ⟨ds, hreads, -, htext⟩ := read?_eq_some_iff.mp hread
  have hds : ds <+: cs := h.longest ds hreads.isToken ⟨after, htext.symm⟩
  have hcs : cs <+: ds := hreads.isLongest.longest cs h.isToken ⟨rest, htext⟩
  obtain rfl := hds.eq_of_length_le hcs.length_le
  obtain rfl := List.append_cancel_left htext
  exact hreads

end VersionToken

namespace TagReference

/-- A reference to the function starts the text, wherever it ends. -/
def Starts (function text : Bytes) : Prop :=
  ∃ separator cs, isSeparator separator = true ∧ IsToken cs ∧
    function ++ separator :: encode cs <+: text

/-- No reference to the function starts in the gap when `rest` follows it. -/
def IsGap (function gap rest : Bytes) : Prop :=
  ∀ back, back ≠ [] → back <:+ gap → ¬ Starts function (back ++ rest)

variable {function : Bytes}

theorem starts_iff {text : Bytes} : Starts function text ↔ read? function text ≠ none := by
  rw [read?_ne_none_iff]
  constructor
  · rintro ⟨separator, cs, hseparator, htoken, rest, rfl⟩
    exact ⟨separator, cs, rest, hseparator, htoken, by simp⟩
  · rintro ⟨separator, cs, rest, hseparator, htoken, rfl⟩
    exact ⟨separator, cs, hseparator, htoken, rest, by simp⟩

theorem starts_reference {separator : UInt8} (hseparator : isSeparator separator = true)
    {cs : List Char} (hcs : IsToken cs) (rest : Bytes) :
    Starts function (function ++ separator :: (encode cs ++ rest)) :=
  ⟨separator, cs, hseparator, hcs, rest, by simp⟩

theorem isGap_iff_skips {gap rest : Bytes} :
    IsGap function gap rest ↔ (kind function).Skips gap rest := by
  refine forall_congr' fun back => imp_congr_right fun _ => imp_congr_right fun _ => ?_
  rw [starts_iff, not_not]
  rfl

theorem IsGap.inj {gap gap' rest rest' : Bytes} (h : IsGap function gap rest)
    (h' : IsGap function gap' rest') (hstarts : Starts function rest)
    (hstarts' : Starts function rest') (heq : gap ++ rest = gap' ++ rest') :
    gap = gap' ∧ rest = rest' := by
  rcases List.append_eq_append_iff.mp heq with ⟨inner, rfl, rfl⟩ | ⟨inner, rfl, rfl⟩
  · by_cases hne : inner = []
    · subst hne
      simp
    · exact absurd hstarts (h' inner hne (List.suffix_append _ _))
  · by_cases hne : inner = []
    · subst hne
      simp
    · exact absurd hstarts' (h inner hne (List.suffix_append _ _))

theorem IsGap.not_starts {gap front rest : Bytes} (h : IsGap function gap [])
    (hgap : gap = front ++ rest) (hne : rest ≠ []) : ¬ Starts function rest := by
  have hrest := h rest hne ⟨front, hgap.symm⟩
  rwa [List.append_nil] at hrest

end TagReference

open TagReference

/-- A document as bytes that belong to no reference and references, turn about. The function name is
the same in all references. -/
inductive TagCut where
  | last (gap : Bytes)
  | reference (gap : Bytes) (separator : UInt8) (token : List Char) (rest : TagCut)
deriving DecidableEq, Repr

namespace TagCut

/-- The parts one after the other, with `version` in place of the tokens. With `encode` in place of
them it is the document that was cut. -/
def write (function : Bytes) (version : List Char → Bytes) : TagCut → Bytes
  | last gap => gap
  | reference gap separator token rest =>
      gap ++ (function ++ separator :: (version token ++ rest.write function version))

/-- Each reference has a colon or a slash and the longest token, and none starts in the bytes in
front of it or in those behind the last one. -/
def IsLeftmost (function : Bytes) : TagCut → Prop
  | last gap => IsGap function gap []
  | reference gap separator token rest =>
      isSeparator separator = true ∧ IsLongest token (rest.write function encode) ∧
        IsGap function gap
          (function ++ separator :: (encode token ++ rest.write function encode)) ∧
        rest.IsLeftmost function

variable {function : Bytes}

theorem exists_isLeftmost (function text : Bytes) :
    ∃ cut : TagCut, cut.write function encode = text ∧ cut.IsLeftmost function := by
  induction text using tag_induction function with
  | skip text hskips => exact ⟨last text, rfl, isGap_iff_skips.mpr hskips⟩
  | find skipped separator cs rest hseparator hreads hskips ih =>
    obtain ⟨cut, rfl, hcut⟩ := ih
    exact ⟨reference skipped separator cs cut, rfl, hseparator, hreads.isLongest,
      isGap_iff_skips.mpr hskips, hcut⟩

theorem IsLeftmost.unique {cut other : TagCut} (h : cut.IsLeftmost function)
    (h' : other.IsLeftmost function)
    (heq : cut.write function encode = other.write function encode) : cut = other := by
  induction cut generalizing other with
  | last gap =>
    cases other with
    | last gap' => exact congrArg last heq
    | reference gap' separator' token' rest' =>
      obtain ⟨hseparator', htoken', -, -⟩ := h'
      exact absurd (starts_reference hseparator' htoken'.isToken _) (h.not_starts heq (by simp))
  | reference gap separator token rest ih =>
    obtain ⟨hseparator, htoken, hgap, hrest⟩ := h
    have hstarts : Starts function
        (function ++ separator :: (encode token ++ rest.write function encode)) :=
      starts_reference hseparator htoken.isToken _
    cases other with
    | last gap' => exact absurd hstarts (h'.not_starts heq.symm (by simp))
    | reference gap' separator' token' rest' =>
      obtain ⟨hseparator', htoken', hgap', hrest'⟩ := h'
      obtain ⟨rfl, hreference⟩ := hgap.inj hgap' hstarts
        (starts_reference hseparator' htoken'.isToken _) heq
      obtain ⟨rfl, hbehind⟩ := List.cons.inj (List.append_cancel_left hreference)
      obtain ⟨rfl, hwritten⟩ :=
        (isLongest_iff_reads.mp htoken).inj (isLongest_iff_reads.mp htoken') hbehind
      rw [ih hrest hrest' hwritten]

theorem IsLeftmost.refresh_write {cut : TagCut} (h : cut.IsLeftmost function) (version : Bytes) :
    refresh function version (cut.write function encode) = cut.write function fun _ => version := by
  induction cut with
  | last gap => exact refresh_of_skips (isGap_iff_skips.mp h)
  | reference gap separator token rest ih =>
    obtain ⟨hseparator, htoken, hgap, hrest⟩ := h
    simp only [write]
    rw [refresh_append hseparator (isLongest_iff_reads.mp htoken) (isGap_iff_skips.mp hgap),
      ih hrest]

end TagCut

namespace RefreshRules

/-- A document has exactly one cut, and the rule for tags puts it together again with the patch
version in place of the tokens: nothing else changes, and no reference is left out. -/
theorem existsUnique_isLeftmost (release : Release) (catalog : CatalogConfig) (text : Bytes) :
    (∃! cut : TagCut, cut.write (utf8Bytes release.function) encode = text ∧
        cut.IsLeftmost (utf8Bytes release.function)) ∧
      ∀ cut : TagCut, cut.write (utf8Bytes release.function) encode = text →
        cut.IsLeftmost (utf8Bytes release.function) →
          (ofRelease release catalog).refreshTags text =
            cut.write (utf8Bytes release.function) fun _ => utf8Bytes release.patch.text := by
  constructor
  · obtain ⟨cut, hcut, hleftmost⟩ := TagCut.exists_isLeftmost (utf8Bytes release.function) text
    refine ⟨cut, ⟨hcut, hleftmost⟩, ?_⟩
    rintro other ⟨hother, hleftmost'⟩
    exact hleftmost'.unique hleftmost (hother.trans hcut.symm)
  · rintro cut rfl hleftmost
    exact hleftmost.refresh_write (utf8Bytes release.patch.text)

end RefreshRules

end ReleaseDocs
