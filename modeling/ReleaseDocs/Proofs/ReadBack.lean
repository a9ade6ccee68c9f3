import ReleaseDocs.Proofs.OtherFunctions

namespace ReleaseDocs

open VersionToken TagReference

section VersionText

/-- The text starts with a character of the class. -/
def startsWith (p : Char → Bool) (text : Bytes) : Bool :=
  (firstChar? text).any fun (c, _) => p c

/-- A version goes on with this character if `rest` follows it: a name character, a plus sign, or a
point in front of a word character. -/
def continuesVersion (c : Char) (rest : Bytes) : Bool :=
  isNameChar c || c == '+' || c == '.' && startsWith isWordChar rest

/-- What is read as a version at the start of the text: all that a version can go on with. -/
def versionText (text : Bytes) : Bytes :=
  match _h : firstChar? text with
  | none => []
  | some (c, rest) =>
      if continuesVersion c rest then String.utf8EncodeChar c ++ versionText rest else []
termination_by text.length
decreasing_by exact length_lt_of_firstChar? ‹_›

theorem startsWith_utf8EncodeChar (p : Char → Bool) (c : Char) (rest : Bytes) :
    startsWith p (String.utf8EncodeChar c ++ rest) = p c := by
  simp [startsWith, firstChar?_eq_some_iff.mpr rfl]

theorem versionText_utf8EncodeChar (c : Char) (rest : Bytes) :
    versionText (String.utf8EncodeChar c ++ rest) =
      if continuesVersion c rest then String.utf8EncodeChar c ++ versionText rest else [] := by
  rw [versionText]
  split
  · rename_i hnone
    simp [firstChar?_eq_some_iff.mpr rfl] at hnone
  · rename_i d rest' hfirst
    obtain ⟨rfl, rfl⟩ := utf8EncodeChar_append_inj (firstChar?_eq_some_iff.mp hfirst)
    rfl

theorem versionText_of_firstChar?_eq_none {text : Bytes} (h : firstChar? text = none) :
    versionText text = [] := by
  rw [versionText]
  split
  · rfl
  · simp_all

theorem versionText_encode_append {cs : List Char} (h : ∀ c ∈ cs, isNameChar c = true)
    (rest : Bytes) : versionText (encode cs ++ rest) = encode cs ++ versionText rest := by
  induction cs with
  | nil => rfl
  | cons c cs ih =>
      obtain ⟨hc, hcs⟩ := List.forall_mem_cons.mp h
      rw [encode_cons, List.append_assoc, versionText_utf8EncodeChar, if_pos, ih hcs,
        List.append_assoc]
      simp [continuesVersion, hc]

theorem versionText_point_append {cs : List Char} (hne : cs ≠ [])
    (h : ∀ c ∈ cs, isWordChar c = true) (rest : Bytes) :
    versionText (encode ('.' :: cs) ++ rest) = encode ('.' :: cs) ++ versionText rest := by
  have hname : ∀ c ∈ cs, isNameChar c = true := fun c hc => by simp [isNameChar, h c hc]
  have hpoint : continuesVersion '.' (encode cs ++ rest) = true := by
    obtain ⟨c, cs, rfl⟩ := List.exists_cons_of_ne_nil hne
    rw [encode_cons, List.append_assoc, continuesVersion, startsWith_utf8EncodeChar]
    simp [h c (by simp)]
  rw [encode_cons, List.append_assoc, versionText_utf8EncodeChar, if_pos hpoint,
    versionText_encode_append hname, List.append_assoc]

theorem firstChar?_untilSeparator (text : Bytes) :
    firstChar? (untilSeparator text) = (firstChar? text).bind fun found =>
      if found.1 = ':' ∨ found.1 = '/' then none else some (found.1, untilSeparator found.2) := by
  cases hfirst : firstChar? text with
  | none =>
    by_contra hsome
    obtain ⟨⟨c, rest⟩, hsome⟩ := Option.ne_none_iff_exists'.mp hsome
    obtain ⟨more, hmore⟩ : untilSeparator text <+: text := List.takeWhile_prefix _
    rw [← hmore, firstChar?_eq_some_iff.mp hsome, List.append_assoc,
      firstChar?_eq_some_iff.mpr rfl] at hfirst
    cases hfirst
  | some found =>
    obtain ⟨c, rest⟩ := found
    rw [firstChar?_eq_some_iff.mp hfirst, Option.bind_some]
    split
    · rename_i hc
      rcases hc with rfl | rfl <;> rfl
    · rename_i hc
      obtain ⟨hcolon, hslash⟩ := not_or.mp hc
      have hfree : SeparatorFree (encode [c]) :=
        separatorFree_encode (by simpa using Ne.symm hcolon) (by simpa using Ne.symm hslash)
      have huntil := untilSeparator_append_of_separatorFree hfree rest
      rw [encode_cons, encode_nil, List.append_nil] at huntil
      exact firstChar?_eq_some_iff.mpr huntil

theorem startsWith_untilSeparator {p : Char → Bool} (hcolon : p ':' = false)
    (hslash : p '/' = false) (text : Bytes) :
    startsWith p (untilSeparator text) = startsWith p text := by
  rw [startsWith, startsWith, firstChar?_untilSeparator]
  cases firstChar? text with
  | none => rfl
  | some found =>
    rw [Option.bind_some]
    split
    · rename_i hc
      rcases hc with hc | hc <;> simp [hc, hcolon, hslash]
    · rfl

theorem continuesVersion_untilSeparator (c : Char) (rest : Bytes) :
    continuesVersion c (untilSeparator rest) = continuesVersion c rest := by
  rw [continuesVersion, continuesVersion, startsWith_untilSeparator (by decide) (by decide)]

theorem continuesVersion_eq_false {c : Char} (hc : c = ':' ∨ c = '/') (rest : Bytes) :
    continuesVersion c rest = false := by
  rcases hc with rfl | rfl <;> rfl

theorem versionText_untilSeparator (text : Bytes) :
    versionText (untilSeparator text) = versionText text := by
  induction text using versionText.induct with
  | case1 text hnone =>
    rw [versionText_of_firstChar?_eq_none hnone]
    refine versionText_of_firstChar?_eq_none ?_
    rw [firstChar?_untilSeparator, hnone, Option.bind_none]
  | case2 text c rest hfirst hgo ih =>
    have huntil := firstChar?_untilSeparator text
    rw [hfirst, Option.bind_some, if_neg, firstChar?_eq_some_iff] at huntil
    · rw [huntil, firstChar?_eq_some_iff.mp hfirst, versionText_utf8EncodeChar,
        versionText_utf8EncodeChar, continuesVersion_untilSeparator, ih]
    · intro hc
      simp [continuesVersion_eq_false hc] at hgo
  | case3 text c rest hfirst hstop =>
    have huntil := firstChar?_untilSeparator text
    rw [hfirst, Option.bind_some] at huntil
    rw [firstChar?_eq_some_iff.mp hfirst, versionText_utf8EncodeChar, if_neg hstop,
      ← firstChar?_eq_some_iff.mp hfirst]
    split at huntil
    · exact versionText_of_firstChar?_eq_none huntil
    · rw [firstChar?_eq_some_iff.mp huntil, versionText_utf8EncodeChar,
        continuesVersion_untilSeparator, if_neg hstop]

theorem versionText_congr {text text' : Bytes} (h : untilSeparator text = untilSeparator text') :
    versionText text = versionText text' := by
  rw [← versionText_untilSeparator text, h, versionText_untilSeparator]

theorem isWordChar_of_isDigit {c : Char} (h : c.isDigit = true) : isWordChar c = true := by
  obtain ⟨hlow, hhigh⟩ : 48 ≤ c.toNat ∧ c.toNat ≤ 57 := Char.isDigit_iff_toNat.mp h
  rw [isWordChar, wordRanges, CodeRanges.contains, if_neg (by omega), if_pos (by omega)]

theorem utf8Bytes_patchText (p : PatchVersion) : utf8Bytes p.text =
    encode ('v' :: (Decimal.digits p.major ++ '.' ::
      (Decimal.digits p.minor ++ '.' :: Decimal.digits p.patch))) := by
  rw [utf8Bytes, PatchVersion.text, String.toList_ofList]
  rfl

theorem versionText_patch_append (p : PatchVersion) (rest : Bytes) :
    versionText (utf8Bytes p.text ++ rest) = utf8Bytes p.text ++ versionText rest := by
  have hdigits (n : UInt64) : ∀ c ∈ Decimal.digits n, isWordChar c = true := fun c hc =>
    isWordChar_of_isDigit (Decimal.isDigit_of_mem_digits hc)
  have hmajor : ∀ c ∈ 'v' :: Decimal.digits p.major, isNameChar c = true := by
    refine List.forall_mem_cons.mpr ⟨by decide, fun c hc => ?_⟩
    simp [isNameChar, hdigits p.major c hc]
  have hparts : utf8Bytes p.text = encode ('v' :: Decimal.digits p.major) ++
      (encode ('.' :: Decimal.digits p.minor) ++ encode ('.' :: Decimal.digits p.patch)) := by
    rw [utf8Bytes_patchText, ← encode_append, ← encode_append]
    rfl
  rw [hparts, List.append_assoc, List.append_assoc, versionText_encode_append hmajor,
    versionText_point_append (Decimal.digits_ne_nil _) (hdigits _),
    versionText_point_append (Decimal.digits_ne_nil _) (hdigits _)]
  simp only [List.append_assoc]

end VersionText

namespace TagReference

variable {f : List Char} (hname : isName f = true)

theorem reads_of_finds {function text before after : Bytes} {reference : TagReference}
    (h : (kind function).Finds text before reference after) :
    isSeparator reference.separator = true ∧
      ∃ cs, Reads cs after ∧ reference.token = encode cs := by
  obtain ⟨hseparator, cs, hreads, htoken, -⟩ := read?_eq_some_iff.mp h.read?_eq_some
  exact ⟨hseparator, cs, hreads, htoken⟩

theorem finds_reference {function rest : Bytes} {separator : UInt8} {cs : List Char}
    (hseparator : isSeparator separator = true) (hreads : Reads cs rest) :
    (kind function).Finds (function ++ separator :: (encode cs ++ rest)) []
      ⟨separator, encode cs⟩ rest :=
  (finds_append_iff hseparator hreads (ReferenceKind.skips_nil _ _)).mpr (Or.inl ⟨rfl, rfl, rfl⟩)

include hname

theorem refresh_of_finds {text before after : Bytes} {reference : TagReference}
    (h : (kind (encode f)).Finds text before reference after) (version : Bytes) :
    refresh (encode f) version text = refresh (encode f) version (before ++ encode f) ++
      reference.separator :: (version ++ refresh (encode f) version after) := by
  obtain ⟨hseparator, cs, hreads, htoken⟩ := reads_of_finds h
  have htext : text = (before ++ encode f) ++ reference.separator :: (encode cs ++ after) := by
    rw [h.eq_append, ← htoken]
    simp [kind]
  have hfound : FindsToken (encode f) (before ++ encode f) reference.separator cs after := by
    refine ⟨before, rfl, ?_⟩
    rw [← htext, ← htoken]
    exact h
  rcases refresh_token hname hseparator hreads version (before ++ encode f) with
    ⟨-, heq⟩ | ⟨hnot, -⟩
  · rw [htext, heq]
  · exact absurd hfound hnot

theorem refresh_append_of_read? {skipped rest tail token after : Bytes} {separator : UInt8}
    (hseparator : isSeparator separator = true)
    (hskips : (kind (encode f)).Skips skipped (encode f ++ separator :: rest))
    (hread : VersionToken.read? tail = some (token, after)) (version : Bytes) :
    refresh (encode f) version (skipped ++ (encode f ++ separator :: tail)) =
      skipped ++ (encode f ++ separator :: (version ++ refresh (encode f) version after)) := by
  obtain ⟨cs, hreads, -, rfl⟩ := VersionToken.read?_eq_some_iff.mp hread
  exact refresh_append hseparator hreads (skips_function hname hseparator hskips _)

omit hname

theorem refresh_afterDigits_eq_iff {function version y : Bytes} :
    refresh function version (afterDigits y) = y ↔
      digits y = [] ∧ refresh function version y = y := by
  constructor
  · intro heq
    have huntil : untilSeparator (refresh function version (afterDigits y)) =
        untilSeparator (afterDigits y) := untilSeparator_refresh _
    rw [heq, untilSeparator_eq_digits_append] at huntil
    have hdigits := List.append_left_eq_self.mp huntil
    refine ⟨hdigits, ?_⟩
    rwa [afterDigits_of_digits_eq_nil hdigits] at heq
  · rintro ⟨hdigits, heq⟩
    rwa [afterDigits_of_digits_eq_nil hdigits]

/-- No digit follows the references that name `unstable`. -/
def UnstableAlone (function text : Bytes) : Prop :=
  ∀ before reference after, (kind function).Finds text before reference after →
    reference.token = VersionToken.unstable → ¬ StartsWith isDecimalDigit after

theorem unstableAlone_of_skips {function text : Bytes} (h : (kind function).Skips text []) :
    UnstableAlone function text := by
  intro before reference after hfinds
  exact absurd hfinds (ReferenceKind.not_finds_of_skips h)

theorem unstableAlone_of_forall_suffix {function text : Bytes}
    (h : ∀ after, VersionToken.unstable ++ after <:+ text → ¬ StartsWith isDecimalDigit after) :
    UnstableAlone function text := by
  intro before reference after hfinds htoken
  refine h after ⟨before ++ (function ++ [reference.separator]), ?_⟩
  rw [hfinds.eq_append, ← htoken]
  simp [kind]

theorem unstableAlone_append_iff {function skipped rest : Bytes} {separator : UInt8}
    {cs : List Char} (hseparator : isSeparator separator = true) (hreads : Reads cs rest)
    (hskips : (kind function).Skips skipped (function ++ separator :: (encode cs ++ rest))) :
    UnstableAlone function (skipped ++ (function ++ separator :: (encode cs ++ rest))) ↔
      number? rest = none ∧ UnstableAlone function rest := by
  have hfirst : (encode cs = VersionToken.unstable → ¬ StartsWith isDecimalDigit rest) ↔
      number? rest = none := by
    rw [number?_eq_none_iff_not_startsWith]
    refine ⟨fun h => ?_, fun h _ => h⟩
    by_cases hcs : cs = "unstable".toList
    · exact h (congrArg encode hcs)
    · exact number?_eq_none_iff_not_startsWith.mp (hreads.number?_eq_none hcs)
  unfold UnstableAlone
  rw [forall_finds_append_iff hseparator hreads hskips fun _ _ _ => Iff.rfl, hfirst]

include hname

/-- A second pass changes nothing exactly if no version was written in front of digits. -/
theorem refresh_refresh_eq_iff {a b c : List Char} (ha : IsNumber a) (hb : IsNumber b)
    (hc : IsNumber c) {version : Bytes}
    (hversion : version = encode ('v' :: (a ++ '.' :: (b ++ '.' :: c)))) (text : Bytes) :
    refresh (encode f) version (refresh (encode f) version text) = refresh (encode f) version text ↔
      UnstableAlone (encode f) text := by
  induction text using tag_induction (encode f) with
  | skip text hskips =>
    rw [refresh_of_skips hskips, refresh_of_skips hskips]
    exact iff_of_true rfl (unstableAlone_of_skips hskips)
  | find skipped separator cs rest hseparator hreads hskips ih =>
    -- the second pass reads the version with the digits behind it, and goes on behind those
    have hread := read?_patch_append ha hb hc (refresh (encode f) version rest)
    have huntil : untilSeparator (refresh (encode f) version rest) = untilSeparator rest :=
      untilSeparator_refresh rest
    rw [← hversion] at hread
    rw [refresh_append hseparator hreads hskips,
      refresh_append_of_read? hname hseparator hskips hread,
      unstableAlone_append_iff hseparator hreads hskips, number?_eq_none_iff,
      ← digits_congr huntil, ← ih]
    simp only [List.append_cancel_left_eq, List.cons.injEq, true_and]
    exact refresh_afterDigits_eq_iff

end TagReference

namespace RefreshRules

/-- Behind the separator of each reference found, the document has the patch version and what ran on
behind the token before. So exactly the patch version is read there if nothing did. -/
theorem versionText_refreshTags {release : Release} {catalog : CatalogConfig}
    (hname : isName release.function.toList = true) {text before after : Bytes}
    {reference : TagReference}
    (hfinds : (TagReference.kind (utf8Bytes release.function)).Finds text before reference after) :
    (ofRelease release catalog).refreshTags text =
        (ofRelease release catalog).refreshTags (before ++ utf8Bytes release.function) ++
          reference.separator :: (utf8Bytes release.patch.text ++
            (ofRelease release catalog).refreshTags after) ∧
      versionText (utf8Bytes release.patch.text ++ (ofRelease release catalog).refreshTags after) =
        utf8Bytes release.patch.text ++ versionText after ∧
      (versionText (utf8Bytes release.patch.text ++
          (ofRelease release catalog).refreshTags after) = utf8Bytes release.patch.text ↔
        versionText after = []) := by
  have hread : versionText (utf8Bytes release.patch.text ++
      (ofRelease release catalog).refreshTags after) =
        utf8Bytes release.patch.text ++ versionText after := by
    rw [versionText_patch_append, versionText_congr (untilSeparator_refreshTags _ after)]
  refine ⟨TagReference.refresh_of_finds hname hfinds _, hread, ?_⟩
  rw [hread, List.append_right_eq_self]

/-- The pre-release `v1.0.1-rc.1` becomes `v1.0.3-rc.1`. -/
theorem versionText_refreshTags_preRelease :
    (TagReference.kind (utf8Bytes "apply-setters")).Finds
        (utf8Bytes "apply-setters:v1.0.1-rc.1") [] ⟨0x3A, utf8Bytes "v1.0.1"⟩
        (utf8Bytes "-rc.1") ∧
      versionText (utf8Bytes "v1.0.3" ++
        (ofRelease ⟨"apply-setters", ⟨1, 0⟩, "go", ⟨1, 0, 3⟩, ⟨""⟩, false, []⟩ {}).refreshTags
          (utf8Bytes "-rc.1")) ≠ utf8Bytes "v1.0.3" := by
  have hnumber (c : Char) (hc : isDecimalDigit c = true) : IsNumber [c] :=
    ⟨by simp, by simpa using hc⟩
  have hminus : utf8Bytes "-rc.1" = String.utf8EncodeChar '-' ++ utf8Bytes "rc.1" := rfl
  have hrest : number? (utf8Bytes "-rc.1") = none := by
    rw [number?_eq_none_iff_not_startsWith, hminus, startsWith_utf8EncodeChar_append]
    decide
  have htext : utf8Bytes "apply-setters:v1.0.1-rc.1" = utf8Bytes "apply-setters" ++
      0x3A :: (encode "v1.0.1".toList ++ utf8Bytes "-rc.1") := by
    decide +kernel
  have hfinds : (TagReference.kind (utf8Bytes "apply-setters")).Finds
      (utf8Bytes "apply-setters:v1.0.1-rc.1") [] ⟨0x3A, utf8Bytes "v1.0.1"⟩
      (utf8Bytes "-rc.1") := by
    rw [htext]
    refine finds_reference rfl ?_
    exact .patch (hnumber '1' rfl) (hnumber '0' rfl) (hnumber '1' rfl) hrest
  have hversion : utf8Bytes "v1.0.3" = utf8Bytes (PatchVersion.text ⟨1, 0, 3⟩) := by
    decide +kernel
  refine ⟨hfinds, fun hpatch => ?_⟩
  rw [hversion] at hpatch
  have hlaw := @versionText_refreshTags
    ⟨"apply-setters", ⟨1, 0⟩, "go", ⟨1, 0, 3⟩, ⟨""⟩, false, []⟩ {} (by decide +kernel)
    _ _ _ _ hfinds
  have hnil := hlaw.2.2.mp hpatch
  rw [hminus, versionText_utf8EncodeChar, if_pos (by decide)] at hnil
  simp at hnil

/-- The rule for tags needs no second pass exactly for the documents in which no digit follows
`unstable` in a reference. -/
theorem refreshTags_refreshTags_eq_iff {release : Release} {catalog : CatalogConfig}
    (hname : isName release.function.toList = true) (text : Bytes) :
    (ofRelease release catalog).refreshTags ((ofRelease release catalog).refreshTags text) =
        (ofRelease release catalog).refreshTags text ↔
      UnstableAlone (utf8Bytes release.function) text :=
  refresh_refresh_eq_iff hname (isNumber_digits _) (isNumber_digits _) (isNumber_digits _)
    (utf8Bytes_patchText release.patch) text

theorem refreshTags_refreshTags_ne_of_digit_name :
    (ofRelease ⟨"5", ⟨1, 0⟩, "go", ⟨1, 0, 3⟩, ⟨""⟩, false, []⟩ {}).refreshTags
        ((ofRelease ⟨"5", ⟨1, 0⟩, "go", ⟨1, 0, 3⟩, ⟨""⟩, false, []⟩ {}).refreshTags
          (utf8Bytes "5:unstable5:v1.0")) ≠
      (ofRelease ⟨"5", ⟨1, 0⟩, "go", ⟨1, 0, 3⟩, ⟨""⟩, false, []⟩ {}).refreshTags
        (utf8Bytes "5:unstable5:v1.0") := by
  have htext : utf8Bytes "5:unstable5:v1.0" = utf8Bytes "5" ++
      0x3A :: (encode "unstable".toList ++ utf8Bytes "5:v1.0") := by
    decide +kernel
  have hfinds : (TagReference.kind (utf8Bytes "5")).Finds (utf8Bytes "5:unstable5:v1.0") []
      ⟨0x3A, VersionToken.unstable⟩ (utf8Bytes "5:v1.0") := by
    rw [htext]
    exact finds_reference rfl .unstable
  intro hfixed
  have halone := (refreshTags_refreshTags_eq_iff (by decide +kernel) _).mp hfixed
  exact halone _ _ _ hfinds rfl ⟨'5', utf8Bytes ":v1.0", by decide, rfl⟩

end RefreshRules

end ReleaseDocs
