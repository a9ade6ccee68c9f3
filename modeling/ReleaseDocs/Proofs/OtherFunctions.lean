import ReleaseDocs.Proofs.CatalogRules

namespace ReleaseDocs

open VersionToken TagReference

/-- The characters are the whole run of name characters that ends the text. -/
def NameRun (text : Bytes) (run : List Char) : Prop :=
  ∃ before, text = before ++ encode run ∧ (∀ c ∈ run, isNameChar c = true) ∧
    ∀ c, isNameChar c = true → ¬ String.utf8EncodeChar c <:+ before

namespace NameRun

variable {text : Bytes} {run : List Char} (h : NameRun text run)
include h

theorem encode_suffix_iff {f : List Char} (hf : ∀ c ∈ f, isNameChar c = true) :
    encode f <:+ text ↔ f <:+ run := by
  obtain ⟨before, rfl, -, hbefore⟩ := h
  constructor
  · rintro ⟨front, hfront⟩
    rcases List.append_eq_append_iff.mp hfront with ⟨inner, rfl, hf'⟩ | ⟨inner, -, hrun⟩
    · obtain ⟨left, right, rfl, rfl, hright⟩ := encode_eq_append hf' atBoundary_encode
      obtain rfl := encode_injective hright
      rcases List.eq_nil_or_concat left with rfl | ⟨front', c, rfl⟩
      · exact List.suffix_rfl
      · refine absurd ?_ (hbefore c (hf c (by simp)))
        exact ⟨front ++ encode front', by simp [encode_cons]⟩
    · exact encode_suffix_encode_iff.mp ⟨inner, hrun.symm⟩
  · intro hsuffix
    exact (encode_suffix_encode_iff.mpr hsuffix).trans (List.suffix_append _ _)

end NameRun

namespace TagReference

theorem read?_append_ne_none {function text : Bytes} (h : read? function text ≠ none)
    (more : Bytes) : read? function (text ++ more) ≠ none := by
  obtain ⟨separator, cs, rest, hseparator, htoken, rfl⟩ := read?_ne_none_iff.mp h
  exact read?_ne_none_iff.mpr ⟨separator, cs, rest ++ more, hseparator, htoken, by simp⟩

theorem skips_of_append {function front back rest : Bytes}
    (h : (kind function).Skips (front ++ back) rest) : (kind function).Skips front [] := by
  rintro inner hne ⟨before, rfl⟩
  rw [List.append_nil]
  by_contra hread
  have hnone := h (inner ++ back) (by simp [hne]) ⟨before, by simp⟩
  rw [List.append_assoc] at hnone
  exact read?_append_ne_none hread _ hnone

theorem skips_of_separatorFree {function text : Bytes} (h : SeparatorFree text) :
    (kind function).Skips text [] := by
  rintro inner - ⟨before, rfl⟩
  rw [List.append_nil]
  by_contra hread
  obtain ⟨separator, cs, rest, hseparator, -, rfl⟩ := read?_ne_none_iff.mp hread
  simp [h separator (by simp)] at hseparator

theorem skips_append_function {f : List Char} (hname : isName f = true) {skipped rest : Bytes}
    (h : (kind (encode f)).Skips skipped (encode f ++ rest)) :
    (kind (encode f)).Skips (skipped ++ encode f) [] := by
  rw [ReferenceKind.skips_append_iff]
  refine ⟨fun inner hne hinner => ?_, skips_of_separatorFree (separatorFree_encode_name hname)⟩
  rw [List.append_nil]
  by_contra hread
  have hnone := h inner hne hinner
  rw [← List.append_assoc] at hnone
  exact read?_append_ne_none hread _ hnone

/-- The scan finds a reference whose token is the one behind the separator. -/
def FindsToken (function front : Bytes) (separator : UInt8) (cs : List Char) (rest : Bytes) :
    Prop :=
  ∃ before, front = before ++ function ∧
    (kind function).Finds (front ++ separator :: (encode cs ++ rest)) before
      ⟨separator, encode cs⟩ rest

section Token

variable {f : List Char} (hname : isName f = true) {separator : UInt8}
  (hseparator : isSeparator separator = true) {cs : List Char} {rest : Bytes}

theorem findsToken_append_iff {skipped front : Bytes} {sep : UInt8} {cs' : List Char}
    (hsep : isSeparator sep = true) (hreads : Reads cs' (front ++ separator :: (encode cs ++ rest)))
    (hskips : (kind (encode f)).Skips skipped
      (encode f ++ sep :: (encode cs' ++ (front ++ separator :: (encode cs ++ rest))))) :
    FindsToken (encode f) (skipped ++ (encode f ++ sep :: (encode cs' ++ front))) separator cs
        rest ↔ FindsToken (encode f) front separator cs rest := by
  have htext : skipped ++ (encode f ++ sep :: (encode cs' ++ front)) ++
      separator :: (encode cs ++ rest) = skipped ++ (encode f ++ sep ::
        (encode cs' ++ (front ++ separator :: (encode cs ++ rest)))) := by simp
  unfold FindsToken
  rw [htext]
  simp only [finds_append_iff hsep hreads hskips]
  constructor
  · rintro ⟨before, hbefore, ⟨rfl, -, -⟩ | ⟨inner, rfl, hfinds⟩⟩
    · have hlength := congrArg List.length hbefore
      simp only [List.length_append, List.length_cons] at hlength
      omega
    · exact ⟨inner, by simpa using hbefore, hfinds⟩
  · rintro ⟨before, rfl, hfinds⟩
    exact ⟨_, by simp, Or.inr ⟨before, rfl, hfinds⟩⟩

include hname hseparator

/-- A token behind a separator is written over if the scan finds it, and copied if not. What stands
in front of it is scanned for itself. -/
theorem refresh_token (hreads : Reads cs rest) (version front : Bytes) :
    FindsToken (encode f) front separator cs rest ∧
        refresh (encode f) version (front ++ separator :: (encode cs ++ rest)) =
          refresh (encode f) version front ++
            separator :: (version ++ refresh (encode f) version rest) ∨
      ¬ FindsToken (encode f) front separator cs rest ∧
        ∃ rest', untilSeparator rest' = untilSeparator rest ∧
          refresh (encode f) version (front ++ separator :: (encode cs ++ rest)) =
            refresh (encode f) version front ++ separator :: (encode cs ++ rest') := by
  generalize htext : front ++ separator :: (encode cs ++ rest) = text
  induction text using tag_induction (encode f) generalizing front with
  | skip text hskips =>
    subst htext
    refine Or.inr ⟨fun ⟨before, _, hfinds⟩ => ?_, rest, rfl, ?_⟩
    · exact ReferenceKind.not_finds_of_skips hskips hfinds
    · rw [refresh_of_skips hskips, refresh_of_skips (skips_of_append hskips)]
  | find skipped sep cs' rest' hsep hreads' hskips ih =>
    have hfree {bytes : Bytes} (hbytes : SeparatorFree bytes) {byte : UInt8}
        (hbyte : isSeparator byte = true) : byte ∉ bytes := fun hmem => by
      simp [hbytes byte hmem] at hbyte
    have hf := separatorFree_encode_name hname
    have hwhole : front ++ separator :: (encode cs ++ rest) =
        (skipped ++ encode f) ++ sep :: (encode cs' ++ rest') := by simpa using htext
    rw [refresh_append hsep hreads' hskips]
    rcases append_cons_eq_append_cons hwhole with
      ⟨rfl, rfl, heq⟩ | ⟨mid, hfront, hmid⟩ | ⟨mid, rfl, hmid⟩
    · -- the token is that of the first reference
      obtain ⟨rfl, rfl⟩ := hreads.inj hreads' heq
      refine Or.inl ⟨⟨skipped, rfl, ?_⟩, ?_⟩
      · rw [htext, finds_append_iff hsep hreads hskips]
        exact Or.inl ⟨rfl, rfl, rfl⟩
      · rw [refresh_of_skips (skips_append_function hname hskips), List.append_assoc]
    · -- the first reference comes behind the token
      obtain ⟨more, rfl, rfl⟩ := exists_of_append_eq_append_cons
        (hfree (separatorFree_encode_token hreads.isToken) hsep) hmid
      obtain ⟨inside, rfl, -⟩ :=
        exists_of_append_eq_append_cons_back (hfree hf hseparator) hfront
      refine Or.inr ⟨?_, more ++ sep :: (version ++ refresh (encode f) version rest'), ?_, ?_⟩
      · rintro ⟨before, hbefore, hfinds⟩
        rw [htext, finds_append_iff hsep hreads' hskips] at hfinds
        have hlength := congrArg List.length hbefore
        rcases hfinds with ⟨rfl, -, -⟩ | ⟨inner, rfl, -⟩ <;>
        · simp only [List.length_append, List.length_cons] at hlength
          omega
      · rw [untilSeparator_append_cons hsep, untilSeparator_append_cons hsep]
      · rw [refresh_of_skips (skips_of_append hskips), ← List.append_assoc, hfront]
        simp
    · -- the first reference comes in front of the separator
      obtain ⟨front, rfl, rfl⟩ := exists_of_append_eq_append_cons
        (hfree (separatorFree_encode_token hreads'.isToken) hseparator) hmid
      have hreads₁ : Reads cs' front :=
        reads_congr hreads' (untilSeparator_append_cons hseparator front _)
      have hskips₁ := skips_function hname hsep hskips (encode cs' ++ front)
      rw [List.append_assoc, findsToken_append_iff hsep hreads' hskips,
        refresh_append hsep hreads₁ hskips₁]
      rcases ih front rfl with ⟨hfound, heq⟩ | ⟨hnot, rest₁, huntil, heq⟩
      · exact Or.inl ⟨hfound, by rw [heq]; simp⟩
      · exact Or.inr ⟨hnot, rest₁, huntil, by rw [heq]; simp⟩

end Token

end TagReference

namespace RefreshRules

/-- The rule for tags copies the token behind the separator, and it is read there as before. -/
def KeepsToken (rules : RefreshRules) (front : Bytes) (separator : UInt8) (cs : List Char)
    (rest : Bytes) : Prop :=
  ∃ rest', Reads cs rest' ∧ rules.refreshTags (front ++ separator :: (encode cs ++ rest)) =
    rules.refreshTags front ++ separator :: (encode cs ++ rest')

/-- The rule for tags writes over the tokens that the scan finds and over no others. A token that is
found stands behind a name that ends in the name of the function, which may be a longer one. -/
theorem keepsToken_iff {release : Release} {catalog : CatalogConfig}
    (hname : isName release.function.toList = true) {front rest : Bytes} {separator : UInt8}
    {cs run : List Char} (hseparator : isSeparator separator = true) (hreads : Reads cs rest)
    (hrun : NameRun front run) :
    (¬ release.function.toList <:+ run →
      (ofRelease release catalog).KeepsToken front separator cs rest) ∧
    (FindsToken (ofRelease release catalog).function front separator cs rest →
      release.function.toList <:+ run) ∧
    ((ofRelease release catalog).KeepsToken front separator cs rest ↔
      (FindsToken (ofRelease release catalog).function front separator cs rest →
        cs = release.patch.text.toList)) := by
  obtain ⟨a, b, c, ha, hb, hc, hpatch⟩ : ∃ a b c, IsNumber a ∧ IsNumber b ∧ IsNumber c ∧
      release.patch.text.toList = 'v' :: (a ++ '.' :: (b ++ '.' :: c)) :=
    ⟨_, _, _, isNumber_digits _, isNumber_digits _, isNumber_digits _, String.toList_ofList⟩
  have hsuffix (hfound : FindsToken (encode release.function.toList) front separator cs rest) :
      release.function.toList <:+ run := by
    obtain ⟨before, hbefore, -⟩ := hfound
    exact (hrun.encode_suffix_iff (isName_iff.mp hname).2).mp ⟨before, hbefore.symm⟩
  have hiff : (ofRelease release catalog).KeepsToken front separator cs rest ↔
      (FindsToken (encode release.function.toList) front separator cs rest →
        cs = release.patch.text.toList) := by
    have huntil : untilSeparator (TagReference.refresh (encode release.function.toList)
        (encode release.patch.text.toList) rest) = untilSeparator rest :=
      untilSeparator_refresh rest
    rcases refresh_token hname hseparator hreads (encode release.patch.text.toList) front with
      ⟨hfound, heq⟩ | ⟨hnot, rest', huntil', heq⟩
    · rw [forall_prop_of_true hfound]
      constructor
      · rintro ⟨rest', hreads', heq'⟩
        have hwritten := (List.cons.inj (List.append_cancel_left (heq.symm.trans heq'))).2
        have hread := VersionToken.read?_eq_some_iff.mpr ⟨cs, hreads', rfl, hwritten⟩
        rw [hpatch] at hread huntil ⊢
        rw [read?_patch_append ha hb hc] at hread
        have htoken := (Prod.mk.inj (Option.some.inj hread)).1
        have hne : cs ≠ "unstable".toList := by
          rintro rfl
          have hfirst := (List.cons.inj htoken).1
          exact absurd hfirst (by decide)
        rw [digits_congr huntil, number?_eq_none_iff.mp (hreads.number?_eq_none hne),
          List.append_nil] at htoken
        exact (encode_injective htoken).symm
      · rintro rfl
        exact ⟨_, reads_congr hreads huntil.symm, heq⟩
    · refine iff_of_true ⟨rest', reads_congr hreads huntil'.symm, heq⟩ ?_
      exact fun hfound => absurd hfound hnot
  exact ⟨fun hother => hiff.mpr fun hfound => absurd (hsuffix hfound) hother, hsuffix, hiff⟩

theorem not_keepsToken_longer_name :
    NameRun (utf8Bytes "my-apply-setters") "my-apply-setters".toList ∧
      "my-apply-setters" ≠ "apply-setters" ∧
      ¬ (ofRelease ⟨"apply-setters", ⟨1, 0⟩, "go", ⟨1, 0, 3⟩, ⟨""⟩, false, []⟩ {}).KeepsToken
        (utf8Bytes "my-apply-setters") 0x3A "v1.0".toList [] := by
  have hnil : number? [] = none :=
    number?_eq_none_iff_not_startsWith.mpr (not_startsWith_nil isDecimalDigit)
  have hreads : Reads "v1.0".toList [] :=
    .minor (a := ['1']) (b := ['0']) ⟨by simp, List.all_eq_true.mp rfl⟩
      ⟨by simp, List.all_eq_true.mp rfl⟩ hnil rfl
  have hrun : NameRun (utf8Bytes "my-apply-setters") "my-apply-setters".toList :=
    ⟨[], rfl, List.all_eq_true.mp (by decide +kernel), fun c _ hsuffix => by simp at hsuffix⟩
  have hskips : (TagReference.kind (encode "apply-setters".toList)).Skips (encode "my-".toList)
      (encode "apply-setters".toList ++ 0x3A :: (encode "v1.0".toList ++ [])) := by
    refine ReferenceKind.skips_encode (c := 'a') (by decide) (fun text hread => ?_) _
    obtain ⟨separator, cs, after, -, -, rfl⟩ := TagReference.read?_ne_none_iff.mp hread
    exact ⟨_, rfl⟩
  refine ⟨hrun, by decide, fun hkeeps => ?_⟩
  have hcs := (keepsToken_iff (by decide +kernel) rfl hreads hrun).2.2.mp hkeeps
  refine absurd (hcs ⟨utf8Bytes "my-", rfl, ?_⟩) (by decide +kernel)
  exact (TagReference.finds_append_iff rfl hreads hskips).mpr (Or.inl ⟨rfl, rfl, rfl⟩)

end RefreshRules

end ReleaseDocs
