import ReleaseDocs.Proofs.LinkScan
import ReleaseDocs.Proofs.PackageScan

namespace ReleaseDocs

open VersionToken TagReference CatalogLink

/-- White space, or the sign that starts a pin. -/
def IsStop (c : Char) : Prop :=
  isBlank c = true ∨ c = '@'

namespace IsStop

variable {c : Char} (hc : IsStop c)
include hc

theorem ne_of_not {d : Char} (hd : isBlank d = false) (hat : d ≠ '@') : c ≠ d := by
  rintro rfl
  rcases hc with hc | rfl
  · simp [hd] at hc
  · exact hat rfl

theorem isDecimalDigit_eq_false : isDecimalDigit c = false := by
  rw [← Bool.not_eq_true]
  intro hdigit
  refine hc.ne_of_not (isBlank_eq_false_of_isDecimalDigit hdigit) ?_ rfl
  rintro rfl
  exact absurd hdigit (by decide)

theorem not_mem_name {f : List Char} (hname : isName f = true) : c ∉ f := by
  intro hmem
  have hchar := (isName_iff.mp hname).2 c hmem
  refine hc.ne_of_not (isBlank_eq_false_of_isNameChar hchar) ?_ rfl
  rintro rfl
  exact absurd hchar (by decide)

theorem not_mem_token {cs : List Char} (htoken : IsToken cs) : c ∉ cs := by
  intro hmem
  rcases htoken.mem hmem with hmem | hdigit
  · have hall : ("v.unstable".toList.all fun d => !isBlank d && d != '@') = true := by decide
    have hplain := List.all_eq_true.mp hall c hmem
    simp only [Bool.and_eq_true, Bool.not_eq_true', bne_iff_ne] at hplain
    exact hc.ne_of_not hplain.1 hplain.2 rfl
  · simp [hc.isDecimalDigit_eq_false] at hdigit

theorem number?_append {text : Bytes} (h : number? text = none) (rest : Bytes) :
    number? (text ++ (String.utf8EncodeChar c ++ rest)) = none := by
  rw [number?_eq_none_iff_not_startsWith] at h ⊢
  rwa [startsWith_append_iff hc.isDecimalDigit_eq_false]

theorem pointNumber?_append {text : Bytes} (h : pointNumber? text = none) (rest : Bytes) :
    pointNumber? (text ++ (String.utf8EncodeChar c ++ rest)) = none := by
  rw [pointNumber?_eq_none_iff] at h ⊢
  intro d hd hstart
  refine h d hd (encode_prefix_of_not_mem ?_ hstart)
  simp only [List.mem_cons, List.not_mem_nil, or_false, not_or]
  refine ⟨hc.ne_of_not (by decide) (by decide), ?_⟩
  rintro rfl
  simp [hc.isDecimalDigit_eq_false] at hd

theorem reads_append {cs : List Char} {text : Bytes} (h : Reads cs text) (rest : Bytes) :
    Reads cs (text ++ (String.utf8EncodeChar c ++ rest)) := by
  cases h with
  | unstable => exact .unstable
  | minor ha hb hrest hpoint =>
    exact .minor ha hb (hc.number?_append hrest _) (hc.pointNumber?_append hpoint _)
  | patch ha hb hc' hrest => exact .patch ha hb hc' (hc.number?_append hrest _)

end IsStop

namespace TagReference

theorem exists_encode_reference {separator : UInt8} (h : isSeparator separator = true)
    (f cs : List Char) : ∃ d, (d = ':' ∨ d = '/') ∧
      ∀ rest, encode f ++ separator :: (encode cs ++ rest) = encode (f ++ d :: cs) ++ rest := by
  have hcode (d : Char) (hd : String.utf8EncodeChar d = [separator]) (rest : Bytes) :
      encode f ++ separator :: (encode cs ++ rest) = encode (f ++ d :: cs) ++ rest := by
    simp [encode_cons, hd]
  rcases isSeparator_eq_true_iff.mp h with hmem | hmem
  · obtain rfl := List.mem_singleton.mp hmem
    exact ⟨':', Or.inl rfl, hcode ':' rfl⟩
  · obtain rfl := List.mem_singleton.mp hmem
    exact ⟨'/', Or.inr rfl, hcode '/' rfl⟩

variable {f : List Char} (hname : isName f = true) {c : Char} (hc : IsStop c)
include hname hc

theorem read?_append_stop {front rest : Bytes}
    (h : read? (encode f) (front ++ (String.utf8EncodeChar c ++ rest)) ≠ none) :
    read? (encode f) front ≠ none := by
  obtain ⟨separator, cs, after, hseparator, htoken, htext⟩ := read?_ne_none_iff.mp h
  obtain ⟨d, hd, hcode⟩ := exists_encode_reference hseparator f cs
  have hnot : c ∉ f ++ d :: cs := by
    have hne : c ≠ d := by
      rcases hd with rfl | rfl <;> exact hc.ne_of_not (by decide) (by decide)
    simp [hc.not_mem_name hname, hc.not_mem_token htoken, hne]
  have hstart : encode (f ++ d :: cs) <+: front :=
    encode_prefix_of_not_mem hnot ⟨after, by rw [htext, hcode]⟩
  obtain ⟨more, hmore⟩ := hstart
  exact read?_ne_none_iff.mpr ⟨separator, cs, more, hseparator, htoken, by rw [hcode, hmore]⟩

theorem cuts_stop (rest : Bytes) :
    (kind (encode f)).Cuts (String.utf8EncodeChar c) rest where
  skips := by
    obtain ⟨d, f', rfl⟩ := List.exists_cons_of_ne_nil (isName_iff.mp hname).1
    have hne : c ≠ d := List.ne_of_not_mem_cons (hc.not_mem_name hname)
    refine ReferenceKind.skips_utf8EncodeChar hne.symm (fun text hread => ?_) rest
    obtain ⟨separator, cs, after, -, -, rfl⟩ := read?_ne_none_iff.mp hread
    exact ⟨_, by rw [encode_cons, List.append_assoc]⟩
  reads := by
    intro front back reference hread
    obtain ⟨hseparator, cs, hreads, htoken, rfl⟩ := read?_eq_some_iff.mp hread
    exact read?_eq_some_iff.mpr
      ⟨hseparator, cs, hc.reads_append hreads rest, htoken, by simp⟩
  stays := by
    intro front hnone
    by_contra hread
    exact absurd hnone (read?_append_stop hname hc hread)

end TagReference

namespace CatalogLink

variable {address : List Char} {c : Char} (hc : IsStop c)
include hc

/-- A stop cuts where the address of the links does not reach from in front of it to what stands
behind it. -/
theorem cuts_of_not_reach (hfirst : ∃ d rest, address = d :: rest ∧ c ≠ d) {rest : Bytes}
    (hreach : ∀ left right, address = left ++ c :: right → ¬ encode right <+: rest) :
    (kind (encode address)).Cuts (String.utf8EncodeChar c) rest where
  skips := by
    obtain ⟨d, address, rfl, hne⟩ := hfirst
    refine ReferenceKind.skips_utf8EncodeChar hne.symm (fun text hread => ?_) rest
    obtain ⟨cs, after, -, rfl⟩ := read?_ne_none_iff.mp hread
    exact ⟨_, by rw [encode_cons, List.append_assoc]⟩
  reads := by
    intro front back link hread
    obtain ⟨cs, hreads, htoken, rfl⟩ := read?_eq_some_iff.mp hread
    exact read?_eq_some_iff.mpr ⟨cs, hc.reads_append hreads rest, htoken, by simp⟩
  stays := by
    intro front hnone
    by_contra hread
    obtain ⟨cs, after, htoken, htext⟩ := read?_ne_none_iff.mp hread
    have hwhole : encode (address ++ cs) ++ after = front ++ (String.utf8EncodeChar c ++ rest) := by
      rw [htext, encode_append, List.append_assoc]
    rcases exists_of_encode_append_eq hwhole with ⟨more, rfl⟩ | ⟨left, right, hsplit, rfl⟩
    · refine absurd hnone (read?_ne_none_iff.mpr ⟨cs, more, htoken, ?_⟩)
      rw [encode_append, List.append_assoc]
    · rcases List.append_eq_append_iff.mp hsplit with ⟨inner, -, hcs⟩ | ⟨inner, haddress, hback⟩
      · exact hc.not_mem_token htoken (by simp [hcs])
      · cases inner with
        | nil =>
          obtain rfl : c :: right = cs := hback
          exact hc.not_mem_token htoken List.mem_cons_self
        | cons d inner =>
          obtain ⟨rfl, hright⟩ := List.cons.inj hback
          refine hreach left inner haddress ⟨encode cs ++ after, ?_⟩
          rw [hsplit, encode_append, encode_cons, hright, List.append_assoc, List.append_assoc,
            List.append_cancel_left_eq, List.append_cancel_left_eq] at hwhole
          rw [← hwhole]
          simp

theorem cuts_stop (haddress : c ∉ address) (hne : address ≠ []) (rest : Bytes) :
    (kind (encode address)).Cuts (String.utf8EncodeChar c) rest := by
  obtain ⟨d, address, rfl⟩ := List.exists_cons_of_ne_nil hne
  refine cuts_of_not_reach hc ⟨d, address, rfl, List.ne_of_not_mem_cons haddress⟩ ?_
  intro left right hsplit
  exact absurd (by simp [hsplit]) haddress

end CatalogLink

end ReleaseDocs
