import Mathlib.Data.List.Basic
import ReleaseDocs.Proofs.Scan
import ReleaseDocs.Proofs.TagSegments
import ReleaseDocs.Proofs.VersionTokens
import ReleaseDocs.Reference.Tag

namespace ReleaseDocs

namespace VersionToken

theorem IsToken.mem {cs : List Char} (h : IsToken cs) {c : Char} (hc : c ∈ cs) :
    c ∈ "v.unstable".toList ∨ isDecimalDigit c = true := by
  have hdot : '.' ∈ "v.unstable".toList := by decide
  cases h with
  | unstable => exact Or.inl (List.mem_append_right "v.".toList hc)
  | minor ha hb =>
    simp only [List.mem_cons, List.mem_append] at hc
    rcases hc with rfl | hc | rfl | hc
    · exact Or.inl (by decide)
    · exact Or.inr (ha.2 c hc)
    · exact Or.inl hdot
    · exact Or.inr (hb.2 c hc)
  | patch ha hb hc' =>
    simp only [List.mem_cons, List.mem_append] at hc
    rcases hc with rfl | hc | rfl | hc | rfl | hc
    · exact Or.inl (by decide)
    · exact Or.inr (ha.2 c hc)
    · exact Or.inl hdot
    · exact Or.inr (hb.2 c hc)
    · exact Or.inl hdot
    · exact Or.inr (hc'.2 c hc)

theorem IsToken.encode_ne_nil {cs : List Char} (h : IsToken cs) : encode cs ≠ [] := by
  rw [ne_eq, encode_eq_nil_iff]
  cases h <;> simp

theorem IsToken.not_mem {cs : List Char} (h : IsToken cs) {c : Char}
    (hc : c ∉ "v.unstable".toList) (hdigit : isDecimalDigit c = false) : c ∉ cs := by
  intro hmem
  rcases h.mem hmem with hmem | hmem
  · exact hc hmem
  · simp [hdigit] at hmem

end VersionToken

open VersionToken

theorem append_cons_inj_of_stop {stop : UInt8 → Bool} {front front' rest rest' : Bytes}
    {a b : UInt8} (hfront : ∀ byte ∈ front, stop byte = false)
    (hfront' : ∀ byte ∈ front', stop byte = false) (ha : stop a = true) (hb : stop b = true)
    (h : front ++ a :: rest = front' ++ b :: rest') : front = front' ∧ a = b ∧ rest = rest' := by
  induction front generalizing front' with
  | nil =>
      cases front' with
      | nil => simpa using h
      | cons byte front' =>
          obtain rfl : a = byte := (List.cons.inj h).1
          simp [hfront' a (by simp)] at ha
  | cons byte front ih =>
      cases front' with
      | nil =>
          obtain rfl : byte = b := (List.cons.inj h).1
          simp [hfront byte (by simp)] at hb
      | cons byte' front' =>
          obtain ⟨rfl, htail⟩ := List.cons.inj h
          obtain ⟨rfl, hrest⟩ := ih (List.forall_mem_cons.mp hfront).2
            (List.forall_mem_cons.mp hfront').2 htail
          exact ⟨rfl, hrest⟩

theorem append_cons_inj_of_not_mem {front front' rest rest' : Bytes} {a : UInt8}
    (hfront : a ∉ front) (hfront' : a ∉ front') (h : front ++ a :: rest = front' ++ a :: rest') :
    front = front' ∧ rest = rest' := by
  have hfree (bytes : Bytes) (hbytes : a ∉ bytes) : ∀ byte ∈ bytes, (byte == a) = false := by
    intro byte hmem
    rw [beq_eq_false_iff_ne]
    rintro rfl
    exact hbytes hmem
  obtain ⟨heq, -, hrest⟩ :=
    append_cons_inj_of_stop (hfree front hfront) (hfree front' hfront') (by simp) (by simp) h
  exact ⟨heq, hrest⟩

section Position

variable {front front' rest rest' : Bytes} {a b : UInt8}

theorem append_cons_eq_append_cons (h : front ++ a :: rest = front' ++ b :: rest') :
    (front = front' ∧ a = b ∧ rest = rest') ∨
      (∃ mid, front' = front ++ a :: mid ∧ rest = mid ++ b :: rest') ∨
      ∃ mid, front = front' ++ b :: mid ∧ rest' = mid ++ a :: rest := by
  rcases List.append_eq_append_iff.mp h with ⟨mid, rfl, hmid⟩ | ⟨mid, rfl, hmid⟩
  · rcases List.cons_eq_append_iff.mp hmid with ⟨rfl, heq⟩ | ⟨mid, rfl, hrest⟩
    · obtain ⟨rfl, rfl⟩ := List.cons.inj heq
      exact Or.inl ⟨by simp, rfl, rfl⟩
    · exact Or.inr (Or.inl ⟨mid, rfl, hrest⟩)
  · rcases List.cons_eq_append_iff.mp hmid with ⟨rfl, heq⟩ | ⟨mid, rfl, hrest⟩
    · obtain ⟨rfl, rfl⟩ := List.cons.inj heq
      exact Or.inl ⟨by simp, rfl, rfl⟩
    · exact Or.inr (Or.inr ⟨mid, rfl, hrest⟩)

theorem exists_of_append_eq_append_cons (hb : b ∉ front)
    (h : front ++ rest = front' ++ b :: rest') :
    ∃ mid, front' = front ++ mid ∧ rest = mid ++ b :: rest' := by
  rcases List.append_eq_append_iff.mp h with ⟨mid, rfl, hmid⟩ | ⟨mid, rfl, hmid⟩
  · exact ⟨mid, rfl, hmid⟩
  · rcases List.cons_eq_append_iff.mp hmid with ⟨rfl, heq⟩ | ⟨mid, rfl, -⟩
    · exact ⟨[], by simp, heq⟩
    · simp at hb

theorem exists_of_append_eq_append_cons_back (hb : b ∉ rest)
    (h : front ++ rest = front' ++ b :: rest') :
    ∃ mid, front = front' ++ b :: mid ∧ rest' = mid ++ rest := by
  rcases List.append_eq_append_iff.mp h with ⟨mid, rfl, rfl⟩ | ⟨mid, rfl, hmid⟩
  · simp at hb
  · rcases List.cons_eq_append_iff.mp hmid with ⟨rfl, rfl⟩ | ⟨mid, rfl, hrest⟩
    · simp at hb
    · exact ⟨mid, rfl, hrest⟩

end Position

theorem append_cons_inj_of_not_mem_back {front front' rest rest' : Bytes} {a : UInt8}
    (hrest : a ∉ rest) (hrest' : a ∉ rest') (h : front ++ a :: rest = front' ++ a :: rest') :
    front = front' ∧ rest = rest' := by
  have hreverse := congrArg List.reverse h
  simp only [List.reverse_append, List.reverse_cons, List.append_assoc, List.singleton_append]
    at hreverse
  obtain ⟨hback, hfront⟩ := append_cons_inj_of_not_mem (by simpa using hrest)
    (by simpa using hrest') hreverse
  exact ⟨List.reverse_injective hfront, List.reverse_injective hback⟩

namespace TagReference

theorem isSeparator_eq_true_iff {byte : UInt8} :
    isSeparator byte = true ↔
      byte ∈ String.utf8EncodeChar ':' ∨ byte ∈ String.utf8EncodeChar '/' := by
  have hcolon : String.utf8EncodeChar ':' = [0x3A] := rfl
  have hslash : String.utf8EncodeChar '/' = [0x2F] := rfl
  simp [isSeparator, hcolon, hslash]

def SeparatorFree (text : Bytes) : Prop :=
  ∀ byte ∈ text, isSeparator byte = false

def untilSeparator (text : Bytes) : Bytes :=
  text.takeWhile fun byte => !isSeparator byte

theorem untilSeparator_append_cons {separator : UInt8} (h : isSeparator separator = true)
    (front rest : Bytes) : untilSeparator (front ++ separator :: rest) = untilSeparator front := by
  induction front with
  | nil => simp [untilSeparator, h]
  | cons byte front ih =>
      simp only [untilSeparator, List.cons_append, List.takeWhile_cons] at ih ⊢
      rw [ih]

theorem untilSeparator_append_of_separatorFree {front : Bytes} (h : SeparatorFree front)
    (rest : Bytes) : untilSeparator (front ++ rest) = front ++ untilSeparator rest :=
  List.takeWhile_append_of_pos fun byte hbyte => by simp [h byte hbyte]

theorem untilSeparator_of_separatorFree {text : Bytes} (h : SeparatorFree text) :
    untilSeparator text = text := by
  have hall := untilSeparator_append_of_separatorFree h []
  simpa [untilSeparator] using hall

theorem separatorFree_encode {cs : List Char} (hcolon : ':' ∉ cs) (hslash : '/' ∉ cs) :
    SeparatorFree (encode cs) := by
  intro byte hbyte
  rw [← Bool.not_eq_true, isSeparator_eq_true_iff]
  have hcode (d : Char) (hd : d ∉ cs) (hsingle : String.utf8EncodeChar d = [byte]) : False :=
    not_mem_encode hsingle hd hbyte
  rintro (h | h)
  · obtain rfl := List.mem_singleton.mp h
    exact hcode ':' hcolon rfl
  · obtain rfl := List.mem_singleton.mp h
    exact hcode '/' hslash rfl

theorem separatorFree_encode_name {f : List Char} (hname : isName f = true) :
    SeparatorFree (encode f) :=
  separatorFree_encode (not_mem_of_isName hname (by decide)) (not_mem_of_isName hname (by decide))

theorem separatorFree_encode_token {cs : List Char} (h : IsToken cs) :
    SeparatorFree (encode cs) :=
  separatorFree_encode (h.not_mem (by decide) (by decide)) (h.not_mem (by decide) (by decide))

section Digits

theorem separatorFree_encode_digits {cs : List Char} (h : ∀ c ∈ cs, isDecimalDigit c = true) :
    SeparatorFree (encode cs) := by
  refine separatorFree_encode ?_ ?_ <;>
  · intro hmem
    exact absurd (h _ hmem) (by decide)

theorem encode_prefix_untilSeparator_iff {cs : List Char} (h : SeparatorFree (encode cs))
    {text : Bytes} : encode cs <+: untilSeparator text ↔ encode cs <+: text := by
  constructor
  · intro hstart
    exact hstart.trans (List.takeWhile_prefix _)
  · rintro ⟨rest, rfl⟩
    rw [untilSeparator_append_of_separatorFree h]
    exact List.prefix_append _ _

theorem spanDigits_untilSeparator (text : Bytes) :
    digits (untilSeparator text) = digits text ∧
      afterDigits (untilSeparator text) = untilSeparator (afterDigits text) := by
  obtain ⟨cs, rest, rfl, hcs, hrest, hspan⟩ := exists_spanChars isDecimalDigit text
  have hstop : ¬ StartsWith isDecimalDigit (untilSeparator rest) := by
    rintro ⟨c, more, hc, hmore⟩
    have hstart : encode [c] <+: untilSeparator rest := ⟨more, by simp [encode_cons, hmore]⟩
    have hfree : SeparatorFree (encode [c]) := separatorFree_encode_digits (by simpa using hc)
    obtain ⟨more', hmore'⟩ := (encode_prefix_untilSeparator_iff hfree).mp hstart
    exact hrest ⟨c, more', hc, by simp [← hmore', encode_cons]⟩
  have huntil := spanChars_encode_append hcs (untilSeparator rest)
  rw [spanChars_of_not_startsWith hstop, List.append_nil] at huntil
  simp only [digits, afterDigits, hspan,
    untilSeparator_append_of_separatorFree (separatorFree_encode_digits hcs), huntil, and_self]

theorem digits_congr {text text' : Bytes} (h : untilSeparator text = untilSeparator text') :
    digits text = digits text' := by
  rw [← (spanDigits_untilSeparator text).1, h, (spanDigits_untilSeparator text').1]

theorem untilSeparator_afterDigits_congr {text text' : Bytes}
    (h : untilSeparator text = untilSeparator text') :
    untilSeparator (afterDigits text) = untilSeparator (afterDigits text') := by
  rw [← (spanDigits_untilSeparator text).2, h, (spanDigits_untilSeparator text').2]

theorem separatorFree_digits (text : Bytes) : SeparatorFree (digits text) := by
  obtain ⟨cs, rest, -, hcs, -, hspan⟩ := exists_spanChars isDecimalDigit text
  rw [digits, hspan]
  exact separatorFree_encode_digits hcs

theorem untilSeparator_eq_digits_append (text : Bytes) :
    untilSeparator text = digits text ++ untilSeparator (afterDigits text) := by
  rw [← untilSeparator_append_of_separatorFree (separatorFree_digits text),
    digits_append_afterDigits]

theorem pointNumber?_eq_none_iff {text : Bytes} :
    pointNumber? text = none ↔ ∀ c, isDecimalDigit c = true → ¬ encode ['.', c] <+: text := by
  constructor
  · rintro h c hc ⟨rest, rfl⟩
    have hnumber : IsNumber [c] := ⟨by simp, by simpa using hc⟩
    simp [pointNumber?_encode_append hnumber] at h
  · intro h
    by_contra hne
    obtain ⟨⟨written, rest⟩, hsome⟩ := Option.ne_none_iff_exists'.mp hne
    obtain ⟨cs, ⟨hcs, hdigits⟩, -, rfl, -⟩ := exists_of_pointNumber?_eq_some hsome
    obtain ⟨c, cs, rfl⟩ := List.exists_cons_of_ne_nil hcs
    refine h c (hdigits c (by simp)) ⟨encode cs ++ rest, by simp [encode_cons]⟩

theorem pointNumber?_congr {text text' : Bytes} (h : untilSeparator text = untilSeparator text') :
    pointNumber? text = none ↔ pointNumber? text' = none := by
  simp only [pointNumber?_eq_none_iff]
  refine forall_congr' fun c => imp_congr_right fun hc => not_congr ?_
  have hfree : SeparatorFree (encode ['.', c]) := by
    refine separatorFree_encode ?_ ?_ <;>
    · intro hmem
      rcases List.mem_cons.mp hmem with heq | hmem
      · exact absurd heq (by decide)
      · obtain rfl := List.mem_singleton.mp hmem
        exact absurd hc (by decide)
  rw [← encode_prefix_untilSeparator_iff hfree, h, encode_prefix_untilSeparator_iff hfree]

theorem reads_congr {cs : List Char} {text text' : Bytes} (h : Reads cs text)
    (huntil : untilSeparator text = untilSeparator text') : Reads cs text' := by
  have hnumber (hnone : number? text = none) : number? text' = none := by
    rwa [number?_eq_none_iff, ← digits_congr huntil, ← number?_eq_none_iff]
  cases h with
  | unstable => exact .unstable
  | minor ha hb hrest hpoint =>
    exact .minor ha hb (hnumber hrest) ((pointNumber?_congr huntil).mp hpoint)
  | patch ha hb hc hrest => exact .patch ha hb hc (hnumber hrest)

end Digits

theorem read?_eq_some_iff {function text rest : Bytes} {reference : TagReference} :
    read? function text = some (reference, rest) ↔
      isSeparator reference.separator = true ∧ ∃ cs, Reads cs rest ∧ reference.token = encode cs ∧
        text = function ++ reference.separator :: (encode cs ++ rest) := by
  constructor
  · intro h
    unfold read? at h
    split at h
    · rename_i separator after hafter
      split at h
      · rename_i hseparator
        obtain ⟨⟨token, rest'⟩, hread, heq⟩ := Option.map_eq_some_iff.mp h
        obtain ⟨rfl, rfl⟩ := Prod.mk.inj heq
        obtain ⟨cs, hreads, rfl, rfl⟩ := VersionToken.read?_eq_some_iff.mp hread
        exact ⟨hseparator, cs, hreads, rfl, after?_eq_some_iff.mp hafter⟩
      · cases h
    · cases h
  · obtain ⟨separator, token⟩ := reference
    rintro ⟨hseparator, cs, hreads, rfl, rfl⟩
    have hread := VersionToken.read?_eq_some_iff.mpr ⟨cs, hreads, rfl, rfl⟩
    simp only at hseparator
    simp [read?, hseparator, hread]

theorem read?_ne_none_iff {function text : Bytes} :
    read? function text ≠ none ↔ ∃ separator cs rest, isSeparator separator = true ∧ IsToken cs ∧
      text = function ++ separator :: (encode cs ++ rest) := by
  constructor
  · intro h
    obtain ⟨⟨reference, rest⟩, hread⟩ := Option.ne_none_iff_exists'.mp h
    obtain ⟨hseparator, cs, hreads, -, rfl⟩ := read?_eq_some_iff.mp hread
    exact ⟨_, cs, rest, hseparator, hreads.isToken, rfl⟩
  · rintro ⟨separator, cs, rest, hseparator, htoken, rfl⟩
    obtain ⟨⟨token, after⟩, hread⟩ := Option.ne_none_iff_exists'.mp
      (VersionToken.read?_ne_none_iff.mpr ⟨cs, htoken, List.prefix_append _ rest⟩)
    simp [read?, hseparator, hread]

section Function

variable {f : List Char} (hname : isName f = true)
include hname

theorem read?_append_function {front rest : Bytes} (hne : front ≠ []) {separator : UInt8}
    (hseparator : isSeparator separator = true)
    (h : read? (encode f) (front ++ (encode f ++ separator :: rest)) ≠ none) (rest' : Bytes) :
    read? (encode f) (front ++ (encode f ++ rest')) ≠ none := by
  obtain ⟨d, cs, after, hd, htoken, htext⟩ := read?_ne_none_iff.mp h
  have hfree (bytes : Bytes) (hbytes : SeparatorFree bytes) : separator ∉ bytes := fun hmem => by
    simp [hbytes separator hmem] at hseparator
  have hwhole : (front ++ encode f) ++ separator :: rest =
      (encode f ++ d :: encode cs) ++ after := by simpa using htext
  refine read?_ne_none_iff.mpr ?_
  rcases List.append_eq_append_iff.mp hwhole with ⟨inner, hreference, htail⟩ | ⟨inner, hfront, -⟩
  · cases inner with
    | nil =>
      refine ⟨d, cs, rest', hd, htoken, ?_⟩
      rw [← List.append_assoc, ← List.append_nil (front ++ encode f), ← hreference]
      simp
    | cons byte inner =>
      obtain ⟨rfl, -⟩ := List.cons.inj htail
      obtain ⟨hfront, -⟩ := (List.append_cons_inj_of_notMem
        (hfree _ (separatorFree_encode_name hname))
        (hfree _ (separatorFree_encode_token htoken))).mp hreference
      exact absurd (List.self_eq_append_left.mp hfront) hne
  · refine ⟨d, cs, inner ++ rest', hd, htoken, ?_⟩
    rw [← List.append_assoc, hfront]
    simp

/-- What the scan skips in front of a function name and a separator does not depend on what
follows the separator. -/
theorem skips_function {skipped : Bytes} {separator : UInt8}
    (hseparator : isSeparator separator = true) {rest : Bytes}
    (h : (kind (encode f)).Skips skipped (encode f ++ rest)) (rest' : Bytes) :
    (kind (encode f)).Skips skipped (encode f ++ separator :: rest') := by
  intro front hne hfront
  by_contra hread
  exact absurd (h front hne hfront) (read?_append_function hname hne hseparator hread rest)

end Function

section Scan

variable {function version : Bytes}

/-- Induction along the scan for tag references. -/
theorem tag_induction (function : Bytes) {motive : Bytes → Prop}
    (skip : ∀ text, (kind function).Skips text [] → motive text)
    (find : ∀ skipped separator cs rest, isSeparator separator = true → Reads cs rest →
      (kind function).Skips skipped (function ++ separator :: (encode cs ++ rest)) →
      motive rest → motive (skipped ++ (function ++ separator :: (encode cs ++ rest))))
    (text : Bytes) : motive text := by
  refine (kind function).scan_induction skip ?_ text
  intro skipped tail reference rest hskips _ hread ih
  obtain ⟨hseparator, cs, hreads, -, rfl⟩ := read?_eq_some_iff.mp hread
  exact find skipped _ cs rest hseparator hreads hskips ih

variable {skipped rest : Bytes} {separator : UInt8} {cs : List Char}

theorem read?_reference (hseparator : isSeparator separator = true) (hreads : Reads cs rest) :
    (kind function).read? (function ++ separator :: (encode cs ++ rest)) =
      some (⟨separator, encode cs⟩, rest) :=
  read?_eq_some_iff.mpr ⟨hseparator, cs, hreads, rfl, rfl⟩

theorem refresh_of_skips {text : Bytes} (h : (kind function).Skips text []) :
    refresh function version text = text :=
  ReferenceKind.substitute_of_skips h

theorem refresh_append (hseparator : isSeparator separator = true) (hreads : Reads cs rest)
    (hskips : (kind function).Skips skipped (function ++ separator :: (encode cs ++ rest))) :
    refresh function version (skipped ++ (function ++ separator :: (encode cs ++ rest))) =
      skipped ++ (function ++ separator :: (version ++ refresh function version rest)) := by
  unfold refresh
  rw [ReferenceKind.substitute_append_of_skips hskips,
    ReferenceKind.substitute_of_read?_eq_some (read?_reference hseparator hreads) (by simp)]
  simp

theorem finds_append_iff (hseparator : isSeparator separator = true) (hreads : Reads cs rest)
    (hskips : (kind function).Skips skipped (function ++ separator :: (encode cs ++ rest)))
    {before after : Bytes} {reference : TagReference} :
    (kind function).Finds (skipped ++ (function ++ separator :: (encode cs ++ rest))) before
        reference after ↔
      before = skipped ∧ reference = ⟨separator, encode cs⟩ ∧ after = rest ∨
        ∃ inner, before = skipped ++ (function ++ separator :: (encode cs ++ inner)) ∧
          (kind function).Finds rest inner reference after := by
  rw [ReferenceKind.finds_append_iff hskips (read?_reference hseparator hreads) (by simp)]
  simp [kind]

theorem forall_finds_append_iff {P : Bytes → TagReference → Bytes → Prop}
    (hseparator : isSeparator separator = true) (hreads : Reads cs rest)
    (hskips : (kind function).Skips skipped (function ++ separator :: (encode cs ++ rest)))
    (hP : ∀ inner reference after,
      P (skipped ++ (function ++ separator :: (encode cs ++ inner))) reference after ↔
        P inner reference after) :
    (∀ before reference after, (kind function).Finds
        (skipped ++ (function ++ separator :: (encode cs ++ rest))) before reference after →
        P before reference after) ↔
      P skipped ⟨separator, encode cs⟩ rest ∧
        ∀ before reference after, (kind function).Finds rest before reference after →
          P before reference after :=
  ReferenceKind.forall_finds_append_iff hskips (read?_reference hseparator hreads) (by simp)
    fun inner reference after => by simpa [kind] using hP inner reference after

theorem untilSeparator_refresh (text : Bytes) :
    untilSeparator (refresh function version text) = untilSeparator text := by
  induction text using tag_induction function with
  | skip text hskips => rw [refresh_of_skips hskips]
  | find skipped separator cs rest hseparator hreads hskips _ =>
    rw [refresh_append hseparator hreads hskips, ← List.append_assoc, ← List.append_assoc,
      untilSeparator_append_cons hseparator, untilSeparator_append_cons hseparator]

end Scan

end TagReference

end ReleaseDocs
