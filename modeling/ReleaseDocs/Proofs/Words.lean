import ReleaseDocs.Proofs.PackageScan

namespace ReleaseDocs

def BlankFree (text : Bytes) : Prop :=
  ∀ front, front <:+ text → ¬ StartsWith isBlank front

theorem BlankFree.of_suffix {text back : Bytes} (h : BlankFree text) (hback : back <:+ text) :
    BlankFree back :=
  fun front hfront => h front (hfront.trans hback)

theorem blankFree_nil : BlankFree [] := by
  intro front hfront
  rw [List.suffix_nil.mp hfront]
  exact not_startsWith_nil isBlank

theorem blankFree_cons_iff {byte : UInt8} {text : Bytes} :
    BlankFree (byte :: text) ↔ ¬ StartsWith isBlank (byte :: text) ∧ BlankFree text := by
  constructor
  · intro h
    exact ⟨h _ List.suffix_rfl, h.of_suffix (List.suffix_cons _ _)⟩
  · rintro ⟨hstart, htext⟩ front hfront
    rcases List.suffix_cons_iff.mp hfront with rfl | hfront
    · exact hstart
    · exact htext front hfront

theorem blankFree_append_char_iff {c : Char} (hc : isBlank c = false) {front rest : Bytes} :
    BlankFree (front ++ (String.utf8EncodeChar c ++ rest)) ↔ BlankFree front ∧ BlankFree rest := by
  constructor
  · intro h
    refine ⟨fun back hback hstart => ?_, h.of_suffix ⟨front ++ String.utf8EncodeChar c, by simp⟩⟩
    refine h (back ++ (String.utf8EncodeChar c ++ rest)) ?_ (hstart.append _)
    obtain ⟨before, rfl⟩ := hback
    exact ⟨before, by simp⟩
  · rintro ⟨hfront, hrest⟩ back ⟨before, hbefore⟩ hstart
    rcases List.append_eq_append_iff.mp hbefore with ⟨inner, rfl, rfl⟩ | ⟨inner, -, hback⟩
    · rw [startsWith_append_iff hc] at hstart
      exact hfront inner (List.suffix_append _ _) hstart
    · rcases List.append_eq_append_iff.mp hback with ⟨more, -, rfl⟩ | ⟨more, hchar, rfl⟩
      · exact hrest back (List.suffix_append _ _) hstart
      · by_cases hne : more = []
        · subst hne
          exact hrest rest List.suffix_rfl hstart
        · obtain ⟨d, rest', hd, heq⟩ := hstart
          have hnot : d ∉ [c] := by
            intro hmem
            simp [List.mem_singleton.mp hmem, hc] at hd
          have hmore : more <:+ encode [c] := ⟨inner, by simp [encode_cons, hchar]⟩
          exact ne_encode_append_of_suffix hnot hne hmore rest rest' heq

theorem blankFree_append_encode_iff {cs : List Char} (hne : cs ≠ [])
    (hcs : ∀ c ∈ cs, isBlank c = false) {front rest : Bytes} :
    BlankFree (front ++ (encode cs ++ rest)) ↔ BlankFree front ∧ BlankFree rest := by
  induction cs generalizing front with
  | nil => exact absurd rfl hne
  | cons c cs ih =>
    obtain ⟨hc, hcs⟩ := List.forall_mem_cons.mp hcs
    rw [encode_cons, List.append_assoc, blankFree_append_char_iff hc]
    cases cs with
    | nil => rfl
    | cons d cs =>
      have hback : BlankFree ([] ++ (encode (d :: cs) ++ rest)) ↔ _ := ih (by simp) hcs
      rw [List.nil_append, and_iff_right blankFree_nil] at hback
      rw [hback]

theorem blankFree_encode {cs : List Char} (hcs : ∀ c ∈ cs, isBlank c = false) :
    BlankFree (encode cs) := by
  cases cs with
  | nil => exact blankFree_nil
  | cons c cs =>
    have hall : BlankFree ([] ++ (encode (c :: cs) ++ [])) ↔ _ :=
      blankFree_append_encode_iff (by simp) hcs
    rw [List.nil_append, List.append_nil] at hall
    exact hall.mpr ⟨blankFree_nil, blankFree_nil⟩

theorem exists_first_word (text : Bytes) :
    BlankFree text ∨ ∃ word c rest, BlankFree word ∧ isBlank c = true ∧
      text = word ++ (String.utf8EncodeChar c ++ rest) := by
  induction text with
  | nil => exact Or.inl blankFree_nil
  | cons byte text ih =>
    by_cases hstart : StartsWith isBlank (byte :: text)
    · obtain ⟨c, rest, hc, htext⟩ := hstart
      exact Or.inr ⟨[], c, rest, blankFree_nil, hc, htext⟩
    · rcases ih with hfree | ⟨word, c, rest, hword, hc, rfl⟩
      · exact Or.inl (blankFree_cons_iff.mpr ⟨hstart, hfree⟩)
      · refine Or.inr ⟨byte :: word, c, rest, blankFree_cons_iff.mpr ⟨?_, hword⟩, hc, rfl⟩
        intro hword
        exact hstart (hword.append _)

/-- Induction over the words of a text. -/
theorem word_induction {motive : Bytes → Prop}
    (last : ∀ word, BlankFree word → motive word)
    (append : ∀ word c rest, BlankFree word → isBlank c = true → motive rest →
      motive (word ++ (String.utf8EncodeChar c ++ rest)))
    (text : Bytes) : motive text := by
  rcases exists_first_word text with hfree | ⟨word, c, rest, hword, hc, htext⟩
  · exact last text hfree
  · rw [htext]
    exact append word c rest hword hc (word_induction last append rest)
termination_by text.length
decreasing_by
  have hpos := c.utf8Size_pos
  simp only [htext, List.length_append, String.length_utf8EncodeChar]
  omega

namespace PackageReference

theorem startsWith_of_ends_append {front rest : Bytes} (hne : front ≠ [])
    (hrest : Ends rest) (h : Ends (front ++ rest)) : StartsWith isBlank front := by
  rcases h with hnil | ⟨c, more, hc, heq⟩
  · exact absurd (List.append_eq_nil_iff.mp hnil).1 hne
  · rcases hrest with rfl | ⟨d, back, -, rfl⟩
    · exact ⟨c, more, hc, by simpa using heq⟩
    · have hcode : encode [c] ++ more = front ++ (String.utf8EncodeChar d ++ back) := by
        simpa [encode_cons] using heq.symm
      rcases exists_of_encode_append_eq hcode with ⟨inner, rfl⟩ | ⟨left, right, hcs, rfl⟩
      · exact ⟨c, inner, hc, by simp [encode_cons]⟩
      · -- the character behind the text would be its first one
        rcases List.singleton_eq_append_iff.mp hcs with ⟨rfl, -⟩ | ⟨-, hnil⟩
        · exact absurd rfl hne
        · cases hnil

theorem append_inj_of_ends {word word' rest rest' : Bytes} (hword : BlankFree word)
    (hword' : BlankFree word') (hrest : Ends rest) (hrest' : Ends rest')
    (h : word ++ rest = word' ++ rest') : word = word' ∧ rest = rest' := by
  have hinner {inner back : Bytes} {all : Bytes} (hall : BlankFree all) (hsuffix : inner <:+ all)
      (hback : Ends back) (hends : Ends (inner ++ back)) : inner = [] := by
    by_contra hne
    exact hall inner hsuffix (startsWith_of_ends_append hne hback hends)
  rcases List.append_eq_append_iff.mp h with ⟨inner, rfl, rfl⟩ | ⟨inner, rfl, rfl⟩
  · simp [hinner hword' (List.suffix_append _ _) hrest' hrest]
  · simp [hinner hword (List.suffix_append _ _) hrest hrest']

def EndsInExample (directory : Bytes) (names : List Bytes) (text : Bytes) : Prop :=
  ∃ name ∈ names, directory ++ name <:+ text

instance (directory : Bytes) (names : List Bytes) (text : Bytes) :
    Decidable (EndsInExample directory names text) :=
  inferInstanceAs (Decidable (∃ name ∈ names, directory ++ name <:+ text))

/-- A directory whose address does not start with white space, and names with which it makes up a
word each. -/
structure IsPlain (directory : Bytes) (names : List Bytes) : Prop where
  first : ∃ c rest, isBlank c = false ∧ directory = String.utf8EncodeChar c ++ rest
  word : ∀ name ∈ names, BlankFree (directory ++ name)

variable {directory : Bytes} {names : List Bytes} (h : IsPlain directory names)
include h

theorem read?_word_ne_none_iff {word rest : Bytes} (hword : BlankFree word) (hrest : Ends rest) :
    read? directory names (word ++ rest) ≠ none ↔ ∃ name ∈ names, word = directory ++ name := by
  rw [read?_ne_none_iff]
  constructor
  · rintro ⟨name, hname, after, heq, hafter⟩
    rw [← List.append_assoc] at heq
    exact ⟨name, hname, (append_inj_of_ends hword (h.word name hname) hrest hafter heq).1⟩
  · rintro ⟨name, hname, rfl⟩
    exact ⟨name, hname, rest, by simp, hrest⟩

theorem skips_blank {blank : List Char} (hblank : ∀ c ∈ blank, isBlank c = true) (rest : Bytes) :
    (kind directory names).Skips (encode blank) rest := by
  obtain ⟨c, more, hc, hdirectory⟩ := h.first
  refine ReferenceKind.skips_encode (c := c) (fun hmem => ?_) (fun text hread => ?_) rest
  · simp [hblank c hmem] at hc
  · obtain ⟨name, -, after, rfl, -⟩ := read?_ne_none_iff.mp hread
    exact ⟨_, by rw [hdirectory, List.append_assoc]⟩

theorem refresh_blank_append {blank : List Char} (hblank : ∀ c ∈ blank, isBlank c = true)
    (pin rest : Bytes) :
    refresh directory names pin (encode blank ++ rest) =
      encode blank ++ refresh directory names pin rest :=
  ReferenceKind.substitute_append_of_skips (skips_blank h hblank rest)

/-- A word gets a pin exactly if it ends in the location of an example. -/
theorem refresh_word_append (pin : Bytes) {word rest : Bytes} (hword : BlankFree word)
    (hrest : Ends rest) :
    refresh directory names pin (word ++ rest) =
      word ++ ((if EndsInExample directory names word then pin else []) ++
        refresh directory names pin rest) := by
  induction word with
  | nil =>
    have hnot : ¬ EndsInExample directory names [] := by
      rintro ⟨name, -, hsuffix⟩
      obtain ⟨c, more, -, rfl⟩ := h.first
      simp at hsuffix
    rw [if_neg hnot]
    rfl
  | cons byte word ih =>
    have hends : EndsInExample directory names (byte :: word) ↔
        (∃ name ∈ names, byte :: word = directory ++ name) ∨
          EndsInExample directory names word := by
      simp only [EndsInExample, List.suffix_cons_iff, ← exists_or, ← and_or_left, eq_comm]
    have hread := read?_word_ne_none_iff h hword hrest
    cases hfound : read? directory names (byte :: word ++ rest) with
    | none =>
      have hnot := hread.not.mp (not_not.mpr hfound)
      have hback := ih (blankFree_cons_iff.mp hword).2
      simp only [hends, hnot, false_or]
      rw [refresh] at hback ⊢
      rw [List.cons_append, ReferenceKind.substitute_cons_of_read?_eq_none hfound, hback]
      rfl
    | some found =>
      obtain ⟨reference, after⟩ := found
      obtain ⟨blank, hblank, hall, hafter, hmem, heq⟩ := exists_of_read?_eq_some hfound
      have hback : Ends (encode blank ++ after) := by
        cases blank with
        | nil => exact Or.inl (hafter rfl)
        | cons c blank =>
          refine Or.inr ⟨c, encode blank ++ after, hall c (by simp), ?_⟩
          rw [encode_cons, List.append_assoc]
      rw [← List.append_assoc] at heq
      obtain ⟨hlocation, rfl⟩ := append_inj_of_ends hword (h.word _ hmem) hrest hback heq
      rw [if_pos (hends.mpr (Or.inl ⟨_, hmem, hlocation⟩)), refresh_blank_append h hall, refresh,
        ReferenceKind.substitute_of_read?_eq_some hfound (by simp), hlocation, hblank]
      simp [refresh]

end PackageReference

end ReleaseDocs
