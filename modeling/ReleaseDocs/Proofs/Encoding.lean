import ReleaseDocs.Text.Utf8

/-!
The UTF-8 form of a list of characters inside a text of any bytes.

A form can only be cut where a character starts, so a form in which a character does not occur
never reaches over that character (`encode_prefix_of_not_mem`).
-/

namespace ReleaseDocs

def encode (cs : List Char) : Bytes :=
  cs.flatMap String.utf8EncodeChar

@[simp] theorem encode_nil : encode [] = [] := rfl

theorem encode_cons (c : Char) (cs : List Char) :
    encode (c :: cs) = String.utf8EncodeChar c ++ encode cs := rfl

@[simp] theorem encode_append (cs ds : List Char) : encode (cs ++ ds) = encode cs ++ encode ds :=
  List.flatMap_append

@[simp] theorem encode_eq_nil_iff {cs : List Char} : encode cs = [] ↔ cs = [] := by
  cases cs <;> simp [encode_cons]

theorem utf8EncodeChar_append_inj {c d : Char} {rest rest' : Bytes}
    (h : String.utf8EncodeChar c ++ rest = String.utf8EncodeChar d ++ rest') :
    c = d ∧ rest = rest' := by
  have hfirst := firstChar?_eq_some_iff.mpr h
  rw [firstChar?_eq_some_iff.mpr rfl] at hfirst
  simpa using hfirst

theorem encode_injective {cs ds : List Char} (h : encode cs = encode ds) : cs = ds := by
  induction cs generalizing ds with
  | nil => exact (encode_eq_nil_iff.mp h.symm).symm
  | cons c cs ih =>
      cases ds with
      | nil => simp [encode_cons] at h
      | cons d ds =>
          obtain ⟨rfl, hrest⟩ := utf8EncodeChar_append_inj h
          rw [ih hrest]

/-- A byte that starts a character in front of the text, unless the text is empty. -/
def AtBoundary (text : Bytes) : Prop :=
  ∀ byte ∈ text.head?, byte.IsUTF8FirstByte

theorem atBoundary_utf8EncodeChar_append (c : Char) (rest : Bytes) :
    AtBoundary (String.utf8EncodeChar c ++ rest) := by
  intro byte hbyte
  have hne : String.utf8EncodeChar c ≠ [] := by simp
  obtain ⟨first, more, hcode⟩ := List.exists_cons_of_ne_nil hne
  have hget := UInt8.isUTF8FirstByte_getElem_zero_utf8EncodeChar (c := c)
  simp only [hcode, List.getElem_cons_zero] at hget
  rw [hcode, List.cons_append, List.head?_cons, Option.mem_some_iff] at hbyte
  exact hbyte ▸ hget

theorem encode_eq_append {cs : List Char} {front back : Bytes} (h : encode cs = front ++ back)
    (hback : AtBoundary back) : ∃ left right, cs = left ++ right ∧ front = encode left ∧
      back = encode right := by
  induction cs generalizing front with
  | nil =>
      obtain ⟨rfl, rfl⟩ := List.append_eq_nil_iff.mp h.symm
      exact ⟨[], [], rfl, rfl, rfl⟩
  | cons c cs ih =>
      rw [encode_cons] at h
      rcases List.append_eq_append_iff.mp h with ⟨inner, rfl, hrest⟩ | ⟨inner, hchar, rfl⟩
      · obtain ⟨left, right, rfl, rfl, rfl⟩ := ih hrest
        exact ⟨c :: left, right, rfl, rfl, rfl⟩
      · cases inner with
        | nil => exact ⟨[c], cs, rfl, by simpa [encode_cons] using hchar.symm, rfl⟩
        | cons byte inner =>
          have hlength : front.length < (String.utf8EncodeChar c).length := by simp [hchar]
          have hget : (String.utf8EncodeChar c)[front.length] = byte := by simp [hchar]
          have hfirst : byte.IsUTF8FirstByte := hback byte rfl
          rw [← hget, UInt8.isUTF8FirstByte_getElem_utf8EncodeChar] at hfirst
          obtain rfl := List.length_eq_zero_iff.mp hfirst
          exact ⟨[], c :: cs, rfl, rfl, by simp [encode_cons, hchar]⟩

/-- Where a form reaches over a place at which a character starts, that character is in it. -/
theorem exists_of_encode_append_eq {cs : List Char} {d : Char} {front rest rest' : Bytes}
    (h : encode cs ++ rest' = front ++ (String.utf8EncodeChar d ++ rest)) :
    (∃ inner, front = encode cs ++ inner) ∨
      ∃ left right, cs = left ++ d :: right ∧ front = encode left := by
  rcases List.append_eq_append_iff.mp h with ⟨inner, hfront, -⟩ | ⟨back, hcs, hback⟩
  · exact Or.inl ⟨inner, hfront⟩
  · cases back with
    | nil => exact Or.inl ⟨[], by simpa using hcs.symm⟩
    | cons byte back =>
      have hboundary : AtBoundary (byte :: back) := by
        have hall := atBoundary_utf8EncodeChar_append d rest
        rw [hback] at hall
        exact hall
      obtain ⟨left, right, rfl, rfl, hright⟩ := encode_eq_append hcs hboundary
      cases right with
      | nil => simp at hright
      | cons c right =>
        rw [hright, encode_cons, List.append_assoc] at hback
        obtain ⟨rfl, -⟩ := utf8EncodeChar_append_inj hback
        exact Or.inr ⟨left, right, rfl, rfl⟩

theorem encode_prefix_of_not_mem {cs : List Char} {d : Char} {front rest : Bytes} (hd : d ∉ cs)
    (h : encode cs <+: front ++ (String.utf8EncodeChar d ++ rest)) : encode cs <+: front := by
  obtain ⟨rest', heq⟩ := h
  rcases exists_of_encode_append_eq heq with ⟨inner, rfl⟩ | ⟨left, right, rfl, -⟩
  · exact List.prefix_append _ _
  · simp at hd

theorem mem_of_encode_eq {cs : List Char} {d : Char} {front rest : Bytes}
    (h : encode cs = front ++ (String.utf8EncodeChar d ++ rest)) : d ∈ cs := by
  rcases exists_of_encode_append_eq ((List.append_nil _).trans h) with
    ⟨inner, rfl⟩ | ⟨left, right, rfl, -⟩
  · have hlength := congrArg List.length h
    have hpos := d.utf8Size_pos
    simp only [List.length_append, String.length_utf8EncodeChar] at hlength
    omega
  · simp

theorem not_mem_encode {cs : List Char} {c : Char} {byte : UInt8}
    (hbyte : String.utf8EncodeChar c = [byte]) (hc : c ∉ cs) : byte ∉ encode cs := by
  intro hmem
  obtain ⟨front, rest, hsplit⟩ := List.append_of_mem hmem
  have hform : encode cs = front ++ (String.utf8EncodeChar c ++ rest) := by
    rw [hbyte]
    exact hsplit
  exact hc (mem_of_encode_eq hform)

theorem atBoundary_encode {cs : List Char} : AtBoundary (encode cs) := by
  cases cs with
  | nil =>
      intro byte hbyte
      simp at hbyte
  | cons c cs => exact atBoundary_utf8EncodeChar_append c _

theorem AtBoundary.of_append {front rest : Bytes} (h : AtBoundary (front ++ rest))
    (hne : front ≠ []) : AtBoundary front := by
  obtain ⟨byte, front, rfl⟩ := List.exists_cons_of_ne_nil hne
  exact h

/-- A text that starts inside a form starts with one of its characters or inside one. -/
theorem ne_encode_append_of_suffix {cs : List Char} {c : Char} {front : Bytes} (hc : c ∉ cs)
    (hne : front ≠ []) (hfront : front <:+ encode cs) (rest rest' : Bytes) :
    front ++ rest ≠ String.utf8EncodeChar c ++ rest' := by
  intro heq
  have hboundary : AtBoundary (front ++ rest) := heq ▸ atBoundary_utf8EncodeChar_append c rest'
  obtain ⟨before, hbefore⟩ := hfront
  obtain ⟨left, right, rfl, -, rfl⟩ := encode_eq_append hbefore.symm (hboundary.of_append hne)
  rw [ne_eq, encode_eq_nil_iff] at hne
  obtain ⟨d, right, rfl⟩ := List.exists_cons_of_ne_nil hne
  rw [encode_cons, List.append_assoc] at heq
  obtain ⟨rfl, -⟩ := utf8EncodeChar_append_inj heq
  simp at hc

theorem encode_suffix_append_iff {cs : List Char} {d : Char} (hd : d ∉ cs) (front rest : Bytes) :
    encode cs <:+ front ++ (String.utf8EncodeChar d ++ rest) ↔ encode cs <:+ rest := by
  constructor
  · rintro ⟨before, hbefore⟩
    rw [← List.append_assoc] at hbefore
    rcases List.append_eq_append_iff.mp hbefore with ⟨inner, hreach, hcs⟩ | ⟨inner, -, hrest⟩
    · by_cases hne : inner = []
      · exact ⟨[], by simpa [hne] using hcs⟩
      · have hboundary : AtBoundary inner := AtBoundary.of_append (hcs ▸ atBoundary_encode) hne
        rcases List.append_eq_append_iff.mp hreach with ⟨start, -, hchar⟩ | ⟨start, -, rfl⟩
        · have hform : encode [d] = start ++ inner := by simpa [encode_cons] using hchar
          obtain ⟨left, right, hchars, rfl, rfl⟩ := encode_eq_append hform hboundary
          rcases List.singleton_eq_append_iff.mp hchars with ⟨-, rfl⟩ | ⟨-, rfl⟩
          · have hstart : encode cs = [] ++ (String.utf8EncodeChar d ++ rest) := by
              simpa [encode_cons] using hcs
            exact absurd (mem_of_encode_eq hstart) hd
          · exact absurd rfl hne
        · rw [List.append_assoc] at hcs
          exact absurd (mem_of_encode_eq hcs) hd
    · exact ⟨inner, hrest.symm⟩
  · rintro ⟨before, rfl⟩
    exact ⟨front ++ (String.utf8EncodeChar d ++ before), by simp⟩

theorem encode_suffix_encode_iff {cs ds : List Char} : encode cs <:+ encode ds ↔ cs <:+ ds := by
  constructor
  · rintro ⟨before, hbefore⟩
    obtain ⟨left, right, rfl, -, hright⟩ := encode_eq_append hbefore.symm atBoundary_encode
    rw [encode_injective hright]
    exact List.suffix_append _ _
  · rintro ⟨before, rfl⟩
    exact ⟨encode before, (encode_append _ _).symm⟩

theorem encode_suffix_encode_append_iff {cs ds : List Char} (hds : ∀ d ∈ ds, d ∉ cs)
    (rest : Bytes) : encode cs <:+ encode ds ++ rest ↔ encode cs <:+ rest := by
  induction ds with
  | nil => rfl
  | cons d ds ih =>
      obtain ⟨hd, hds⟩ := List.forall_mem_cons.mp hds
      rw [encode_cons, List.append_assoc, ← ih hds]
      exact encode_suffix_append_iff hd [] _

section Span

variable {p : Char → Bool}

def StartsWith (p : Char → Bool) (text : Bytes) : Prop :=
  ∃ c rest, p c = true ∧ text = String.utf8EncodeChar c ++ rest

theorem startsWith_iff_any_firstChar? {text : Bytes} :
    StartsWith p text ↔ ((firstChar? text).any fun found => p found.1) = true := by
  simp only [Option.any_eq_true, Prod.exists, firstChar?_eq_some_iff, StartsWith]
  constructor
  · rintro ⟨c, rest, hc, htext⟩
    exact ⟨c, rest, htext, hc⟩
  · rintro ⟨c, rest, htext, hc⟩
    exact ⟨c, rest, hc, htext⟩

instance (p : Char → Bool) (text : Bytes) : Decidable (StartsWith p text) :=
  decidable_of_iff _ startsWith_iff_any_firstChar?.symm

theorem not_startsWith_nil (p : Char → Bool) : ¬ StartsWith p [] := by
  rintro ⟨c, rest, -, h⟩
  simp at h

theorem startsWith_utf8EncodeChar_append {c : Char} {rest : Bytes} :
    StartsWith p (String.utf8EncodeChar c ++ rest) ↔ p c = true := by
  constructor
  · rintro ⟨d, rest', hd, h⟩
    obtain ⟨rfl, -⟩ := utf8EncodeChar_append_inj h
    exact hd
  · intro hc
    exact ⟨c, rest, hc, rfl⟩

theorem StartsWith.append {text : Bytes} (h : StartsWith p text) (rest : Bytes) :
    StartsWith p (text ++ rest) := by
  obtain ⟨c, more, hc, rfl⟩ := h
  exact ⟨c, more ++ rest, hc, by rw [List.append_assoc]⟩

theorem startsWith_append_iff {c : Char} (hc : p c = false) {front rest : Bytes} :
    StartsWith p (front ++ (String.utf8EncodeChar c ++ rest)) ↔ StartsWith p front := by
  constructor
  · rintro ⟨d, more, hd, h⟩
    have hne : c ∉ [d] := by
      intro hmem
      obtain rfl := List.mem_singleton.mp hmem
      simp [hc] at hd
    have hstart : encode [d] <+: front :=
      encode_prefix_of_not_mem hne ⟨more, by rw [h, encode_cons, encode_nil, List.append_nil]⟩
    obtain ⟨more', rfl⟩ := hstart
    exact ⟨d, more', hd, by rw [encode_cons, encode_nil, List.append_nil]⟩
  · intro h
    exact h.append _

theorem spanChars_of_not_startsWith {text : Bytes} (h : ¬ StartsWith p text) :
    spanChars p text = ([], text) := by
  rw [spanChars]
  split
  · rfl
  · rename_i c rest hfirst
    rw [if_neg]
    intro hc
    exact h ⟨c, rest, hc, firstChar?_eq_some_iff.mp hfirst⟩

theorem spanChars_encode_append {cs : List Char} (h : ∀ c ∈ cs, p c = true) (rest : Bytes) :
    spanChars p (encode cs ++ rest) =
      (encode cs ++ (spanChars p rest).1, (spanChars p rest).2) := by
  induction cs with
  | nil => rfl
  | cons c cs ih =>
      obtain ⟨hc, hcs⟩ := List.forall_mem_cons.mp h
      rw [encode_cons, List.append_assoc, spanChars]
      split
      · rename_i hfirst
        simp [firstChar?_eq_some_iff.mpr rfl] at hfirst
      · rename_i d rest' hfirst
        obtain ⟨rfl, rfl⟩ := utf8EncodeChar_append_inj (firstChar?_eq_some_iff.mp hfirst)
        rw [if_pos hc, ih hcs]
        simp

theorem exists_spanChars (p : Char → Bool) (text : Bytes) :
    ∃ cs rest, text = encode cs ++ rest ∧ (∀ c ∈ cs, p c = true) ∧ ¬ StartsWith p rest ∧
      spanChars p text = (encode cs, rest) := by
  by_cases hstarts : StartsWith p text
  · obtain ⟨c, rest, hc, rfl⟩ := hstarts
    have hlength : rest.length < (String.utf8EncodeChar c ++ rest).length := by
      have hpos := c.utf8Size_pos
      simp
      omega
    obtain ⟨cs, after, rfl, hcs, hafter, hspan⟩ := exists_spanChars p rest
    refine ⟨c :: cs, after, by simp [encode_cons], List.forall_mem_cons.mpr ⟨hc, hcs⟩, hafter, ?_⟩
    have hall : spanChars p (encode [c] ++ (encode cs ++ after)) = _ :=
      spanChars_encode_append (by simpa using hc) _
    simpa [encode_cons, hspan] using hall
  · exact ⟨[], text, rfl, by simp, hstarts, spanChars_of_not_startsWith hstarts⟩
termination_by text.length

end Span

end ReleaseDocs
