import ReleaseDocs.Proofs.Encoding
import ReleaseDocs.Reference.VersionToken

namespace ReleaseDocs.VersionToken

def IsNumber (cs : List Char) : Prop :=
  cs ≠ [] ∧ ∀ c ∈ cs, isDecimalDigit c = true

inductive IsToken : List Char → Prop
  | unstable : IsToken "unstable".toList
  | minor {a b : List Char} (ha : IsNumber a) (hb : IsNumber b) : IsToken ('v' :: (a ++ '.' :: b))
  | patch {a b c : List Char} (ha : IsNumber a) (hb : IsNumber b) (hc : IsNumber c) :
      IsToken ('v' :: (a ++ '.' :: (b ++ '.' :: c)))

/-- A token that is read in front of a text: numbers are read to their last digit, and a third
number wherever there is one. -/
inductive Reads : List Char → Bytes → Prop
  | unstable {rest : Bytes} : Reads "unstable".toList rest
  | minor {a b : List Char} {rest : Bytes} (ha : IsNumber a) (hb : IsNumber b)
      (hrest : number? rest = none) (hpoint : pointNumber? rest = none) :
      Reads ('v' :: (a ++ '.' :: b)) rest
  | patch {a b c : List Char} {rest : Bytes} (ha : IsNumber a) (hb : IsNumber b) (hc : IsNumber c)
      (hrest : number? rest = none) : Reads ('v' :: (a ++ '.' :: (b ++ '.' :: c))) rest

def digits (text : Bytes) : Bytes :=
  (spanChars isDecimalDigit text).1

def afterDigits (text : Bytes) : Bytes :=
  (spanChars isDecimalDigit text).2

theorem digits_append_afterDigits (text : Bytes) : digits text ++ afterDigits text = text :=
  spanChars_append isDecimalDigit text

theorem number?_eq_none_iff {text : Bytes} : number? text = none ↔ digits text = [] := by
  unfold number? digits
  split
  simp_all

theorem number?_encode_append {cs : List Char} (h : IsNumber cs) (rest : Bytes) :
    number? (encode cs ++ rest) = some (encode cs ++ digits rest, afterDigits rest) := by
  unfold number?
  rw [spanChars_encode_append h.2]
  simp [digits, afterDigits, h.1]

theorem exists_of_number?_eq_some {text written rest : Bytes}
    (h : number? text = some (written, rest)) :
    ∃ cs, IsNumber cs ∧ written = encode cs ∧ text = encode cs ++ rest ∧ number? rest = none := by
  obtain ⟨cs, after, rfl, hcs, hafter, hspan⟩ := exists_spanChars isDecimalDigit text
  unfold number? at h
  simp only [hspan] at h
  split at h
  · cases h
  · rename_i hne
    simp only [Option.some.injEq, Prod.mk.injEq] at h
    obtain ⟨rfl, rfl⟩ := h
    refine ⟨cs, ⟨by simpa using hne, hcs⟩, rfl, rfl, ?_⟩
    rw [number?_eq_none_iff, digits, spanChars_of_not_startsWith hafter]

theorem pointNumber?_encode_append {cs : List Char} (h : IsNumber cs) (rest : Bytes) :
    pointNumber? (encode ('.' :: cs) ++ rest) =
      some (encode ('.' :: cs) ++ digits rest, afterDigits rest) := by
  have hcode : encode ('.' :: cs) = 0x2E :: encode cs := rfl
  simp [hcode, pointNumber?, number?_encode_append h]

theorem exists_of_pointNumber?_eq_some {text written rest : Bytes}
    (h : pointNumber? text = some (written, rest)) :
    ∃ cs, IsNumber cs ∧ written = encode ('.' :: cs) ∧ text = encode ('.' :: cs) ++ rest ∧
      number? rest = none := by
  unfold pointNumber? at h
  split at h
  · obtain ⟨⟨found, after⟩, hfound, heq⟩ := Option.map_eq_some_iff.mp h
    obtain ⟨rfl, rfl⟩ := Prod.mk.inj heq
    obtain ⟨cs, hcs, rfl, rfl, hrest⟩ := exists_of_number?_eq_some hfound
    exact ⟨cs, hcs, rfl, rfl, hrest⟩
  · cases h

theorem digits_eq_nil_of_not_startsWith {text : Bytes} (h : ¬ StartsWith isDecimalDigit text) :
    digits text = [] := by
  rw [digits, spanChars_of_not_startsWith h]

theorem number?_eq_none_iff_not_startsWith {text : Bytes} :
    number? text = none ↔ ¬ StartsWith isDecimalDigit text := by
  rw [number?_eq_none_iff]
  constructor
  · rintro h ⟨c, rest, hc, rfl⟩
    have hspan : spanChars isDecimalDigit (encode [c] ++ rest) = _ :=
      spanChars_encode_append (by simpa using hc) rest
    simp only [encode_cons, encode_nil, List.append_nil] at hspan
    simp [digits, hspan] at h
  · exact digits_eq_nil_of_not_startsWith

theorem afterDigits_of_digits_eq_nil {text : Bytes} (h : digits text = []) :
    afterDigits text = text := by
  have happend := digits_append_afterDigits text
  rwa [h] at happend

theorem digits_point_append (text : Bytes) : digits (encode ['.'] ++ text) = [] := by
  refine digits_eq_nil_of_not_startsWith ?_
  rw [encode_cons, encode_nil, List.append_nil, startsWith_utf8EncodeChar_append]
  decide

theorem numbered?_minor_append {a b : List Char} (ha : IsNumber a) (hb : IsNumber b)
    (rest : Bytes) :
    numbered? (encode ('v' :: (a ++ '.' :: b)) ++ rest) =
      match pointNumber? (afterDigits rest) with
      | some (patch, after) =>
          some (encode ('v' :: (a ++ '.' :: b)) ++ digits rest ++ patch, after)
      | none => some (encode ('v' :: (a ++ '.' :: b)) ++ digits rest, afterDigits rest) := by
  have htext : encode ('v' :: (a ++ '.' :: b)) ++ rest =
      0x76 :: (encode a ++ (encode ('.' :: b) ++ rest)) := by
    rw [encode_cons, encode_append, List.append_assoc, List.append_assoc]
    rfl
  have hpoint : encode ('.' :: b) ++ rest = encode ['.'] ++ (encode b ++ rest) := by
    simp [encode_cons]
  have hmajor : number? (encode a ++ (encode ('.' :: b) ++ rest)) =
      some (encode a, encode ('.' :: b) ++ rest) := by
    rw [number?_encode_append ha, hpoint, digits_point_append,
      afterDigits_of_digits_eq_nil (digits_point_append _), List.append_nil]
  rw [htext]
  simp only [numbered?, hmajor, pointNumber?_encode_append hb, Option.bind_eq_bind,
    Option.bind_some]
  have hcode (more : Bytes) : (0x76 : UInt8) :: (encode a ++ (encode ('.' :: b) ++ more)) =
      encode ('v' :: (a ++ '.' :: b)) ++ more := by
    rw [encode_cons 'v', encode_append, List.append_assoc, List.append_assoc]
    rfl
  cases pointNumber? (afterDigits rest) with
  | none => simp [hcode]
  | some found => simp [hcode]

theorem read?_minor_append {a b : List Char} (ha : IsNumber a) (hb : IsNumber b) (rest : Bytes) :
    read? (encode ('v' :: (a ++ '.' :: b)) ++ rest) =
      match pointNumber? (afterDigits rest) with
      | some (patch, after) =>
          some (encode ('v' :: (a ++ '.' :: b)) ++ digits rest ++ patch, after)
      | none => some (encode ('v' :: (a ++ '.' :: b)) ++ digits rest, afterDigits rest) := by
  have hnone : after? unstable (encode ('v' :: (a ++ '.' :: b)) ++ rest) = none := rfl
  rw [read?, hnone, numbered?_minor_append ha hb]
  rfl

theorem read?_patch_append {a b c : List Char} (ha : IsNumber a) (hb : IsNumber b)
    (hc : IsNumber c) (rest : Bytes) :
    read? (encode ('v' :: (a ++ '.' :: (b ++ '.' :: c))) ++ rest) =
      some (encode ('v' :: (a ++ '.' :: (b ++ '.' :: c))) ++ digits rest, afterDigits rest) := by
  have htext : encode ('v' :: (a ++ '.' :: (b ++ '.' :: c))) ++ rest =
      encode ('v' :: (a ++ '.' :: b)) ++ (encode ['.'] ++ (encode c ++ rest)) := by
    simp [encode_cons]
  have hpoint : encode ['.'] ++ (encode c ++ rest) = encode ('.' :: c) ++ rest := by
    simp [encode_cons]
  rw [htext, read?_minor_append ha hb, digits_point_append,
    afterDigits_of_digits_eq_nil (digits_point_append _), hpoint, pointNumber?_encode_append hc]
  simp [encode_cons]

theorem exists_of_numbered?_eq_some {text token rest : Bytes}
    (h : numbered? text = some (token, rest)) :
    ∃ cs, Reads cs rest ∧ token = encode cs ∧ text = encode cs ++ rest := by
  unfold numbered? at h
  split at h
  · simp only [Option.bind_eq_bind, Option.bind_eq_some_iff] at h
    obtain ⟨⟨major, text₁⟩, hmajor, ⟨minor, text₂⟩, hminor, h⟩ := h
    obtain ⟨a, ha, rfl, rfl, -⟩ := exists_of_number?_eq_some hmajor
    obtain ⟨b, hb, rfl, rfl, hrest⟩ := exists_of_pointNumber?_eq_some hminor
    split at h
    · rename_i hpatch
      obtain ⟨c, hc, rfl, rfl, hlast⟩ := exists_of_pointNumber?_eq_some hpatch
      obtain ⟨rfl, rfl⟩ := Prod.mk.inj (Option.some.inj h)
      exact ⟨_, .patch ha hb hc hlast, by simp [encode_cons]; rfl, by simp [encode_cons]; rfl⟩
    · rename_i hpoint
      obtain ⟨rfl, rfl⟩ := Prod.mk.inj (Option.some.inj h)
      exact ⟨_, .minor ha hb hrest hpoint, by simp [encode_cons]; rfl, by simp [encode_cons]; rfl⟩
  · cases h

theorem read?_eq_some_iff {text token rest : Bytes} :
    read? text = some (token, rest) ↔
      ∃ cs, Reads cs rest ∧ token = encode cs ∧ text = encode cs ++ rest := by
  constructor
  · intro h
    unfold read? at h
    rcases Option.or_eq_some_iff.mp h with h | ⟨-, h⟩
    · obtain ⟨after, hafter, heq⟩ := Option.map_eq_some_iff.mp h
      obtain ⟨rfl, rfl⟩ := Prod.mk.inj heq
      exact ⟨_, .unstable, rfl, after?_eq_some_iff.mp hafter⟩
    · exact exists_of_numbered?_eq_some h
  · rintro ⟨cs, hreads, rfl, rfl⟩
    cases hreads with
    | unstable =>
      change ((after? unstable (unstable ++ rest)).map (unstable, ·)).or _ = some (unstable, rest)
      rw [after?_append]
      rfl
    | minor ha hb hrest hpoint =>
      have hdigits := number?_eq_none_iff.mp hrest
      rw [read?_minor_append ha hb, afterDigits_of_digits_eq_nil hdigits, hpoint, hdigits]
      simp
    | patch ha hb hc hrest =>
      have hdigits := number?_eq_none_iff.mp hrest
      rw [read?_patch_append ha hb hc, afterDigits_of_digits_eq_nil hdigits, hdigits]
      simp

theorem Reads.isToken {cs : List Char} {rest : Bytes} (h : Reads cs rest) : IsToken cs := by
  cases h with
  | unstable => exact .unstable
  | minor ha hb _ _ => exact .minor ha hb
  | patch ha hb hc _ => exact .patch ha hb hc

theorem Reads.inj {cs cs' : List Char} {rest rest' : Bytes} (h : Reads cs rest)
    (h' : Reads cs' rest') (heq : encode cs ++ rest = encode cs' ++ rest') :
    cs = cs' ∧ rest = rest' := by
  have hread := read?_eq_some_iff.mpr ⟨cs, h, rfl, rfl⟩
  rw [heq, read?_eq_some_iff.mpr ⟨cs', h', rfl, rfl⟩] at hread
  obtain ⟨hcs, rfl⟩ := Prod.mk.inj (Option.some.inj hread)
  exact ⟨(encode_injective hcs).symm, rfl⟩

theorem read?_ne_none_iff {text : Bytes} :
    read? text ≠ none ↔ ∃ cs, IsToken cs ∧ encode cs <+: text := by
  constructor
  · intro h
    obtain ⟨⟨token, rest⟩, hread⟩ := Option.ne_none_iff_exists'.mp h
    obtain ⟨cs, hreads, -, rfl⟩ := read?_eq_some_iff.mp hread
    exact ⟨cs, hreads.isToken, List.prefix_append _ _⟩
  · rintro ⟨cs, htoken, rest, rfl⟩
    cases htoken with
    | unstable =>
      have hreads : read? (encode "unstable".toList ++ rest) = _ :=
        read?_eq_some_iff.mpr ⟨_, .unstable, rfl, rfl⟩
      rw [hreads]
      simp
    | minor ha hb =>
      rw [read?_minor_append ha hb]
      split <;> simp
    | patch ha hb hc =>
      rw [read?_patch_append ha hb hc]
      simp

end ReleaseDocs.VersionToken
