import ReleaseDocs.Text.Reading

/-!
Texts as bytes. A documentation file may hold any bytes; where they are the UTF-8 form of a
character, that character can be read off the front.

`firstChar?_eq_some_iff` says that reading a character and writing one are inverse.
-/

namespace ReleaseDocs

/-- The content of a file. -/
abbrev Bytes := List UInt8

def utf8Bytes (text : String) : Bytes :=
  text.toList.flatMap String.utf8EncodeChar

def textOfBytes? (bytes : Bytes) : Option String :=
  String.fromUTF8? ⟨bytes.toArray⟩

theorem textOfBytes?_eq_some_iff {bytes : Bytes} {text : String} :
    textOfBytes? bytes = some text ↔ utf8Bytes text = bytes := by
  have hbytes : (⟨bytes.toArray⟩ : ByteArray) = bytes.toByteArray :=
    ByteArray.ext List.data_toByteArray.symm
  have htext : text.toByteArray = (utf8Bytes text).toByteArray := String.utf8Encode_toList.symm
  unfold textOfBytes? String.fromUTF8?
  rw [hbytes, ← List.toByteArray_inj, ← htext]
  split
  · rename_i hvalid
    rw [Option.some.injEq, ← String.toByteArray_inj]
    exact eq_comm
  · rename_i hinvalid
    refine iff_of_false (by simp) fun heq => hinvalid ?_
    exact heq ▸ text.isValidUTF8

/-- The number that the payload bits of the leading bytes make up, as many of them as the first
byte announces. -/
def leadingCode? : Bytes → Option Nat
  | [] => none
  | a :: text =>
      if a.toNat < 0x80 then some a.toNat
      else if a.toNat < 0xE0 then
        match text with
        | b :: _ => some (a.toNat % 32 * 64 + b.toNat % 64)
        | _ => none
      else if a.toNat < 0xF0 then
        match text with
        | b :: c :: _ => some (a.toNat % 16 * 4096 + b.toNat % 64 * 64 + c.toNat % 64)
        | _ => none
      else
        match text with
        | b :: c :: d :: _ =>
            some (a.toNat % 8 * 262144 + b.toNat % 64 * 4096 + c.toNat % 64 * 64 + d.toNat % 64)
        | _ => none

/-- The character whose UTF-8 form starts the text, and what follows it. -/
def firstChar? (text : Bytes) : Option (Char × Bytes) :=
  match leadingCode? text with
  | none => none
  | some code => (after? (String.utf8EncodeChar (Char.ofNat code)) text).map (Char.ofNat code, ·)

theorem leadingCode?_utf8EncodeChar_append (c : Char) (rest : Bytes) :
    leadingCode? (String.utf8EncodeChar c ++ rest) = some c.toNat := by
  have hc : c.toNat ≤ 0x10ffff := by
    have := c.valid
    simp only [UInt32.isValidChar, Nat.isValidChar] at this
    simp only [Char.toNat]
    omega
  have hval : c.val.toNat = c.toNat := rfl
  unfold String.utf8EncodeChar
  simp only [hval]
  split
  · simp only [List.cons_append, List.nil_append, leadingCode?, UInt8.toNat_ofNat']
    rw [if_pos (by omega)]
    congr 1
    omega
  · split
    · simp only [List.cons_append, List.nil_append, leadingCode?, UInt8.toNat_ofNat']
      rw [if_neg (by omega), if_pos (by omega)]
      congr 1
      omega
    · split
      · simp only [List.cons_append, List.nil_append, leadingCode?, UInt8.toNat_ofNat']
        rw [if_neg (by omega), if_neg (by omega), if_pos (by omega)]
        congr 1
        omega
      · simp only [List.cons_append, List.nil_append, leadingCode?, UInt8.toNat_ofNat']
        rw [if_neg (by omega), if_neg (by omega), if_neg (by omega)]
        congr 1
        omega

theorem firstChar?_eq_some_iff {text rest : Bytes} {c : Char} :
    firstChar? text = some (c, rest) ↔ text = String.utf8EncodeChar c ++ rest := by
  constructor
  · intro h
    unfold firstChar? at h
    split at h
    · simp at h
    · obtain ⟨found, hfound, heq⟩ := Option.map_eq_some_iff.1 h
      obtain ⟨rfl, rfl⟩ := Prod.mk.inj heq
      exact after?_eq_some_iff.1 hfound
  · rintro rfl
    simp [firstChar?, leadingCode?_utf8EncodeChar_append, Char.ofNat_toNat]

theorem length_lt_of_firstChar? {text rest : Bytes} {c : Char}
    (h : firstChar? text = some (c, rest)) : rest.length < text.length := by
  rw [firstChar?_eq_some_iff.1 h]
  have := c.utf8Size_pos
  simp
  omega

/-- The longest run of characters of the class at the start of the text, and what follows it. -/
def spanChars (p : Char → Bool) (text : Bytes) : Bytes × Bytes :=
  match _h : firstChar? text with
  | none => ([], text)
  | some (c, rest) =>
      if p c then
        let (run, rest) := spanChars p rest
        (String.utf8EncodeChar c ++ run, rest)
      else ([], text)
termination_by text.length
decreasing_by exact length_lt_of_firstChar? ‹_›

theorem spanChars_append (p : Char → Bool) (text : Bytes) :
    (spanChars p text).1 ++ (spanChars p text).2 = text := by
  induction text using spanChars.induct p with
  | case1 text h =>
      rw [spanChars]
      split <;> simp_all
  | case2 text c rest h hp run rest' hspan ih =>
      rw [spanChars]
      split
      · simp_all
      · rename_i c' rest' h'
        rw [h] at h'
        obtain ⟨rfl, rfl⟩ := Prod.mk.inj (Option.some.inj h')
        simp [hp, ih, firstChar?_eq_some_iff.1 h]
  | case3 text c rest h hp =>
      rw [spanChars]
      split <;> simp_all

end ReleaseDocs
