import ReleaseDocs.Text.CharClass
import ReleaseDocs.Text.Utf8

namespace ReleaseDocs.VersionToken

def unstable : Bytes := utf8Bytes "unstable"

/-- The longest run of decimal digits at the start of the text, which must not be empty. -/
def number? (text : Bytes) : Option (Bytes × Bytes) :=
  let (digits, rest) := spanChars isDecimalDigit text
  if digits.isEmpty then none else some (digits, rest)

def pointNumber? : Bytes → Option (Bytes × Bytes)
  | 0x2E :: text => (number? text).map fun (digits, rest) => (0x2E :: digits, rest)
  | _ => none

/-- A `v` and two numbers, and a third one wherever it fits. -/
def numbered? : Bytes → Option (Bytes × Bytes)
  | 0x76 :: text => do
      let (major, rest) ← number? text
      let (minor, rest) ← pointNumber? rest
      match pointNumber? rest with
      | some (patch, rest) => some (0x76 :: (major ++ minor ++ patch), rest)
      | none => some (0x76 :: (major ++ minor), rest)
  | _ => none

/-- The version token at the start of a text, as it is written, and what follows it. -/
def read? (text : Bytes) : Option (Bytes × Bytes) :=
  ((after? unstable text).map (unstable, ·)).or (numbered? text)

theorem append_of_number? {text digits rest : Bytes} (h : number? text = some (digits, rest)) :
    digits ++ rest = text := by
  have happend := spanChars_append isDecimalDigit text
  unfold number? at h
  split at h
  rename_i run after hspan
  split at h
  · simp at h
  · obtain ⟨rfl, rfl⟩ := Prod.mk.inj (Option.some.inj h)
    simpa [hspan] using happend

theorem append_of_pointNumber? {text written rest : Bytes}
    (h : pointNumber? text = some (written, rest)) : written ++ rest = text := by
  unfold pointNumber? at h
  split at h
  · obtain ⟨found, hfound, heq⟩ := Option.map_eq_some_iff.1 h
    obtain ⟨rfl, rfl⟩ := Prod.mk.inj heq
    simpa using append_of_number? hfound
  · simp at h

theorem append_of_numbered? {text written rest : Bytes}
    (h : numbered? text = some (written, rest)) : written ++ rest = text := by
  unfold numbered? at h
  split at h
  · simp only [Option.bind_eq_bind, Option.bind_eq_some_iff] at h
    obtain ⟨⟨major, text₁⟩, hmajor, ⟨minor, text₂⟩, hminor, h⟩ := h
    have hmajor := append_of_number? hmajor
    have hminor := append_of_pointNumber? hminor
    split at h
    · rename_i hpatch
      have hpatch := append_of_pointNumber? hpatch
      obtain ⟨rfl, rfl⟩ := Prod.mk.inj (Option.some.inj h)
      simp [hpatch, hminor, hmajor]
    · obtain ⟨rfl, rfl⟩ := Prod.mk.inj (Option.some.inj h)
      simp [hminor, hmajor]
  · simp at h

theorem append_of_read? {text token rest : Bytes} (h : read? text = some (token, rest)) :
    token ++ rest = text := by
  unfold read? at h
  rw [Option.or_eq_some_iff] at h
  rcases h with h | ⟨_, h⟩
  · obtain ⟨found, hfound, heq⟩ := Option.map_eq_some_iff.1 h
    obtain ⟨rfl, rfl⟩ := Prod.mk.inj heq
    exact (after?_eq_some_iff.1 hfound).symm
  · exact append_of_numbered? h

theorem ne_nil_of_numbered? {text token rest : Bytes}
    (h : numbered? text = some (token, rest)) : token ≠ [] := by
  unfold numbered? at h
  split at h
  · simp only [Option.bind_eq_bind, Option.bind_eq_some_iff] at h
    obtain ⟨_, _, _, _, h⟩ := h
    split at h <;>
    · obtain ⟨rfl, rfl⟩ := Prod.mk.inj (Option.some.inj h)
      simp
  · simp at h

theorem ne_nil_of_read? {text token rest : Bytes} (h : read? text = some (token, rest)) :
    token ≠ [] := by
  unfold read? at h
  rw [Option.or_eq_some_iff] at h
  rcases h with h | ⟨_, h⟩
  · obtain ⟨found, _, heq⟩ := Option.map_eq_some_iff.1 h
    obtain ⟨rfl, rfl⟩ := Prod.mk.inj heq
    decide
  · exact ne_nil_of_numbered? h

end ReleaseDocs.VersionToken
