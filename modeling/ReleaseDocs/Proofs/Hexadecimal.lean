import ReleaseDocs.Text.Digits

namespace ReleaseDocs

theorem hexValue?_digitChar {n : Nat} (h : n < 16) : hexValue? n.digitChar = some n := by
  have hall : ∀ n < 16, hexValue? n.digitChar = some n := by decide
  exact hall n h

theorem numberOf?_append {base : Nat} {digits more : List Char} {n : Nat}
    (h : numberOf? base digits = some n) :
    numberOf? base (digits ++ more) =
      more.foldlM (fun n c => (hexValue? c).map (base * n + ·)) n := by
  unfold numberOf? at h ⊢
  rw [List.foldlM_append, h]
  rfl

theorem numberOf?_toDigits (n : Nat) : numberOf? 16 (Nat.toDigits 16 n) = some n := by
  induction n using Nat.strongRecOn with
  | ind n ih =>
    by_cases hn : n < 16
    · rw [Nat.toDigits_of_lt_base hn]
      simp [numberOf?, hexValue?_digitChar hn]
    · have hdigit : hexValue? (n % 16).digitChar = some (n % 16) :=
        hexValue?_digitChar (Nat.mod_lt n (by decide))
      have hvalue : 16 * (n / 16) + n % 16 = n := Nat.div_add_mod n 16
      rw [Nat.toDigits_of_base_le (by decide) (by omega), numberOf?_append (ih (n / 16) (by omega))]
      simp [hdigit, hvalue]

theorem numberOf?_zeros_append (zeros : Nat) (digits : List Char) :
    numberOf? 16 (List.replicate zeros '0' ++ digits) = numberOf? 16 digits := by
  have hzeros : numberOf? 16 (List.replicate zeros '0') = some 0 := by
    induction zeros with
    | zero => rfl
    | succ zeros ih =>
      rw [List.replicate_succ', numberOf?_append ih]
      decide
  rw [numberOf?_append hzeros]
  rfl

theorem mem_hexDigits_of_mem_toDigits {n : Nat} {c : Char} (h : c ∈ Nat.toDigits 16 n) :
    c ∈ "0123456789abcdef".toList := by
  have hdigit : ∀ n < 16, n.digitChar ∈ "0123456789abcdef".toList := by decide
  induction n using Nat.strongRecOn with
  | ind n ih =>
    by_cases hn : n < 16
    · rw [Nat.toDigits_of_lt_base hn, List.mem_singleton] at h
      exact h ▸ hdigit n hn
    · rw [Nat.toDigits_of_base_le (by decide) (by omega), List.mem_append,
        List.mem_singleton] at h
      rcases h with h | rfl
      · exact ih (n / 16) (by omega) h
      · exact hdigit (n % 16) (Nat.mod_lt n (by decide))

/-- The text writes the number in small hexadecimal digits, with zeros in front up to the width. -/
structure IsHexadecimal (width n : Nat) (text : String) : Prop where
  digits : ∀ c ∈ text.toList, c ∈ "0123456789abcdef".toList
  value : numberOf? 16 text.toList = some n
  length : n < Nat.pow 16 width → text.toList.length = width

theorem isHexadecimal_padded {width : Nat} (h : 0 < width) (n : Nat) :
    IsHexadecimal width n (String.ofList
      (List.replicate (width - (Nat.toDigits 16 n).length) '0' ++ Nat.toDigits 16 n)) := by
  refine ⟨fun c hc => ?_, ?_, fun hn => ?_⟩
  · rw [String.toList_ofList, List.mem_append] at hc
    rcases hc with hc | hc
    · rw [List.eq_of_mem_replicate hc]
      decide
    · exact mem_hexDigits_of_mem_toDigits hc
  · rw [String.toList_ofList, numberOf?_zeros_append, numberOf?_toDigits]
  · have hfits : (Nat.toDigits 16 n).length ≤ width :=
      (Nat.length_toDigits_le_iff (by decide) h).mpr hn
    rw [String.toList_ofList, List.length_append, List.length_replicate]
    omega

theorem IsHexadecimal.eq_of_text {width n m : Nat} {text : String}
    (h : IsHexadecimal width n text) (h' : IsHexadecimal width m text) : n = m :=
  Option.some.inj (h.value.symm.trans h'.value)

end ReleaseDocs
