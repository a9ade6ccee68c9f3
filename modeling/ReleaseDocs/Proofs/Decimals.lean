import Mathlib.Data.List.Basic
import ReleaseDocs.Text.Digits

namespace ReleaseDocs.Decimal

/-- A run of ASCII digits that denotes a 64-bit word. -/
structure IsWord (cs : List Char) : Prop where
  ne_nil : cs ≠ []
  isDigit : ∀ c ∈ cs, c.isDigit = true
  lt_size : Nat.ofDigitChars 10 cs 0 < UInt64.size

theorem read?_eq_some_iff_isWord {cs : List Char} {n : UInt64} :
    read? cs = some n ↔ IsWord cs ∧ n.toNat = Nat.ofDigitChars 10 cs 0 := by
  rw [read?_eq_some_iff]
  constructor
  · rintro ⟨hne, hdigits, hvalue⟩
    exact ⟨⟨hne, hdigits, hvalue ▸ n.toNat_lt⟩, hvalue.symm⟩
  · rintro ⟨⟨hne, hdigits, -⟩, hvalue⟩
    exact ⟨hne, hdigits, hvalue.symm⟩

theorem IsWord.not_mem {cs : List Char} (h : IsWord cs) {c : Char} (hc : c.isDigit = false) :
    c ∉ cs := by
  intro hmem
  rw [h.isDigit c hmem] at hc
  cases hc

theorem IsWord.exists_toNat_eq {cs : List Char} (h : IsWord cs) :
    ∃ n : UInt64, n.toNat = Nat.ofDigitChars 10 cs 0 :=
  ⟨UInt64.ofNat (Nat.ofDigitChars 10 cs 0), UInt64.toNat_ofNat_of_lt' h.lt_size⟩

theorem isWord_digits (n : UInt64) : IsWord (digits n) :=
  (read?_eq_some_iff_isWord.mp (read?_digits n)).1

/-- A run of digits that denotes a word and starts with a zero only if it is that zero. -/
structure IsCanonical (cs : List Char) : Prop extends IsWord cs where
  eq_nil_of_zero : ∀ rest, cs = '0' :: rest → rest = []

theorem head?_toDigits_ne_zero {n : Nat} (h : 0 < n) :
    (Nat.toDigits 10 n).head? ≠ some '0' := by
  induction n using Nat.strongRecOn with
  | ind n ih =>
    by_cases hn : n < 10
    · rw [Nat.toDigits_of_lt_base hn]
      simp only [List.head?_cons, ne_eq, Option.some.injEq, Nat.digitChar_eq_zero]
      omega
    · rw [Nat.toDigits_of_base_le (by decide) (by omega),
        List.head?_append_of_ne_nil _ Nat.toDigits_ne_nil]
      exact ih (n / 10) (by omega) (by omega)

theorem isCanonical_digits (n : UInt64) : IsCanonical (digits n) := by
  refine ⟨isWord_digits n, fun rest hrest => ?_⟩
  rw [digits] at hrest
  by_cases hn : n.toNat = 0
  · rw [hn, Nat.toDigits_zero] at hrest
    exact (List.cons.inj hrest).2.symm
  · have hhead := head?_toDigits_ne_zero (Nat.pos_of_ne_zero hn)
    rw [hrest] at hhead
    exact absurd rfl hhead

theorem digitChar_of_isDigit {c : Char} (h : c.isDigit = true) :
    c.toNat - '0'.toNat < 10 ∧ (c.toNat - '0'.toNat).digitChar = c := by
  obtain ⟨hlow, hhigh⟩ : 48 ≤ c.toNat ∧ c.toNat ≤ 57 := Char.isDigit_iff_toNat.mp h
  have hzero : '0'.toNat = 48 := rfl
  have hlt : c.toNat - '0'.toNat < 10 := by omega
  refine ⟨hlt, Char.toNat_inj.mp ?_⟩
  rw [Nat.toNat_digitChar_of_lt_ten hlt]
  omega

theorem toDigits_append {n : Nat} (hn : 0 < n) {cs : List Char}
    (h : ∀ c ∈ cs, c.isDigit = true) :
    Nat.toDigits 10 n ++ cs = Nat.toDigits 10 (Nat.ofDigitChars 10 cs n) := by
  induction cs generalizing n with
  | nil => simp
  | cons c cs ih =>
    obtain ⟨hc, hcs⟩ := List.forall_mem_cons.mp h
    obtain ⟨hlt, hchar⟩ := digitChar_of_isDigit hc
    have hstep : Nat.toDigits 10 n ++ [c] =
        Nat.toDigits 10 (10 * n + (c.toNat - '0'.toNat)) := by
      rw [← Nat.toDigits_append_toDigits (by decide) hn hlt, Nat.toDigits_of_lt_base hlt, hchar]
    calc
      Nat.toDigits 10 n ++ c :: cs = (Nat.toDigits 10 n ++ [c]) ++ cs := by simp
      _ = Nat.toDigits 10 (10 * n + (c.toNat - '0'.toNat)) ++ cs := by rw [hstep]
      _ = Nat.toDigits 10 (Nat.ofDigitChars 10 (c :: cs) n) := by
        rw [ih (by omega) hcs, Nat.ofDigitChars_cons]

theorem IsCanonical.eq_toDigits {cs : List Char} (h : IsCanonical cs) :
    cs = Nat.toDigits 10 (Nat.ofDigitChars 10 cs 0) := by
  cases cs with
  | nil => exact absurd rfl h.ne_nil
  | cons c cs =>
    obtain ⟨hc, hcs⟩ := List.forall_mem_cons.mp h.isDigit
    obtain ⟨hlt, hchar⟩ := digitChar_of_isDigit hc
    by_cases hzero : c = '0'
    · subst hzero
      rw [h.eq_nil_of_zero cs rfl]
      rfl
    · have hpos : 0 < c.toNat - '0'.toNat := by
        refine Nat.pos_of_ne_zero fun heq => hzero ?_
        rw [← hchar, heq]
        rfl
      rw [Nat.ofDigitChars_cons, Nat.mul_zero, Nat.zero_add, ← toDigits_append hpos hcs,
        Nat.toDigits_of_lt_base hlt, hchar]
      rfl

/-- Canonical runs are those that are written, each for the word that it denotes. -/
theorem isCanonical_and_toNat_eq_iff {cs : List Char} {n : UInt64} :
    IsCanonical cs ∧ n.toNat = Nat.ofDigitChars 10 cs 0 ↔ cs = digits n := by
  constructor
  · rintro ⟨hcanonical, hvalue⟩
    rw [digits, hvalue]
    exact hcanonical.eq_toDigits
  · rintro rfl
    exact ⟨isCanonical_digits n, (ofDigitChars_digits n).symm⟩

theorem hasNeedlessZero_eq_false_iff {cs : List Char} :
    hasNeedlessZero cs = false ↔ ∀ rest, cs = '0' :: rest → rest = [] := by
  unfold hasNeedlessZero
  split
  · rename_i c rest
    simp only [reduceCtorEq, List.cons.injEq, true_and, false_iff]
    exact fun h => List.cons_ne_nil c rest (h (c :: rest) rfl)
  · rename_i hzero
    simp only [true_iff]
    rintro rest rfl
    cases rest with
    | nil => rfl
    | cons c rest => exact absurd rfl (hzero c rest)

theorem readCanonical?_eq_some_iff {cs : List Char} {n : UInt64} :
    readCanonical? cs = some n ↔ cs = digits n := by
  rw [← isCanonical_and_toNat_eq_iff, readCanonical?]
  cases hzero : hasNeedlessZero cs with
  | true =>
    simp only [if_true, reduceCtorEq, false_iff]
    rintro ⟨hcanonical, -⟩
    rw [hasNeedlessZero_eq_false_iff.mpr hcanonical.eq_nil_of_zero] at hzero
    cases hzero
  | false =>
    have hcanonical : IsCanonical cs ↔ IsWord cs :=
      ⟨fun h => h.toIsWord, fun h => ⟨h, hasNeedlessZero_eq_false_iff.mp hzero⟩⟩
    simpa [hcanonical] using read?_eq_some_iff_isWord

theorem readCanonical?_digits (n : UInt64) : readCanonical? (digits n) = some n :=
  readCanonical?_eq_some_iff.mpr rfl

theorem not_point_mem_digits (n : UInt64) : '.' ∉ digits n :=
  (isWord_digits n).not_mem (by decide)

end ReleaseDocs.Decimal
