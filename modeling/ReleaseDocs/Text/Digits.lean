namespace ReleaseDocs

def hexValue? (c : Char) : Option Nat :=
  if c.isDigit then some (c.toNat - '0'.toNat)
  else if 'a' ≤ c ∧ c ≤ 'f' then some (c.toNat - 'a'.toNat + 10)
  else if 'A' ≤ c ∧ c ≤ 'F' then some (c.toNat - 'A'.toNat + 10)
  else none

/-- Whether the character is a digit of the base, which is at most sixteen. -/
def isDigitOf (base : Nat) (c : Char) : Bool :=
  (hexValue? c).any fun value => decide (value < base)

/-- The number that digits write in a base. -/
def numberOf? (base : Nat) (digits : List Char) : Option Nat :=
  digits.foldlM (fun n c => (hexValue? c).map (base * n + ·)) 0

namespace Decimal

def digits (n : UInt64) : List Char :=
  Nat.toDigits 10 n.toNat

/-- The word that a nonempty run of ASCII digits denotes, if it is below 2^64. -/
def read? (cs : List Char) : Option UInt64 :=
  if cs ≠ [] ∧ cs.all Char.isDigit ∧ Nat.ofDigitChars 10 cs 0 < UInt64.size then
    some (UInt64.ofNat (Nat.ofDigitChars 10 cs 0))
  else none

/-- More digits follow a zero. -/
def hasNeedlessZero : List Char → Bool
  | '0' :: _ :: _ => true
  | _ => false

def readCanonical? (cs : List Char) : Option UInt64 :=
  if hasNeedlessZero cs then none else read? cs

theorem digits_ne_nil (n : UInt64) : digits n ≠ [] :=
  Nat.toDigits_ne_nil

theorem isDigit_of_mem_digits {n : UInt64} {c : Char} (h : c ∈ digits n) : c.isDigit = true :=
  Nat.isDigit_of_mem_toDigits (by decide) (by decide) h

theorem ofDigitChars_digits (n : UInt64) : Nat.ofDigitChars 10 (digits n) 0 = n.toNat :=
  Nat.ofDigitChars_ten_toDigits

theorem digits_injective {m n : UInt64} (h : digits m = digits n) : m = n := by
  rw [← UInt64.toNat_inj, ← ofDigitChars_digits m, ← ofDigitChars_digits n, h]

theorem read?_eq_some_iff {cs : List Char} {n : UInt64} :
    read? cs = some n ↔
      cs ≠ [] ∧ (∀ c ∈ cs, c.isDigit = true) ∧ Nat.ofDigitChars 10 cs 0 = n.toNat := by
  unfold read?
  split
  · rename_i h
    simp only [Option.some.injEq, ← UInt64.toNat_inj, UInt64.toNat_ofNat_of_lt' h.2.2]
    simp only [List.all_eq_true] at h
    simp only [h.1, ne_eq, not_false_eq_true, true_and, iff_and_self]
    exact fun _ => h.2.1
  · rename_i h
    simp only [reduceCtorEq, false_iff]
    rintro ⟨hne, hdigits, hvalue⟩
    exact h ⟨hne, by simpa using hdigits, hvalue ▸ n.toNat_lt⟩

theorem read?_digits (n : UInt64) : read? (digits n) = some n :=
  read?_eq_some_iff.2 ⟨digits_ne_nil n, fun _ => isDigit_of_mem_digits, ofDigitChars_digits n⟩

end Decimal

end ReleaseDocs
