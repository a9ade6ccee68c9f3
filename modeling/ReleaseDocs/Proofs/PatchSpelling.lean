import Mathlib.Data.Prod.Lex
import ReleaseDocs.Proofs.Decimals
import ReleaseDocs.Proofs.Versions

namespace ReleaseDocs

/-- A patch version with its numbers as they are written. -/
structure PatchSpelling where
  major : List Char
  minor : List Char
  patch : List Char
  major_isCanonical : Decimal.IsCanonical major
  minor_isCanonical : Decimal.IsCanonical minor
  patch_isCanonical : Decimal.IsCanonical patch

namespace PatchSpelling

variable {spelling : PatchSpelling} {p : PatchVersion}

def chars (spelling : PatchSpelling) : List Char :=
  'v' :: (spelling.major ++ '.' :: (spelling.minor ++ '.' :: spelling.patch))

structure Denotes (spelling : PatchSpelling) (p : PatchVersion) : Prop where
  major : p.major.toNat = Nat.ofDigitChars 10 spelling.major 0
  minor : p.minor.toNat = Nat.ofDigitChars 10 spelling.minor 0
  patch : p.patch.toNat = Nat.ofDigitChars 10 spelling.patch 0

def ofVersion (p : PatchVersion) : PatchSpelling where
  major := Decimal.digits p.major
  minor := Decimal.digits p.minor
  patch := Decimal.digits p.patch
  major_isCanonical := Decimal.isCanonical_digits p.major
  minor_isCanonical := Decimal.isCanonical_digits p.minor
  patch_isCanonical := Decimal.isCanonical_digits p.patch

theorem chars_ofVersion (p : PatchVersion) : (ofVersion p).chars = p.chars :=
  rfl

theorem exists_denotes (spelling : PatchSpelling) : ∃ p, spelling.Denotes p := by
  obtain ⟨major, hmajor⟩ := spelling.major_isCanonical.exists_toNat_eq
  obtain ⟨minor, hminor⟩ := spelling.minor_isCanonical.exists_toNat_eq
  obtain ⟨patch, hpatch⟩ := spelling.patch_isCanonical.exists_toNat_eq
  exact ⟨⟨major, minor, patch⟩, hmajor, hminor, hpatch⟩

theorem fields_point (spelling : PatchSpelling) :
    fields '.' (spelling.major ++ '.' :: (spelling.minor ++ '.' :: spelling.patch)) =
      [spelling.major, spelling.minor, spelling.patch] := by
  rw [fields_append_cons (spelling.major_isCanonical.not_mem (by decide)),
    fields_append_cons (spelling.minor_isCanonical.not_mem (by decide)),
    fields_of_not_mem (spelling.patch_isCanonical.not_mem (by decide))]

theorem chars_injective {spelling other : PatchSpelling} (h : spelling.chars = other.chars) :
    spelling = other := by
  have hfields := congrArg (fields '.') (List.cons.inj h).2
  rw [fields_point, fields_point] at hfields
  cases spelling
  cases other
  simpa using hfields

theorem denotes_iff : spelling.Denotes p ↔ spelling = ofVersion p := by
  constructor
  · rintro ⟨hmajor, hminor, hpatch⟩
    have hmajor' := Decimal.isCanonical_and_toNat_eq_iff.mp ⟨spelling.major_isCanonical, hmajor⟩
    have hminor' := Decimal.isCanonical_and_toNat_eq_iff.mp ⟨spelling.minor_isCanonical, hminor⟩
    have hpatch' := Decimal.isCanonical_and_toNat_eq_iff.mp ⟨spelling.patch_isCanonical, hpatch⟩
    cases spelling
    simp_all [ofVersion]
  · rintro rfl
    exact ⟨(Decimal.ofDigitChars_digits p.major).symm, (Decimal.ofDigitChars_digits p.minor).symm,
      (Decimal.ofDigitChars_digits p.patch).symm⟩

end PatchSpelling

theorem compare_toNat (m n : UInt64) : compare m.toNat n.toNat = compare m n := by
  simp only [compare, compareOfLessAndEq, UInt64.lt_iff_toNat_lt, UInt64.toNat_inj]

namespace PatchVersion

def numbers (p : PatchVersion) : ℕ ×ₗ ℕ ×ₗ ℕ :=
  toLex (p.major.toNat, toLex (p.minor.toNat, p.patch.toNat))

theorem order_eq_compare (p q : PatchVersion) : p.order q = compare p.numbers q.numbers := by
  simp only [order, ← compare_toNat]
  rfl

theorem numbers_injective {p q : PatchVersion} (h : p.numbers = q.numbers) : p = q := by
  obtain ⟨major, minor, patch⟩ := p
  obtain ⟨major', minor', patch'⟩ := q
  simpa [numbers, UInt64.toNat_inj] using h

theorem text_injective {p q : PatchVersion} (h : p.text = q.text) : p = q :=
  chars_injective (String.ofList_injective h)

/-- What reading a token gives, said by the ways to write a patch version. -/
structure ReadsToken (token : String) (answer : Option PatchVersion) : Prop where
  eq_some_iff : ∀ p, answer = some p ↔ token = p.text
  accepts_iff : (∃ p, answer = some p) ↔
    ∃ spelling : PatchSpelling, spelling.chars = token.toList
  keeps : ∀ p, answer = some p →
    ∀ spelling : PatchSpelling, spelling.chars = token.toList → spelling.Denotes p

theorem parse?_eq_some_iff_spelling {token : String} {p : PatchVersion} :
    parse? token = some p ↔
      ∃ spelling : PatchSpelling, spelling.chars = token.toList ∧ spelling.Denotes p := by
  rw [parse?, read?_eq_some_iff]
  constructor
  · intro h
    exact ⟨.ofVersion p, h.symm, PatchSpelling.denotes_iff.mpr rfl⟩
  · rintro ⟨spelling, hchars, hdenotes⟩
    rw [← hchars, PatchSpelling.denotes_iff.mp hdenotes, PatchSpelling.chars_ofVersion]

theorem readsToken_parse? (token : String) : ReadsToken token (parse? token) where
  eq_some_iff p := parse?_eq_some_iff
  accepts_iff := by
    constructor
    · rintro ⟨p, hp⟩
      obtain ⟨spelling, hchars, -⟩ := parse?_eq_some_iff_spelling.mp hp
      exact ⟨spelling, hchars⟩
    · rintro ⟨spelling, hchars⟩
      obtain ⟨p, hdenotes⟩ := spelling.exists_denotes
      exact ⟨p, parse?_eq_some_iff_spelling.mpr ⟨spelling, hchars, hdenotes⟩⟩
  keeps p hp spelling hchars := by
    obtain ⟨other, hother, hdenotes⟩ := parse?_eq_some_iff_spelling.mp hp
    obtain rfl := PatchSpelling.chars_injective (hother.trans hchars.symm)
    exact hdenotes

/-- A total order in which the first numbers that differ decide, and only versions that are written
alike are equal. -/
structure OrdersNumbers (order : PatchVersion → PatchVersion → Ordering) : Prop where
  isTotal : Std.TransCmp order
  lt_iff : ∀ p q, order p q = .lt ↔ p.major < q.major ∨
    p.major = q.major ∧ (p.minor < q.minor ∨ p.minor = q.minor ∧ p.patch < q.patch)
  eq_iff : ∀ p q, order p q = .eq ↔ p.text = q.text

theorem numbers_lt_iff {p q : PatchVersion} :
    p.numbers < q.numbers ↔ p.major < q.major ∨
      p.major = q.major ∧ (p.minor < q.minor ∨ p.minor = q.minor ∧ p.patch < q.patch) := by
  simp only [numbers, Prod.Lex.toLex_lt_toLex, UInt64.lt_iff_toNat_lt, UInt64.toNat_inj]

theorem ordersNumbers_order : OrdersNumbers order where
  isTotal :=
    { eq_swap := by
        intro p q
        rw [order_eq_compare, order_eq_compare]
        exact Std.OrientedCmp.eq_swap
      isLE_trans := by
        intro p q r hpq hqr
        rw [order_eq_compare] at hpq hqr ⊢
        exact Std.TransCmp.isLE_trans hpq hqr }
  lt_iff p q := by
    rw [order_eq_compare, compare_lt_iff_lt]
    exact numbers_lt_iff
  eq_iff p q := by
    rw [order_eq_compare, compare_eq_iff_eq]
    constructor
    · intro h
      rw [numbers_injective h]
    · intro h
      rw [text_injective h]

example : order ⟨1, 0, 2⟩ ⟨1, 0, 10⟩ = .lt := by decide

/-- Tokens and versions correspond one to one, and the order is that of the numbers. -/
theorem readsTokens_and_ordersNumbers :
    (∀ token, ReadsToken token (parse? token)) ∧ OrdersNumbers order :=
  ⟨readsToken_parse?, ordersNumbers_order⟩

end PatchVersion

end ReleaseDocs
