import Mathlib.Data.List.TakeWhile
import ReleaseDocs.Proofs.Decimals
import ReleaseDocs.Tag

namespace ReleaseDocs

theorem isVersionText_iff {count : Nat} {cs : List Char} : isVersionText count cs = true ↔
    ∃ text, cs = 'v' :: text ∧ (fields '.' text).length = count ∧
      ∀ number ∈ fields '.' text, number ≠ [] ∧ ∀ c ∈ number, isDecimalDigit c = true := by
  unfold isVersionText
  split
  · rename_i text
    simp
  · rename_i hv
    simp only [Bool.false_eq_true, false_iff]
    rintro ⟨text, rfl, -⟩
    exact hv text rfl

theorem PatchVersion.fields_chars (p : PatchVersion) :
    fields '.' (Decimal.digits p.major ++ '.' ::
      (Decimal.digits p.minor ++ '.' :: Decimal.digits p.patch)) =
      [Decimal.digits p.major, Decimal.digits p.minor, Decimal.digits p.patch] := by
  rw [fields_append_cons (Decimal.not_point_mem_digits _),
    fields_append_cons (Decimal.not_point_mem_digits _),
    fields_of_not_mem (Decimal.not_point_mem_digits _)]

namespace SemanticVersion

theorem identifiers?_eq_some_nil_iff {sign : Char} {valid : List Char → Bool} {cs : List Char} :
    identifiers? sign valid cs = some [] ↔ cs = [] := by
  cases cs with
  | nil => simp [identifiers?]
  | cons c cs => simp [identifiers?, fields_ne_nil]

theorem read?_eq_some_release_iff {cs : List Char} {p : PatchVersion} :
    read? cs = some ⟨p.major, p.minor, p.patch, [], []⟩ ↔ 'v' :: cs = p.chars := by
  constructor
  · intro h
    unfold read? at h
    dsimp only at h
    split at h
    · rename_i major minor patch hfields
      simp only [Option.bind_eq_bind, Option.bind_eq_some_iff,
        Decimal.readCanonical?_eq_some_iff, Option.some.injEq, mk.injEq] at h
      obtain ⟨_, rfl, _, rfl, _, rfl, _, hpre, _, hbuild, rfl, rfl, rfl, rfl, rfl⟩ := h
      rw [identifiers?_eq_some_nil_iff] at hpre hbuild
      have hrest : cs.dropWhile (fun c => c != '-' && c != '+') = [] := by
        rw [← List.takeWhile_append_dropWhile (p := (· != '+'))
          (l := cs.dropWhile fun c => c != '-' && c != '+'), hpre, hbuild]
        rfl
      have hcs : cs.takeWhile (fun c => c != '-' && c != '+') = cs := by
        conv_rhs => rw [← List.takeWhile_append_dropWhile (p := fun c => c != '-' && c != '+')
          (l := cs), hrest, List.append_nil]
      rw [← joinFields_fields '.' cs, ← hcs, hfields]
      rfl
    · cases h
  · intro h
    obtain rfl := (List.cons.inj h).2
    have hplain (c : Char)
        (hc : c ∈ Decimal.digits p.major ++ '.' ::
          (Decimal.digits p.minor ++ '.' :: Decimal.digits p.patch)) :
        (c != '-' && c != '+') = true := by
      have hdigit : c = '.' ∨ c.isDigit = true := by
        simp only [List.mem_append, List.mem_cons] at hc
        have hdigits (n : UInt64) := @Decimal.isDigit_of_mem_digits n c
        tauto
      rcases hdigit with rfl | hdigit
      · decide
      · rw [Bool.and_eq_true, bne_iff_ne, bne_iff_ne]
        constructor <;> rintro rfl <;> exact absurd hdigit (by decide)
    rw [read?, List.takeWhile_eq_self_iff.mpr hplain, List.dropWhile_eq_nil_iff.mpr hplain,
      p.fields_chars]
    simp [Decimal.readCanonical?_digits, identifiers?]

end SemanticVersion

namespace PatchVersion

theorem read?_eq_some_iff {cs : List Char} {p : PatchVersion} :
    read? cs = some p ↔ cs = p.chars := by
  constructor
  · intro h
    unfold read? at h
    split at h
    · rename_i cs
      simp only [Option.bind_eq_bind, Option.bind_eq_some_iff] at h
      obtain ⟨⟨major, minor, patch, preRelease, build⟩, hread, h⟩ := h
      split at h
      · rename_i hempty
        simp only [Bool.and_eq_true, List.isEmpty_iff] at hempty
        obtain ⟨rfl, rfl⟩ := hempty
        obtain rfl := Option.some.inj h
        exact SemanticVersion.read?_eq_some_release_iff.mp hread
      · cases h
    · cases h
  · rintro rfl
    have hread := SemanticVersion.read?_eq_some_release_iff.mpr (rfl : _ = p.chars)
    simp [chars, read?, hread]

theorem read?_chars (p : PatchVersion) : read? p.chars = some p :=
  read?_eq_some_iff.mpr rfl

theorem parse?_eq_some_iff {token : String} {p : PatchVersion} :
    parse? token = some p ↔ token = p.text := by
  rw [parse?, read?_eq_some_iff, text, ← String.toList_inj, String.toList_ofList]

@[simp] theorem parse?_text (p : PatchVersion) : parse? p.text = some p :=
  parse?_eq_some_iff.mpr rfl

theorem chars_injective {p q : PatchVersion} (h : p.chars = q.chars) : p = q := by
  have hread := read?_chars p
  rw [h, read?_chars q] at hread
  exact (Option.some.inj hread).symm

end PatchVersion

def MinorVersion.patchVersion (v : MinorVersion) (patch : UInt64) : PatchVersion :=
  ⟨v.major, v.minor, patch⟩

namespace MinorVersion

theorem contains_iff {v : MinorVersion} {p : PatchVersion} :
    v.contains p = true ↔ p = v.patchVersion p.patch := by
  obtain ⟨major, minor, patch⟩ := p
  simp [contains, patchVersion]

@[simp] theorem contains_patchVersion (v : MinorVersion) (patch : UInt64) :
    v.contains (v.patchVersion patch) = true := by
  simp [contains, patchVersion]

theorem chars_patchVersion (v : MinorVersion) (patch : UInt64) :
    (v.patchVersion patch).chars = v.chars ++ '.' :: Decimal.digits patch := by
  simp [patchVersion, chars, PatchVersion.chars]

theorem isNewer_patchVersion_iff {v : MinorVersion} {p q : UInt64} :
    (v.patchVersion p).isNewer (v.patchVersion q) = true ↔ q < p := by
  simp [PatchVersion.isNewer, PatchVersion.order, patchVersion, Std.compare_eq_gt]

theorem isNewer_iff_of_contains {v : MinorVersion} {p q : PatchVersion}
    (hp : v.contains p = true) (hq : v.contains q = true) :
    p.isNewer q = true ↔ q.patch < p.patch := by
  rw [contains_iff.mp hp, contains_iff.mp hq]
  exact isNewer_patchVersion_iff

end MinorVersion

theorem isDecimalDigit_of_isDigit {c : Char} (h : c.isDigit = true) :
    isDecimalDigit c = true := by
  obtain ⟨hlow, hhigh⟩ : 48 ≤ c.toNat ∧ c.toNat ≤ 57 := Char.isDigit_iff_toNat.mp h
  rw [isDecimalDigit, decimalDigitRanges, CodeRanges.contains, if_neg (by omega),
    if_pos (by omega)]

theorem PatchVersion.isVersionToken_chars (p : PatchVersion) :
    ReleaseTag.isVersionToken p.chars = true := by
  have hfields := p.fields_chars
  refine isVersionText_iff.mpr ⟨_, rfl, by rw [hfields]; rfl, fun number hnumber => ?_⟩
  have hdigits : ∃ n, number = Decimal.digits n := by
    rw [hfields] at hnumber
    simp only [List.mem_cons, List.not_mem_nil, or_false] at hnumber
    rcases hnumber with rfl | rfl | rfl <;> exact ⟨_, rfl⟩
  obtain ⟨n, rfl⟩ := hdigits
  exact ⟨Decimal.digits_ne_nil n,
    fun c hc => isDecimalDigit_of_isDigit (Decimal.isDigit_of_mem_digits hc)⟩

end ReleaseDocs
