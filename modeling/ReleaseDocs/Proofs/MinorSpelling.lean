import ReleaseDocs.Proofs.Decimals
import ReleaseDocs.Version

namespace ReleaseDocs

/-- A minor version with its numbers as they are written, needless zeros included. -/
structure MinorSpelling where
  major : List Char
  minor : List Char
  major_isWord : Decimal.IsWord major
  minor_isWord : Decimal.IsWord minor

namespace MinorSpelling

def chars (spelling : MinorSpelling) : List Char :=
  'v' :: (spelling.major ++ '.' :: spelling.minor)

structure Denotes (spelling : MinorSpelling) (v : MinorVersion) : Prop where
  major : v.major.toNat = Nat.ofDigitChars 10 spelling.major 0
  minor : v.minor.toNat = Nat.ofDigitChars 10 spelling.minor 0

def ofVersion (v : MinorVersion) : MinorSpelling where
  major := Decimal.digits v.major
  minor := Decimal.digits v.minor
  major_isWord := Decimal.isWord_digits v.major
  minor_isWord := Decimal.isWord_digits v.minor

theorem chars_ofVersion (v : MinorVersion) : (ofVersion v).chars = v.chars :=
  rfl

theorem denotes_ofVersion (v : MinorVersion) : (ofVersion v).Denotes v :=
  ⟨(Decimal.ofDigitChars_digits v.major).symm, (Decimal.ofDigitChars_digits v.minor).symm⟩

theorem exists_denotes (spelling : MinorSpelling) : ∃ v, spelling.Denotes v := by
  obtain ⟨major, hmajor⟩ := spelling.major_isWord.exists_toNat_eq
  obtain ⟨minor, hminor⟩ := spelling.minor_isWord.exists_toNat_eq
  exact ⟨⟨major, minor⟩, hmajor, hminor⟩

theorem fields_point (spelling : MinorSpelling) :
    fields '.' (spelling.major ++ '.' :: spelling.minor) = [spelling.major, spelling.minor] := by
  rw [fields_append_cons (spelling.major_isWord.not_mem (by decide)),
    fields_of_not_mem (spelling.minor_isWord.not_mem (by decide))]

theorem chars_injective {spelling other : MinorSpelling} (h : spelling.chars = other.chars) :
    spelling = other := by
  have hfields := congrArg (fields '.') (List.cons.inj h).2
  rw [fields_point, fields_point] at hfields
  cases spelling
  cases other
  simpa using hfields

theorem slash_not_mem_chars (spelling : MinorSpelling) : '/' ∉ spelling.chars := by
  have hmajor := spelling.major_isWord.not_mem (c := '/') (by decide)
  have hminor := spelling.minor_isWord.not_mem (c := '/') (by decide)
  simp [chars, hmajor, hminor]

end MinorSpelling

/-- A minor version as it may stand alone, where a plus sign may be in front of each number. -/
structure SignedMinorSpelling extends MinorSpelling where
  majorSigned : Bool
  minorSigned : Bool

namespace SignedMinorSpelling

def sign (signed : Bool) : List Char :=
  if signed then ['+'] else []

def signedChars (spelling : SignedMinorSpelling) : List Char :=
  'v' :: (sign spelling.majorSigned ++ spelling.major ++ '.' ::
    (sign spelling.minorSigned ++ spelling.minor))

def unsigned (spelling : MinorSpelling) : SignedMinorSpelling :=
  ⟨spelling, false, false⟩

theorem signedChars_unsigned (spelling : MinorSpelling) :
    (unsigned spelling).signedChars = spelling.chars :=
  rfl

theorem plus_mem_sign_iff {signed : Bool} : '+' ∈ sign signed ↔ signed = true := by
  cases signed <;> simp [sign]

theorem point_not_mem_sign (signed : Bool) : '.' ∉ sign signed := by
  cases signed <;> simp [sign]

theorem plus_mem_signedChars_iff {spelling : SignedMinorSpelling} :
    '+' ∈ spelling.signedChars ↔
      spelling.majorSigned = true ∨ spelling.minorSigned = true := by
  have hmajor : '+' ∉ spelling.major := spelling.major_isWord.not_mem (by decide)
  have hminor : '+' ∉ spelling.minor := spelling.minor_isWord.not_mem (by decide)
  simp [signedChars, plus_mem_sign_iff, hmajor, hminor]

theorem chars_eq_signedChars {spelling : SignedMinorSpelling}
    (h : '+' ∉ spelling.signedChars) : spelling.chars = spelling.signedChars := by
  rw [plus_mem_signedChars_iff, not_or, Bool.not_eq_true, Bool.not_eq_true] at h
  rw [signedChars, h.1, h.2]
  rfl

end SignedMinorSpelling

namespace MinorVersion

open SignedMinorSpelling

theorem number?_eq_some_iff {cs : List Char} {n : UInt64} :
    number? cs = some n ↔ ∃ signed digits, cs = sign signed ++ digits ∧ Decimal.IsWord digits ∧
      n.toNat = Nat.ofDigitChars 10 digits 0 := by
  constructor
  · intro h
    unfold number? at h
    split at h
    · rename_i digits
      exact ⟨true, digits, rfl, Decimal.read?_eq_some_iff_isWord.mp h⟩
    · exact ⟨false, cs, rfl, Decimal.read?_eq_some_iff_isWord.mp h⟩
  · rintro ⟨signed, digits, rfl, hdigits⟩
    have hread := Decimal.read?_eq_some_iff_isWord.mpr hdigits
    cases signed with
    | true => exact hread
    | false =>
      change number? digits = some n
      unfold number?
      split
      · exact absurd List.mem_cons_self (hdigits.1.not_mem (by decide))
      · exact hread

theorem read?_eq_some_iff {cs : List Char} {v : MinorVersion} :
    read? cs = some v ↔
      ∃ spelling : SignedMinorSpelling, spelling.signedChars = cs ∧ spelling.Denotes v := by
  constructor
  · intro h
    unfold read? at h
    split at h
    · rename_i cs
      split at h
      · rename_i back hback
        simp only [Option.bind_eq_bind, Option.bind_eq_some_iff, Option.some.injEq,
          number?_eq_some_iff] at h
        obtain ⟨a, ⟨majorSigned, major, hmajor, hmajorWord, ha⟩, b,
          ⟨minorSigned, minor, hminor, hminorWord, hb⟩, rfl⟩ := h
        refine ⟨⟨⟨major, minor, hmajorWord, hminorWord⟩, majorSigned, minorSigned⟩, ?_, ha, hb⟩
        rw [signedChars, ← hmajor, ← hminor, ← hback, List.takeWhile_append_dropWhile]
      · cases h
    · cases h
  · rintro ⟨spelling, rfl, hmajor, hminor⟩
    have hfront : ∀ c ∈ sign spelling.majorSigned ++ spelling.major, (c != '.') = true := by
      intro c hc
      rw [bne_iff_ne]
      rintro rfl
      rcases List.mem_append.mp hc with hc | hc
      · exact point_not_mem_sign _ hc
      · exact spelling.major_isWord.not_mem (by decide) hc
    have hreadMajor : number? (sign spelling.majorSigned ++ spelling.major) = some v.major :=
      number?_eq_some_iff.mpr ⟨_, _, rfl, spelling.major_isWord, hmajor⟩
    have hreadMinor : number? (sign spelling.minorSigned ++ spelling.minor) = some v.minor :=
      number?_eq_some_iff.mpr ⟨_, _, rfl, spelling.minor_isWord, hminor⟩
    simp only [signedChars, read?, List.dropWhile_append_of_pos hfront,
      List.takeWhile_append_of_pos hfront]
    simp [hreadMajor, hreadMinor]

theorem parse_eq_ok_iff {token : String} {v : MinorVersion} :
    parse token = .ok v ↔
      ∃ spelling : SignedMinorSpelling, spelling.signedChars = token.toList ∧
        spelling.Denotes v := by
  rw [← read?_eq_some_iff, parse]
  cases read? token.toList <;> simp

theorem exists_parse_eq_ok_iff {token : String} :
    (∃ v, parse token = .ok v) ↔
      ∃ spelling : SignedMinorSpelling, spelling.signedChars = token.toList := by
  constructor
  · rintro ⟨v, hv⟩
    obtain ⟨spelling, hchars, -⟩ := parse_eq_ok_iff.mp hv
    exact ⟨spelling, hchars⟩
  · rintro ⟨spelling, hchars⟩
    obtain ⟨v, hdenotes⟩ := spelling.exists_denotes
    exact ⟨v, parse_eq_ok_iff.mpr ⟨spelling, hchars, hdenotes⟩⟩

theorem denotes_of_parse {token : String} {v : MinorVersion} (h : parse token = .ok v)
    {spelling : SignedMinorSpelling} (hchars : spelling.signedChars = token.toList) :
    spelling.Denotes v := by
  obtain ⟨w, hdenotes⟩ := spelling.exists_denotes
  have hw : parse token = .ok w := parse_eq_ok_iff.mpr ⟨spelling, hchars, hdenotes⟩
  rw [h] at hw
  exact Except.ok.inj hw ▸ hdenotes

theorem parse_eq_error {token : String}
    (h : ∀ spelling : SignedMinorSpelling, spelling.signedChars ≠ token.toList) :
    parse token = .error (.invalidBranchFormat token) := by
  cases hread : read? token.toList with
  | some v =>
    obtain ⟨spelling, hchars, -⟩ := read?_eq_some_iff.mp hread
    exact absurd hchars (h spelling)
  | none => simp only [parse, hread]

theorem parse_eq_ok_and_plain_iff {token : String} :
    (∃ v, parse token = .ok v) ∧ '+' ∉ token.toList ↔
      ∃ spelling : MinorSpelling, spelling.chars = token.toList := by
  rw [exists_parse_eq_ok_iff]
  constructor
  · rintro ⟨⟨spelling, hchars⟩, hplus⟩
    rw [← hchars] at hplus
    exact ⟨spelling.toMinorSpelling, (chars_eq_signedChars hplus).trans hchars⟩
  · rintro ⟨spelling, hchars⟩
    refine ⟨⟨unsigned spelling, hchars⟩, ?_⟩
    rw [← hchars, ← signedChars_unsigned, plus_mem_signedChars_iff]
    simp [unsigned]

theorem parse_text (v : MinorVersion) : parse v.text = .ok v := by
  have hchars : (unsigned (MinorSpelling.ofVersion v)).signedChars = v.text.toList := by
    rw [text, String.toList_ofList, signedChars_unsigned, MinorSpelling.chars_ofVersion]
  exact parse_eq_ok_iff.mpr ⟨_, hchars, MinorSpelling.denotes_ofVersion v⟩

/-- What reading a token gives, said by the ways to write a minor version. -/
structure ReadsToken (token : String) (answer : Except DocsError MinorVersion) : Prop where
  accepts_iff : (∃ v, answer = .ok v) ↔
    ∃ spelling : SignedMinorSpelling, spelling.signedChars = token.toList
  keeps : ∀ v, answer = .ok v →
    ∀ spelling : SignedMinorSpelling, spelling.signedChars = token.toList → spelling.Denotes v
  rejects : (∀ spelling : SignedMinorSpelling, spelling.signedChars ≠ token.toList) →
    answer = .error (.invalidBranchFormat token)
  plain_iff : (∃ v, answer = .ok v) ∧ '+' ∉ token.toList ↔
    ∃ spelling : MinorSpelling, spelling.chars = token.toList

/-- Every token is read as the grammar says, and every version is read back as it is written. -/
theorem readsToken_parse (token : String) (v : MinorVersion) :
    ReadsToken token (parse token) ∧ parse v.text = .ok v := by
  refine ⟨?_, parse_text v⟩
  exact
    { accepts_iff := exists_parse_eq_ok_iff
      keeps := fun _ hv _ hchars => denotes_of_parse hv hchars
      rejects := parse_eq_error
      plain_iff := parse_eq_ok_and_plain_iff }

/-- A token with a plus sign is read, although no minor version is written so. -/
theorem parse_plus_sign :
    parse "v+1.2" = .ok ⟨1, 2⟩ ∧ ¬ ∃ spelling : MinorSpelling, spelling.chars = "v+1.2".toList := by
  have hparse : parse "v+1.2" = .ok ⟨1, 2⟩ := by decide +kernel
  refine ⟨hparse, fun hspelling => ?_⟩
  have hplain := (readsToken_parse "v+1.2" ⟨1, 2⟩).1.plain_iff.mpr hspelling
  exact hplain.2 (by decide)

end MinorVersion

end ReleaseDocs
